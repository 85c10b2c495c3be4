import DepNorm.Proofs.Graph.Keys

/-!
Forests: graphs of primary edges in which no edge enters a root, exactly one edge enters any other
token, and every token can be reached from a root. `WellFormed.forest_iff` says the same with keys;
there a token has its single edge because no two keys have one dependent.
-/

namespace DepNorm.Graph

/-- Some edge leads from the one token to the other. -/
def Governs (graph : Graph) (governor dependent : Nat) : Prop :=
  ∃ edge ∈ graph.edges, edge.governor = governor ∧ edge.dependent = dependent

instance (graph : Graph) (governor dependent : Nat) :
    Decidable (graph.Governs governor dependent) :=
  inferInstanceAs (Decidable (∃ edge ∈ graph.edges, _))

instance (graph : Graph) (holds : Nat → Prop) [DecidablePred holds] :
    Decidable (∀ index ∈ graph, holds index) :=
  decidable_of_iff (∀ index ∈ graph.indices, holds index) (by simp)

/-- The token hangs below another, by one edge or several. -/
abbrev Below (graph : Graph) (top index : Nat) : Prop := Relation.TransGen graph.Governs top index

/-- The token is a root or can be reached from one. -/
def Attached (graph : Graph) (index : Nat) : Prop :=
  ∃ root ∈ graph.roots, Relation.ReflTransGen graph.Governs root index

structure Forest (graph : Graph) : Prop extends WellFormed graph where
  primary : ∀ edge ∈ graph.edges, edge.extra = false
  root_free : ∀ root ∈ graph.roots, graph.incoming root = []
  single_head : ∀ index ∈ graph, index ∉ graph.roots → (graph.incoming index).length = 1
  attached : ∀ index ∈ graph, graph.Attached index

variable {graph next : Graph} {key : EdgeKey} {index : Nat}

/-! ### Being attached -/

theorem governs_iff {governor dependent : Nat} : graph.Governs governor dependent ↔
    ∃ key ∈ graph.keys, key.governor = governor ∧ key.dependent = dependent := by
  constructor
  · rintro ⟨edge, hedge, hends⟩
    exact ⟨edge.key, key_mem_keys hedge, hends⟩
  · rintro ⟨key, ⟨edge, hedge, rfl⟩, hends⟩
    exact ⟨edge, hedge, hends⟩

theorem governs_of_mem_keys (h : key ∈ graph.keys) : graph.Governs key.governor key.dependent :=
  governs_iff.mpr ⟨key, h, rfl, rfl⟩

theorem hasDependents_eq_false_iff :
    graph.hasDependents index = false ↔ ∀ dependent, ¬ graph.Governs index dependent := by
  simp only [hasDependents, List.any_eq_false, beq_iff_eq]
  constructor
  · rintro hnone dependent ⟨edge, hedge, hgovernor, -⟩
    exact hnone edge hedge hgovernor
  · intro hnone edge hedge hgovernor
    exact hnone edge.dependent ⟨edge, hedge, hgovernor, rfl⟩

theorem attached_of_root (h : index ∈ graph.roots) : graph.Attached index := ⟨index, h, .refl⟩

theorem attached_of_governs {governor : Nat} (hgoverns : graph.Governs governor index)
    (h : graph.Attached governor) : graph.Attached index := by
  obtain ⟨root, hroot, hpath⟩ := h
  exact ⟨root, hroot, hpath.tail hgoverns⟩

theorem attached_of_key (hkey : key ∈ graph.keys) (h : graph.Attached key.governor) :
    graph.Attached key.dependent := attached_of_governs (governs_of_mem_keys hkey) h

theorem Attached.root_or_key (h : graph.Attached index) : index ∈ graph.roots ∨
    ∃ key ∈ graph.keys, key.dependent = index ∧ graph.Attached key.governor := by
  obtain ⟨root, hroot, hpath⟩ := h
  cases hpath with
  | refl => exact .inl hroot
  | tail hpath hlast =>
      obtain ⟨key, hkey, rfl, hdependent⟩ := governs_iff.mp hlast
      exact .inr ⟨key, hkey, hdependent, root, hroot, hpath⟩

/-- What holds of the roots and passes along every edge holds of all that is attached. -/
theorem Attached.closed (h : graph.Attached index) (holds : Nat → Prop)
    (hroot : ∀ root ∈ graph.roots, holds root)
    (hkey : ∀ key ∈ graph.keys, holds key.governor → holds key.dependent) : holds index := by
  obtain ⟨root, hmem, hpath⟩ := h
  induction hpath with
  | refl => exact hroot root hmem
  | tail _ hlast ih =>
      obtain ⟨key, hmem, rfl, rfl⟩ := governs_iff.mp hlast
      exact hkey key hmem ih

/-! ### Forests by their keys -/

theorem mem_incoming {edge : Edge} :
    edge ∈ graph.incoming index ↔ edge ∈ graph.edges ∧ edge.dependent = index := by
  simp [incoming]

theorem incoming_ne_nil_iff :
    graph.incoming index ≠ [] ↔ ∃ key ∈ graph.keys, key.dependent = index := by
  constructor
  · intro hne
    obtain ⟨edge, hedge⟩ := List.exists_mem_of_ne_nil _ hne
    obtain ⟨hmem, rfl⟩ := mem_incoming.mp hedge
    exact ⟨edge.key, key_mem_keys hmem, rfl⟩
  · rintro ⟨_, ⟨edge, hedge, rfl⟩, rfl⟩
    exact List.ne_nil_of_mem (mem_incoming.mpr ⟨hedge, rfl⟩)

/-- A well-formed graph is a forest if its keys are primary, none of them leads to a root, no two of
them have one dependent, and every token is attached. -/
theorem WellFormed.forest_iff (h : graph.WellFormed) : graph.Forest ↔
    (∀ key ∈ graph.keys, key.extra = false) ∧ (∀ key ∈ graph.keys, key.dependent ∉ graph.roots) ∧
      Set.InjOn EdgeKey.dependent graph.keys ∧ ∀ index ∈ graph, graph.Attached index := by
  constructor
  · intro hforest
    have hfree : ∀ key ∈ graph.keys, key.dependent ∉ graph.roots := by
      rintro _ ⟨edge, hedge, rfl⟩ hroot
      have hincoming : edge ∈ graph.incoming edge.dependent := mem_incoming.mpr ⟨hedge, rfl⟩
      rw [hforest.root_free edge.dependent hroot] at hincoming
      cases hincoming
    refine ⟨?_, hfree, ?_, hforest.attached⟩
    · rintro _ ⟨edge, hedge, rfl⟩
      exact hforest.primary edge hedge
    · rintro _ ⟨edge, hedge, rfl⟩ _ ⟨other, hother, rfl⟩ heq
      have hsingle := hforest.single_head edge.dependent (h.dependent_mem edge hedge)
        (hfree _ (key_mem_keys hedge))
      obtain ⟨only, honly⟩ := List.length_eq_one_iff.mp hsingle
      have hedge' : edge ∈ graph.incoming edge.dependent := mem_incoming.mpr ⟨hedge, rfl⟩
      have hother' : other ∈ graph.incoming edge.dependent := mem_incoming.mpr ⟨hother, heq.symm⟩
      rw [honly, List.mem_singleton] at hedge' hother'
      rw [hedge', hother']
  · rintro ⟨hprimary, hfree, hinj, hattached⟩
    refine ⟨h, fun edge hedge => hprimary _ (key_mem_keys hedge), ?_, ?_, hattached⟩
    · intro root hroot
      rw [List.eq_nil_iff_forall_not_mem]
      intro edge hedge
      obtain ⟨hmem, rfl⟩ := mem_incoming.mp hedge
      exact hfree _ (key_mem_keys hmem) hroot
    · intro index hindex hnot
      obtain hroot | ⟨_, ⟨edge, hedge, rfl⟩, rfl, -⟩ := (hattached index hindex).root_or_key
      · exact absurd hroot hnot
      · -- A second edge in would have the same dependent, hence the same key.
        have hdistinct : (graph.incoming edge.dependent).Pairwise (·.key ≠ ·.key) :=
          h.keys_distinct.filter _
        have hmem (other : Edge) (hother : other ∈ graph.incoming edge.dependent) :
            other.key ∈ graph.keys ∧ other.dependent = edge.dependent :=
          (mem_incoming.mp hother).imp_left key_mem_keys
        match hincoming : graph.incoming edge.dependent with
        | [] => simpa [hincoming] using mem_incoming.mpr ⟨hedge, rfl⟩
        | [only] => rfl
        | first :: second :: rest =>
            rw [hincoming] at hdistinct hmem
            obtain ⟨hfirst, hfirst'⟩ := hmem first (by simp)
            obtain ⟨hsecond, hsecond'⟩ := hmem second (by simp)
            have hne := List.rel_of_pairwise_cons hdistinct List.mem_cons_self
            exact absurd (hinj hfirst hsecond (hfirst'.trans hsecond'.symm)) hne

namespace Forest

theorem key_primary (h : graph.Forest) : ∀ key ∈ graph.keys, key.extra = false :=
  (h.toWellFormed.forest_iff.mp h).1

theorem dependent_not_root (h : graph.Forest) (hkey : key ∈ graph.keys) :
    key.dependent ∉ graph.roots :=
  (h.toWellFormed.forest_iff.mp h).2.1 key hkey

theorem key_eq (h : graph.Forest) {other : EdgeKey} (hkey : key ∈ graph.keys)
    (hother : other ∈ graph.keys) (heq : key.dependent = other.dependent) : key = other :=
  (h.toWellFormed.forest_iff.mp h).2.2.1 hkey hother heq

theorem key_eq_iff (h : graph.Forest) {other : EdgeKey} (hkey : key ∈ graph.keys)
    (hother : other ∈ graph.keys) : key = other ↔ key.dependent = other.dependent :=
  ⟨congrArg EdgeKey.dependent, h.key_eq hkey hother⟩

theorem mem_sdiff_iff (h : graph.Forest) {other : EdgeKey} (hother : other ∈ graph.keys) :
    key ∈ graph.keys \ {other} ↔ key ∈ graph.keys ∧ key.dependent ≠ other.dependent := by
  rw [Set.mem_sdiff, Set.mem_singleton_iff]
  exact and_congr_right fun hkey => not_congr (h.key_eq_iff hkey hother)

theorem exists_key (h : graph.Forest) (hindex : index ∈ graph) (hroot : index ∉ graph.roots) :
    ∃ key ∈ graph.keys, key.dependent = index := by
  obtain hmem | ⟨key, hkey, hdependent, -⟩ := (h.attached index hindex).root_or_key
  · exact absurd hmem hroot
  · exact ⟨key, hkey, hdependent⟩

theorem governs_iff (h : graph.Forest) (hkey : key ∈ graph.keys) {governor : Nat} :
    graph.Governs governor key.dependent ↔ governor = key.governor := by
  constructor
  · intro hgoverns
    obtain ⟨other, hother, rfl, hdependent⟩ := Graph.governs_iff.mp hgoverns
    rw [h.key_eq hother hkey hdependent]
  · rintro rfl
    exact governs_of_mem_keys hkey

theorem below_iff (h : graph.Forest) (hkey : key ∈ graph.keys) {top : Nat} :
    graph.Below top key.dependent ↔ top = key.governor ∨ graph.Below top key.governor := by
  rw [Below, Relation.TransGen.tail'_iff]
  constructor
  · rintro ⟨mid, hpath, hlast⟩
    rw [h.governs_iff hkey] at hlast
    rw [← hlast]
    exact (Relation.reflTransGen_iff_eq_or_transGen.mp hpath).imp_left Eq.symm
  · intro htop
    exact ⟨key.governor, Relation.reflTransGen_iff_eq_or_transGen.mpr (htop.imp_left Eq.symm),
      governs_of_mem_keys hkey⟩

theorem not_below_root (h : graph.Forest) {root top : Nat} (hroot : root ∈ graph.roots) :
    ¬ graph.Below top root := by
  intro hbelow
  obtain ⟨mid, -, hlast⟩ := Relation.TransGen.tail'_iff.mp hbelow
  obtain ⟨key, hkey, -, rfl⟩ := Graph.governs_iff.mp hlast
  exact h.dependent_not_root hkey hroot

end Forest

end DepNorm.Graph
