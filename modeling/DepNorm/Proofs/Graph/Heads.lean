import DepNorm.Proofs.Graph.Keys

/-!
Heads of tokens. The governor of a primary edge is a head of the token that the edge enters; a root
has none. Secondary edges do not count as heads, and are counted apart.
-/

namespace DepNorm

namespace Graph

/-- At most one primary edge enters the token, and none does if the token is a root. -/
structure OneHead (graph : Graph) (index : Nat) : Prop where
  unique : ∀ key ∈ graph.keys, ∀ other ∈ graph.keys, key.extra = false → other.extra = false →
    key.dependent = index → other.dependent = index → key = other
  headless : index ∈ graph.roots → ∀ key ∈ graph.keys, key.dependent = index → key.extra = true

variable {graph next : Graph} {index : Nat} {key : EdgeKey}

theorem OneHead.not_root (h : graph.OneHead index) (hkey : key ∈ graph.keys)
    (hextra : key.extra = false) (hdependent : key.dependent = index) : index ∉ graph.roots := by
  intro hroot
  cases hextra.symm.trans (h.headless hroot key hkey hdependent)

theorem OneHead.of_subset (h : graph.OneHead index)
    (hkeys : ∀ key ∈ next.keys, key.extra = false → key.dependent = index → key ∈ graph.keys)
    (hroot : index ∈ next.roots → index ∈ graph.roots) : next.OneHead index := by
  constructor
  · intro key hkey other hother hextra hextra' hdependent hdependent'
    exact h.unique key (hkeys key hkey hextra hdependent) other
      (hkeys other hother hextra' hdependent') hextra hextra' hdependent hdependent'
  · intro hindex key hkey hdependent
    by_contra hextra
    rw [Bool.not_eq_true] at hextra
    cases hextra.symm.trans
      (h.headless (hroot hindex) key (hkeys key hkey hextra hdependent) hdependent)

theorem OneHead.of_single (hroot : index ∉ graph.roots) (single : EdgeKey)
    (hkeys : ∀ key ∈ graph.keys, key.extra = false → key.dependent = index → key = single) :
    graph.OneHead index := by
  constructor
  · intro key hkey other hother hextra hextra' hdependent hdependent'
    rw [hkeys key hkey hextra hdependent, hkeys other hother hextra' hdependent']
  · exact fun hindex => absurd hindex hroot

/-- Where the head of a token is taken out, the token may get another one. -/
theorem OneHead.of_replaced (h : graph.OneHead index) (new : EdgeKey) {old : EdgeKey}
    (hold : old ∈ graph.keys) (hextra : old.extra = false) (hinto : old.dependent = index)
    (hkeys : ∀ key ∈ next.keys, key.extra = false → key.dependent = index →
      key = new ∨ key ∈ graph.keys ∧ key ≠ old)
    (hroot : index ∈ next.roots → index ∈ graph.roots) : next.OneHead index := by
  refine .of_single (fun hindex => h.not_root hold hextra hinto (hroot hindex)) new
    fun key hkey hprimary hdependent => ?_
  rcases hkeys key hkey hprimary hdependent with heq | ⟨hmem, hne⟩
  · exact heq
  · exact absurd (h.unique key hmem old hold hprimary hextra hdependent hinto) hne

theorem OneHead.of_none (h : ∀ key ∈ graph.keys, key.dependent = index → key.extra = true) :
    graph.OneHead index := by
  constructor
  · intro key hkey _ _ hextra _ hdependent _
    cases hextra.symm.trans (h key hkey hdependent)
  · exact fun _ => h

def secondaryKeys (graph : Graph) (index : Nat) : Set EdgeKey :=
  {key ∈ graph.keys | key.dependent = index ∧ key.extra = true}

theorem finite_keys (graph : Graph) : graph.keys.Finite := by
  have hkeys : graph.keys = Edge.key '' {edge | edge ∈ graph.edges} := rfl
  rw [hkeys]
  exact (List.finite_toSet graph.edges).image Edge.key

theorem finite_secondaryKeys (graph : Graph) (index : Nat) : (graph.secondaryKeys index).Finite :=
  graph.finite_keys.subset fun _ hkey => hkey.1

theorem WellFormed.ncard_secondaryKeys (h : graph.WellFormed) (index : Nat) :
    (graph.secondaryKeys index).ncard = (graph.incoming index).countP (·.extra) := by
  have hnodup : (((graph.incoming index).filter (·.extra)).map Edge.key).Nodup :=
    List.pairwise_map.mpr ((h.keys_distinct.filter _).filter _)
  rw [ncard_eq_length hnodup fun key => ?_, List.length_map, List.countP_eq_length_filter]
  simp only [secondaryKeys, mem_keys, incoming, List.mem_map, List.mem_filter, beq_iff_eq,
    Set.mem_ofPred_eq]
  constructor
  · rintro ⟨edge, ⟨⟨hedge, hdependent⟩, hextra⟩, rfl⟩
    exact ⟨⟨edge, hedge, rfl⟩, hdependent, hextra⟩
  · rintro ⟨⟨edge, hedge, rfl⟩, hdependent, hextra⟩
    exact ⟨edge, ⟨⟨hedge, hdependent⟩, hextra⟩, rfl⟩

end Graph

end DepNorm
