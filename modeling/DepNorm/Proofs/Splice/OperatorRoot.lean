import DepNorm.Proofs.Graph.Forest
import DepNorm.Proofs.Graph.Reachable
import DepNorm.Proofs.Splice.Move

/-!
The rule for operators at the root as a sequence of moves, and the operators that it leaves at the
root. It never stops: the edge that it takes out has just been read, and the heir is a token of the
graph. A root that is still to be visited stays a root until then, since a move takes no root away
but the one that it is about. An heir is visited only if it was a root at the start, so an operator
that has dependents can be left as a root, and it is then the heir of another operator.
-/

namespace DepNorm.Splice

open DepNorm.Graph EditM

variable {graph next : Graph}

theorem heirEdge?_spec {root : Nat} {edge : Edge} (h : heirEdge? graph root = some edge) :
    edge ∈ graph.edges ∧ edge.governor = root := by
  have hmem : edge ∈ graph.outgoing root := by
    rw [heirEdge?, Option.orElse_eq_orElse, Option.orElse_eq_or, Option.or_eq_some_iff] at h
    rcases h with hfind | ⟨-, hhead⟩
    · exact List.mem_of_find?_eq_some hfind
    · exact List.mem_of_mem_head? hhead
  exact mem_outgoing.mp hmem

theorem not_governs_of_heirEdge?_eq_none {root : Nat} (h : heirEdge? graph root = none)
    (dependent : Nat) : ¬ graph.Governs root dependent := by
  rintro ⟨edge, hedge, rfl, -⟩
  rw [heirEdge?, Option.orElse_eq_orElse, Option.orElse_eq_or, Option.or_eq_none_iff,
    List.head?_eq_none_iff] at h
  have hmem : edge ∈ graph.outgoing edge.governor := mem_outgoing.mpr ⟨hedge, rfl⟩
  rw [h.2] at hmem
  cases hmem

/-! ### One root -/

def OperatorAt (graph : Graph) (index : Nat) : Prop :=
  (graph.token? index).any Token.isOperator = true

instance (graph : Graph) (index : Nat) : Decidable (OperatorAt graph index) :=
  inferInstanceAs (Decidable (_ = true))

/-- What the visit of a root does. The answer says whether the root gives its place away. -/
inductive Visit (graph : Graph) (root : Nat) : Bool → Graph → Prop
  | keep (hkeep : OperatorAt graph root → ∀ dependent, ¬ graph.Governs root dependent) :
      Visit graph root false graph
  | turn {key : EdgeKey} {next : Graph} (hgovernor : key.governor = root)
      (hoperator : OperatorAt graph root) (hkey : key ∈ graph.keys)
      (hnext : ((graph.eraseRoot key.governor).markRoot key.dependent).Rekeyed
        (turnedKeys graph.keys key) next) :
      Visit graph root true next

theorem ends_replaceRoot (h : graph.WellFormed) (root : Nat) :
    Ends (replaceRoot root) graph (Visit graph root) fun _ _ => False := by
  unfold replaceRoot
  refine .get_bind ?_
  split
  · next hoperator =>
    cases hheir : heirEdge? graph root with
    | none => exact .pure (.keep fun _ => not_governs_of_heirEdge?_eq_none hheir)
    | some edge =>
        obtain ⟨hedge, rfl⟩ := heirEdge?_spec hheir
        refine .bind (.discard (ends_takeEdge h (fun _ mid _ _ hmid => ?_)
          fun hmissing => hmissing (key_mem_keys hedge)))
        have hheirmem : edge.dependent ∈ mid := hmid.mem_iff.mpr (h.dependent_mem edge hedge)
        have hrootmem : edge.governor ∈ mid := hmid.mem_iff.mpr (h.governor_mem edge hedge)
        refine .bind (ends_moveRoot hheirmem ?_)
        have hwf : ((mid.eraseRoot edge.governor).markRoot edge.dependent).WellFormed :=
          (hmid.wellFormed.eraseRoot _).markRoot hheirmem
        refine .bind (ends_putEdge hwf hheirmem hrootmem fun next hnext => .pure ?_)
        refine .turn rfl hoperator (key_mem_keys hedge)
          ⟨hnext.wellFormed, hnext.tokens.trans hmid.tokens, ?_, ?_⟩
        · rw [hnext.roots]
          simp only [markRoot, eraseRoot, hmid.roots]
          rfl
        · rw [hnext.keys, keys_markRoot, keys_eraseRoot, hmid.keys]
          rfl
  · next hoperator => exact .pure (.keep fun hop => absurd hop hoperator)

namespace Visit

variable {root : Nat} {turned : Bool}

theorem moves (h : Visit graph root turned next) (hroot : root ∈ graph.roots) :
    Moves .operatorRoot graph next := by
  cases h with
  | keep => exact .refl
  | turn hgovernor _ hkey hnext => exact .single (.turn (hgovernor ▸ hroot) hkey hnext)

theorem mem_roots_of_turn {key : EdgeKey} {keys : Set EdgeKey}
    (hnext : ((graph.eraseRoot key.governor).markRoot key.dependent).Rekeyed keys next)
    {other : Nat} :
    other ∈ next.roots ↔ other = key.dependent ∨ other ∈ graph.roots ∧ other ≠ key.governor := by
  rw [hnext.roots, mem_roots_markRoot, eraseRoot, List.mem_filter, bne_iff_ne]

theorem mem_roots (h : Visit graph root turned next) {other : Nat} (hother : other ∈ graph.roots)
    (hne : other ≠ root) : other ∈ next.roots := by
  cases h with
  | keep => exact hother
  | turn hgovernor _ _ hnext => exact (mem_roots_of_turn hnext).mpr (.inr ⟨hother, hgovernor ▸ hne⟩)

theorem tokens_eq (h : Visit graph root turned next) : next.tokens = graph.tokens := by
  cases h with
  | keep => rfl
  | turn _ _ _ hnext => exact hnext.tokens

end Visit

/-! ### All roots -/

/-- The roots in `rest` are still to be visited. They are roots that the graph had at the start, no
root is twice among them, and all of them are roots still. -/
structure ToVisit (graph : Graph) (rest : List Nat) (changed : Graph) : Prop where
  moves : Moves .operatorRoot graph changed
  tokens : changed.tokens = graph.tokens
  distinct : rest.Nodup
  first : ∀ root ∈ rest, root ∈ graph.roots
  still : ∀ root ∈ rest, root ∈ changed.roots

namespace ToVisit

theorem start (h : graph.WellFormed) : ToVisit graph graph.roots graph :=
  ⟨.refl, rfl, h.roots_ascending.imp Nat.ne_of_lt, fun _ => id, fun _ => id⟩

variable {root : Nat} {rest : List Nat} {changed : Graph} {turned : Bool}

theorem visit (h : ToVisit graph (root :: rest) changed) (hvisit : Visit changed root turned next) :
    ToVisit graph rest next := by
  obtain ⟨hnew, hdistinct⟩ := List.nodup_cons.mp h.distinct
  obtain ⟨hroot, hstill⟩ := List.forall_mem_cons.mp h.still
  refine ⟨h.moves.trans (hvisit.moves hroot), hvisit.tokens_eq.trans h.tokens, hdistinct,
    (List.forall_mem_cons.mp h.first).2, fun other hother => ?_⟩
  exact hvisit.mem_roots (hstill other hother) fun heq => hnew (heq ▸ hother)

theorem operatorAt_iff (h : ToVisit graph rest changed) {index : Nat} :
    OperatorAt changed index ↔ OperatorAt graph index := by
  rw [OperatorAt, OperatorAt, token?, token?, h.tokens]

end ToVisit

/-- What visits keep of the roots that are still to be visited holds when all are visited. -/
theorem ends_operatorRoot_of_visits (h : graph.WellFormed) (inv : List Nat → Graph → Prop)
    (hstart : inv graph.roots graph)
    (hvisit : ∀ {root : Nat} {rest : List Nat} {changed next : Graph} {turned : Bool},
      ToVisit graph (root :: rest) changed → Visit changed root turned next →
        inv (root :: rest) changed → inv rest next) :
    Ends operatorRoot graph (fun _ next => ToVisit graph [] next ∧ inv [] next)
      fun _ _ => False := by
  unfold operatorRoot
  refine .get_bind (.bind ((Ends.mapM (fun rest _ changed => ToVisit graph rest changed ∧
    inv rest changed) ?_ ⟨.start h, hstart⟩).imp (fun _ _ hnext => .pure hnext) fun _ _ => id))
  rintro root rest _ changed ⟨hto, hinv⟩
  refine (ends_replaceRoot (hto.moves.wellFormed h) root).imp (fun turned next hnext => ?_)
    fun _ _ => id
  exact ⟨hto.visit hnext, hvisit hto hnext hinv⟩

theorem ends_operatorRoot (h : graph.WellFormed) :
    Ends operatorRoot graph (fun _ next => Moves .operatorRoot graph next) fun _ _ => False :=
  (ends_operatorRoot_of_visits h (fun _ _ => True) trivial fun _ _ _ => trivial).imp
    (fun _ _ hnext => hnext.1.moves) fun _ _ => id

/-! ### The operators that are left at the root -/

/-- The index has taken the place of an operator that was a root at the start. -/
def Heir (graph changed : Graph) (index : Nat) : Prop :=
  ∃ old ∈ graph.roots, OperatorAt graph old ∧
    { governor := index, dependent := old, relation := "op" } ∈ changed.keys

/-- Operators at the root that govern something are still to be visited, or are heirs. -/
def HeirsOnly (graph : Graph) (rest : List Nat) (changed : Graph) : Prop :=
  ∀ root ∈ changed.roots, OperatorAt graph root → (∃ dependent, changed.Governs root dependent) →
    root ∈ rest ∨ Heir graph changed root

theorem HeirsOnly.visit {root : Nat} {rest : List Nat} {changed : Graph} {turned : Bool}
    (hto : ToVisit graph (root :: rest) changed) (hvisit : Visit changed root turned next)
    (h : HeirsOnly graph (root :: rest) changed) : HeirsOnly graph rest next := by
  intro other hother hoperator hgoverns
  cases hvisit with
  | keep hkeep =>
      refine (h other hother hoperator hgoverns).imp_left fun hmem => ?_
      refine (List.mem_cons.mp hmem).resolve_left ?_
      rintro rfl
      obtain ⟨dependent, hdependent⟩ := hgoverns
      exact hkeep (hto.operatorAt_iff.mpr hoperator) dependent hdependent
  | @turn key _ hgovernor hturned hkey hnext =>
      subst hgovernor
      by_cases hheir : other = key.dependent
      · refine .inr ⟨key.governor, hto.first _ List.mem_cons_self,
          hto.operatorAt_iff.mp hturned, ?_⟩
        rw [hnext.keys, hheir]
        exact .inl rfl
      · obtain ⟨hother, hne⟩ := ((Visit.mem_roots_of_turn hnext).mp hother).resolve_left hheir
        -- The new edge leaves the heir, so what this root governs it has governed before.
        have hbefore : ∃ dependent, changed.Governs other dependent := by
          obtain ⟨dependent, hgoverns⟩ := hgoverns
          obtain ⟨edge, hedge, rfl, -⟩ := governs_iff.mp hgoverns
          rw [hnext.keys] at hedge
          rcases hedge with rfl | ⟨hedge, -⟩
          · exact absurd rfl hheir
          · exact ⟨_, governs_of_mem_keys hedge⟩
        rcases h other hother hoperator hbefore with hmem | ⟨old, hold, hop, hedge⟩
        · exact .inl ((List.mem_cons.mp hmem).resolve_left hne)
        · -- The edge that is turned round leaves the root, so it is not this one.
          refine .inr ⟨old, hold, hop, ?_⟩
          rw [hnext.keys]
          exact .inr ⟨hedge, fun heq => hne (congrArg EdgeKey.governor heq)⟩

/-- No operator at the root governs an operator. -/
def PlainBelowRoots (graph : Graph) : Prop :=
  ∀ root ∈ graph.roots, OperatorAt graph root →
    ∀ dependent, graph.Governs root dependent → ¬ OperatorAt graph dependent

/-- Operators that are roots were roots at the start, and those that were govern no operator. -/
structure PlainHeirs (graph changed : Graph) : Prop where
  roots : ∀ root ∈ changed.roots, OperatorAt graph root → root ∈ graph.roots
  below : ∀ root ∈ graph.roots, OperatorAt graph root →
    ∀ dependent, changed.Governs root dependent → ¬ OperatorAt graph dependent

theorem PlainHeirs.visit {root : Nat} {rest : List Nat} {changed : Graph} {turned : Bool}
    (hto : ToVisit graph (root :: rest) changed) (hvisit : Visit changed root turned next)
    (h : PlainHeirs graph changed) : PlainHeirs graph next := by
  cases hvisit with
  | keep => exact h
  | @turn key _ hgovernor hturned hkey hnext =>
      subst hgovernor
      have hheir : ¬ OperatorAt graph key.dependent :=
        h.below _ (hto.first _ List.mem_cons_self) (hto.operatorAt_iff.mp hturned) _
          (governs_of_mem_keys hkey)
      constructor
      case roots =>
        intro other hother hoperator
        rcases (Visit.mem_roots_of_turn hnext).mp hother with rfl | ⟨hother, -⟩
        · exact absurd hoperator hheir
        · exact h.roots other hother hoperator
      case below =>
        rintro other hother hoperator _ hgoverns
        obtain ⟨edge, hedge, rfl, rfl⟩ := governs_iff.mp hgoverns
        rw [hnext.keys] at hedge
        rcases hedge with rfl | ⟨hedge, -⟩
        · exact absurd hoperator hheir
        · exact h.below _ hother hoperator _ (governs_of_mem_keys hedge)

theorem on_operatorRoot_of_settled (h : graph.WellFormed)
    (hsettled : ∀ root ∈ graph.roots, OperatorAt graph root →
      ∀ dependent, ¬ graph.Governs root dependent) :
    operatorRoot.on graph = (.ok 0, graph) := by
  have hends : Ends operatorRoot graph (fun changes next => changes = 0 ∧ next = graph)
      fun _ _ => False := by
    unfold operatorRoot
    refine .get_bind (.bind ((Ends.mapM (fun rest values changed => changed = graph ∧
      (∀ root ∈ rest, root ∈ graph.roots) ∧ ∀ value ∈ values, value = false)
        ?_ ⟨rfl, fun _ => id, by simp⟩).imp (fun values _ hnext => .pure ?_) fun _ _ => id))
    · rintro root rest values changed ⟨rfl, hrest, hvalues⟩
      obtain ⟨hroot, hrest⟩ := List.forall_mem_cons.mp hrest
      refine (ends_replaceRoot h root).imp (fun turned next hvisit => ?_) fun _ _ => id
      cases hvisit with
      | keep =>
          refine ⟨rfl, hrest, fun value hvalue => ?_⟩
          rcases List.mem_append.mp hvalue with hvalue | hvalue
          · exact hvalues value hvalue
          · exact List.mem_singleton.mp hvalue
      | turn hgovernor hoperator hkey =>
          subst hgovernor
          exact absurd (governs_of_mem_keys hkey) (hsettled _ hroot hoperator _)
    · refine ⟨List.count_eq_zero.mpr fun htrue => ?_, hnext.1⟩
      cases hnext.2.2 true htrue
  obtain ⟨changes, next, hon, rfl, rfl⟩ := hends.exists_ok
  exact hon

/-- The rule succeeds. A root that is an operator then governs something exactly if it is an heir.
Where no operator at the root has governed an operator, no operator at the root governs anything in
the end, and a second run changes nothing. -/
theorem governs_iff_heir_of_operatorRoot (h : graph.Reachable) :
    ∃ changes result, operatorRoot.on graph = (.ok changes, result) ∧
      (∀ root ∈ result.roots, OperatorAt result root →
        ((∃ dependent, result.Governs root dependent) ↔ Heir graph result root)) ∧
      (PlainBelowRoots graph →
        (∀ root ∈ result.roots, OperatorAt result root →
          ∀ dependent, ¬ result.Governs root dependent) ∧
        operatorRoot.on result = (.ok 0, result)) := by
  have hwf := h.wellFormed
  have hends := ends_operatorRoot_of_visits hwf
    (fun rest changed => HeirsOnly graph rest changed ∧
      (PlainBelowRoots graph → PlainHeirs graph changed))
    ⟨fun root hroot _ _ => .inl hroot, fun hplain => ⟨fun root hroot _ => hroot, hplain⟩⟩
    fun hto hvisit hinv => ⟨hinv.1.visit hto hvisit, fun hplain => (hinv.2 hplain).visit hto hvisit⟩
  obtain ⟨changes, result, hon, hto, hheirs, hplain⟩ := hends.exists_ok
  have hgoverns (root : Nat) (hroot : root ∈ result.roots) (hoperator : OperatorAt result root) :
      (∃ dependent, result.Governs root dependent) ↔ Heir graph result root := by
    constructor
    · intro hgoverns
      refine (hheirs root hroot (hto.operatorAt_iff.mp hoperator) hgoverns).resolve_left ?_
      exact List.not_mem_nil
    · rintro ⟨old, -, -, hedge⟩
      exact ⟨old, governs_of_mem_keys hedge⟩
  refine ⟨changes, result, hon, hgoverns, fun hbelow => ?_⟩
  obtain ⟨hroots, hbelow⟩ := hplain hbelow
  have hsettled : ∀ root ∈ result.roots, OperatorAt result root →
      ∀ dependent, ¬ result.Governs root dependent := by
    intro root hroot hoperator dependent hgoverned
    obtain ⟨old, -, hold, hedge⟩ := (hgoverns root hroot hoperator).mp ⟨dependent, hgoverned⟩
    have hoperator := hto.operatorAt_iff.mp hoperator
    exact hbelow root (hroots root hroot hoperator) hoperator old (governs_of_mem_keys hedge) hold
  exact ⟨hsettled, on_operatorRoot_of_settled (hto.moves.wellFormed hwf) hsettled⟩

/-- "not all dogs", where the first operator governs the second. -/
def notAllDogs : Graph where
  tokens := [
    { index := 1, word := "not", baseForm := "not", tag := "RB", operator := some "not" },
    { index := 2, word := "all", baseForm := "all", tag := "DT", operator := some "all" },
    { index := 3, word := "dogs", baseForm := "dog", tag := "NNS" }]
  arcs := [
    (0, { governor := 1, dependent := 2, relation := "dep" }),
    (1, { governor := 2, dependent := 3, relation := "dep" })]
  roots := [1]
  nextEdge := 2

theorem reachable_notAllDogs : notAllDogs.Reachable := by
  have hread : TokenTable.read
      "1 not not RB 0 root not\n2 all all DT 1 dep all\n3 dogs dog NNS 2 dep" =
        .ok notAllDogs := by decide +kernel
  exact .read hread

def allNotDogs : Graph where
  tokens := notAllDogs.tokens
  arcs := [
    (1, { governor := 2, dependent := 3, relation := "dep" }),
    (2, { Edge.made 2 1 "op" with weight := .one })]
  roots := [2]
  nextEdge := 3

theorem on_notAllDogs : operatorRoot.on notAllDogs = (.ok 1, allNotDogs) := by decide +kernel

/-- "all dogs", where the operator governs a noun. -/
def allDogs : Graph where
  tokens := notAllDogs.tokens.drop 1
  arcs := [(0, { governor := 2, dependent := 3, relation := "dep" })]
  roots := [2]
  nextEdge := 1

theorem plainBelowRoots_allDogs : PlainBelowRoots allDogs := by
  rintro root hroot - dependent ⟨edge, hedge, -, rfl⟩
  obtain rfl := List.mem_singleton.mp hedge
  decide

/-- In `notAllDogs` the second operator governs something in the end, as it is the heir of the
first. In `allDogs` the rule has nothing to do when it is run again. -/
theorem governs_iff_heir_of_operatorRoot_notAllDogs :
    (∃ changes result, operatorRoot.on notAllDogs = (.ok changes, result) ∧ 2 ∈ result.roots ∧
      Heir notAllDogs result 2) ∧
    ∃ changes result, operatorRoot.on allDogs = (.ok changes, result) ∧
      operatorRoot.on result = (.ok 0, result) := by
  constructor
  · obtain ⟨changes, result, hon, hgoverns, -⟩ :=
      governs_iff_heir_of_operatorRoot reachable_notAllDogs
    cases on_notAllDogs.symm.trans hon
    exact ⟨1, allNotDogs, hon, by decide, (hgoverns 2 (by decide) (by decide)).mp ⟨3, by decide⟩⟩
  · have hread : TokenTable.read "2 all all DT 0 root all\n3 dogs dog NNS 2 dep" =
        .ok allDogs := by decide +kernel
    obtain ⟨changes, result, hon, -, hplain⟩ := governs_iff_heir_of_operatorRoot (.read hread)
    exact ⟨changes, result, hon, (hplain plainBelowRoots_allDogs).2⟩

/-- An operator that governs something may be left as a root: the second one of `notAllDogs` is. -/
theorem exists_operator_left :
    ¬ ∀ (graph result : Graph) (changes : Nat), graph.Reachable →
      operatorRoot.on graph = (.ok changes, result) →
        ∀ root ∈ result.roots, OperatorAt result root →
          ∀ dependent, ¬ result.Governs root dependent := by
  intro hall
  exact hall notAllDogs allNotDogs 1 reachable_notAllDogs on_notAllDogs 2 (by decide) (by decide) 3
    (by decide)

end DepNorm.Splice
