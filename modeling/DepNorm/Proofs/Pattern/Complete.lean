import DepNorm.Proofs.Pattern.First

/-!
The search misses nothing. A solution assigns indices to some names of the pattern, in no order and
with no thought of optional edges. From a solution there are choices that lead through the edges:
take the entry that it names for each required edge, and skip each optional one. The invariant is
that what is bound agrees with the solution.
-/

namespace DepNorm

/-- What is bound is what the assignment says. -/
def Bindings.AgreesWith (bound : Bindings) (assigned : String → Option Nat) : Prop :=
  ∀ binding ∈ bound, assigned binding.1 = some binding.2

namespace Bindings.AgreesWith

variable {bound : Bindings} {assigned : String → Option Nat} {name : String} {index : Nat}

theorem eq_of_lookup (h : bound.AgreesWith assigned) (hlookup : bound.lookup name = some index) :
    assigned name = some index := by
  obtain ⟨before, after, rfl, -⟩ := List.lookup_eq_some_iff.mp hlookup
  exact h (name, index) (by simp)

theorem bindAtEnd (h : bound.AgreesWith assigned) (hname : assigned name = some index) :
    (bound.bindAtEnd name index).AgreesWith assigned := by
  intro binding hbinding
  rcases Bindings.mem_bindAtEnd hbinding with hmem | rfl
  · exact h binding hmem
  · exact hname

end Bindings.AgreesWith

namespace Pattern

/-- An assignment of indices to names that has the anchor, sends no two names to one index, passes
the tests, and satisfies each required edge whose governor it has. -/
structure Solves (view : View) (pattern : Pattern) (assigned : String → Option Nat) : Prop where
  anchor : ∃ index ∈ view.indices, assigned pattern.anchor.name = some index
  injective : ∀ {name other : String} {index : Nat}, assigned name = some index →
    assigned other = some index → name = other
  token : ∀ {name : String} {index : Nat}, assigned name = some index →
    ∃ token, view.token? index = some token ∧ (pattern.test name).holds token = true
  edge : ∀ edge ∈ pattern.edges, edge.optional = false → ∀ {governor : Nat},
    assigned edge.governor = some governor → ∃ arc ∈ view.outgoing governor,
      edge.relation.holds arc.relation = true ∧ assigned edge.dependent = some arc.dependent

variable {view : View} {pattern : Pattern} {assigned : String → Option Nat} {bound : Bindings}

theorem Solves.admits (h : Solves view pattern assigned) (hagrees : bound.AgreesWith assigned)
    {edge : PatternEdge} {arc : Arc} (hrelation : edge.relation.holds arc.relation = true)
    (hdependent : assigned edge.dependent = some arc.dependent) :
    Admits view pattern bound edge arc := by
  refine ⟨hrelation, ?_⟩
  cases hlookup : bound.lookup edge.dependent with
  | some index =>
      have hindex : assigned edge.dependent = some index := hagrees.eq_of_lookup hlookup
      exact .inl (hindex.symm.trans hdependent)
  | none =>
      refine .inr ⟨rfl, ?_, h.token hdependent⟩
      intro binding hbinding hused
      have hassigned : assigned binding.1 = some arc.dependent := hused ▸ hagrees binding hbinding
      have hname : edge.dependent = binding.1 := h.injective hdependent hassigned
      exact (bne_iff_ne.mp (List.lookup_eq_none_iff.mp hlookup binding hbinding)) hname

/-- From bindings that agree with a solution some choices lead through. -/
theorem Solves.leads (h : Solves view pattern assigned) {edges : List PatternEdge}
    (hedges : ∀ edge ∈ edges, edge ∈ pattern.edges) (hagrees : bound.AgreesWith assigned) :
    Leads view pattern bound edges := by
  induction edges generalizing bound with
  | nil => exact leads_nil
  | cons edge edges ih =>
      obtain ⟨hedge, hedges⟩ := List.forall_mem_cons.mp hedges
      cases hgovernor : bound.lookup edge.governor with
      | none => exact (leads_cons_of_unbound hgovernor).mpr (ih hedges hagrees)
      | some governor =>
          refine (leads_cons_of_bound hgovernor).mpr ?_
          cases hoptional : edge.optional with
          | true => exact .inr ⟨rfl, ih hedges hagrees⟩
          | false =>
              obtain ⟨arc, harc, hrelation, hdependent⟩ :=
                h.edge edge hedge hoptional (hagrees.eq_of_lookup hgovernor)
              exact .inl ⟨arc, harc, h.admits hagrees hrelation hdependent,
                ih hedges (hagrees.bindAtEnd hdependent)⟩

theorem Solves.exists_valid (h : Solves view pattern assigned) :
    ∃ choices taken last, Valid view pattern choices taken last := by
  obtain ⟨index, hindex, hanchor⟩ := h.anchor
  obtain ⟨token, htoken, htest⟩ := h.token hanchor
  rw [test_anchor] at htest
  obtain ⟨position, hposition⟩ := List.getElem?_of_mem hindex
  have hstart : Bindings.AgreesWith [(pattern.anchor.name, index)] assigned := by
    intro binding hbinding
    obtain rfl := List.mem_singleton.mp hbinding
    exact hanchor
  obtain ⟨choices, taken, last, hselects⟩ := h.leads (fun _ hedge => hedge) hstart
  exact ⟨_, _, _, .anchor hposition htoken htest hselects⟩

/-- If the search for a pattern that is accepted finds nothing, the pattern has no solution. -/
theorem no_solution_of_not_found {name : String} {declarations : List Declaration}
    {pattern : Pattern} (hdeclare : declare name declarations = .ok pattern) {view : View}
    (hfind : pattern.find? view = none) : ¬ ∃ assigned, Solves view pattern assigned := by
  rintro ⟨assigned, hsolves⟩
  obtain ⟨choices, taken, last, hvalid⟩ := hsolves.exists_valid
  exact not_valid_of_find?_eq_none (governed_of_declare hdeclare) hfind hvalid

/-- There is no solution in `eatsCake` if only the noun is listed. -/
theorem no_solution_of_not_found_eats :
    ¬ ∃ assigned, Solves { eatsCake with indices := [2] } verbAndNounPattern assigned := by
  have hdeclare : declare "verb and noun" verbAndNoun = .ok verbAndNounPattern := by decide
  have hfind : verbAndNounPattern.find? { eatsCake with indices := [2] } = none := by decide
  exact no_solution_of_not_found hdeclare hfind

end Pattern

end DepNorm
