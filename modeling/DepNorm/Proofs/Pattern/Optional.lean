import DepNorm.Proofs.Pattern.Sound

/-!
Optional edges do not decide whether a pattern is found. Without an optional edge some nodes can no
longer be reached from the anchor. Taking out the edge, these nodes and the edges that start from
them gives a smaller pattern, which is found in the same views. Choices for the pattern lead through
the smaller one if what is chosen for the other edges is forgotten, since less is then in use, and
choices for the smaller pattern lead through the whole one if the edge is skipped.
-/

namespace DepNorm.Pattern

/-! ### Smaller patterns -/

/-- The edges lead from one name to another, in whatever order they stand. -/
inductive Reached (edges : List PatternEdge) (start : String) : String → Prop
  | start : Reached edges start start
  | follow {edge : PatternEdge} (hedge : edge ∈ edges) (h : Reached edges start edge.governor) :
      Reached edges start edge.dependent

theorem Reached.mem_of_closed {edges : List PatternEdge} {start name : String}
    {names : List String} (h : Reached edges start name) (hstart : start ∈ names)
    (hclosed : ∀ edge ∈ edges, edge.governor ∈ names → edge.dependent ∈ names) : name ∈ names := by
  induction h with
  | start => exact hstart
  | follow hedge _ ih => exact hclosed _ hedge ih

/-- The pattern with other edges, without the nodes whose names are not kept and without the edges
that start from such nodes. -/
def prune (pattern : Pattern) (edges : List PatternEdge) (kept : List String) : Pattern :=
  { pattern with
    others := pattern.others.filter (·.name ∈ kept)
    edges := edges.filter (·.governor ∈ kept) }

/-- The second list is the first without some edges, each of which is optional or starts from a name
that is not kept. The other edges join names that are kept. -/
inductive Thinned (kept : List String) : List PatternEdge → List PatternEdge → Prop
  | nil : Thinned kept [] []
  | keep {edge : PatternEdge} {edges thin : List PatternEdge} (hgovernor : edge.governor ∈ kept)
      (hdependent : edge.dependent ∈ kept) (rest : Thinned kept edges thin) :
      Thinned kept (edge :: edges) (edge :: thin)
  | drop {edge : PatternEdge} {edges thin : List PatternEdge}
      (hedge : edge.optional = true ∨ edge.governor ∉ kept) (rest : Thinned kept edges thin) :
      Thinned kept (edge :: edges) thin

variable {view : View} {pattern smaller : Pattern} {kept : List String} {bound small : Bindings}
  {edge : PatternEdge} {edges thin : List PatternEdge} {arc : Arc} {governor : Nat}

theorem thinned_filter (hclosed : ∀ edge ∈ edges, edge.governor ∈ kept → edge.dependent ∈ kept) :
    Thinned kept edges (edges.filter (·.governor ∈ kept)) := by
  induction edges with
  | nil => exact .nil
  | cons edge edges ih =>
      obtain ⟨hedge, hclosed⟩ := List.forall_mem_cons.mp hclosed
      by_cases hgovernor : edge.governor ∈ kept
      · simpa [hgovernor] using .keep hgovernor (hedge hgovernor) (ih hclosed)
      · simpa [hgovernor] using .drop (.inr hgovernor) (ih hclosed)

theorem Thinned.append {edges' thin' : List PatternEdge} (h : Thinned kept edges thin)
    (h' : Thinned kept edges' thin') : Thinned kept (edges ++ edges') (thin ++ thin') := by
  induction h with
  | nil => exact h'
  | keep hgovernor hdependent _ ih => exact .keep hgovernor hdependent ih
  | drop hedge _ ih => exact .drop hedge ih

theorem test_prune (edges : List PatternEdge) {name : String}
    (hanchor : pattern.anchor.name ∈ kept) (hname : name ∈ kept) :
    (pattern.prune edges kept).test name = pattern.test name := by
  have hnodes : (pattern.prune edges kept).nodes = pattern.nodes.filter (·.name ∈ kept) := by
    simp [nodes, prune, hanchor]
  rw [test, hnodes, List.find?_filter, test]
  congr 2
  ext node
  grind

/-! ### One edge -/

theorem Grown.lookup_of_mem (h : Grown view pattern bound) {name : String} {index : Nat}
    (hmem : (name, index) ∈ bound) : bound.lookup name = some index := by
  obtain ⟨other, hother⟩ := Option.isSome_iff_exists.mp
    (Bindings.isSome_lookup_iff.mpr (List.mem_map_of_mem hmem))
  have heq := List.inj_on_of_nodup_map h.names_distinct (Bindings.mem_of_lookup hother) hmem rfl
  rw [hother, (Prod.mk.inj heq).2]

theorem Leads.exists_next (h : Leads view pattern bound (edge :: edges))
    (hgrown : Grown view pattern bound) (hedge : edge ∈ pattern.edges) :
    ∃ next, bound ⊆ next ∧ Grown view pattern next ∧ Leads view pattern next edges := by
  cases hgovernor : bound.lookup edge.governor with
  | none => exact ⟨bound, List.Subset.refl bound, hgrown, (leads_cons_of_unbound hgovernor).mp h⟩
  | some governor =>
      rcases (leads_cons_of_bound hgovernor).mp h with ⟨arc, harc, hadmits, hrest⟩ | ⟨-, hrest⟩
      · exact ⟨_, bound.subset_bindAtEnd _ _, hgrown.bindAtEnd hedge hgovernor harc hadmits, hrest⟩
      · exact ⟨bound, List.Subset.refl bound, hgrown, hrest⟩

/-! ### From the pattern to the smaller one -/

/-- An entry may still be chosen where less is bound. -/
theorem Admits.of_subset (h : Admits view pattern bound edge arc)
    (hgrown : Grown view pattern bound) (hsub : small ⊆ bound)
    (htest : smaller.test edge.dependent = pattern.test edge.dependent) :
    Admits view smaller small edge arc := by
  refine ⟨h.relation, ?_⟩
  cases hsmall : small.lookup edge.dependent with
  | some index =>
      have hbound := hgrown.lookup_of_mem (hsub (Bindings.mem_of_lookup hsmall))
      rcases h.dependent with hdependent | ⟨hnone, -⟩
      · exact .inl (hbound.symm.trans hdependent)
      · cases hbound.symm.trans hnone
  | none =>
      have hunbound (binding : String × Nat) (hbinding : binding ∈ small) :
          binding.1 ≠ edge.dependent := by
        intro heq
        have hsome := Bindings.isSome_lookup_iff.mpr (List.mem_map_of_mem hbinding)
        rw [heq, hsmall] at hsome
        cases hsome
      rw [htest]
      rcases h.dependent with hdependent | ⟨-, hunused, htoken⟩
      · -- The index is in use for the dependent, and by no other name.
        have hmem := Bindings.mem_of_lookup hdependent
        refine .inr ⟨rfl, fun binding hbinding hused => ?_, hgrown.exists_token _ hmem⟩
        have heq := List.inj_on_of_nodup_map hgrown.indices_distinct (hsub hbinding) hmem hused
        exact hunbound binding hbinding (congrArg Prod.fst heq)
      · exact .inr ⟨rfl, fun binding hbinding => hunused binding (hsub hbinding), htoken⟩

theorem bindAtEnd_subset (hadmits : Admits view pattern bound edge arc) (hsub : small ⊆ bound) :
    small.bindAtEnd edge.dependent arc.dependent ⊆
      bound.bindAtEnd edge.dependent arc.dependent := by
  intro binding hbinding
  rcases Bindings.mem_bindAtEnd hbinding with hmem | rfl
  · exact bound.subset_bindAtEnd _ _ (hsub hmem)
  · exact Bindings.mem_of_lookup hadmits.lookup_bindAtEnd

theorem Thinned.leads (hthin : Thinned kept edges thin)
    (htest : ∀ name ∈ kept, smaller.test name = pattern.test name)
    (hedges : edges ⊆ pattern.edges) (hgrown : Grown view pattern bound) (hsub : small ⊆ bound)
    (h : Leads view pattern bound edges) : Leads view smaller small thin := by
  induction hthin generalizing bound small with
  | nil => exact leads_nil
  | drop _ _ ih =>
      obtain ⟨hedge, hedges⟩ := List.cons_subset.mp hedges
      obtain ⟨next, hnext, hgrown, hrest⟩ := h.exists_next hgrown hedge
      exact ih hedges hgrown (List.Subset.trans hsub hnext) hrest
  | @keep edge edges thin _ hdependent _ ih =>
      obtain ⟨hedge, hedges⟩ := List.cons_subset.mp hedges
      cases hsmall : small.lookup edge.governor with
      | none =>
          obtain ⟨next, hnext, hgrown, hrest⟩ := h.exists_next hgrown hedge
          refine (leads_cons_of_unbound hsmall).mpr ?_
          exact ih hedges hgrown (List.Subset.trans hsub hnext) hrest
      | some governor =>
          have hgovernor := hgrown.lookup_of_mem (hsub (Bindings.mem_of_lookup hsmall))
          refine (leads_cons_of_bound hsmall).mpr ?_
          rcases (leads_cons_of_bound hgovernor).mp h with
            ⟨arc, harc, hadmits, hrest⟩ | ⟨hoptional, hrest⟩
          · exact .inl ⟨arc, harc, hadmits.of_subset hgrown hsub (htest _ hdependent),
              ih hedges (hgrown.bindAtEnd hedge hgovernor harc hadmits)
                (bindAtEnd_subset hadmits hsub) hrest⟩
          · exact .inr ⟨hoptional, ih hedges hgrown hsub hrest⟩

/-! ### From the smaller pattern to the whole one -/

theorem Thinned.leads_whole (hthin : Thinned kept edges thin)
    (htest : ∀ name ∈ kept, smaller.test name = pattern.test name)
    (hbound : ∀ binding ∈ bound, binding.1 ∈ kept) (h : Leads view smaller bound thin) :
    Leads view pattern bound edges := by
  induction hthin generalizing bound with
  | nil => exact leads_nil
  | @drop edge edges thin hedge _ ih =>
      cases hgovernor : bound.lookup edge.governor with
      | none => exact (leads_cons_of_unbound hgovernor).mpr (ih hbound h)
      | some governor =>
          have hkept : edge.governor ∈ kept := hbound _ (Bindings.mem_of_lookup hgovernor)
          have hoptional := hedge.resolve_right (not_not_intro hkept)
          exact (leads_cons_of_bound hgovernor).mpr (.inr ⟨hoptional, ih hbound h⟩)
  | @keep edge edges thin _ hdependent _ ih =>
      cases hgovernor : bound.lookup edge.governor with
      | none =>
          rw [leads_cons_of_unbound hgovernor] at h ⊢
          exact ih hbound h
      | some governor =>
          rw [leads_cons_of_bound hgovernor] at h ⊢
          refine h.imp (fun ⟨arc, harc, hadmits, hrest⟩ => ⟨arc, harc, ?_, ih ?_ hrest⟩)
            fun ⟨hoptional, hrest⟩ => ⟨hoptional, ih hbound hrest⟩
          · exact ⟨hadmits.relation, htest _ hdependent ▸ hadmits.dependent⟩
          · intro binding hbinding
            rcases Bindings.mem_bindAtEnd hbinding with hmem | rfl
            · exact hbound binding hmem
            · exact hdependent

/-! ### Searches -/

/-- Let an accepted pattern have an optional edge, and let the names that the other edges reach from
the anchor be kept. Without the edge, the nodes whose names are not kept and the edges that start
from them, the pattern is found in the same views, if it is accepted. -/
theorem found_without_optional {name name' : String} {declarations declarations' : List Declaration}
    {pattern : Pattern} (hdeclare : declare name declarations = .ok pattern)
    {before after : List PatternEdge} {edge : PatternEdge}
    (hedges : pattern.edges = before ++ edge :: after) (hoptional : edge.optional = true)
    {kept : List String}
    (hkept : ∀ name, name ∈ kept ↔ Reached (before ++ after) pattern.anchor.name name)
    (hsmaller : declare name' declarations' = .ok (pattern.prune (before ++ after) kept))
    (view : View) :
    (pattern.find? view).isSome = true ↔
      ((pattern.prune (before ++ after) kept).find? view).isSome = true := by
  have hanchor : pattern.anchor.name ∈ kept := (hkept _).mpr .start
  have hclosed : ∀ other ∈ before ++ after, other.governor ∈ kept → other.dependent ∈ kept :=
    fun other hother hgovernor => (hkept _).mpr (.follow hother ((hkept _).mp hgovernor))
  obtain ⟨hbefore, hafter⟩ := List.forall_mem_append.mp hclosed
  have hthin : Thinned kept pattern.edges (pattern.prune (before ++ after) kept).edges := by
    rw [hedges, prune, List.filter_append]
    exact (thinned_filter hbefore).append (.drop (.inl hoptional) (thinned_filter hafter))
  have htest (name : String) (hname : name ∈ kept) :=
    test_prune (before ++ after) hanchor hname
  rw [isSome_find?_iff (governed_of_declare hdeclare),
    isSome_find?_iff (governed_of_declare hsmaller)]
  constructor
  · rintro ⟨index, hindex, token, htoken, hholds, hleads⟩
    exact ⟨index, hindex, token, htoken, hholds, hthin.leads htest
      (List.Subset.refl _) (.anchor htoken hholds) (List.Subset.refl _) hleads⟩
  · rintro ⟨index, hindex, token, htoken, hholds, hleads⟩
    refine ⟨index, hindex, token, htoken, hholds, hthin.leads_whole htest ?_ hleads⟩
    intro binding hbinding
    obtain rfl := List.mem_singleton.mp hbinding
    exact hanchor

/-- A verb with an adverb, and perhaps a subject that has a mark and the adverb as well. -/
def verbAndAdverb : List Declaration :=
  [.node "verb" .any, .node "noun" .any, .node "mark" .any, .node "adverb" .any,
    .edge "verb" "noun" (.exact "nsubj") true, .edge "noun" "mark" (.exact "det") false,
    .edge "noun" "adverb" (.exact "dep") false, .edge "verb" "adverb" (.exact "advmod") false]

def verbAndAdverbPattern : Pattern where
  name := "verb and adverb"
  anchor := { name := "verb" }
  others := [{ name := "noun" }, { name := "mark" }, { name := "adverb" }]
  edges := [
    { governor := "verb", dependent := "noun", relation := .exact "nsubj", optional := true },
    { governor := "noun", dependent := "mark", relation := .exact "det" },
    { governor := "noun", dependent := "adverb", relation := .exact "dep" },
    { governor := "verb", dependent := "adverb", relation := .exact "advmod" }]

/-- A verb with a subject and an adverb. The subject has no mark. -/
def catsSleepNow : View where
  indices := [1, 2, 3]
  token?
    | 1 => some { index := 1, word := "cats", baseForm := "cat", tag := "NNS" }
    | 2 => some { index := 2, word := "sleep", baseForm := "sleep", tag := "VBP" }
    | 3 => some { index := 3, word := "now", baseForm := "now", tag := "RB" }
    | _ => none
  outgoing
    | 2 => [{ dependent := 1, relation := "nsubj" }, { dependent := 3, relation := "advmod" }]
    | _ => []

/-- In `catsSleepNow` the pattern is found, though the subject has not all that is asked of it. -/
theorem found_without_optional_catsSleepNow :
    (verbAndAdverbPattern.find? catsSleepNow).isSome = true := by
  have hdeclare : declare "verb and adverb" verbAndAdverb = .ok verbAndAdverbPattern := by decide
  have hkept (name : String) : name ∈ ["verb", "adverb"] ↔
      Reached (verbAndAdverbPattern.edges.drop 1) "verb" name := by
    constructor
    · intro hname
      rcases List.mem_pair.mp hname with rfl | rfl
      · exact .start
      · have hedge : { governor := "verb", dependent := "adverb", relation := .exact "advmod" } ∈
            verbAndAdverbPattern.edges.drop 1 := by decide
        exact .follow hedge .start
    · exact fun hreached => hreached.mem_of_closed (by decide) (by decide)
  have hsmaller : declare "verb and adverb" [.node "verb" .any, .node "adverb" .any,
      .edge "verb" "adverb" (.exact "advmod") false] = .ok
        (verbAndAdverbPattern.prune (verbAndAdverbPattern.edges.drop 1) ["verb", "adverb"]) := by
    decide
  have hedges : verbAndAdverbPattern.edges = [] ++
      { governor := "verb", dependent := "noun", relation := .exact "nsubj", optional := true } ::
        verbAndAdverbPattern.edges.drop 1 := rfl
  refine (found_without_optional hdeclare hedges rfl hkept hsmaller catsSleepNow).mpr ?_
  decide

end DepNorm.Pattern
