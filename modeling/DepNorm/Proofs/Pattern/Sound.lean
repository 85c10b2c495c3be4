import DepNorm.Proofs.Pattern.Required

/-!
What a match promises. Its bindings grow from the anchor, one at a time, each along an entry that
may be chosen for an edge of the pattern, and nothing of what the search has given up is left among
them. `Sound` lists what follows from this, and the main statement is that every match is sound.
-/

namespace DepNorm

namespace Bindings

variable {bound : Bindings} {name : String} {index : Nat}

theorem mem_of_lookup (h : bound.lookup name = some index) : (name, index) ∈ bound := by
  obtain ⟨before, after, rfl, -⟩ := List.lookup_eq_some_iff.mp h
  simp

theorem isSome_lookup_iff : (bound.lookup name).isSome ↔ name ∈ bound.map Prod.fst := by
  constructor
  · intro h
    obtain ⟨index, hindex⟩ := Option.isSome_iff_exists.mp h
    exact List.mem_map_of_mem (mem_of_lookup hindex)
  · intro h
    by_contra hnone
    rw [Option.not_isSome_iff_eq_none, List.lookup_eq_none_iff] at hnone
    obtain ⟨binding, hbinding, rfl⟩ := List.mem_map.mp h
    simpa using hnone binding hbinding

end Bindings

namespace Pattern

variable {view : View} {pattern : Pattern}

/-! ### Bindings that grow from the anchor -/

/-- Bindings as the search makes them: first the anchor, and then the dependents of edges, each by
an entry that leaves the governor of its edge for a token that is not in use. -/
inductive Grown (view : View) (pattern : Pattern) : Bindings → Prop
  | anchor {index : Nat} {token : Token} (htoken : view.token? index = some token)
      (htest : pattern.anchor.test.holds token = true) :
      Grown view pattern [(pattern.anchor.name, index)]
  | bind {bound : Bindings} {edge : PatternEdge} {governor : Nat} {arc : Arc}
      (h : Grown view pattern bound) (hedge : edge ∈ pattern.edges)
      (hgovernor : bound.lookup edge.governor = some governor)
      (harc : arc ∈ view.outgoing governor) (hrelation : edge.relation.holds arc.relation = true)
      (hnew : bound.lookup edge.dependent = none)
      (hunused : ∀ binding ∈ bound, binding.2 ≠ arc.dependent)
      (htoken : ∃ token, view.token? arc.dependent = some token ∧
        (pattern.test edge.dependent).holds token = true) :
      Grown view pattern (bound ++ [(edge.dependent, arc.dependent)])

namespace Grown

variable {bound : Bindings}

theorem exists_anchor (h : Grown view pattern bound) :
    ∃ index rest, bound = (pattern.anchor.name, index) :: rest := by
  induction h with
  | anchor => exact ⟨_, [], rfl⟩
  | bind _ _ _ _ _ _ _ _ ih =>
      obtain ⟨index, rest, rfl⟩ := ih
      exact ⟨index, rest ++ _, rfl⟩

theorem names_distinct (h : Grown view pattern bound) : (bound.map Prod.fst).Nodup := by
  induction h with
  | anchor => simp
  | bind _ _ _ _ _ hnew _ _ ih =>
      rw [List.map_append, List.map_singleton, List.nodup_append_comm, List.singleton_append,
        List.nodup_cons]
      refine ⟨fun hmem => ?_, ih⟩
      rw [← Bindings.isSome_lookup_iff, hnew] at hmem
      cases hmem

theorem indices_distinct (h : Grown view pattern bound) : (bound.map Prod.snd).Nodup := by
  induction h with
  | anchor => simp
  | bind _ _ _ _ _ _ hunused _ ih =>
      rw [List.map_append, List.map_singleton, List.nodup_append_comm, List.singleton_append,
        List.nodup_cons]
      refine ⟨fun hmem => ?_, ih⟩
      obtain ⟨binding, hbinding, hused⟩ := List.mem_map.mp hmem
      exact hunused binding hbinding hused

theorem exists_token (h : Grown view pattern bound) : ∀ binding ∈ bound,
    ∃ token, view.token? binding.2 = some token ∧
      (pattern.test binding.1).holds token = true := by
  induction h with
  | anchor htoken htest =>
      intro binding hbinding
      obtain rfl := List.mem_singleton.mp hbinding
      exact ⟨_, htoken, by rwa [test_anchor]⟩
  | bind _ _ _ _ _ _ _ htoken ih =>
      intro binding hbinding
      rcases List.mem_append.mp hbinding with hbinding | hbinding
      · exact ih binding hbinding
      · obtain rfl := List.mem_singleton.mp hbinding
        exact htoken

theorem exists_edge (h : Grown view pattern bound) {before after : Bindings}
    {binding : String × Nat} (hbound : bound = before ++ binding :: after)
    (hbefore : before ≠ []) :
    ∃ edge ∈ pattern.edges, edge.dependent = binding.1 ∧
      ∃ governor, (edge.governor, governor) ∈ before ∧ ∃ arc ∈ view.outgoing governor,
        arc.dependent = binding.2 ∧ edge.relation.holds arc.relation = true := by
  induction h generalizing after with
  | anchor =>
      have hlength := congrArg List.length hbound
      have hpos := List.length_pos_of_ne_nil hbefore
      simp only [List.length_append, List.length_cons, List.length_nil] at hlength
      omega
  | @bind bound edge governor arc _ hedge hgovernor harc hrelation _ _ _ ih =>
      rcases List.eq_nil_or_concat after with rfl | ⟨after, last, rfl⟩
      · obtain ⟨rfl, hlast⟩ := List.append_inj' hbound rfl
        cases hlast
        exact ⟨edge, hedge, rfl, governor, Bindings.mem_of_lookup hgovernor, arc, harc, rfl,
          hrelation⟩
      · rw [List.concat_eq_append, ← List.cons_append, ← List.append_assoc] at hbound
        exact ih (List.append_inj' hbound rfl).1

end Grown

/-! ### From choices to bindings -/

section

variable {bound last : Bindings} {edges : List PatternEdge} {choices : List Choice}
  {taken : List (PatternEdge × Arc)}

theorem Grown.bindAtEnd {edge : PatternEdge} {governor : Nat} {arc : Arc}
    (h : Grown view pattern bound) (hedge : edge ∈ pattern.edges)
    (hgovernor : bound.lookup edge.governor = some governor) (harc : arc ∈ view.outgoing governor)
    (hadmits : Admits view pattern bound edge arc) :
    Grown view pattern (bound.bindAtEnd edge.dependent arc.dependent) := by
  rcases hadmits.dependent with hlookup | ⟨hnew, hunused, htoken⟩
  · simpa only [Bindings.bindAtEnd, hlookup] using h
  · simp only [Bindings.bindAtEnd, hnew]
    exact h.bind hedge hgovernor harc hadmits.relation hnew hunused htoken

theorem Selects.grown (h : Selects view pattern bound edges choices taken last)
    (hedges : ∀ edge ∈ edges, edge ∈ pattern.edges) (hgrown : Grown view pattern bound) :
    Grown view pattern last := by
  induction h with
  | done => exact hgrown
  | pass _ _ ih => exact ih (List.forall_mem_cons.mp hedges).2 hgrown
  | skip _ _ _ ih => exact ih (List.forall_mem_cons.mp hedges).2 hgrown
  | entry hgovernor harc hadmits _ ih =>
      obtain ⟨hedge, hedges⟩ := List.forall_mem_cons.mp hedges
      exact ih hedges (hgrown.bindAtEnd hedge hgovernor (List.mem_of_getElem? harc) hadmits)

theorem Valid.grown (h : Valid view pattern choices taken last) : Grown view pattern last := by
  obtain ⟨-, htoken, htest, hselects⟩ := h
  exact hselects.grown (fun _ hedge => hedge) (.anchor htoken htest)

theorem Selects.of_mem_taken (h : Selects view pattern bound edges choices taken last) :
    ∀ entry ∈ taken, entry.1 ∈ edges ∧
      ∃ governor, last.lookup entry.1.governor = some governor ∧
        entry.2 ∈ view.outgoing governor ∧ entry.1.relation.holds entry.2.relation = true ∧
          last.lookup entry.1.dependent = some entry.2.dependent := by
  induction h with
  | done => simp
  | pass _ _ ih => exact fun entry hentry => (ih entry hentry).imp_left (List.mem_cons_of_mem _)
  | skip _ _ _ ih => exact fun entry hentry => (ih entry hentry).imp_left (List.mem_cons_of_mem _)
  | entry hgovernor harc hadmits rest ih =>
      refine List.forall_mem_cons.mpr ⟨⟨List.mem_cons_self, _, ?_, List.mem_of_getElem? harc,
        hadmits.relation, rest.lookup_last hadmits.lookup_bindAtEnd⟩, ?_⟩
      · exact (rest.entry hgovernor harc hadmits).lookup_last hgovernor
      · exact fun entry hentry => (ih entry hentry).imp_left (List.mem_cons_of_mem _)

/-- A required edge is matched if its governor is reached over required edges before it. -/
theorem Selects.matched_of_requiredReach {before after : List PatternEdge} {edge : PatternEdge}
    {reached : List String}
    (h : Selects view pattern bound (before ++ edge :: after) choices taken last)
    (hreached : ∀ name ∈ reached, (bound.lookup name).isSome) (hrequired : edge.optional = false)
    (hgovernor : edge.governor ∈ requiredReach reached before) : Matched view last edge := by
  obtain ⟨choices₁, choices₂, _, _, middle, rfl, -, hfirst, hrest⟩ := h.split
  have hbound := hfirst.isSome_of_mem_requiredReach hreached _ hgovernor
  rcases hrest.matched_or_pass hrequired with hmatched | ⟨hnone, -⟩
  · exact hmatched
  · rw [hnone] at hbound
    cases hbound

theorem Selects.forall_matched {reached : List String}
    (h : Selects view pattern bound edges choices taken last)
    (hrequired : ∀ edge ∈ edges, edge.optional = false) (hgoverned : Governed reached edges)
    (hreached : ∀ name ∈ reached, (bound.lookup name).isSome) :
    ∀ edge ∈ edges, Matched view last edge := by
  induction h generalizing reached with
  | done => simp
  | pass hgovernor =>
      have hbound := hreached _ hgoverned.1
      rw [hgovernor] at hbound
      cases hbound
  | skip _ hoptional => cases (hrequired _ List.mem_cons_self).symm.trans hoptional
  | @entry bound _ edge _ _ _ _ _ arc hgovernor harc hadmits rest ih =>
      obtain ⟨hedge, hrequired⟩ := List.forall_mem_cons.mp hrequired
      refine List.forall_mem_cons.mpr ⟨?_, ih hrequired hgoverned.2 ?_⟩
      · rcases (rest.entry hgovernor harc hadmits).matched_or_pass hedge with hmatched | ⟨hnone, -⟩
        · exact hmatched
        · cases hgovernor.symm.trans hnone
      · intro name hname
        rw [Bindings.isSome_lookup_bindAtEnd_iff]
        rcases List.mem_cons.mp hname with rfl | hname
        · exact .inr rfl
        · exact .inl (hreached name hname)

end

/-! ### Matches -/

/-- What a match promises about its bindings and captures. -/
structure Sound (view : View) (pattern : Pattern) (found : Match) : Prop where
  /-- The anchor is bound first. -/
  anchor : ∃ index rest, found.bindings = (pattern.anchor.name, index) :: rest
  names_distinct : (found.bindings.map Prod.fst).Nodup
  indices_distinct : (found.bindings.map Prod.snd).Nodup
  /-- A bound name is that of a node, and it is bound to a token that passes the node's test. -/
  node : ∀ binding ∈ found.bindings, ∃ node ∈ pattern.nodes, node.name = binding.1 ∧
    ∃ token, view.token? binding.2 = some token ∧ node.test.holds token = true
  /-- Any other binding is by an edge whose governor is bound before. -/
  edge : ∀ before binding after, found.bindings = before ++ binding :: after → before ≠ [] →
    ∃ edge ∈ pattern.edges, edge.dependent = binding.1 ∧
      ∃ governor, (edge.governor, governor) ∈ before ∧ ∃ arc ∈ view.outgoing governor,
        arc.dependent = binding.2 ∧ edge.relation.holds arc.relation = true
  /-- A captured relation is that of an entry between the ends of an edge that captures it. -/
  capture : ∀ capture ∈ found.captures, ∃ edge ∈ pattern.edges, edge.capture = some capture.1 ∧
    ∃ governor arc, found.node? edge.governor = some governor ∧ arc ∈ view.outgoing governor ∧
      found.node? edge.dependent = some arc.dependent ∧ arc.relation = capture.2 ∧
        edge.relation.holds arc.relation = true
  /-- Where no edge is optional, all nodes are bound and all edges matched. -/
  whole : (∀ edge ∈ pattern.edges, edge.optional = false) →
    (∀ node ∈ pattern.nodes, (found.node? node.name).isSome) ∧
      ∀ edge ∈ pattern.edges, Matched view found.bindings edge

theorem Grown.exists_node {bound : Bindings} (h : Grown view pattern bound)
    (hdeclared : pattern.WellDeclared) :
    ∀ binding ∈ bound, ∃ node ∈ pattern.nodes, node.name = binding.1 := by
  induction h with
  | anchor =>
      intro binding hbinding
      obtain rfl := List.mem_singleton.mp hbinding
      exact ⟨pattern.anchor, List.mem_cons_self, rfl⟩
  | bind _ hedge _ _ _ _ _ _ ih =>
      intro binding hbinding
      rcases List.mem_append.mp hbinding with hbinding | hbinding
      · exact ih binding hbinding
      · obtain rfl := List.mem_singleton.mp hbinding
        exact List.mem_map.mp (hdeclared.dependent_declared _ hedge)

/-- Every match for a pattern that is accepted is sound. -/
theorem sound_of_find? {name : String} {declarations : List Declaration} {pattern : Pattern}
    (hdeclare : declare name declarations = .ok pattern) {view : View} {found : Match}
    (hfind : pattern.find? view = some found) : Sound view pattern found := by
  have hdeclared := wellDeclared_of_declare hdeclare
  obtain ⟨choices, taken, hfirst, hcaptures⟩ :=
    exists_first_of_find?_eq_some hdeclared.governed hfind
  have hgrown : Grown view pattern found.bindings := hfirst.valid.grown
  obtain ⟨start, choices, index, rfl, hselects⟩ := hfirst.valid.exists_selects
  constructor
  case anchor => exact hgrown.exists_anchor
  case names_distinct => exact hgrown.names_distinct
  case indices_distinct => exact hgrown.indices_distinct
  case node =>
    intro binding hbinding
    obtain ⟨node, hnode, hname⟩ := hgrown.exists_node hdeclared binding hbinding
    obtain ⟨token, htoken, htest⟩ := hgrown.exists_token binding hbinding
    rw [← hname, hdeclared.test_name hnode] at htest
    exact ⟨node, hnode, hname, token, htoken, htest⟩
  case edge => exact fun before binding after hbound => hgrown.exists_edge hbound
  case capture =>
    intro capture hcapture
    rw [hcaptures] at hcapture
    obtain ⟨⟨edge, arc⟩, hentry, hmap⟩ := List.mem_filterMap.mp hcapture
    obtain ⟨_, hname, rfl⟩ := Option.map_eq_some_iff.mp hmap
    obtain ⟨hedge, governor, hgovernor, harc, hrelation, hdependent⟩ :=
      hselects.of_mem_taken _ hentry
    exact ⟨edge, hedge, hname, governor, arc, hgovernor, harc, hdependent, rfl, hrelation⟩
  case whole =>
    -- Without optional edges no edge is set aside, so each governor is bound when its turn comes.
    intro hrequired
    have hanchor : ∀ name ∈ [pattern.anchor.name],
        (List.lookup name [(pattern.anchor.name, index)]).isSome := by
      simp
    have hmatched := hselects.forall_matched hrequired hdeclared.governed hanchor
    refine ⟨fun node hnode => ?_, hmatched⟩
    rcases hdeclared.connected node hnode with hname | ⟨edge, hedge, hname⟩
    · rw [hname]
      have hindex : [(pattern.anchor.name, index)].lookup pattern.anchor.name = some index := by
        simp
      exact Option.isSome_of_eq_some (hselects.lookup_last hindex)
    · obtain ⟨_, arc, -, -, -, hdependent⟩ := hmatched edge hedge
      rw [← hname]
      exact Option.isSome_of_eq_some hdependent

/-- The match in `eatsCake` is sound: the noun is bound after the verb, as its object, and the
relation captured is that of the edge between the two. -/
theorem sound_of_find?_eatsCake :
    Sound eatsCake verbAndNounPattern
      { bindings := [("verb", 1), ("noun", 2)], captures := [("role", "dobj")] } := by
  have hdeclare : declare "verb and noun" verbAndNoun = .ok verbAndNounPattern := by decide
  have hfind : verbAndNounPattern.find? eatsCake =
      some { bindings := [("verb", 1), ("noun", 2)], captures := [("role", "dobj")] } := by decide
  exact sound_of_find? hdeclare hfind

end Pattern

end DepNorm
