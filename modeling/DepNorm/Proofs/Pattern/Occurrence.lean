import DepNorm.Proofs.Graph.Keys
import DepNorm.Proofs.Pattern.Sound

/-!
Matches in a dependency graph. A match vouches for edges of the graph: for each edge of the pattern
that has to be matched there is one between the tokens bound to its ends, though it may be a
secondary edge, since a search does not see the difference.
-/

namespace DepNorm

theorem Graph.mem_view_outgoing {graph : Graph} {governor : Nat} {arc : Arc} :
    arc ∈ graph.view.outgoing governor ↔ graph.Joins governor arc.relation arc.dependent := by
  constructor
  · intro h
    obtain ⟨edge, hedge, rfl⟩ := List.mem_map.mp h
    obtain ⟨hmem, rfl⟩ := mem_outgoing.mp hedge
    exact joins_of_mem_edges hmem
  · rintro ⟨extra, edge, hedge, hkey⟩
    obtain ⟨rfl, hdependent, hrelation, -⟩ := EdgeKey.mk.inj hkey
    refine List.mem_map.mpr ⟨edge, mem_outgoing.mpr ⟨hedge, rfl⟩, ?_⟩
    rw [Edge.arc, hdependent, hrelation]

namespace Pattern

/-- Every match has to match the edge, since it is required and its governor is reached over
required edges. -/
def Asks (pattern : Pattern) (edge : PatternEdge) : Prop :=
  ∃ before after, pattern.edges = before ++ edge :: after ∧ edge.optional = false ∧
    edge.governor ∈ requiredReach [pattern.anchor.name] before

variable {pattern : Pattern} {view : View} {graph : Graph} {found : Match}

theorem grown_of_find? (hgoverned : Governed [pattern.anchor.name] pattern.edges)
    (hfind : pattern.find? view = some found) : Grown view pattern found.bindings := by
  obtain ⟨choices, taken, hfirst, -⟩ := exists_first_of_find?_eq_some hgoverned hfind
  exact hfirst.valid.grown

theorem ne_of_node? (hgoverned : Governed [pattern.anchor.name] pattern.edges)
    (hfind : pattern.find? view = some found) {name other : String} (hne : name ≠ other)
    {index index' : Nat} (hname : found.node? name = some index)
    (hother : found.node? other = some index') : index ≠ index' := by
  rintro rfl
  have hdistinct := (grown_of_find? hgoverned hfind).indices_distinct
  have heq := List.inj_on_of_nodup_map hdistinct (Bindings.mem_of_lookup hname)
    (Bindings.mem_of_lookup hother) rfl
  exact hne (congrArg Prod.fst heq)

theorem nodup_of_node? (hgoverned : Governed [pattern.anchor.name] pattern.edges)
    (hfind : pattern.find? view = some found) {names : List String} {indices : List Nat}
    (hnames : names.Nodup) (hbound : names.map found.node? = indices.map some) :
    indices.Nodup := by
  refine List.Nodup.of_map some (hbound ▸ hnames.map_on fun name hname other _ heq => ?_)
  have hmem : found.node? name ∈ indices.map some := hbound ▸ List.mem_map_of_mem hname
  obtain ⟨index, -, hindex⟩ := List.mem_map.mp hmem
  by_contra hne
  exact ne_of_node? hgoverned hfind hne hindex.symm (heq ▸ hindex.symm) rfl

theorem matched_of_find? (hgoverned : Governed [pattern.anchor.name] pattern.edges)
    (hfind : pattern.find? view = some found) {edge : PatternEdge} (hasks : pattern.Asks edge) :
    Matched view found.bindings edge := by
  obtain ⟨choices, taken, hfirst, -⟩ := exists_first_of_find?_eq_some hgoverned hfind
  obtain ⟨start, choices, index, rfl, hselects⟩ := hfirst.valid.exists_selects
  obtain ⟨before, after, hedges, hrequired, hreach⟩ := hasks
  rw [hedges] at hselects
  refine hselects.matched_of_requiredReach (fun name hname => ?_) hrequired hreach
  obtain rfl := List.mem_singleton.mp hname
  simp

/-- The graph has an edge between the tokens bound to the ends of an edge that has to be matched. -/
theorem joins_of_find? (hgoverned : Governed [pattern.anchor.name] pattern.edges)
    (hfind : pattern.find? graph.view = some found) {governor dependent relation : String}
    (hasks : pattern.Asks { governor, dependent, relation := .exact relation }) :
    ∃ high low, found.node? governor = some high ∧ found.node? dependent = some low ∧
      graph.Joins high relation low := by
  obtain ⟨high, arc, hhigh, harc, hrelation, hlow⟩ := matched_of_find? hgoverned hfind hasks
  have heq : arc.relation = relation := by simpa [RelationTest.holds] using hrelation
  exact ⟨high, arc.dependent, hhigh, hlow, heq ▸ Graph.mem_view_outgoing.mp harc⟩

theorem joins_of_relation? (hgoverned : Governed [pattern.anchor.name] pattern.edges)
    (hfind : pattern.find? graph.view = some found) {capture relation : String}
    (hrelation : found.relation? capture = some relation) :
    ∃ edge ∈ pattern.edges, edge.capture = some capture ∧
      ∃ high low, found.node? edge.governor = some high ∧ found.node? edge.dependent = some low ∧
        graph.Joins high relation low := by
  obtain ⟨choices, taken, hfirst, hcaptures⟩ := exists_first_of_find?_eq_some hgoverned hfind
  obtain ⟨start, choices, index, rfl, hselects⟩ := hfirst.valid.exists_selects
  rw [Match.relation?, hcaptures, lookup_captured, Option.map_eq_some_iff] at hrelation
  obtain ⟨⟨edge, arc⟩, hentry, rfl⟩ := hrelation
  obtain ⟨hedge, governor, hgovernor, harc, -, hdependent⟩ :=
    hselects.of_mem_taken _ (List.mem_of_find?_eq_some hentry)
  exact ⟨edge, hedge, by simpa using List.find?_some hentry, governor, arc.dependent, hgovernor,
    hdependent, Graph.mem_view_outgoing.mp harc⟩

end Pattern

end DepNorm
