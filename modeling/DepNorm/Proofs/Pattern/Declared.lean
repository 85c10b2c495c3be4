import DepNorm.Pattern.Declaration
import Mathlib.Data.List.Nodup

/-!
What declared patterns promise. A declaration is accepted exactly if it has a node, the names of its
nodes are distinct, its edges join its nodes and can be walked in order, each from the first node or
from the dependent of an edge before it, and this walk reaches every node.
-/

namespace DepNorm.Pattern

variable {names declared start last : List String} {name : String} {edge : PatternEdge}
  {edges : List PatternEdge}

/-! ### Repeated names -/

theorem firstRepeated?_eq_none_iff {seen : List String} :
    firstRepeated? seen names = none ↔ names.Nodup ∧ ∀ name ∈ names, name ∉ seen := by
  induction names generalizing seen with
  | nil => simp [firstRepeated?]
  | cons name names ih =>
      rw [firstRepeated?]
      split
      · next hseen => simp [hseen]
      · next hnew =>
        rw [ih, List.nodup_cons, List.forall_mem_cons]
        constructor
        · rintro ⟨hnodup, hunseen⟩
          refine ⟨⟨fun hmem => hunseen name hmem List.mem_cons_self, hnodup⟩, hnew, ?_⟩
          exact fun other hother hseen => hunseen other hother (List.mem_cons_of_mem _ hseen)
        · rintro ⟨⟨hmem, hnodup⟩, -, hunseen⟩
          refine ⟨hnodup, fun other hother hseen => ?_⟩
          rcases List.mem_cons.mp hseen with rfl | hseen
          · exact hmem hother
          · exact hunseen other hother hseen

/-! ### Walks along the edges -/

/-- The name is one of those to start from, or an edge leads to it. -/
def LedTo (start : List String) (edges : List PatternEdge) (name : String) : Prop :=
  name ∈ start ∨ ∃ edge ∈ edges, edge.dependent = name

/-- The edges can be walked in order: each joins names that are declared, and starts from one that
the edges before it have led to. -/
structure Walkable (declared start : List String) (edges : List PatternEdge) : Prop where
  declared : ∀ edge ∈ edges, edge.governor ∈ declared ∧ edge.dependent ∈ declared
  led : ∀ before edge after, edges = before ++ edge :: after → LedTo start before edge.governor

theorem ledTo_cons :
    LedTo start (edge :: edges) name ↔ LedTo (edge.dependent :: start) edges name := by
  simp only [LedTo, List.mem_cons, exists_eq_or_imp, eq_comm (a := name), or_left_comm, or_assoc]

theorem walkable_nil : Walkable declared start [] where
  declared _ hedge := absurd hedge List.not_mem_nil
  led before edge after hedges := by simp at hedges

theorem walkable_cons :
    Walkable declared start (edge :: edges) ↔
      (edge.governor ∈ declared ∧ edge.dependent ∈ declared ∧ edge.governor ∈ start) ∧
        Walkable declared (edge.dependent :: start) edges := by
  constructor
  · rintro ⟨hdeclared, hled⟩
    obtain ⟨⟨hgovernor, hdependent⟩, hdeclared⟩ := List.forall_mem_cons.mp hdeclared
    have hstart : edge.governor ∈ start := by simpa [LedTo] using hled [] edge edges rfl
    refine ⟨⟨hgovernor, hdependent, hstart⟩, hdeclared, fun before other after hedges => ?_⟩
    exact ledTo_cons.mp (hled (edge :: before) other after (congrArg (edge :: ·) hedges))
  · rintro ⟨⟨hgovernor, hdependent, hstart⟩, hdeclared, hled⟩
    refine ⟨List.forall_mem_cons.mpr ⟨⟨hgovernor, hdependent⟩, hdeclared⟩, ?_⟩
    intro before other after hedges
    cases before with
    | nil =>
        cases hedges
        exact .inl hstart
    | cons first before =>
        obtain ⟨rfl, hrest⟩ := List.cons.inj hedges
        exact ledTo_cons.mpr (hled before other after hrest)

/-- The walk succeeds where the edges can be walked, and remembers where they have led. -/
theorem reach_eq_ok_iff : reach declared start edges = .ok last ↔
    Walkable declared start edges ∧ (edges.map PatternEdge.dependent).reverse ++ start = last := by
  induction edges generalizing start with
  | nil => simp [reach, walkable_nil]
  | cons edge edges ih =>
      have hlast : ((edge :: edges).map PatternEdge.dependent).reverse ++ start =
          (edges.map PatternEdge.dependent).reverse ++ edge.dependent :: start := by simp
      rw [walkable_cons, hlast, and_assoc, ← ih, reach]
      by_cases hgovernor : edge.governor ∈ declared
      · by_cases hdependent : edge.dependent ∈ declared
        · by_cases hstart : edge.governor ∈ start <;> simp [hgovernor, hdependent, hstart]
        · simp [hgovernor, hdependent]
      · simp [hgovernor]

theorem mem_reached_iff :
    name ∈ (edges.map PatternEdge.dependent).reverse ++ start ↔ LedTo start edges name := by
  simp [LedTo, or_comm]

/-! ### Accepted patterns -/

/-- The names and edges make a pattern. The first name is that of the anchor. -/
structure Acceptable (names : List String) (edges : List PatternEdge) : Prop where
  exists_anchor : names ≠ []
  names_distinct : names.Nodup
  walkable : Walkable names (names.take 1) edges
  connected : ∀ name ∈ names, LedTo (names.take 1) edges name

theorem ofDraft_cons (name : String) (anchor : PatternNode) (others : List PatternNode)
    (edges : List PatternEdge) :
    let names := (anchor :: others).map PatternNode.name
    ofDraft name { nodes := anchor :: others, edges } =
      match firstRepeated? [] names with
      | some repeated => .error (.repeatedNode repeated)
      | none =>
        match reach names (names.take 1) edges with
        | .error fault => .error fault
        | .ok reached =>
          match names.find? (· ∉ reached) with
          | some orphan => .error (.unconnectedNode orphan)
          | none => .ok { name, anchor, others, edges } := by
  intro names
  rw [ofDraft]
  dsimp only
  cases firstRepeated? [] names with
  | some repeated => rfl
  | none =>
      change (reach names (names.take 1) edges >>= _) = _
      cases reach names (names.take 1) edges with
      | error fault => rfl
      | ok reached =>
          dsimp only [names, bind, Except.bind]
          cases ((anchor :: others).map PatternNode.name).find? (· ∉ reached) <;> rfl

theorem find?_not_mem_eq_none_iff : names.find? (· ∉ (edges.map PatternEdge.dependent).reverse ++
    start) = none ↔ ∀ name ∈ names, LedTo start edges name := by
  simp only [List.find?_eq_none, decide_eq_true_eq, not_not, mem_reached_iff]

theorem ofDraft_eq_ok_iff {draft : Draft} {pattern : Pattern} : ofDraft name draft = .ok pattern ↔
    Acceptable (draft.nodes.map PatternNode.name) draft.edges ∧
      pattern.name = name ∧ pattern.nodes = draft.nodes ∧ pattern.edges = draft.edges := by
  obtain ⟨nodes, edges⟩ := draft
  cases nodes with
  | nil => exact iff_of_false nofun fun ⟨haccept, _⟩ => haccept.exists_anchor rfl
  | cons anchor others =>
      rw [ofDraft_cons]
      constructor
      · intro h
        split at h
        · cases h
        · next hrepeated =>
          split at h
          · cases h
          · next reached hreach =>
            obtain ⟨hwalkable, rfl⟩ := reach_eq_ok_iff.mp hreach
            split at h
            · cases h
            · next horphan =>
              cases h
              exact ⟨⟨List.cons_ne_nil _ _, (firstRepeated?_eq_none_iff.mp hrepeated).1, hwalkable,
                find?_not_mem_eq_none_iff.mp horphan⟩, rfl, rfl, rfl⟩
      · rintro ⟨⟨-, hdistinct, hwalkable, hconnected⟩, rfl, hnodes, rfl⟩
        obtain ⟨rfl, rfl⟩ := List.cons.inj hnodes
        simp only [firstRepeated?_eq_none_iff.mpr ⟨hdistinct, fun _ _ => List.not_mem_nil⟩,
          reach_eq_ok_iff.mpr ⟨hwalkable, rfl⟩, find?_not_mem_eq_none_iff.mpr hconnected]

/-! ### What an accepted pattern promises -/

/-- Each edge starts from a name that has been reached by then. -/
def Governed : List String → List PatternEdge → Prop
  | _, [] => True
  | reached, edge :: edges => edge.governor ∈ reached ∧ Governed (edge.dependent :: reached) edges

theorem Walkable.governed (h : Walkable declared start edges) : Governed start edges := by
  induction edges generalizing start with
  | nil => trivial
  | cons edge edges ih =>
      obtain ⟨⟨-, -, hstart⟩, hrest⟩ := walkable_cons.mp h
      exact ⟨hstart, ih hrest⟩

/-- What an accepted pattern promises. -/
structure WellDeclared (pattern : Pattern) : Prop where
  names_distinct : (pattern.nodes.map PatternNode.name).Nodup
  governed : Governed [pattern.anchor.name] pattern.edges
  dependent_declared : ∀ edge ∈ pattern.edges,
    edge.dependent ∈ pattern.nodes.map PatternNode.name
  connected : ∀ node ∈ pattern.nodes, node.name = pattern.anchor.name ∨
    ∃ edge ∈ pattern.edges, edge.dependent = node.name

theorem wellDeclared_of_ofDraft {name : String} {draft : Draft} {pattern : Pattern}
    (h : ofDraft name draft = .ok pattern) : pattern.WellDeclared := by
  obtain ⟨haccept, -, hnodes, hedges⟩ := ofDraft_eq_ok_iff.mp h
  rw [← hnodes, ← hedges] at haccept
  obtain ⟨-, hdistinct, hwalkable, hconnected⟩ := haccept
  refine ⟨hdistinct, hwalkable.governed, fun edge hedge => (hwalkable.declared edge hedge).2, ?_⟩
  intro node hnode
  exact (hconnected _ (List.mem_map_of_mem hnode)).imp_left List.mem_singleton.mp

theorem wellDeclared_of_declare {name : String} {declarations : List Declaration}
    {pattern : Pattern} (h : declare name declarations = .ok pattern) : pattern.WellDeclared :=
  wellDeclared_of_ofDraft h

theorem governed_of_declare {name : String} {declarations : List Declaration} {pattern : Pattern}
    (h : declare name declarations = .ok pattern) :
    Governed [pattern.anchor.name] pattern.edges :=
  (wellDeclared_of_declare h).governed

theorem test_anchor (pattern : Pattern) :
    pattern.test pattern.anchor.name = pattern.anchor.test := by
  simp [test, nodes]

theorem WellDeclared.test_name {pattern : Pattern} (h : pattern.WellDeclared) {node : PatternNode}
    (hnode : node ∈ pattern.nodes) : pattern.test node.name = node.test := by
  have hsome : (pattern.nodes.find? fun other => other.name == node.name).isSome :=
    List.find?_isSome.mpr ⟨node, hnode, beq_self_eq_true _⟩
  obtain ⟨other, hfind⟩ := Option.isSome_iff_exists.mp hsome
  have hname : other.name = node.name := by simpa using List.find?_some hfind
  obtain rfl : other = node :=
    List.inj_on_of_nodup_map h.names_distinct (List.mem_of_find?_eq_some hfind) hnode hname
  rw [test, hfind, Option.map_some, Option.getD_some]

end DepNorm.Pattern
