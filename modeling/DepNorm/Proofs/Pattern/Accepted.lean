import DepNorm.Proofs.Pattern.Declared

/-!
Which declarations are accepted, what pattern they make, and what is reported about the others. The
nodes and the edges of a pattern are those declared, in order, and an edge has the capture that is
declared last between it and the next edge. Of the faults the first one is reported: first the names
of the nodes are looked at, then the edges one by one, and in the end whether all nodes are reached.
-/

namespace DepNorm.Pattern

/-! ### What is declared -/

namespace Declaration

def node? : Declaration → Option PatternNode
  | node name test => some { name, test }
  | edge .. | capture _ => none

def isEdge : Declaration → Bool
  | edge .. => true
  | node .. | capture _ => false

def capture? : Declaration → Option String
  | capture name => some name
  | node .. | edge .. => none

end Declaration

def declaredNodes (declarations : List Declaration) : List PatternNode :=
  declarations.filterMap Declaration.node?

/-- The last capture before the next edge. -/
def lastCapture (declarations : List Declaration) : Option String :=
  ((declarations.takeWhile (!·.isEdge)).filterMap Declaration.capture?).getLast?

def declaredEdges : List Declaration → List PatternEdge
  | [] => []
  | .edge governor dependent relation optional :: rest =>
    { governor, dependent, relation, optional, capture := lastCapture rest } :: declaredEdges rest
  | .node .. :: rest | .capture _ :: rest => declaredEdges rest

/-- The edges, the last of which has another capture, if there is one. -/
def recapture (edges : List PatternEdge) : Option String → List PatternEdge
  | some name => onLast (fun edge => { edge with capture := some name }) edges
  | none => edges

theorem onLast_append_singleton (change : PatternEdge → PatternEdge) (edges : List PatternEdge)
    (edge : PatternEdge) : onLast change (edges ++ [edge]) = edges ++ [change edge] := by
  induction edges with
  | nil => rfl
  | cons first edges ih =>
      cases edges with
      | nil => rfl
      | cons second edges => exact congrArg (first :: ·) ih

theorem recapture_append_singleton (edges : List PatternEdge) (edge : PatternEdge)
    (hedge : edge.capture = none) (capture? : Option String) :
    recapture (edges ++ [edge]) capture? = edges ++ [{ edge with capture := capture? }] := by
  cases capture? with
  | none => rw [recapture, ← hedge]
  | some name => exact onLast_append_singleton _ edges edge

theorem onLast_onLast (change change' : PatternEdge → PatternEdge) (edges : List PatternEdge) :
    onLast change (onLast change' edges) = onLast (change ∘ change') edges := by
  rcases List.eq_nil_or_concat edges with rfl | ⟨edges, edge, rfl⟩
  · rfl
  · simp only [List.concat_eq_append, onLast_append_singleton, Function.comp_apply]

theorem recapture_recapture (edges : List PatternEdge) (name : String) (capture? : Option String) :
    recapture (recapture edges (some name)) capture? =
      recapture edges (some (capture?.getD name)) := by
  cases capture? with
  | none => rfl
  | some later => exact onLast_onLast _ _ edges

theorem lastCapture_cons_capture (name : String) (declarations : List Declaration) :
    lastCapture (.capture name :: declarations) =
      some ((lastCapture declarations).getD name) := by
  have hcons : ((Declaration.capture name :: declarations).takeWhile (!·.isEdge)).filterMap
      Declaration.capture? = name :: (declarations.takeWhile (!·.isEdge)).filterMap
        Declaration.capture? := rfl
  rw [lastCapture, hcons, List.getLast?_cons, lastCapture]

/-- Declarations are taken in one after the other. Those before the next edge may still change the
capture of the last edge so far. -/
theorem foldl_add (declarations : List Declaration) (draft : Draft) :
    declarations.foldl Draft.add draft =
      { nodes := draft.nodes ++ declaredNodes declarations
        edges := recapture draft.edges (lastCapture declarations) ++
          declaredEdges declarations } := by
  induction declarations generalizing draft with
  | nil => simp [declaredNodes, declaredEdges, lastCapture, recapture]
  | cons declaration declarations ih =>
      rw [List.foldl_cons, ih]
      cases declaration with
      | node name test =>
          simp [Draft.add, declaredNodes, declaredEdges, lastCapture, Declaration.node?,
            Declaration.isEdge, Declaration.capture?]
      | edge governor dependent relation optional =>
          rw [Draft.add, recapture_append_singleton _ _ rfl, List.append_assoc]
          rfl
      | capture name =>
          rw [lastCapture_cons_capture, ← recapture_recapture]
          rfl

theorem ofList_eq (declarations : List Declaration) : Draft.ofList declarations =
    { nodes := declaredNodes declarations, edges := declaredEdges declarations } := by
  rw [Draft.ofList, foldl_add]
  cases lastCapture declarations <;> rfl

/-! ### What is reported -/

section

variable {names declared start seen : List String} {name : String} {edge : PatternEdge}
  {edges : List PatternEdge} {fault : PatternFault}

theorem exists_append_cons_iff {α : Type} {P : List α → Prop} {a b : α} {items : List α} :
    (∃ before after, a :: items = before ++ b :: after ∧ P before) ↔
      (a = b ∧ P []) ∨ ∃ before after, items = before ++ b :: after ∧ P (a :: before) := by
  constructor
  · rintro ⟨before, after, hitems, hP⟩
    cases before with
    | nil => exact .inl ⟨(List.cons.inj hitems).1, hP⟩
    | cons c before =>
        obtain ⟨rfl, hrest⟩ := List.cons.inj hitems
        exact .inr ⟨before, after, hrest, hP⟩
  · rintro (⟨rfl, hP⟩ | ⟨before, after, rfl, hP⟩)
    · exact ⟨[], items, rfl, hP⟩
    · exact ⟨a :: before, after, rfl, hP⟩

theorem firstRepeated?_eq_some_iff : firstRepeated? seen names = some name ↔
    ∃ before after, names = before ++ name :: after ∧ before.Nodup ∧
      (∀ other ∈ before, other ∉ seen) ∧ (name ∈ seen ∨ name ∈ before) := by
  induction names generalizing seen with
  | nil => simp [firstRepeated?]
  | cons first names ih =>
      rw [firstRepeated?, exists_append_cons_iff]
      by_cases hseen : first ∈ seen
      · have hname : first = name → name ∈ seen := fun h => h ▸ hseen
        simpa [hseen] using hname
      · have hname : ¬ (first = name ∧ name ∈ seen) := by
          rintro ⟨rfl, hmem⟩
          exact hseen hmem
        have hcons (before : List String) :
            (before.Nodup ∧ (∀ other ∈ before, other ∉ first :: seen) ∧
                (name ∈ first :: seen ∨ name ∈ before)) ↔
              (first :: before).Nodup ∧ (∀ other ∈ first :: before, other ∉ seen) ∧
                (name ∈ seen ∨ name ∈ first :: before) := by
          grind
        simp only [hseen, if_false, ih, hcons]
        simp [hname]

/-- What is wrong with an edge, when the edges before it have led to some names. Whether its
governor is one of them is looked at last. -/
@[mk_iff]
inductive EdgeFault (declared : List String) (led : String → Prop) (edge : PatternEdge) :
    PatternFault → Prop
  | governor (hgovernor : edge.governor ∉ declared) :
      EdgeFault declared led edge (.undeclaredNode edge.governor)
  | dependent (hgovernor : edge.governor ∈ declared) (hdependent : edge.dependent ∉ declared) :
      EdgeFault declared led edge (.undeclaredNode edge.dependent)
  | unreached (hgovernor : edge.governor ∈ declared) (hdependent : edge.dependent ∈ declared)
      (hled : ¬ led edge.governor) :
      EdgeFault declared led edge (.unreachedGovernor edge.governor edge.dependent)

theorem reach_cons_eq_error_iff : reach declared start (edge :: edges) = .error fault ↔
    EdgeFault declared (LedTo start []) edge fault ∨
      (edge.governor ∈ declared ∧ edge.dependent ∈ declared ∧ edge.governor ∈ start) ∧
        reach declared (edge.dependent :: start) edges = .error fault := by
  rw [reach, edgeFault_iff]
  by_cases hgovernor : edge.governor ∈ declared
  · by_cases hdependent : edge.dependent ∈ declared
    · by_cases hstart : edge.governor ∈ start <;>
        simp [LedTo, hgovernor, hdependent, hstart, eq_comm]
    · simp [hgovernor, hdependent, eq_comm]
  · simp [hgovernor, eq_comm]

/-- The walk stops at the first edge with which something is wrong. -/
theorem reach_eq_error_iff : reach declared start edges = .error fault ↔
    ∃ edge before after, edges = before ++ edge :: after ∧ Walkable declared start before ∧
      EdgeFault declared (LedTo start before) edge fault := by
  induction edges generalizing start with
  | nil => simp [reach]
  | cons first edges ih =>
      have hled (before : List PatternEdge) :
          LedTo start (first :: before) = LedTo (first.dependent :: start) before :=
        funext fun _ => propext ledTo_cons
      rw [reach_cons_eq_error_iff, ih]
      simp only [exists_append_cons_iff, exists_or, exists_eq_left', walkable_nil, true_and,
        walkable_cons, hled]
      refine or_congr_right ⟨?_, ?_⟩
      · rintro ⟨hfirst, edge, before, after, hedges, hwalkable, hfault⟩
        exact ⟨edge, before, after, hedges, ⟨hfirst, hwalkable⟩, hfault⟩
      · rintro ⟨edge, before, after, hedges, ⟨hfirst, hwalkable⟩, hfault⟩
        exact ⟨hfirst, edge, before, after, hedges, hwalkable, hfault⟩

/-- The first fault in a declaration with the given names and edges. -/
inductive FirstFault (names : List String) (edges : List PatternEdge) : PatternFault → Prop
  | noNodes (hnames : names = []) : FirstFault names edges .noNodes
  /-- The name stands among the names before it, and no two of these are the same. -/
  | repeatedNode {before after : List String} {name : String}
      (hnames : names = before ++ name :: after) (hdistinct : before.Nodup)
      (hrepeated : name ∈ before) :
      FirstFault names edges (.repeatedNode name)
  | edge {before after : List PatternEdge} {edge : PatternEdge} {fault : PatternFault}
      (hnames : names ≠ []) (hdistinct : names.Nodup) (hedges : edges = before ++ edge :: after)
      (hwalkable : Walkable names (names.take 1) before)
      (hfault : EdgeFault names (LedTo (names.take 1) before) edge fault) :
      FirstFault names edges fault
  /-- No edge leads to the name, and each name before it is the first one or has an edge to it. -/
  | unconnectedNode {before after : List String} {name : String}
      (hnames : names = before ++ name :: after) (hdistinct : names.Nodup)
      (hwalkable : Walkable names (names.take 1) edges)
      (hconnected : ∀ other ∈ before, LedTo (names.take 1) edges other)
      (horphan : ¬ LedTo (names.take 1) edges name) :
      FirstFault names edges (.unconnectedNode name)

theorem find?_not_mem_eq_some_iff :
    names.find? (· ∉ (edges.map PatternEdge.dependent).reverse ++ start) = some name ↔
      ¬ LedTo start edges name ∧ ∃ before after, names = before ++ name :: after ∧
        ∀ other ∈ before, LedTo start edges other := by
  simp only [List.find?_eq_some_iff_append, decide_eq_true_eq, mem_reached_iff,
    Bool.not_eq_eq_eq_not, Bool.not_true, decide_eq_false_iff_not, not_not]

theorem ofDraft_eq_error_iff {draft : Draft} : ofDraft name draft = .error fault ↔
    FirstFault (draft.nodes.map PatternNode.name) draft.edges fault := by
  obtain ⟨nodes, edges⟩ := draft
  cases nodes with
  | nil =>
      constructor
      · intro h
        cases h
        exact .noNodes rfl
      · intro h
        cases h with
        | noNodes => rfl
        | repeatedNode hnames => simp at hnames
        | edge hnames => exact absurd rfl hnames
        | unconnectedNode hnames => simp at hnames
  | cons anchor others =>
      -- The checks stand in the order of the faults, each where those before it have passed.
      rw [ofDraft_cons]
      constructor
      · intro h
        split at h
        · next repeated hsome =>
          cases h
          obtain ⟨before, after, hnames, hdistinct, -, hrepeated⟩ :=
            firstRepeated?_eq_some_iff.mp hsome
          exact .repeatedNode hnames hdistinct (hrepeated.resolve_left List.not_mem_nil)
        · next hnone =>
          obtain ⟨hdistinct, -⟩ := firstRepeated?_eq_none_iff.mp hnone
          split at h
          · next hreach =>
            cases h
            obtain ⟨edge, before, after, hedges, hwalkable, hfault⟩ := reach_eq_error_iff.mp hreach
            exact .edge (List.cons_ne_nil _ _) hdistinct hedges hwalkable hfault
          · next reached hreach =>
            obtain ⟨hwalkable, rfl⟩ := reach_eq_ok_iff.mp hreach
            split at h
            · next orphan hsome =>
              cases h
              obtain ⟨horphan, before, after, hnames, hconnected⟩ :=
                find?_not_mem_eq_some_iff.mp hsome
              exact .unconnectedNode hnames hdistinct hwalkable hconnected horphan
            · cases h
      · intro h
        cases h with
        | noNodes hnames => cases hnames
        | repeatedNode hnames hdistinct hrepeated =>
            simp only [firstRepeated?_eq_some_iff.mpr
              ⟨_, _, hnames, hdistinct, fun _ _ => List.not_mem_nil, .inr hrepeated⟩]
        | edge _ hdistinct hedges hwalkable hfault =>
            simp only [firstRepeated?_eq_none_iff.mpr ⟨hdistinct, fun _ _ => List.not_mem_nil⟩,
              reach_eq_error_iff.mpr ⟨_, _, _, hedges, hwalkable, hfault⟩]
        | unconnectedNode hnames hdistinct hwalkable hconnected horphan =>
            simp only [firstRepeated?_eq_none_iff.mpr ⟨hdistinct, fun _ _ => List.not_mem_nil⟩,
              reach_eq_ok_iff.mpr ⟨hwalkable, rfl⟩,
              find?_not_mem_eq_some_iff.mpr ⟨horphan, _, _, hnames, hconnected⟩]

end

end Pattern

/-- The names that a fault is about. -/
def PatternFault.culprits : PatternFault → List String
  | noNodes => []
  | repeatedNode name | undeclaredNode name | unconnectedNode name => [name]
  | unreachedGovernor governor dependent => [governor, dependent]

theorem PatternFault.infix_message (fault : PatternFault) (pattern : String) {name : String}
    (hname : name ∈ pattern :: fault.culprits) :
    name.toList <:+: (fault.message pattern).toList := by
  have hlater {before after : List Char} (h : name.toList <:+: after) :
      name.toList <:+: before ++ after := List.infix_append_of_infix_right h
  cases fault with
  | noNodes =>
      simp only [message, toString, String.toList_append, List.append_assoc]
      obtain rfl := List.mem_singleton.mp hname
      exact List.infix_append' ..
  | repeatedNode other | undeclaredNode other | unconnectedNode other =>
      simp only [message, toString, String.toList_append, List.append_assoc]
      obtain rfl | rfl : name = pattern ∨ name = other := by simpa [culprits] using hname
      · exact List.infix_append' ..
      · exact hlater (hlater (List.infix_append' ..))
  | unreachedGovernor governor dependent =>
      simp only [message, toString, String.toList_append, List.append_assoc]
      obtain rfl | rfl | rfl : name = pattern ∨ name = governor ∨ name = dependent := by
        simpa [culprits] using hname
      · exact List.infix_append' ..
      · exact hlater (hlater (List.infix_append' ..))
      · exact hlater (hlater (hlater (hlater (List.infix_append' ..))))

namespace Pattern

/-- A pattern is made exactly from declarations that are acceptable: it has the nodes and the edges
declared, in order. Otherwise the first fault is reported, by the names it is about. -/
theorem declared_or_first_fault (name : String) (declarations : List Declaration) :
    let nodes := declaredNodes declarations
    let edges := declaredEdges declarations
    let names := nodes.map PatternNode.name
    ((∃ pattern, declare name declarations = .ok pattern) ↔ Acceptable names edges) ∧
      (∀ pattern, declare name declarations = .ok pattern →
        pattern.name = name ∧ pattern.nodes = nodes ∧ pattern.edges = edges) ∧
      ∀ fault, (declare name declarations = .error fault ↔ FirstFault names edges fault) ∧
        ∀ culprit ∈ name :: fault.culprits, culprit.toList <:+: (fault.message name).toList := by
  intro nodes edges names
  have hok {pattern : Pattern} : declare name declarations = .ok pattern ↔
      Acceptable names edges ∧
        pattern.name = name ∧ pattern.nodes = nodes ∧ pattern.edges = edges := by
    rw [declare, ofList_eq, ofDraft_eq_ok_iff]
  refine ⟨⟨fun ⟨pattern, h⟩ => (hok.mp h).1, fun haccept => ?_⟩, fun pattern h => (hok.mp h).2,
    fun fault => ⟨?_, fun culprit hculprit => fault.infix_message name hculprit⟩⟩
  · obtain ⟨anchor, others, hnodes⟩ :=
      List.exists_cons_of_ne_nil (mt List.map_eq_nil_iff.mpr haccept.exists_anchor)
    exact ⟨{ name, anchor, others, edges }, hok.mpr ⟨haccept, rfl, hnodes.symm, rfl⟩⟩
  · rw [declare, ofList_eq, ofDraft_eq_error_iff]

/-- The order of the edges counts, not only which there are. -/
example :
    declare "backwards" [.node "a" .any, .node "b" .any, .node "c" .any,
      .edge "b" "c" (.exact "dep") false, .edge "a" "b" (.exact "dep") false] =
    .error (.unreachedGovernor "b" "c") := rfl

end Pattern

end DepNorm
