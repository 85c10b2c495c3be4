import DepNorm.Normalize
import DepNorm.Proofs.Graph.Agree
import DepNorm.Proofs.Graph.Renamed
import DepNorm.Proofs.Pattern.Renamed

/-!
The rules on two graphs side by side. A simulation relates graphs in which a rule sees the same
things, but for the names of the tokens, and which a change takes to related graphs again. Then all
that the rules do is the same on both sides: this is shown edit by edit, and in the end of a whole
normalization.
-/

namespace DepNorm

open DepNorm.Graph EditM

namespace Splice

/-- The last part of the collapse of a clause. -/
def reattach (root verb object : Nat) (relation : String) : EditM Unit := do
  let detached ← detachAll verb
  putEdge (.made root object relation)
  putEdge (.made object verb "mark")
  detached.forM fun edge => putEdge (.made root edge.dependent edge.relation)

theorem collapse_eq (root verb preposition object : Nat) (relation : String) :
    collapse root verb preposition object relation = (do
      discard <| takeEdge .clause { governor := root, dependent := verb, relation }
      discard <| takeEdge .clause { governor := verb, dependent := preposition, relation := "mark" }
      discard <| takeEdge .clause { governor := verb, dependent := object, relation := "nsubj" }
      let token ← takeToken .clause preposition
      reattach root verb object (prepositionRelation token.word)) := rfl

end Splice

/-! ### Correspondences -/

/-- Related edges have the same key, and so has what the rules make of them. In related graphs a
rule finds and sees the same, in the same order, and what changes one does the same to the other. -/
structure Correspondence where
  /-- The names of the tokens in the second graph. -/
  index : Nat → Nat
  edge : Edge → Edge → Prop
  graph : Graph → Graph → Prop
  strictMono : StrictMono index
  key_eq {e e' : Edge} (h : edge e e') : e'.key = e.key.rename index
  made (governor dependent : Nat) (relation : String) :
    edge (.made governor dependent relation) (.made (index governor) (index dependent) relation)
  relabel {e e' : Edge} (h : edge e e') (relation : String) :
    edge (e.relabel relation) (e'.relabel relation)
  turned {e e' : Edge} (h : edge e e') (root : Nat) :
    edge { Edge.made e.dependent root "op" with weight := e.weight }
      { Edge.made e'.dependent (index root) "op" with weight := e'.weight }
  wellFormed {g g' : Graph} (h : graph g g') : g.WellFormed ∧ g'.WellFormed
  indices {g g' : Graph} (h : graph g g') : g'.indices = g.indices.map index
  roots {g g' : Graph} (h : graph g g') : g'.roots = g.roots.map index
  token? {g g' : Graph} (h : graph g g') (name : Nat) :
    Option.Rel Token.Like (g.token? name) (g'.token? (index name))
  found {g g' : Graph} (h : graph g g') (pattern : Pattern) :
    pattern.find? g'.view = (pattern.find? g.view).map (Match.rename index)
  hasDependents {g g' : Graph} (h : graph g g') (name : Nat) :
    g'.hasDependents (index name) = g.hasDependents name
  sortedEdges {g g' : Graph} (h : graph g g') : List.Forall₂ edge g.sortedEdges g'.sortedEdges
  outgoing {g g' : Graph} (h : graph g g') (name : Nat) :
    List.Forall₂ edge (g.outgoing name) (g'.outgoing (index name))
  incoming {g g' : Graph} (h : graph g g') (name : Nat) :
    List.Forall₂ edge (g.incoming name) (g'.incoming (index name))
  takeEdge? {g g' : Graph} (h : graph g g') (key : EdgeKey) :
    Option.Rel (fun taken taken' => edge taken.1 taken'.1 ∧ graph taken.2 taken'.2)
      (g.takeEdge? key) (g'.takeEdge? (key.rename index))
  addEdge {g g' next : Graph} {e e' : Edge} {number : Nat} (h : graph g g') (he : edge e e')
    (hadd : g.addEdge e = .ok (number, next)) :
    ∃ number' next', g'.addEdge e' = .ok (number', next') ∧ graph next next'
  eraseToken {g g' : Graph} (h : graph g g') (name : Nat) :
    graph (g.eraseToken name) (g'.eraseToken (index name))
  eraseRoot {g g' : Graph} (h : graph g g') (name : Nat) :
    graph (g.eraseRoot name) (g'.eraseRoot (index name))
  markRoot {g g' : Graph} (h : graph g g') {name : Nat} (hname : name ∈ g) :
    graph (g.markRoot name) (g'.markRoot (index name))

namespace Correspondence

variable {α α' β β' : Type} (sim : Correspondence) {g g' : Graph}

/-- The edits end in related values and graphs, or in faults that only differ in the names of the
tokens. -/
def Agrees (value : α → α' → Prop) (edit : EditM α) (edit' : EditM α') (g g' : Graph) : Prop :=
  Agree edit edit' g g' (fun a next a' next' => value a a' ∧ sim.graph next next')
    fun fault fault' => fault' = fault.rename sim.index

variable {sim} {value : α → α' → Prop} {value' : β → β' → Prop}

theorem Agrees.pure {a : α} {a' : α'} (hvalue : value a a') (h : sim.graph g g') :
    sim.Agrees value (Pure.pure a) (Pure.pure a') g g' := Agree.pure ⟨hvalue, h⟩

theorem Agrees.get_bind {next : Graph → EditM α} {next' : Graph → EditM α'}
    (h : sim.Agrees value (next g) (next' g') g g') :
    sim.Agrees value (get >>= next) (get >>= next') g g' := Agree.get_bind h

theorem Agrees.bind {edit : EditM β} {edit' : EditM β'} {next : β → EditM α} {next' : β' → EditM α'}
    (h : sim.Agrees value' edit edit' g g')
    (hnext : ∀ b b' changed changed', value' b b' → sim.graph changed changed' →
      sim.Agrees value (next b) (next' b') changed changed') :
    sim.Agrees value (edit >>= next) (edit' >>= next') g g' :=
  Agree.bind (Agree.imp h fun b changed b' changed' ⟨hvalue, hgraph⟩ =>
    hnext b b' changed changed' hvalue hgraph)

theorem Agrees.discard {edit : EditM β} {edit' : EditM β'} (h : sim.Agrees value' edit edit' g g') :
    sim.Agrees Eq (Functor.discard edit) (Functor.discard edit') g g' :=
  Agree.discard (Agree.imp h fun _ _ _ _ hnext => ⟨rfl, hnext.2⟩)

theorem Agrees.mapM (value' : β → β' → Prop) (value : α → α' → Prop) {edit : β → EditM α}
    {edit' : β' → EditM α'}
    (hstep : ∀ b b' g g', value' b b' → sim.graph g g' → sim.Agrees value (edit b) (edit' b') g g')
    {items : List β} {items' : List β'} (hitems : List.Forall₂ value' items items')
    (h : sim.graph g g') :
    sim.Agrees (List.Forall₂ value) (items.mapM edit) (items'.mapM edit') g g' :=
  Agree.mapM value' value sim.graph hstep hitems h

theorem Agrees.forM (value' : β → β' → Prop) {edit : β → EditM PUnit} {edit' : β' → EditM PUnit}
    (hstep : ∀ b b' g g', value' b b' → sim.graph g g' → sim.Agrees Eq (edit b) (edit' b') g g')
    {items : List β} {items' : List β'} (hitems : List.Forall₂ value' items items')
    (h : sim.graph g g') : sim.Agrees Eq (items.forM edit) (items'.forM edit') g g' := by
  refine (Agree.forM value' sim.graph (fun b b' g g' hitem hgraph => ?_) hitems h).imp
    fun _ _ _ _ hnext => ⟨rfl, hnext⟩
  exact (hstep b b' g g' hitem hgraph).imp fun _ _ _ _ hnext => hnext.2

/-! ### Elementary edits -/

theorem mem_iff (h : sim.graph g g') {name : Nat} : sim.index name ∈ g' ↔ name ∈ g := by
  rw [← mem_indices, ← mem_indices, sim.indices h,
    List.mem_map_of_injective sim.strictMono.injective]

theorem any_token? (h : sim.graph g g') {test : Token → Bool}
    (htest : ∀ {token other : Token}, token.Like other → test other = test token) (name : Nat) :
    (g'.token? (sim.index name)).any test = (g.token? name).any test :=
  Token.Like.any_eq (sim.token? h name) htest

theorem agrees_takeEdge (h : sim.graph g g') (rule : Rule) (key : EdgeKey) :
    sim.Agrees sim.edge (takeEdge rule key) (takeEdge rule (key.rename sim.index)) g g' := by
  have htaken := sim.takeEdge? h key
  unfold Agrees Agree
  rw [on_takeEdge, on_takeEdge]
  generalize g.takeEdge? key = taken?, g'.takeEdge? (key.rename sim.index) = taken?' at htaken
  cases htaken with
  | none => rfl
  | some htaken => exact htaken

theorem agrees_takeToken (h : sim.graph g g') (rule : Rule) (name : Nat) :
    sim.Agrees Token.Like (takeToken rule name) (takeToken rule (sim.index name)) g g' := by
  have hlike := sim.token? h name
  unfold Agrees Agree
  rw [on_takeToken, on_takeToken, Graph.takeToken?, Graph.takeToken?]
  generalize g.token? name = token?, g'.token? (sim.index name) = other? at hlike
  cases hlike with
  | none => rfl
  | some hlike => exact ⟨hlike, sim.eraseToken h name⟩

theorem addEdge_eq_error (h : sim.graph g g') {e e' : Edge} (he : sim.edge e e') {fault : Fault}
    (hadd : g.addEdge e = .error fault) : g'.addEdge e' = .error (fault.rename sim.index) := by
  have hkey := sim.key_eq he
  have hgovernor : e'.governor = sim.index e.governor := congrArg EdgeKey.governor hkey
  have hdependent : e'.dependent = sim.index e.dependent := congrArg EdgeKey.dependent hkey
  rcases addEdge_error_cases hadd with ⟨hmissing, rfl⟩ | ⟨hpresent, hmissing, rfl⟩
  · simp [Graph.addEdge, hgovernor, mem_iff h, hmissing, Fault.rename]
  · simp [Graph.addEdge, hgovernor, hdependent, mem_iff h, hpresent, hmissing, Fault.rename]

theorem agrees_putEdge (h : sim.graph g g') {e e' : Edge} (he : sim.edge e e') :
    sim.Agrees Eq (putEdge e) (putEdge e') g g' := by
  unfold Agrees Agree
  rw [on_putEdge, on_putEdge]
  cases hadd : g.addEdge e with
  | error fault =>
      simp only [addEdge_eq_error h he hadd]
  | ok added =>
      obtain ⟨number', next', hadd', hnext⟩ := sim.addEdge h he hadd
      simpa only [hadd', true_and] using hnext

theorem agrees_moveRoot (h : sim.graph g g') (old new : Nat) :
    sim.Agrees Eq (moveRoot old new) (moveRoot (sim.index old) (sim.index new)) g g' := by
  have hrest := sim.eraseRoot h old
  unfold Agrees Agree
  simp only [on_moveRoot, addRoot, mem_iff hrest]
  by_cases hnew : new ∈ g.eraseRoot old
  · simpa only [if_pos hnew, true_and] using sim.markRoot hrest hnew
  · simp only [if_neg hnew]
    rfl

/-! ### The rule for quantities -/

theorem forall₂_key {edges edges' : List Edge} (h : List.Forall₂ sim.edge edges edges') :
    List.Forall₂ (fun key key' => key' = key.rename sim.index) (edges.map Edge.key)
      (edges'.map Edge.key) := by
  rw [List.forall₂_map_left_iff, List.forall₂_map_right_iff]
  exact h.imp fun _ _ => sim.key_eq

theorem forall₂_index (names : List Nat) :
    List.Forall₂ (fun name name' => name' = sim.index name) names (names.map sim.index) :=
  List.forall₂_map_right_iff.mpr (List.forall₂_same.mpr fun _ _ => rfl)

theorem relation_eq {e e' : Edge} (h : sim.edge e e') : e'.relation = e.relation :=
  congrArg EdgeKey.relation (sim.key_eq h)

theorem dependent_eq {e e' : Edge} (h : sim.edge e e') : e'.dependent = sim.index e.dependent :=
  congrArg EdgeKey.dependent (sim.key_eq h)

theorem agrees_lowerQuantity (h : sim.graph g g') (relation : String)
    (verb quantity object : Nat) :
    sim.Agrees Eq (Splice.lowerQuantity relation verb quantity object)
      (Splice.lowerQuantity relation (sim.index verb) (sim.index quantity) (sim.index object))
      g g' := by
  unfold Splice.lowerQuantity
  refine (agrees_takeEdge h .quantity _).discard.bind fun _ _ _ _ _ h => ?_
  refine (agrees_takeEdge h .quantity _).discard.bind fun _ _ _ _ _ h => ?_
  refine (agrees_putEdge h (sim.made verb object relation)).bind fun _ _ _ _ _ h => ?_
  exact agrees_putEdge h (sim.made object quantity "amod")

theorem agrees_lowerFirst (h : sim.graph g g') (pattern : Pattern) (quantity relation : String) :
    sim.Agrees Eq (Splice.lowerFirst pattern quantity relation)
      (Splice.lowerFirst pattern quantity relation) g g' := by
  unfold Splice.lowerFirst
  refine .get_bind ?_
  rw [sim.found h pattern]
  cases pattern.find? g.view with
  | none => exact .pure rfl h
  | some found =>
      simp only [Option.map_some, Match.node?_rename]
      cases found.node? "verb" with
      | none => exact .pure rfl h
      | some verb =>
          cases found.node? quantity with
          | none => exact .pure rfl h
          | some head =>
              cases found.node? "obj" with
              | none => exact .pure rfl h
              | some object =>
                  refine (agrees_lowerQuantity h relation verb head object).bind
                    fun _ _ _ _ _ h => ?_
                  exact .pure rfl h

theorem forall₂_numeralsOne (h : sim.graph g g') :
    List.Forall₂ sim.edge (Splice.numeralsOne g) (Splice.numeralsOne g') := by
  unfold Splice.numeralsOne
  refine forall₂_filter (sim.sortedEdges h) fun {e e'} he => ?_
  rw [relation_eq he, dependent_eq he, any_token? h fun hlike => by rw [hlike.word]]

theorem agrees_onesToDeterminers (h : sim.graph g g') :
    sim.Agrees Eq Splice.onesToDeterminers Splice.onesToDeterminers g g' := by
  unfold Splice.onesToDeterminers
  refine .get_bind ?_
  refine (Agrees.mapM (fun key key' => key' = key.rename sim.index) sim.edge
    (fun key _ _ _ hkey h => hkey ▸ agrees_takeEdge h .quantity key)
      (forall₂_key (forall₂_numeralsOne h)) h).bind fun edges edges' _ _ hedges h => ?_
  refine (Agrees.forM sim.edge (fun _ _ _ _ he h => agrees_putEdge h (sim.relabel he "det"))
    hedges h).bind fun _ _ _ _ _ h => ?_
  exact .pure hedges.length_eq h

theorem agrees_quantity (h : sim.graph g g') :
    sim.Agrees Eq Splice.quantity Splice.quantity g g' := by
  unfold Splice.quantity
  refine (agrees_lowerFirst h _ _ _).bind fun lots _ _ _ hlots h => ?_
  refine (agrees_lowerFirst h _ _ _).bind fun numerals _ _ _ hnumerals h => ?_
  refine (agrees_onesToDeterminers h).bind fun ones _ _ _ hones h => ?_
  subst hlots hnumerals hones
  exact .pure rfl h

/-! ### The rule for operators at the root -/

theorem rel_heirEdge? (h : sim.graph g g') (root : Nat) :
    Option.Rel sim.edge (Splice.heirEdge? g root) (Splice.heirEdge? g' (sim.index root)) := by
  have hout := sim.outgoing h root
  refine rel_orElse (rel_find? hout fun he => ?_) (rel_head? hout)
  simp only [dependent_eq he, sim.strictMono.lt_iff_lt]

theorem agrees_replaceRoot (h : sim.graph g g') (root : Nat) :
    sim.Agrees Eq (Splice.replaceRoot root) (Splice.replaceRoot (sim.index root)) g g' := by
  unfold Splice.replaceRoot
  refine .get_bind ?_
  rw [any_token? h Token.Like.isOperator]
  split
  · have hheir := rel_heirEdge? h root
    generalize Splice.heirEdge? g root = heir?,
      Splice.heirEdge? g' (sim.index root) = heir?' at hheir
    cases hheir with
    | none => exact .pure rfl h
    | @some e e' he =>
        simp only [sim.key_eq he, dependent_eq he]
        refine (agrees_takeEdge h .operatorRoot e.key).discard.bind fun _ _ _ _ _ h => ?_
        refine (agrees_moveRoot h root e.dependent).bind fun _ _ _ _ _ h => ?_
        have hturned := sim.turned he root
        rw [dependent_eq he] at hturned
        refine (agrees_putEdge h hturned).bind fun _ _ _ _ _ h => ?_
        exact .pure rfl h
  · exact .pure rfl h

theorem agrees_operatorRoot (h : sim.graph g g') :
    sim.Agrees Eq Splice.operatorRoot Splice.operatorRoot g g' := by
  unfold Splice.operatorRoot
  refine .get_bind ?_
  rw [sim.roots h]
  refine (Agrees.mapM (fun root root' => root' = sim.index root) Eq
    (fun root _ _ _ hroot h => hroot ▸ agrees_replaceRoot h root) (forall₂_index g.roots) h).bind
        fun replaced replaced' _ _ hreplaced h => ?_
  rw [List.forall₂_eq_eq_eq] at hreplaced
  exact .pure (congrArg (List.count true) hreplaced) h

/-! ### The rule for determiners -/

theorem leavesWhere_eq (h : sim.graph g g') {test : Token → Bool}
    (htest : ∀ {token other : Token}, token.Like other → test other = test token) :
    Splice.leavesWhere g' test = (Splice.leavesWhere g test).map sim.index := by
  have hleaf (name : Nat) : ((g'.token? (sim.index name)).any test && !g'.hasDependents
      (sim.index name)) = ((g.token? name).any test && !g.hasDependents name) := by
    rw [any_token? h htest, sim.hasDependents h]
  simp only [Splice.leavesWhere, leaves, List.filter_filter, sim.indices h, List.filter_map,
    Function.comp_def, hleaf]

theorem agrees_toDeterminer (h : sim.graph g g') (key : EdgeKey) :
    sim.Agrees Eq (Splice.toDeterminer key) (Splice.toDeterminer (key.rename sim.index)) g g' := by
  unfold Splice.toDeterminer
  refine (agrees_takeEdge h .determiner key).bind fun e e' _ _ he h => ?_
  exact agrees_putEdge h (sim.relabel he "det")

theorem agrees_allToDeterminer (h : sim.graph g g') (name : Nat) :
    sim.Agrees (List.Forall₂ fun key key' => key' = key.rename sim.index)
      (Splice.allToDeterminer name) (Splice.allToDeterminer (sim.index name)) g g' := by
  unfold Splice.allToDeterminer
  refine .get_bind ?_
  have hedges : List.Forall₂ sim.edge ((g.incoming name).filter (·.relation != "det"))
      ((g'.incoming (sim.index name)).filter (·.relation != "det")) :=
    forall₂_filter (sim.incoming h name) fun he => by rw [relation_eq he]
  have hkeys := forall₂_key hedges
  refine (Agrees.forM (fun key key' => key' = key.rename sim.index)
    (fun key _ _ _ hkey h => hkey ▸ agrees_toDeterminer h key) hkeys h).bind fun _ _ _ _ _ h => ?_
  exact .pure hkeys h

theorem agrees_determiner (h : sim.graph g g') :
    sim.Agrees Eq Splice.determiner Splice.determiner g g' := by
  unfold Splice.determiner
  refine .get_bind ?_
  rw [leavesWhere_eq h fun hlike => by rw [hlike.word]]
  refine (Agrees.forM (fun name name' => name' = sim.index name)
    (fun name _ _ _ hname h => hname ▸ (agrees_takeToken h .determiner name).discard)
      (forall₂_index _) h).bind fun _ _ _ _ _ h => .get_bind ?_
  rw [leavesWhere_eq h fun hlike => by rw [hlike.tag]]
  refine (Agrees.mapM (fun name name' => name' = sim.index name)
    (List.Forall₂ fun key key' => key' = EdgeKey.rename sim.index key)
      (fun name _ _ _ hname h => hname ▸ agrees_allToDeterminer h name) (forall₂_index _) h).bind
        fun keys keys' _ _ hkeys h => ?_
  rw [List.length_map]
  exact .pure (congrArg _ (List.rel_flatten hkeys).length_eq) h

end Correspondence

/-! ### Simulations -/

/-- Beyond a correspondence, the edges that leave a token can be taken out by number and hung below
another token. The rule for clauses does so, and in the two graphs the order may not be the same. -/
structure Simulation extends Correspondence where
  reattach {g g' : Graph} (h : graph g g') (root verb object : Nat) (relation : String) :
    Agree (Splice.reattach root verb object relation)
      (Splice.reattach (index root) (index verb) (index object) relation) g g'
      (fun _ next _ next' => graph next next') fun fault fault' => fault' = fault.rename index

namespace Simulation

open Correspondence

variable {sim : Simulation} {g g' : Graph}

/-! ### The rule for clauses -/

theorem agrees_collapse (h : sim.graph g g') (root verb preposition object : Nat)
    (relation : String) :
    sim.Agrees Eq (Splice.collapse root verb preposition object relation)
      (Splice.collapse (sim.index root) (sim.index verb) (sim.index preposition)
        (sim.index object) relation) g g' := by
  rw [Splice.collapse_eq, Splice.collapse_eq]
  refine (agrees_takeEdge h .clause _).discard.bind fun _ _ _ _ _ h => ?_
  refine (agrees_takeEdge h .clause _).discard.bind fun _ _ _ _ _ h => ?_
  refine (agrees_takeEdge h .clause _).discard.bind fun _ _ _ _ _ h => ?_
  refine (agrees_takeToken h .clause preposition).bind fun token other _ _ hlike h => ?_
  rw [hlike.word]
  exact (sim.reattach h root verb object _).imp fun _ _ _ _ hnext => ⟨rfl, hnext⟩

theorem agrees_clause (h : sim.graph g g') :
    sim.Agrees Eq Splice.clause Splice.clause g g' := by
  unfold Splice.clause
  refine .get_bind ?_
  rw [sim.found h Splice.comparativeClause]
  cases Splice.comparativeClause.find? g.view with
  | none => exact .pure rfl h
  | some found =>
      simp only [Option.map_some, Match.node?_rename, Match.relation?_rename]
      rcases found.node? "root" with _ | root
      · exact .pure rfl h
      rcases found.node? "has" with _ | verb
      · exact .pure rfl h
      rcases found.node? "prep" with _ | preposition
      · exact .pure rfl h
      rcases found.node? "pobj" with _ | object
      · exact .pure rfl h
      rcases found.relation? "clause" with _ | relation
      · exact .pure rfl h
      refine (agrees_collapse h root verb preposition object relation).bind fun _ _ _ _ _ h => ?_
      exact .pure rfl h

/-! ### Normalization -/

theorem agrees_of_mem_graphRules (h : sim.graph g g') {rule : Rule} {splice : EditM Nat}
    (hmem : (rule, splice) ∈ Filters.graphRules) : sim.Agrees Eq splice splice g g' := by
  simp only [Filters.graphRules, List.mem_cons, Prod.mk.injEq, List.not_mem_nil, or_false] at hmem
  rcases hmem with ⟨rfl, rfl⟩ | ⟨rfl, rfl⟩ | ⟨rfl, rfl⟩ | ⟨rfl, rfl⟩
  · exact agrees_quantity h
  · exact agrees_operatorRoot h
  · exact agrees_determiner h
  · exact agrees_clause h

theorem isEmpty_roots (h : sim.graph g g') : g'.roots.isEmpty = g.roots.isEmpty := by
  rw [sim.roots h, List.isEmpty_map]

theorem isEmpty_tokens (h : sim.graph g g') : g'.tokens.isEmpty = g.tokens.isEmpty := by
  have hindices := congrArg List.isEmpty (sim.indices h)
  simpa [Graph.indices] using hindices

theorem agrees_passGraph (h : sim.graph g g') (filters : Filters) {rule : Rule}
    {splice : EditM Nat} (hmem : (rule, splice) ∈ Filters.graphRules) :
    sim.Agrees Eq (filters.passGraph rule splice) (filters.passGraph rule splice) g g' := by
  unfold Filters.passGraph
  split
  · refine .get_bind ?_
    rw [isEmpty_roots h]
    refine (agrees_of_mem_graphRules h hmem).bind fun changes _ next next' hchanges h' => ?_
    subst hchanges
    refine .get_bind ?_
    obtain ⟨hwf, hwf'⟩ := sim.wellFormed h'
    refine Agree.lift_bind hwf.check_eq_ok hwf'.check_eq_ok ?_
    rw [isEmpty_roots h', isEmpty_tokens h']
    split
    · exact Agree.bind (Agree.throw rfl)
    · exact Agrees.pure rfl h'
  · exact .pure rfl h

theorem agrees_passesGraph (h : sim.graph g g') (filters : Filters) :
    sim.Agrees Eq filters.passesGraph filters.passesGraph g g' := by
  unfold Filters.passesGraph
  refine (Agrees.mapM (fun entry entry' => entry' = entry ∧ entry ∈ Filters.graphRules) Eq ?_
    (List.forall₂_same.mpr fun entry hentry => ⟨rfl, hentry⟩) h).imp ?_
  · rintro ⟨rule, splice⟩ _ g g' ⟨rfl, hmem⟩ h
    exact agrees_passGraph h filters hmem
  · rintro passes result passes' result' ⟨hpasses, hresult⟩
    rw [List.forall₂_eq_eq_eq] at hpasses
    exact ⟨hpasses, hresult⟩

/-- On related graphs normalization does the same: the passes are equal and the results related, or
it fails in the same way. -/
theorem normalizeGraph (h : sim.graph g g') (filters : Filters) :
    (∃ fault, filters.normalizeGraph g = .error fault ∧
        filters.normalizeGraph g' = .error (fault.rename sim.index)) ∨
      ∃ result result' passes, filters.normalizeGraph g = .ok (result, passes) ∧
        filters.normalizeGraph g' = .ok (result', passes) ∧ sim.graph result result' := by
  unfold Filters.normalizeGraph
  rcases (agrees_passesGraph h filters).cases with
    ⟨passes, result, passes', result', hon, hon', h⟩ |
    ⟨fault, failed, fault', failed', hon, hon', hfault⟩
  · obtain ⟨rfl, hresult⟩ := h
    exact .inr ⟨result, result', passes, by rw [hon], by rw [hon'], hresult⟩
  · subst hfault
    exact .inl ⟨fault, by rw [hon], by rw [hon']⟩

end Simulation

end DepNorm
