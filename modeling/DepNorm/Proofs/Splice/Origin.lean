import DepNorm.Proofs.Graph.Incoming
import DepNorm.Proofs.Splice.Clause
import DepNorm.Splice.Determiner
import DepNorm.Splice.OperatorRoot
import DepNorm.Splice.Quantity

/-!
Where the edges of a graph come from while rules change it. An edge is one of the graph at the
start, with all that belongs to it but perhaps the relation, or it is one that a rule has made. An
edge that is added where its key is in use gives way, so nothing has to be known of the edges beside
it. All four rules keep this, also where they fail.
-/

namespace DepNorm.Splice

open DepNorm.Graph EditM

variable {graph start : Graph} {edge old : Edge}

/-! ### Origins -/

/-- Rules may call the edge `det`: it is a numeral edge into "one", or leads to a question
pronoun. -/
def MayBeDet (tokens : List Token) (edge : Edge) : Prop :=
  ∃ token ∈ tokens, token.index = edge.dependent ∧
    (edge.relation = "num" ∧ isOne token.word = true ∨ token.tag = "WP")

/-- The edge is an older one, under the same relation or now called `det`. -/
structure StemsFrom (tokens : List Token) (edge old : Edge) : Prop where
  eq_relabel : edge = old.relabel edge.relation
  relation : edge.relation = old.relation ∨ edge.relation = "det" ∧ MayBeDet tokens old

/-- The edge stems from one of the graph, or a rule has made it. -/
def Origin (graph : Graph) (edge : Edge) : Prop :=
  (∃ old ∈ graph.edges, StemsFrom graph.tokens edge old) ∨
    edge.synthetic = true ∧ edge.extra = false

theorem StemsFrom.refl (tokens : List Token) (edge : Edge) : StemsFrom tokens edge edge :=
  ⟨rfl, .inl rfl⟩

theorem StemsFrom.extra_eq {tokens : List Token} (h : StemsFrom tokens edge old) :
    edge.extra = old.extra := by rw [h.eq_relabel, Edge.relabel]

theorem StemsFrom.synthetic_eq {tokens : List Token} (h : StemsFrom tokens edge old) :
    edge.synthetic = old.synthetic := by rw [h.eq_relabel, Edge.relabel]

theorem StemsFrom.relabel_det {tokens : List Token} (h : StemsFrom tokens edge old)
    (hdet : MayBeDet tokens edge) : StemsFrom tokens (edge.relabel "det") old := by
  obtain ⟨token, htoken, hindex, hwhich⟩ := hdet
  have hdependent : edge.dependent = old.dependent := by rw [h.eq_relabel, Edge.relabel]
  refine ⟨by rw [h.eq_relabel]; rfl, .inr ⟨rfl, ?_⟩⟩
  rcases h.relation with hsame | ⟨-, hold⟩
  · exact ⟨token, htoken, hindex.trans hdependent, hsame ▸ hwhich⟩
  · exact hold

theorem Origin.relabel_det (h : Origin graph edge) (hdet : MayBeDet graph.tokens edge) :
    Origin graph (edge.relabel "det") := by
  rcases h with ⟨old, hold, hstems⟩ | hmade
  · exact .inl ⟨old, hold, hstems.relabel_det hdet⟩
  · exact .inr hmade

/-- The graph has come from another one by taking tokens and edges out, by calling edges `det` that
may be called so, and by making edges. -/
structure ComesFrom (start graph : Graph) : Prop where
  wellFormed : graph.WellFormed
  tokens : graph.tokens ⊆ start.tokens
  origin : ∀ edge ∈ graph.edges, Origin start edge

theorem ComesFrom.refl (h : graph.WellFormed) : ComesFrom graph graph :=
  ⟨h, List.Subset.refl _, fun edge hedge => .inl ⟨edge, hedge, .refl _ edge⟩⟩

theorem ComesFrom.exists_token (h : ComesFrom start graph) {index : Nat} {test : Token → Bool}
    (htest : (graph.token? index).any test = true) :
    ∃ token ∈ start.tokens, token.index = index ∧ test token = true := by
  obtain ⟨token, htoken, htest⟩ := (Option.any_eq_true _ _).mp htest
  obtain ⟨hmem, hindex⟩ := h.wellFormed.token?_eq_some_iff.mp htoken
  exact ⟨token, h.tokens hmem, hindex, htest⟩

/-! ### Elementary edits -/

theorem keeps_takeEdge (rule : Rule) (key : EdgeKey) :
    Keeps (ComesFrom start) (fun edge => Origin start edge ∧ edge.key = key)
      (takeEdge rule key) := by
  intro graph h
  unfold Ends
  rw [on_takeEdge]
  cases htake : graph.takeEdge? key with
  | none => exact h
  | some taken =>
      obtain ⟨edge, rest⟩ := taken
      obtain ⟨hedge, hkey, rfl⟩ := h.wellFormed.of_takeEdge? htake
      refine ⟨⟨h.origin edge hedge, hkey⟩, h.wellFormed.filter_arcs _, h.tokens, ?_⟩
      intro other hother
      obtain ⟨arc, harc, rfl⟩ := List.mem_map.mp hother
      exact h.origin arc.2 (mem_edges_of_mem_arcs (List.mem_filter.mp harc).1)

theorem keeps_putEdge (hedge : Origin start edge) :
    Keeps (ComesFrom start) (fun _ => True) (putEdge edge) := by
  intro graph h
  unfold Ends
  rw [on_putEdge]
  cases hadd : graph.addEdge edge with
  | error fault => exact h
  | ok added =>
      obtain ⟨number, next⟩ := added
      have hwf := h.wellFormed.addEdge hadd
      obtain ⟨-, -, ⟨-, rfl⟩ | ⟨-, -, rfl⟩⟩ := addEdge_cases hadd
      · exact ⟨trivial, h⟩
      · refine ⟨trivial, hwf, h.tokens, fun other hother => ?_⟩
        simp only [edges, List.map_append, List.mem_append, List.map_cons, List.map_nil,
          List.mem_singleton] at hother
        rcases hother with hother | rfl
        · exact h.origin other hother
        · exact hedge

theorem keeps_putMade (governor dependent : Nat) (relation : String) :
    Keeps (ComesFrom start) (fun _ => True) (putEdge (.made governor dependent relation)) :=
  keeps_putEdge (.inr ⟨rfl, rfl⟩)

theorem ComesFrom.eraseToken (h : ComesFrom start graph) (index : Nat) :
    ComesFrom start (graph.eraseToken index) := by
  refine ⟨h.wellFormed.eraseToken index, fun token htoken => ?_, fun edge hedge => ?_⟩
  · exact h.tokens (List.mem_filter.mp htoken).1
  · obtain ⟨arc, harc, rfl⟩ := List.mem_map.mp hedge
    exact h.origin arc.2 (mem_edges_of_mem_arcs (List.mem_filter.mp harc).1)

theorem keeps_takeToken (rule : Rule) (index : Nat) :
    Keeps (ComesFrom start) (fun _ => True) (takeToken rule index) := by
  intro graph h
  unfold Ends
  rw [on_takeToken, takeToken?]
  cases graph.token? index with
  | none => exact h
  | some token => exact ⟨trivial, h.eraseToken index⟩

theorem keeps_moveRoot (old new : Nat) :
    Keeps (ComesFrom start) (fun _ => True) (moveRoot old new) := by
  intro graph h
  have hrest : ComesFrom start (graph.eraseRoot old) :=
    ⟨h.wellFormed.eraseRoot old, h.tokens, h.origin⟩
  unfold Ends
  rw [on_moveRoot, addRoot]
  by_cases hnew : new ∈ graph.eraseRoot old
  · simp only [if_pos hnew]
    exact ⟨trivial, hrest.wellFormed.markRoot hnew, hrest.tokens, hrest.origin⟩
  · simp only [if_neg hnew]
    exact hrest

theorem keeps_detachAll (index : Nat) :
    Keeps (ComesFrom start) (fun _ => True) (detachAll index) := by
  intro graph h
  unfold Ends
  rw [on_detachAll h.wellFormed]
  refine ⟨trivial, h.wellFormed.filter_arcs _, h.tokens, fun edge hedge => ?_⟩
  obtain ⟨arc, harc, rfl⟩ := List.mem_map.mp hedge
  exact h.origin arc.2 (mem_edges_of_mem_arcs (List.mem_filter.mp harc).1)

/-! ### The rules -/

theorem keeps_lowerQuantity (relation : String) (verb quantity object : Nat) :
    Keeps (ComesFrom start) (fun _ => True) (lowerQuantity relation verb quantity object) := by
  unfold lowerQuantity
  refine (keeps_takeEdge _ _).discard.bind fun _ _ => ?_
  refine (keeps_takeEdge _ _).discard.bind fun _ _ => ?_
  exact (keeps_putMade _ _ _).bind fun _ _ => keeps_putMade _ _ _

theorem keeps_lowerFirst (pattern : Pattern) (quantity relation : String) :
    Keeps (ComesFrom start) (fun _ => True) (lowerFirst pattern quantity relation) := by
  unfold lowerFirst
  refine .get_bind fun graph _ => ?_
  repeat' split
  all_goals first
    | exact .pure trivial
    | exact (keeps_lowerQuantity _ _ _ _).bind fun _ _ => .pure trivial

theorem mayBeDet_of_mem_numeralsOne (h : ComesFrom start graph)
    (hnumeral : old ∈ numeralsOne graph) (hkey : edge.key = old.key) :
    MayBeDet start.tokens edge := by
  have htest := (List.mem_filter.mp hnumeral).2
  simp only [Bool.and_eq_true, beq_iff_eq] at htest
  obtain ⟨hrelation, hone⟩ := htest
  obtain ⟨token, htoken, hindex, hone⟩ := h.exists_token hone
  refine ⟨token, htoken, ?_, .inl ⟨?_, hone⟩⟩
  · exact hindex.trans (congrArg EdgeKey.dependent hkey).symm
  · exact (congrArg EdgeKey.relation hkey).trans hrelation

theorem keeps_onesToDeterminers :
    Keeps (ComesFrom start) (fun _ => True) onesToDeterminers := by
  unfold onesToDeterminers
  refine .get_bind fun graph h => ?_
  have htaken : ∀ key ∈ (numeralsOne graph).map Edge.key,
      Keeps (ComesFrom start) (fun edge => Origin start edge ∧ MayBeDet start.tokens edge)
        (takeEdge .quantity key) := by
    intro key hkey
    obtain ⟨old, hold, rfl⟩ := List.mem_map.mp hkey
    exact (keeps_takeEdge _ _).imp fun edge ⟨horigin, hkey⟩ =>
      ⟨horigin, mayBeDet_of_mem_numeralsOne h hold hkey⟩
  refine (Keeps.mapM htaken).bind fun edges hedges => ?_
  refine (Keeps.forM fun edge hedge => keeps_putEdge ?_).bind fun _ _ => .pure trivial
  exact (hedges edge hedge).1.relabel_det (hedges edge hedge).2

theorem keeps_quantity : Keeps (ComesFrom start) (fun _ => True) quantity := by
  unfold quantity
  refine (keeps_lowerFirst _ _ _).bind fun _ _ => ?_
  refine (keeps_lowerFirst _ _ _).bind fun _ _ => ?_
  exact keeps_onesToDeterminers.bind fun _ _ => .pure trivial

theorem keeps_replaceRoot (root : Nat) :
    Keeps (ComesFrom start) (fun _ => True) (replaceRoot root) := by
  unfold replaceRoot
  refine .get_bind fun graph _ => ?_
  split
  · split
    · refine (keeps_takeEdge _ _).discard.bind fun _ _ => ?_
      refine (keeps_moveRoot _ _).bind fun _ _ => ?_
      exact (keeps_putEdge (.inr ⟨rfl, rfl⟩)).bind fun _ _ => .pure trivial
    · exact .pure trivial
  · exact .pure trivial

theorem keeps_operatorRoot : Keeps (ComesFrom start) (fun _ => True) operatorRoot := by
  unfold operatorRoot
  refine .get_bind fun graph _ => ?_
  exact (Keeps.mapM fun root _ => keeps_replaceRoot root).bind fun _ _ => .pure trivial

theorem keeps_toDeterminer {key : EdgeKey}
    (hpronoun : ∃ token ∈ start.tokens, token.index = key.dependent ∧ token.tag = "WP") :
    Keeps (ComesFrom start) (fun _ => True) (toDeterminer key) := by
  unfold toDeterminer
  refine (keeps_takeEdge _ _).bind fun edge ⟨horigin, hkey⟩ => keeps_putEdge ?_
  obtain ⟨token, htoken, hindex, htag⟩ := hpronoun
  refine horigin.relabel_det ⟨token, htoken, ?_, .inr htag⟩
  exact hindex.trans (congrArg EdgeKey.dependent hkey).symm

theorem keeps_allToDeterminer {index : Nat}
    (hpronoun : ∃ token ∈ start.tokens, token.index = index ∧ token.tag = "WP") :
    Keeps (ComesFrom start) (fun _ => True) (allToDeterminer index) := by
  unfold allToDeterminer
  refine .get_bind fun graph _ => ?_
  refine (Keeps.forM fun key hkey => keeps_toDeterminer ?_).bind fun _ _ => .pure trivial
  obtain ⟨edge, hedge, rfl⟩ := List.mem_map.mp hkey
  have hdependent := (List.mem_filter.mp (List.mem_filter.mp hedge).1).2
  rwa [show edge.key.dependent = index from beq_iff_eq.mp hdependent]

theorem keeps_determiner : Keeps (ComesFrom start) (fun _ => True) determiner := by
  unfold determiner
  refine .get_bind fun _ _ => ?_
  refine (Keeps.forM fun _ _ => (keeps_takeToken _ _).discard).bind fun _ _ => ?_
  refine .get_bind fun graph h => ?_
  refine (Keeps.mapM fun index hindex => keeps_allToDeterminer ?_).bind fun _ _ => .pure trivial
  obtain ⟨token, htoken, hname, htag⟩ := h.exists_token (List.mem_filter.mp hindex).2
  exact ⟨token, htoken, hname, beq_iff_eq.mp htag⟩

theorem keeps_collapse (root verb preposition object : Nat) (relation : String) :
    Keeps (ComesFrom start) (fun _ => True)
      (collapse root verb preposition object relation) := by
  unfold collapse
  refine (keeps_takeEdge _ _).discard.bind fun _ _ => ?_
  refine (keeps_takeEdge _ _).discard.bind fun _ _ => ?_
  refine (keeps_takeEdge _ _).discard.bind fun _ _ => ?_
  refine (keeps_takeToken _ _).bind fun token _ => ?_
  refine (keeps_detachAll _).bind fun detached _ => ?_
  refine (keeps_putMade _ _ _).bind fun _ _ => ?_
  refine (keeps_putMade _ _ _).bind fun _ _ => ?_
  exact Keeps.forM fun edge _ => keeps_putMade _ _ _

theorem keeps_clause : Keeps (ComesFrom start) (fun _ => True) clause := by
  unfold clause
  refine .get_bind fun graph _ => ?_
  repeat' split
  all_goals first
    | exact .pure trivial
    | exact (keeps_collapse _ _ _ _ _).bind fun _ _ => .pure trivial

end DepNorm.Splice
