import DepNorm.Proofs.Graph.Renumbered
import DepNorm.Proofs.Splice.Clause
import DepNorm.Proofs.Splice.Simulation

/-!
The rules on graphs that differ in the numbers of their edges. The one rule that goes by numbers is
the rule for clauses: it takes the edges that leave a token out in the order of their numbers and
adds as many edges in that order. The order may not be the same in two such graphs, but it is for
the edges into each token, and this is all that has to be kept.
-/

namespace DepNorm

open DepNorm.Graph EditM

namespace Graph.Renumbered

variable {graph other : Graph}

theorem filter_governor (h : Renumbered graph other) (index : Nat) :
    Renumbered { graph with arcs := graph.arcs.filter (·.2.governor != index) }
      { other with arcs := other.arcs.filter (·.2.governor != index) } := by
  have hincoming (graph : Graph) (into : Nat) :
      ({ graph with arcs := graph.arcs.filter (·.2.governor != index) } : Graph).incoming into =
        (graph.incoming into).filter (·.governor != index) := by
    simp only [Graph.incoming, edges, List.filter_map, List.filter_filter, Function.comp_def,
      Bool.and_comm]
  refine ⟨h.wellFormed.filter_arcs _, h.wellFormed'.filter_arcs _, h.tokens, h.roots,
    fun into => ?_⟩
  rw [hincoming, hincoming, h.incoming]

theorem filter_filter_governor (h : Renumbered graph other) (index into : Nat) :
    (other.edges.filter (·.governor == index)).filter (·.dependent == into) =
      (graph.edges.filter (·.governor == index)).filter (·.dependent == into) := by
  rw [List.filter_comm, List.filter_comm _ _ graph.edges]
  exact congrArg (List.filter _) (h.incoming into)

end Graph.Renumbered

namespace Splice

variable {graph other : Graph}

/-- Graphs that differ in the numbers of their edges correspond to each other, token by token and
edge by edge. -/
def renumbered : Correspondence where
  index := id
  edge := Eq
  graph := Renumbered
  strictMono := strictMono_id
  key_eq h := h ▸ rfl
  made _ _ _ := rfl
  relabel h _ := h ▸ rfl
  turned h _ := h ▸ rfl
  wellFormed h := ⟨h.wellFormed, h.wellFormed'⟩
  indices h := by simp [Graph.indices, h.tokens]
  roots h := by simp [h.roots]
  token? h name := by
    rw [id, h.token?]
    cases Graph.token? _ name with
    | none => exact .none
    | some token => exact .some ⟨rfl, rfl, rfl⟩
  found h pattern := by
    rw [h.view, Match.rename_id, Option.map_id, id]
  hasDependents h := h.hasDependents
  sortedEdges h := by
    rw [h.sortedEdges]
    exact List.forall₂_same.mpr fun _ _ => rfl
  outgoing h name := by
    rw [id, h.outgoing]
    exact List.forall₂_same.mpr fun _ _ => rfl
  incoming h name := by
    rw [id, h.incoming]
    exact List.forall₂_same.mpr fun _ _ => rfl
  takeEdge? h key := h.takeEdge? key
  addEdge := by
    rintro graph other next edge _ number h rfl hadd
    obtain ⟨hgovernor, hdependent, -⟩ := addEdge_cases hadd
    obtain ⟨number', next', hadd', -⟩ :=
      h.wellFormed'.exists_addEdge (h.mem_iff.mpr hgovernor) (h.mem_iff.mpr hdependent)
    exact ⟨number', next', hadd', h.appends (appends_addEdge h.wellFormed hadd)
      (appends_addEdge h.wellFormed' hadd') fun _ => rfl⟩
  eraseToken h := h.eraseToken
  eraseRoot h := h.eraseRoot
  markRoot h := h.markRoot

theorem agree_putEdge (h : Renumbered graph other) (edge : Edge) :
    Agree (putEdge edge) (putEdge edge) graph other
      (fun _ next _ next' => Renumbered next next' ∧ next.tokens = graph.tokens ∧
        edge.governor ∈ next) fun fault fault' => fault' = fault.rename id := by
  refine (renumbered.agrees_putEdge h (Eq.refl edge)).imp_of_on ?_
  rintro _ next _ next' hon - ⟨-, hnext⟩
  obtain ⟨happends, hgovernor, -⟩ := appends_of_on_putEdge h.wellFormed hon
  exact ⟨hnext, happends.tokens, happends.mem_iff.mpr hgovernor⟩

/-- The edges that leave a token are hung below another one in the same way, whatever their
numbers. -/
theorem agree_reattach (h : Renumbered graph other) (root verb object : Nat) (relation : String) :
    Agree (reattach root verb object relation) (reattach root verb object relation) graph other
      (fun _ next _ next' => Renumbered next next')
      fun fault fault' => fault' = fault.rename id := by
  unfold reattach
  refine .bind (.of_ok (on_detachAll h.wellFormed verb) (on_detachAll h.wellFormed' verb) ?_)
  refine .bind ((agree_putEdge (h.filter_governor verb) _).imp ?_)
  rintro _ mid _ mid' ⟨hmid, htokens, hroot⟩
  refine .bind ((agree_putEdge hmid _).imp ?_)
  rintro _ last _ last' ⟨hlast, htokens', -⟩
  have hroot : root ∈ last := (mem_of_tokens_eq htokens').mpr hroot
  -- Governor and dependent of each edge are there, so all of them are added, on both sides.
  have hends : ∀ edge ∈ graph.edges.filter (·.governor == verb),
      (Edge.made root edge.dependent edge.relation).governor ∈ last ∧
        (Edge.made root edge.dependent edge.relation).dependent ∈ last := by
    intro edge hedge
    refine ⟨hroot, (mem_of_tokens_eq (htokens'.trans htokens)).mpr ?_⟩
    exact h.wellFormed.dependent_mem edge (List.mem_filter.mp hedge).1
  have hends' : ∀ edge ∈ other.edges.filter (·.governor == verb),
      (Edge.made root edge.dependent edge.relation).governor ∈ last' ∧
        (Edge.made root edge.dependent edge.relation).dependent ∈ last' := by
    intro edge hedge
    obtain ⟨hedge, hgovernor⟩ := List.mem_filter.mp hedge
    rw [hlast.mem_iff, hlast.mem_iff]
    exact hends edge (List.mem_filter.mpr ⟨h.mem_edges.mp hedge, hgovernor⟩)
  obtain ⟨next, hon, hnext⟩ := exists_on_forM_putEdge hlast.wellFormed _ hends
  obtain ⟨next', hon', hnext'⟩ := exists_on_forM_putEdge hlast.wellFormed' _ hends'
  refine .of_ok hon hon' (hlast.appends hnext hnext' fun into => ?_)
  have hmade (edges : List Edge) :
      (edges.map fun edge => Edge.made root edge.dependent edge.relation).filter
          (·.dependent == into) =
        (edges.filter (·.dependent == into)).map fun edge =>
          Edge.made root edge.dependent edge.relation := List.filter_map
  rw [hmade, hmade, h.filter_filter_governor]

/-- Graphs that differ in the numbers of their edges simulate each other. -/
def renumbering : Simulation where
  toCorrespondence := renumbered
  reattach := agree_reattach

end Splice

end DepNorm
