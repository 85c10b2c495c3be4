import DepNorm.Proofs.Splice.Clause
import DepNorm.Proofs.Splice.Simulation
import Mathlib.Order.Compare

/-!
Graphs that are alike token by token and edge by edge. Tokens may have other names, in the same
order, and tokens and edges may differ in what the rules do not look at. Such graphs list their
tokens and edges in the same order, however they are sorted, and give their edges the same numbers.
So each simulates the other.
-/

namespace DepNorm

open DepNorm.Graph EditM

/-- When tokens and when edges are alike. Like edges have the same key, and so has what the rules
make of them. -/
structure Likeness where
  /-- The names of the tokens in the second graph. -/
  index : Nat → Nat
  token : Token → Token → Prop
  edge : Edge → Edge → Prop
  strictMono : StrictMono index
  index_eq {t t' : Token} (h : token t t') : t'.index = index t.index
  like {t t' : Token} (h : token t t') : t.Like t'
  key_eq {e e' : Edge} (h : edge e e') : e'.key = e.key.rename index
  made (governor dependent : Nat) (relation : String) :
    edge (.made governor dependent relation) (.made (index governor) (index dependent) relation)
  relabel {e e' : Edge} (h : edge e e') (relation : String) :
    edge (e.relabel relation) (e'.relabel relation)
  turned {e e' : Edge} (h : edge e e') (root : Nat) :
    edge { Edge.made e.dependent root "op" with weight := e.weight }
      { Edge.made e'.dependent (index root) "op" with weight := e'.weight }

namespace Likeness

/-- The graphs have like tokens and like edges, in the same order and with the same numbers. -/
structure Alike (like : Likeness) (g g' : Graph) : Prop where
  wellFormed : g.WellFormed
  wellFormed' : g'.WellFormed
  tokens : List.Forall₂ like.token g.tokens g'.tokens
  arcs : List.Forall₂ (fun arc arc' => arc'.1 = arc.1 ∧ like.edge arc.2 arc'.2) g.arcs g'.arcs
  roots : g'.roots = g.roots.map like.index
  nextEdge : g'.nextEdge = g.nextEdge

variable (like : Likeness) {e e' f f' : Edge}

theorem governor_eq (h : like.edge e e') : e'.governor = like.index e.governor :=
  congrArg EdgeKey.governor (like.key_eq h)

theorem dependent_eq (h : like.edge e e') : e'.dependent = like.index e.dependent :=
  congrArg EdgeKey.dependent (like.key_eq h)

theorem relation_eq (h : like.edge e e') : e'.relation = e.relation :=
  congrArg EdgeKey.relation (like.key_eq h)

theorem beq_eq (name other : Nat) :
    (like.index name == like.index other) = (name == other) := like.strictMono.injective.beq_eq

theorem bne_eq (name other : Nat) :
    (like.index name != like.index other) = (name != other) := by
  rw [bne, bne, like.beq_eq]

/-! ### Orders -/

theorem compare_eq (name other : Nat) :
    compare (like.index name) (like.index other) = compare name other := by
  rw [← cmp_eq_compare, ← cmp_eq_compare]
  exact like.strictMono.cmp_map_eq name other

theorem byDependent_eq (he : like.edge e e') (hf : like.edge f f') :
    Edge.byDependent e' f' = Edge.byDependent e f := by
  simp only [Edge.byDependent, compareLex, compareOn, like.dependent_eq he, like.dependent_eq hf,
    like.relation_eq he, like.relation_eq hf, like.compare_eq]

theorem byEnds_eq (he : like.edge e e') (hf : like.edge f f') :
    Edge.byEnds e' f' = Edge.byEnds e f := by
  simp only [Edge.byEnds, compareLex, compareOn, like.governor_eq he, like.governor_eq hf,
    like.compare_eq, like.byDependent_eq he hf]

namespace Alike

variable {like} {g g' next : Graph} (h : like.Alike g g')

include h

/-! ### What is seen of like graphs -/

theorem edges : List.Forall₂ like.edge g.edges g'.edges := by
  rw [Graph.edges, Graph.edges, List.forall₂_map_left_iff, List.forall₂_map_right_iff]
  exact h.arcs.imp fun _ _ => And.right

theorem indices : g'.indices = g.indices.map like.index := by
  rw [Graph.indices, Graph.indices, List.map_map]
  exact forall₂_map_eq h.tokens like.index_eq

theorem mem_iff {name : Nat} : like.index name ∈ g' ↔ name ∈ g := by
  rw [← mem_indices, ← mem_indices, h.indices,
    List.mem_map_of_injective like.strictMono.injective]

theorem token? (name : Nat) :
    Option.Rel like.token (g.token? name) (g'.token? (like.index name)) :=
  rel_find? h.tokens fun ht => by rw [like.index_eq ht, like.beq_eq]

theorem token?_like (name : Nat) :
    Option.Rel Token.Like (g.token? name) (g'.token? (like.index name)) := by
  have ht := h.token? name
  generalize g.token? name = token?, g'.token? (like.index name) = token?' at ht
  cases ht with
  | none => exact .none
  | some ht => exact .some (like.like ht)

theorem sortedEdges : List.Forall₂ like.edge g.sortedEdges g'.sortedEdges :=
  forall₂_mergeSort h.edges fun he hf => by rw [like.byEnds_eq he hf]

theorem outgoing (name : Nat) :
    List.Forall₂ like.edge (g.outgoing name) (g'.outgoing (like.index name)) :=
  forall₂_mergeSort
    (forall₂_filter h.edges fun he => by rw [like.governor_eq he, like.beq_eq])
    fun he hf => by rw [like.byDependent_eq he hf]

theorem incoming (name : Nat) :
    List.Forall₂ like.edge (g.incoming name) (g'.incoming (like.index name)) :=
  forall₂_filter h.edges fun he => by rw [like.dependent_eq he, like.beq_eq]

theorem hasDependents (name : Nat) :
    g'.hasDependents (like.index name) = g.hasDependents name := by
  have hgovernors : g'.edges.map Edge.governor = g.edges.map (like.index ∘ Edge.governor) :=
    forall₂_map_eq h.edges like.governor_eq
  have hany (edges : List Edge) (name : Nat) : (edges.any fun edge => edge.governor == name) =
      (edges.map Edge.governor).any (· == name) := by
    rw [List.any_map]
    rfl
  rw [Graph.hasDependents, Graph.hasDependents, hany, hgovernors, List.any_map]
  simp only [Function.comp_def, like.beq_eq]

theorem view : View.Renamed like.index g.view g'.view where
  injective := like.strictMono.injective
  indices := h.indices
  token? := h.token?_like
  outgoing name := by
    simp only [Graph.view, List.map_map]
    exact forall₂_map_eq (h.outgoing name) fun he => by
      simp only [Function.comp_apply, Edge.arc, Arc.rename, like.dependent_eq he,
        like.relation_eq he]

theorem find? (key : EdgeKey) : g'.find? (key.rename like.index) = g.find? key := by
  have hfound : Option.Rel _ (g.arcs.find? fun arc => arc.2.key == key)
      (g'.arcs.find? fun arc => arc.2.key == key.rename like.index) :=
    rel_find? h.arcs fun harc => by
      rw [like.key_eq harc.2, (EdgeKey.rename_injective like.strictMono.injective).beq_eq]
  rw [Graph.find?, Graph.find?]
  generalize List.find? _ g.arcs = arc?, List.find? _ g'.arcs = arc?' at hfound
  cases hfound with
  | none => rfl
  | some harc => exact congrArg some harc.1

theorem edge? (number : Nat) : Option.Rel like.edge (g.edge? number) (g'.edge? number) := by
  have hfound : Option.Rel _ (g.arcs.find? fun arc => arc.1 == number)
      (g'.arcs.find? fun arc => arc.1 == number) :=
    rel_find? h.arcs fun harc => by rw [harc.1]
  rw [Graph.edge?, Graph.edge?]
  generalize List.find? _ g.arcs = arc?, List.find? _ g'.arcs = arc?' at hfound
  cases hfound with
  | none => exact .none
  | some harc => exact .some harc.2

/-! ### What becomes of like graphs -/

theorem filter_arcs {test test' : Nat × Edge → Bool}
    (htest : ∀ {arc arc' : Nat × Edge}, arc'.1 = arc.1 ∧ like.edge arc.2 arc'.2 →
      test' arc' = test arc) :
    like.Alike { g with arcs := g.arcs.filter test } { g' with arcs := g'.arcs.filter test' } :=
  ⟨h.wellFormed.filter_arcs test, h.wellFormed'.filter_arcs test', h.tokens,
    forall₂_filter h.arcs htest, h.roots, h.nextEdge⟩

theorem takeEdge? (key : EdgeKey) :
    Option.Rel (fun taken taken' => like.edge taken.1 taken'.1 ∧ like.Alike taken.2 taken'.2)
      (g.takeEdge? key) (g'.takeEdge? (key.rename like.index)) := by
  rw [Graph.takeEdge?, Graph.takeEdge?, h.find?]
  cases g.find? key with
  | none => exact .none
  | some number =>
      have hedge := h.edge? number
      simp only [Option.bind_some, takeNumbered?]
      generalize g.edge? number = edge?, g'.edge? number = edge?' at hedge
      cases hedge with
      | none => exact .none
      | some he => exact .some ⟨he, h.filter_arcs fun harc => by rw [harc.1]⟩

theorem addEdge (he : like.edge e e') {number : Nat}
    (hadd : g.addEdge e = .ok (number, next)) :
    ∃ next', g'.addEdge e' = .ok (number, next') ∧ like.Alike next next' := by
  have hwf := h.wellFormed.addEdge hadd
  obtain ⟨hgovernor, hdependent, hcases⟩ := addEdge_cases hadd
  have hgovernor' : e'.governor ∈ g' := by rwa [like.governor_eq he, h.mem_iff]
  have hdependent' : e'.dependent ∈ g' := by rwa [like.dependent_eq he, h.mem_iff]
  have hfind' : g'.find? e'.key = g.find? e.key := by rw [like.key_eq he, h.find?]
  obtain ⟨number', next', hadd', -⟩ := h.wellFormed'.exists_addEdge hgovernor' hdependent'
  have hwf' := h.wellFormed'.addEdge hadd'
  obtain ⟨-, -, hcases'⟩ := addEdge_cases hadd'
  rw [hfind'] at hcases'
  rcases hcases with ⟨hfind, rfl⟩ | ⟨hfind, rfl, rfl⟩
  · rcases hcases' with ⟨hsame, rfl⟩ | ⟨hnone, -⟩
    · cases hfind.symm.trans hsame
      exact ⟨next', hadd', h⟩
    · cases hfind.symm.trans hnone
  · rcases hcases' with ⟨hsome, -⟩ | ⟨-, rfl, rfl⟩
    · cases hfind.symm.trans hsome
    · rw [h.nextEdge] at hadd' hwf'
      refine ⟨_, hadd', hwf, hwf', h.tokens, ?_, h.roots, rfl⟩
      exact List.rel_append h.arcs (.cons ⟨rfl, he⟩ .nil)

theorem eraseToken (name : Nat) :
    like.Alike (g.eraseToken name) (g'.eraseToken (like.index name)) := by
  refine ⟨h.wellFormed.eraseToken name, h.wellFormed'.eraseToken _, ?_, ?_, ?_, h.nextEdge⟩
  · exact forall₂_filter h.tokens fun ht => by rw [like.index_eq ht, like.bne_eq]
  · exact forall₂_filter h.arcs fun harc => by
      rw [like.governor_eq harc.2, like.dependent_eq harc.2, like.bne_eq, like.bne_eq]
  · simp only [Graph.eraseToken, h.roots, List.filter_map, Function.comp_def, like.bne_eq]

theorem eraseRoot (name : Nat) :
    like.Alike (g.eraseRoot name) (g'.eraseRoot (like.index name)) := by
  refine ⟨h.wellFormed.eraseRoot name, h.wellFormed'.eraseRoot _, h.tokens, h.arcs, ?_, h.nextEdge⟩
  simp only [Graph.eraseRoot, h.roots, List.filter_map, Function.comp_def, like.bne_eq]

theorem markRoot {name : Nat} (hname : name ∈ g) :
    like.Alike (g.markRoot name) (g'.markRoot (like.index name)) := by
  refine ⟨h.wellFormed.markRoot hname, h.wellFormed'.markRoot (h.mem_iff.mpr hname), h.tokens,
    h.arcs, ?_, h.nextEdge⟩
  simp only [Graph.markRoot, h.roots, List.filter_map, Function.comp_def,
    like.strictMono.lt_iff_lt, List.map_append, List.map_cons]

end Alike

/-! ### Like graphs simulate each other -/

def correspondence : Correspondence where
  index := like.index
  edge := like.edge
  graph := like.Alike
  strictMono := like.strictMono
  key_eq := like.key_eq
  made := like.made
  relabel := like.relabel
  turned := like.turned
  wellFormed h := ⟨h.wellFormed, h.wellFormed'⟩
  indices := Alike.indices
  roots := Alike.roots
  token? := Alike.token?_like
  found h pattern := h.view.find? pattern
  hasDependents := Alike.hasDependents
  sortedEdges := Alike.sortedEdges
  outgoing := Alike.outgoing
  incoming := Alike.incoming
  takeEdge? := Alike.takeEdge?
  addEdge h he hadd := ⟨_, h.addEdge he hadd⟩
  eraseToken := Alike.eraseToken
  eraseRoot := Alike.eraseRoot
  markRoot := Alike.markRoot

/-- The edges that leave a token have the same numbers, so they are hung below another token in the
same order. -/
theorem agrees_reattach {g g' : Graph} (h : like.Alike g g') (root verb object : Nat)
    (relation : String) :
    like.correspondence.Agrees Eq (Splice.reattach root verb object relation)
      (Splice.reattach (like.index root) (like.index verb) (like.index object) relation) g g' := by
  unfold Splice.reattach
  have hdetached : List.Forall₂ like.edge (g.edges.filter (·.governor == verb))
      (g'.edges.filter (·.governor == like.index verb)) :=
    forall₂_filter h.edges fun he => by rw [like.governor_eq he, like.beq_eq]
  have hrest : like.Alike { g with arcs := g.arcs.filter (·.2.governor != verb) }
      { g' with arcs := g'.arcs.filter (·.2.governor != like.index verb) } :=
    h.filter_arcs fun harc => by rw [like.governor_eq harc.2, like.bne_eq]
  refine Agree.bind (.of_ok (Splice.on_detachAll h.wellFormed verb)
    (Splice.on_detachAll h.wellFormed' (like.index verb)) ?_)
  refine (Correspondence.agrees_putEdge hrest (like.made root object relation)).bind
    fun _ _ _ _ _ h => ?_
  refine (Correspondence.agrees_putEdge h (like.made object verb "mark")).bind
    fun _ _ _ _ _ h => ?_
  refine Correspondence.Agrees.forM like.edge (fun e e' _ _ he h => ?_) hdetached h
  rw [like.dependent_eq he, like.relation_eq he]
  exact Correspondence.agrees_putEdge h (like.made root e.dependent e.relation)

def simulation : Simulation where
  toCorrespondence := like.correspondence
  reattach h root verb object relation :=
    (like.agrees_reattach h root verb object relation).imp fun _ _ _ _ hnext => hnext.2

end Likeness

end DepNorm
