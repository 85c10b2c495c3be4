import DepNorm.Proofs.Normalize
import DepNorm.Proofs.Splice.Heads
import DepNorm.Proofs.Splice.Origin

/-!
What becomes of the tokens and edges of a graph that is normalized. No token is made or altered. A
token that is lost was an article or the one preposition of a collapsed clause. An edge that no rule
has made is one of the edges before, at most under another name. The four rules run in stages, each
on what the one before has left; edges are followed through all of them by one invariant, and lost
tokens stage by stage.
-/

namespace DepNorm.Filters

open DepNorm.Graph EditM Splice

variable {filters : Filters} {rule : Rule} {splice : EditM Nat} {graph next result : Graph}
  {passes : List Pass}

/-! ### Edges -/

theorem keeps_of_mem_graphRules (hmem : (rule, splice) ∈ graphRules) :
    Keeps (ComesFrom graph) (fun _ => True) splice := by
  simp only [graphRules, List.mem_cons, Prod.mk.injEq, List.not_mem_nil, or_false] at hmem
  rcases hmem with ⟨rfl, rfl⟩ | ⟨rfl, rfl⟩ | ⟨rfl, rfl⟩ | ⟨rfl, rfl⟩
  · exact keeps_quantity
  · exact keeps_operatorRoot
  · exact keeps_determiner
  · exact keeps_clause

theorem keeps_passGraph (filters : Filters) (hmem : (rule, splice) ∈ graphRules) :
    Keeps (ComesFrom graph) (fun _ => True) (filters.passGraph rule splice) := by
  unfold passGraph
  split
  · refine .get_bind fun _ _ => (keeps_of_mem_graphRules hmem).bind fun changes _ => ?_
    refine .get_bind fun changed _ => (Keeps.lift _).bind fun _ _ => ?_
    dsimp only
    split
    · have hthrow {fault : Fault} : Keeps (ComesFrom graph) (fun _ : PUnit => True) (throw fault) :=
        .throw
      exact hthrow.bind fun _ _ => .pure trivial
    · exact .pure trivial
  · exact .pure trivial

theorem keeps_passesGraph (filters : Filters) :
    Keeps (ComesFrom graph) (fun _ => True) filters.passesGraph :=
  (Keeps.mapM fun _ hentry => keeps_passGraph filters hentry).imp fun _ _ => trivial

/-- Through all rules, each edge is one from before or has been made. -/
theorem comesFrom_of_normalizeGraph (h : graph.WellFormed)
    (hok : filters.normalizeGraph graph = .ok (result, passes)) : ComesFrom graph result := by
  unfold normalizeGraph at hok
  split at hok
  · next hon =>
    cases hok
    exact ((keeps_passesGraph filters graph (.refl h)).of_on_eq_ok hon).2
  · cases hok

/-! ### Stages -/

/-- What a rule does to a graph if it is switched on and succeeds, or if it is switched off. -/
def Stage (filters : Filters) (rule : Rule) (splice : EditM Nat) (before after : Graph) : Prop :=
  (rule ∈ filters ∧ ∃ changes, splice.on before = (.ok changes, after)) ∨
    rule ∉ filters ∧ after = before

/-- The stages of several rules, one after the other. -/
inductive Stages (filters : Filters) : List (Rule × EditM Nat) → Graph → Graph → Prop
  | nil (graph : Graph) : Stages filters [] graph graph
  | cons {rule : Rule} {splice : EditM Nat} {rules : List (Rule × EditM Nat)}
      {before mid after : Graph} (h : Stage filters rule splice before mid)
      (hrest : Stages filters rules mid after) :
      Stages filters ((rule, splice) :: rules) before after

theorem stage_of_on_passGraph {pass : Pass}
    (h : (filters.passGraph rule splice).on graph = (.ok pass, next)) :
    Stage filters rule splice graph next := by
  unfold passGraph at h
  split at h
  · next hrule =>
    rw [on_get_bind] at h
    obtain ⟨changes, mid, hon, h⟩ := exists_of_on_bind_eq_ok h
    rw [on_get_bind] at h
    obtain ⟨_, checked, hcheck, h⟩ := exists_of_on_bind_eq_ok h
    rw [on_lift] at hcheck
    obtain ⟨-, rfl⟩ := Prod.mk.inj hcheck
    dsimp only at h
    split at h
    · cases h
    · cases h
      exact .inl ⟨hrule, changes, hon⟩
  · next hrule =>
    cases h
    exact .inr ⟨hrule, rfl⟩

theorem stages_of_on_mapM {rules : List (Rule × EditM Nat)}
    (h : (rules.mapM fun rule => filters.passGraph rule.1 rule.2).on graph = (.ok passes, next)) :
    Stages filters rules graph next := by
  induction rules generalizing graph passes with
  | nil =>
      cases h
      exact .nil _
  | cons entry rules ih =>
      rw [List.mapM_cons] at h
      obtain ⟨pass, mid, hstage, h⟩ := exists_of_on_bind_eq_ok h
      obtain ⟨rest, last, hrest, h⟩ := exists_of_on_bind_eq_ok h
      cases h
      exact .cons (stage_of_on_passGraph hstage) (ih hrest)

theorem stages_of_normalizeGraph (h : filters.normalizeGraph graph = .ok (result, passes)) :
    Stages filters graphRules graph result := by
  unfold normalizeGraph at h
  split at h
  · next hon =>
    cases h
    exact stages_of_on_mapM hon
  · cases h

theorem Stage.moves (hstage : Stage filters rule splice graph next) (h : graph.WellFormed)
    (hmem : (rule, splice) ∈ graphRules) : Moves rule graph next := by
  rcases hstage with ⟨-, changes, hon⟩ | ⟨-, rfl⟩
  · exact (ends_of_mem_graphRules h hmem).of_on_eq_ok hon
  · exact .refl

/-! ### Lost tokens -/

theorem tokens_eq_of_moves (moves : Moves rule graph next)
    (hrule : rule = .quantity ∨ rule = .operatorRoot) : next.tokens = graph.tokens := by
  refine moves.keep (fun changed => changed.tokens = graph.tokens) ?_ rfl
  rintro before after (⟨-, -, -, hnext⟩ | ⟨-, -, hnext⟩ | ⟨-, -, hnext⟩ | _ | _) h
  · exact hnext.tokens.trans h
  · exact hnext.tokens.trans h
  · exact hnext.tokens.trans h
  · simp at hrule
  · simp at hrule

theorem mem_or_isArticle_of_determiner (h : graph.WellFormed) {changes : Nat}
    (hon : determiner.on graph = (.ok changes, next)) {token : Token}
    (htoken : token ∈ graph.tokens) : token ∈ next.tokens ∨ isArticle token.word = true := by
  have hfound : graph.token? token.index = some token := h.token?_eq_some_iff.mpr ⟨htoken, rfl⟩
  obtain ⟨-, hsame⟩ := (ends_determiner_sameEnds h).of_on_eq_ok hon
  by_cases hleaf : token.index ∈ articleLeaves graph
  · have htest := (mem_leavesWhere.mp hleaf).1
    rw [hfound] at htest
    exact .inr htest
  · rw [← token?_foldl_eraseToken hleaf] at hfound
    rw [hsame.tokens]
    exact .inl (List.mem_of_find?_eq_some hfound)

theorem exists_preposition_of_clause (h : graph.WellFormed) {changes : Nat}
    (hon : clause.on graph = (.ok changes, next)) :
    ∃ preposition, ∀ token ∈ graph.tokens,
      token ∈ next.tokens ∨ token.index = preposition ∧ token.tag = "IN" := by
  cases (ends_collapsesFirst h).of_on_eq_ok hon with
  | unchanged => exact ⟨0, fun token htoken => .inl htoken⟩
  | @collapsed found _ _ preposition _ _ _ _ hfind hbinds _ _ hnext =>
      refine ⟨preposition, fun token htoken => ?_⟩
      by_cases hindex : token.index = preposition
      · obtain ⟨bound, hbound, htag⟩ :=
          (Pattern.grown_of_find? governed_comparativeClause hfind).exists_token _
            (Bindings.mem_of_lookup hbinds.preposition)
        have hfound := h.token?_eq_some_iff.mpr ⟨htoken, hindex⟩
        cases hfound.symm.trans hbound
        exact .inr ⟨hindex, beq_iff_eq.mp htag⟩
      · refine .inl ?_
        rw [hnext.tokens]
        exact List.mem_filter.mpr ⟨htoken, bne_iff_ne.mpr hindex⟩

theorem exists_preposition_of_stages (h : graph.WellFormed)
    (hstages : Stages filters graphRules graph result) :
    ∃ preposition, ∀ token ∈ graph.tokens, token ∈ result.tokens ∨
      .determiner ∈ filters ∧ isArticle token.word = true ∨
      .clause ∈ filters ∧ token.index = preposition ∧ token.tag = "IN" := by
  rcases hstages with _ | ⟨hquantity, _ | ⟨hoperator, _ | ⟨hdeterminer, _ | ⟨hclause, ⟨⟩⟩⟩⟩⟩
  rename_i lowered rooted dropped
  have hlowered := hquantity.moves h (by simp [graphRules])
  have hrooted := hoperator.moves (hlowered.wellFormed h) (by simp [graphRules])
  have hwf := hrooted.wellFormed (hlowered.wellFormed h)
  have htokens : rooted.tokens = graph.tokens :=
    (tokens_eq_of_moves hrooted (.inr rfl)).trans (tokens_eq_of_moves hlowered (.inl rfl))
  have hdropped (token : Token) (htoken : token ∈ graph.tokens) :
      token ∈ dropped.tokens ∨ .determiner ∈ filters ∧ isArticle token.word = true := by
    rw [← htokens] at htoken
    rcases hdeterminer with ⟨hrule, changes, hon⟩ | ⟨-, rfl⟩
    · exact (mem_or_isArticle_of_determiner hwf hon htoken).imp_right fun h => ⟨hrule, h⟩
    · exact .inl htoken
  have hwf := (hdeterminer.moves hwf (by simp [graphRules])).wellFormed hwf
  rcases hclause with ⟨hrule, changes, hon⟩ | ⟨-, rfl⟩
  · obtain ⟨preposition, hclause⟩ := exists_preposition_of_clause hwf hon
    refine ⟨preposition, fun token htoken => ?_⟩
    rcases hdropped token htoken with htoken | hlost
    · exact (hclause token htoken).imp_right fun h => .inr ⟨hrule, h⟩
    · exact .inr (.inl hlost)
  · exact ⟨0, fun token htoken => (hdropped token htoken).imp_right .inl⟩

/-! ### Provenance -/

/-- A normalized graph has no token but those it had before. A token that it has no longer was an
article, or the one preposition tagged IN that the rule for clauses has taken away. Of its edges,
those that no rule has made, and those that are secondary, are edges that it had before; at most the
relation is another one, which is `det` then. -/
theorem provenance_of_normalizeGraph (h : graph.Reachable)
    (hok : filters.normalizeGraph graph = .ok (result, passes)) :
    (∀ token ∈ result.tokens, token ∈ graph.tokens) ∧
      (∃ preposition, ∀ token ∈ graph.tokens, token ∈ result.tokens ∨
        .determiner ∈ filters ∧ isArticle token.word = true ∨
        .clause ∈ filters ∧ token.index = preposition ∧ token.tag = "IN") ∧
      (∀ edge ∈ result.edges, edge.synthetic = false →
        ∃ old ∈ graph.edges, old.synthetic = false ∧ StemsFrom graph.tokens edge old) ∧
      ∀ edge ∈ result.edges, edge.extra = true →
        ∃ old ∈ graph.edges, old.extra = true ∧ StemsFrom graph.tokens edge old := by
  have hfrom := comesFrom_of_normalizeGraph h.wellFormed hok
  refine ⟨fun token htoken => hfrom.tokens htoken, ?_, fun edge hedge hparsed => ?_,
    fun edge hedge hextra => ?_⟩
  · exact exists_preposition_of_stages h.wellFormed (stages_of_normalizeGraph hok)
  · rcases hfrom.origin edge hedge with ⟨old, hold, hstems⟩ | ⟨hmade, -⟩
    · exact ⟨old, hold, hstems.synthetic_eq ▸ hparsed, hstems⟩
    · rw [hparsed] at hmade
      cases hmade
  · rcases hfrom.origin edge hedge with ⟨old, hold, hstems⟩ | ⟨-, hprimary⟩
    · exact ⟨old, hold, hstems.extra_eq ▸ hextra, hstems⟩
    · rw [hextra] at hprimary
      cases hprimary

/-- "the one cat run than he has", with an article, a numeral and a clause. -/
def theOneCat : Graph where
  tokens := [
    { index := 1, word := "the", baseForm := "the", tag := "DT" },
    { index := 2, word := "one", baseForm := "one", tag := "CD" },
    { index := 3, word := "cat", baseForm := "cat", tag := "NN" },
    { index := 4, word := "run", baseForm := "run", tag := "VBP" },
    { index := 5, word := "than", baseForm := "than", tag := "IN" },
    { index := 6, word := "he", baseForm := "he", tag := "PRP" },
    { index := 7, word := "has", baseForm := "have", tag := "VBZ" }]
  arcs := [
    (0, { governor := 3, dependent := 1, relation := "det" }),
    (1, { governor := 3, dependent := 2, relation := "num" }),
    (2, { governor := 4, dependent := 3, relation := "nsubj" }),
    (3, { governor := 7, dependent := 5, relation := "mark" }),
    (4, { governor := 7, dependent := 6, relation := "nsubj" }),
    (5, { governor := 4, dependent := 7, relation := "advcl" })]
  roots := [4]
  nextEdge := 6

theorem read_theOneCat :
    TokenTable.read
      ("1 the the DT 3 det\n2 one one CD 3 num\n3 cat cat NN 4 nsubj\n4 run run VBP 0 root\n" ++
        "5 than than IN 7 mark\n6 he he PRP 7 nsubj\n7 has have VBZ 4 advcl") =
      .ok theOneCat := by decide +kernel

/-- In `theOneCat` the article and the preposition go, and the numeral edge is called `det`. The
edges that no rule has made are from before. -/
theorem provenance_of_normalizeGraph_theOneCat :
    ∃ result passes,
      ({.quantity, .determiner, .clause} : Filters).normalizeGraph theOneCat =
        .ok (result, passes) ∧
      result.indices = [2, 3, 4, 6, 7] ∧
      { governor := 3, dependent := 2, relation := "det" } ∈ result.edges ∧
      (∃ preposition, ∀ token ∈ theOneCat.tokens, token ∈ result.tokens ∨
        isArticle token.word = true ∨ token.index = preposition ∧ token.tag = "IN") ∧
      ∀ edge ∈ result.edges, edge.synthetic = false →
        ∃ old ∈ theOneCat.edges, old.synthetic = false ∧
          StemsFrom theOneCat.tokens edge old := by
  have hresult :
      (({.quantity, .determiner, .clause} : Filters).normalizeGraph theOneCat).map
        (fun outcome => (outcome.1.indices, outcome.1.edges.contains
          { governor := 3, dependent := 2, relation := "det" })) =
      .ok ([2, 3, 4, 6, 7], true) := by
    simp only [normalizeGraph, passesGraph, graphRules, quantity, lowerFirst, onesToDeterminers,
      numeralsOne, clause, view, outgoing, sortedEdges, Edge.sort_eq_insertionSort]
    decide +kernel
  obtain ⟨⟨result, passes⟩, hok, heq⟩ := Outcome.exists_of_map_eq_ok hresult
  obtain ⟨hindices, hone⟩ := Prod.mk.inj heq
  obtain ⟨-, ⟨preposition, hlost⟩, hparsed, -⟩ :=
    provenance_of_normalizeGraph (.read read_theOneCat) hok
  refine ⟨result, passes, hok, hindices, List.contains_iff_mem.mp hone,
    ⟨preposition, fun token htoken => ?_⟩, hparsed⟩
  exact (hlost token htoken).imp_right (Or.imp And.right And.right)

end DepNorm.Filters
