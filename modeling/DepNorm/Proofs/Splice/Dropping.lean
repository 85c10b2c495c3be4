import DepNorm.Proofs.Graph.Exchange
import DepNorm.Proofs.Splice.Determiner

/-!
The rule for determiners edge by edge. The articles that are leaves go first, each with the edges
that touch it, and it is as if all had gone at once. Then the edges into the pronouns that are
leaves by now are relabelled one after the other. They may give way to each other under their new
label, but none of them has the key of one that is still to come, since that is no determiner edge.
-/

namespace DepNorm

open DepNorm.Graph EditM

variable {graph next : Graph}

namespace Graph

/-- The tokens that the primary and the secondary edges into a token come from. -/
def heads (graph : Graph) (index : Nat) : Set (Nat × Bool) :=
  {head | ∃ key ∈ graph.keys, key.dependent = index ∧ (key.governor, key.extra) = head}

end Graph

namespace Splice

/-! ### Edges that become determiner edges -/

theorem relabels_of_on_toDeterminer (h : graph.WellFormed) {key : EdgeKey} {outcome : PUnit}
    (hon : (toDeterminer key).on graph = (.ok outcome, next)) : graph.Relabels {key} next := by
  obtain ⟨edge, mid, htake, hput⟩ := exists_of_on_bind_eq_ok hon
  obtain ⟨hedge, rfl, rfl⟩ := of_on_takeEdge h htake
  have htaken := h.exchanges_eraseKey edge.key
  have hputs := (appends_of_on_putEdge htaken.wellFormed hput).1.exchanges
  refine (htaken.trans h hputs fun _ => False.elim).congr (Set.union_empty _) ?_
  ext other
  simp only [Set.empty_union, Set.mem_ofPred_eq, List.mem_singleton, determiners,
    Set.mem_singleton_iff]
  constructor
  · rintro rfl
    exact ⟨edge, hedge, rfl, rfl⟩
  · rintro ⟨old, hold, hkey, rfl⟩
    rw [h.edge_eq_of_key_eq hold hedge hkey]

theorem relabels_of_on_forM_toDeterminer (h : graph.WellFormed) {keys : List EdgeKey}
    (hdistinct : keys.Nodup) (hothers : ∀ key ∈ keys, key.relation ≠ "det") {outcome : PUnit}
    (hon : (keys.forM toDeterminer).on graph = (.ok outcome, next)) :
    graph.Relabels {key | key ∈ keys} next := by
  rw [List.forM_eq_forM] at hon
  induction keys generalizing graph with
  | nil =>
      have hnone : {key | key ∈ ([] : List EdgeKey)} = ∅ := by simp
      rw [hnone]
      cases hon
      exact .refl h
  | cons key keys ih =>
      obtain ⟨hnew, hdistinct⟩ := List.nodup_cons.mp hdistinct
      obtain ⟨-, hothers⟩ := List.forall_mem_cons.mp hothers
      rw [List.forM_cons] at hon
      obtain ⟨_, mid, hfirst, hon⟩ := exists_of_on_bind_eq_ok hon
      have hfirst := relabels_of_on_toDeterminer h hfirst
      have hrest := ih hfirst.wellFormed hdistinct hothers hon
      have hunion : {key} ∪ {other | other ∈ keys} = {other | other ∈ key :: keys} := by
        ext other
        simp
      exact hunion ▸ hfirst.union h hrest hothers fun other hother heq => hnew (heq ▸ hother)

/-- The keys of the edges into some tokens that are no determiner edges. -/
def otherKeys (graph : Graph) (indices : Set Nat) : Set EdgeKey :=
  {key ∈ graph.keys | key.dependent ∈ indices ∧ key.relation ≠ "det"}

theorem otherKeys_union {indices indices' : Set Nat} :
    otherKeys graph (indices ∪ indices') = otherKeys graph indices ∪ otherKeys graph indices' := by
  ext key
  simp only [otherKeys, Set.mem_union, Set.mem_ofPred_eq]
  tauto

/-- Determiner edges into some tokens do not change the other edges into other tokens. -/
theorem otherKeys_eq_of_relabels {indices indices' : Set Nat}
    (h : graph.Relabels (otherKeys graph indices) next)
    (hnew : ∀ index ∈ indices', index ∉ indices) :
    otherKeys next indices' = otherKeys graph indices' := by
  ext key
  simp only [otherKeys, h.keys, Set.mem_ofPred_eq, Set.mem_union, Set.mem_sdiff]
  constructor
  · rintro ⟨⟨hkey, -⟩ | ⟨edge, hedge, rfl⟩, hindex, hother⟩
    · exact ⟨hkey, hindex, hother⟩
    · exact absurd (relation_of_mem_determiners hedge) hother
  · rintro ⟨hkey, hindex, hother⟩
    refine ⟨.inl ⟨hkey, ?_⟩, hindex, hother⟩
    exact fun htaken => hnew _ hindex htaken.2.1

theorem of_on_allToDeterminer (h : graph.WellFormed) {index : Nat} {keys : List EdgeKey}
    (hon : (allToDeterminer index).on graph = (.ok keys, next)) :
    keys.Nodup ∧ {key | key ∈ keys} = otherKeys graph {index} ∧
      graph.Relabels (otherKeys graph {index}) next := by
  rw [allToDeterminer, on_get_bind] at hon
  obtain ⟨_, mid, hforM, hon⟩ := exists_of_on_bind_eq_ok hon
  cases hon
  have hdistinct : (((graph.incoming index).filter (·.relation != "det")).map Edge.key).Nodup :=
    List.pairwise_map.mpr ((h.keys_distinct.filter _).filter _)
  have hkeys : {key | key ∈ ((graph.incoming index).filter (·.relation != "det")).map Edge.key} =
      otherKeys graph {index} := by
    ext key
    simp only [incoming, List.mem_map, List.mem_filter, beq_iff_eq, bne_iff_ne, otherKeys, mem_keys,
      Set.mem_ofPred_eq, Set.mem_singleton_iff]
    constructor
    · rintro ⟨edge, ⟨⟨hedge, hdependent⟩, hother⟩, rfl⟩
      exact ⟨⟨edge, hedge, rfl⟩, hdependent, hother⟩
    · rintro ⟨⟨edge, hedge, rfl⟩, hdependent, hother⟩
      exact ⟨edge, ⟨⟨hedge, hdependent⟩, hother⟩, rfl⟩
  refine ⟨hdistinct, hkeys, hkeys ▸ relabels_of_on_forM_toDeterminer h hdistinct ?_ hforM⟩
  exact fun key hkey => (hkeys.subset hkey).2.2

theorem of_on_mapM_allToDeterminer (h : graph.WellFormed) {indices : List Nat}
    (hdistinct : indices.Nodup) {keys : List (List EdgeKey)}
    (hon : (indices.mapM allToDeterminer).on graph = (.ok keys, next)) :
    keys.flatten.Nodup ∧ {key | key ∈ keys.flatten} = otherKeys graph {i | i ∈ indices} ∧
      graph.Relabels (otherKeys graph {i | i ∈ indices}) next := by
  induction indices generalizing graph keys with
  | nil =>
      have hnone : otherKeys graph {i | i ∈ ([] : List Nat)} = ∅ := by simp [otherKeys]
      rw [hnone]
      cases hon
      exact ⟨List.nodup_nil, by simp, .refl h⟩
  | cons index indices ih =>
      obtain ⟨hnew, hdistinct⟩ := List.nodup_cons.mp hdistinct
      rw [List.mapM_cons] at hon
      obtain ⟨first, mid, hfirst, hon⟩ := exists_of_on_bind_eq_ok hon
      obtain ⟨rest, last, hrest, hon⟩ := exists_of_on_bind_eq_ok hon
      cases hon
      obtain ⟨hnodup, hkeys, hfirst⟩ := of_on_allToDeterminer h hfirst
      obtain ⟨hnodup', hkeys', hrest⟩ := ih hfirst.wellFormed hdistinct hrest
      have hindices : ∀ i ∈ {i | i ∈ indices}, i ∉ ({index} : Set Nat) :=
        fun i hi heq => hnew (heq ▸ hi)
      -- Relabelling the edges of one pronoun leaves those of the others as they were.
      have hsame := otherKeys_eq_of_relabels hfirst hindices
      have hdisjoint : ∀ key ∈ otherKeys graph {i | i ∈ indices}, key ∉ otherKeys graph {index} :=
        fun key hkey hkey' => hindices _ hkey.2.1 hkey'.2.1
      have hcons : {i | i ∈ index :: indices} = {index} ∪ {i | i ∈ indices} := by
        ext other
        simp
      rw [hsame] at hkeys' hrest
      rw [hcons, otherKeys_union]
      refine ⟨?_, ?_, hfirst.union h hrest (fun key hkey => hkey.2.2) hdisjoint⟩
      · rw [List.flatten_cons, List.nodup_append']
        refine ⟨hnodup, hnodup', fun key hkey hkey' => ?_⟩
        exact hdisjoint key (hkeys'.subset hkey') (hkeys.subset hkey)
      · rw [← hkeys, ← hkeys']
        ext key
        simp

/-! ### The rule -/

/-- The token with the index is an article, in letters of whatever case, and governs nothing. -/
def ArticleLeaf (graph : Graph) (index : Nat) : Prop :=
  (∃ token ∈ graph.tokens, token.index = index ∧
    token.word.toList.map Char.toLower ∈ [['t', 'h', 'e'], ['a'], ['a', 'n']]) ∧
      ∀ dependent, ¬ graph.Governs index dependent

/-- The token with the index is a question pronoun and governs nothing. -/
def PronounLeaf (graph : Graph) (index : Nat) : Prop :=
  (∃ token ∈ graph.tokens, token.index = index ∧ token.tag = "WP") ∧
    ∀ dependent, ¬ graph.Governs index dependent

/-- The keys of the edges that are no determiner edges and lead to such a pronoun. -/
def pronounKeys (graph : Graph) : Set EdgeKey := otherKeys graph {index | PronounLeaf graph index}

theorem isArticle_iff {word : String} : isArticle word = true ↔
    word.toList.map Char.toLower ∈ [['t', 'h', 'e'], ['a'], ['a', 'n']] := by
  have hthe : "the".toList.map Char.toLower = ['t', 'h', 'e'] := by decide
  have ha : "a".toList.map Char.toLower = ['a'] := by decide
  have han : "an".toList.map Char.toLower = ['a', 'n'] := by decide
  simp only [isArticle, sameLetters, List.any_cons, List.any_nil, hthe, ha, han, Bool.or_eq_true,
    beq_iff_eq, Bool.false_eq_true, List.mem_cons, List.not_mem_nil]

theorem mem_articleLeaves_iff (h : graph.WellFormed) {index : Nat} :
    index ∈ articleLeaves graph ↔ ArticleLeaf graph index := by
  rw [articleLeaves, mem_leavesWhere, h.any_token?_iff]
  simp only [isArticle_iff]
  rfl

theorem mem_pronounLeaves_iff (h : graph.WellFormed) {index : Nat} :
    index ∈ leavesWhere graph (fun token => token.tag == "WP") ↔ PronounLeaf graph index := by
  rw [mem_leavesWhere, h.any_token?_iff]
  simp only [beq_iff_eq]
  rfl

/-- The edges into the pronouns that are leaves become determiner edges. They come from the same
tokens as before, and all other edges stay as they are. -/
structure Determines (graph next : Graph) : Prop where
  relabels : graph.Relabels (pronounKeys graph) next
  relation : ∀ edge ∈ next.edges, PronounLeaf graph edge.dependent → edge.relation = "det"
  heads : ∀ index, next.heads index = graph.heads index
  others : ∀ arc, ¬ PronounLeaf graph arc.2.dependent → (arc ∈ next.arcs ↔ arc ∈ graph.arcs)

theorem determines_of_relabels (h : graph.Relabels (pronounKeys graph) next) :
    Determines graph next where
  relabels := h
  relation edge hedge hleaf := by
    by_cases hput : edge ∈ graph.determiners (pronounKeys graph)
    · exact relation_of_mem_determiners hput
    · obtain ⟨hold, htaken⟩ := (h.mem_edges_iff hput).mp hedge
      by_contra hother
      exact htaken ⟨key_mem_keys hold, hleaf, hother⟩
  heads index := by
    ext head
    simp only [heads, h.keys, Set.mem_ofPred_eq, Set.mem_union, Set.mem_sdiff]
    constructor
    · rintro ⟨_, ⟨hkey, -⟩ | ⟨_, ⟨old, hold, -, rfl⟩, rfl⟩, hends⟩
      · exact ⟨_, hkey, hends⟩
      · exact ⟨old.key, key_mem_keys hold, hends⟩
    · rintro ⟨key, hkey, hends⟩
      by_cases htaken : key ∈ pronounKeys graph
      · obtain ⟨old, hold, rfl⟩ := hkey
        exact ⟨_, .inr ⟨old.relabel "det", ⟨old, hold, htaken, rfl⟩, rfl⟩, hends⟩
      · exact ⟨key, .inl ⟨hkey, htaken⟩, hends⟩
  others arc hleaf := by
    have hput : arc.2 ∉ graph.determiners (pronounKeys graph) := by
      rintro ⟨old, -, ⟨-, hold, -⟩, heq⟩
      exact hleaf (congrArg Edge.dependent heq ▸ hold)
    rw [h.mem_arcs_iff hput]
    exact and_iff_left fun htaken => hleaf htaken.2.1

/-- The rule succeeds. It drops the articles that are leaves at the start, and then makes determiner
edges of the edges into the pronouns that are leaves by then. The answer counts the articles, and
the edges into those pronouns that were no determiner edges. -/
theorem determines_of_determiner (h : graph.Reachable) :
    ∃ articles changes result, determiner.on graph = (.ok changes, result) ∧ articles.Nodup ∧
      (∀ index, index ∈ articles ↔ ArticleLeaf graph index) ∧
      Determines (graph.without articles) result ∧
      changes = articles.length + (pronounKeys (graph.without articles)).ncard := by
  have hwf := h.wellFormed
  have hdistinct : (articleLeaves graph).Nodup := nodup_leavesWhere hwf _
  obtain ⟨changes, result, hon, -⟩ := (ends_determiner hwf).exists_ok
  refine ⟨articleLeaves graph, changes, result, hon, hdistinct,
    fun index => mem_articleLeaves_iff hwf, ?_⟩
  rw [determiner, on_get_bind] at hon
  obtain ⟨_, rest, hdrop, hon⟩ := exists_of_on_bind_eq_ok hon
  have hrest := (ends_dropTokens hwf hdistinct fun _ => mem_of_mem_leavesWhere).of_on_eq_ok hdrop
  rw [foldl_eraseToken] at hrest
  subst hrest
  rw [on_get_bind] at hon
  obtain ⟨keys, last, hrelabel, hon⟩ := exists_of_on_bind_eq_ok hon
  cases hon
  have hwf' := hwf.without (articleLeaves graph)
  obtain ⟨hnodup, hkeys, hnext⟩ :=
    of_on_mapM_allToDeterminer hwf' (nodup_leavesWhere hwf' _) hrelabel
  have hleaves : {index | index ∈ leavesWhere (graph.without (articleLeaves graph))
      fun token => token.tag == "WP"} =
        {index | PronounLeaf (graph.without (articleLeaves graph)) index} :=
    Set.ext fun _ => mem_pronounLeaves_iff hwf'
  rw [hleaves, ← pronounKeys] at hkeys hnext
  refine ⟨determines_of_relabels hnext, ?_⟩
  rw [ncard_eq_length hnodup fun key => Set.ext_iff.mp hkeys key]
  rfl

/-- "The cat who", where the pronoun has two secondary edges that differ in their relations only. -/
def theCatWho : Graph where
  tokens := [
    { index := 1, word := "The", baseForm := "the", tag := "DT" },
    { index := 2, word := "cat", baseForm := "cat", tag := "NN" },
    { index := 3, word := "who", baseForm := "who", tag := "WP" }]
  arcs := [
    (0, { governor := 2, dependent := 1, relation := "det" }),
    (1, { governor := 2, dependent := 3, relation := "ref" }),
    (2, { governor := 2, dependent := 3, relation := "nsubj", extra := true }),
    (3, { governor := 2, dependent := 3, relation := "dobj", extra := true })]
  roots := [2]
  nextEdge := 4

theorem reachable_theCatWho : theCatWho.Reachable := by
  have hread : TokenTable.read
      "1 The the DT 2 det\n2 cat cat NN 0 root\n3 who who WP 2 ref _ 2:nsubj|2:dobj" =
        .ok theCatWho := by decide +kernel
  exact .read hread

def catWho : Graph where
  tokens := theCatWho.tokens.drop 1
  arcs := [
    (4, { governor := 2, dependent := 3, relation := "det" }),
    (5, { governor := 2, dependent := 3, relation := "det", extra := true })]
  roots := [2]
  nextEdge := 6

/-- In `theCatWho` an article is dropped and three edges are relabelled, two of which become one. -/
theorem determines_of_determiner_theCatWho :
    determiner.on theCatWho = (.ok 4, catWho) ∧ ArticleLeaf theCatWho 1 ∧
      ∃ articles, 1 ∈ articles ∧ Determines (theCatWho.without articles) catWho ∧
        4 = articles.length + (pronounKeys (theCatWho.without articles)).ncard := by
  have hrun : determiner.on theCatWho = (.ok 4, catWho) := by decide +kernel
  have hthe : ArticleLeaf theCatWho 1 := (mem_articleLeaves_iff reachable_theCatWho.wellFormed).mp
    (by decide)
  obtain ⟨articles, changes, result, hon, -, hmem, hnext, hchanges⟩ :=
    determines_of_determiner reachable_theCatWho
  cases hrun.symm.trans hon
  exact ⟨hrun, hthe, articles, (hmem 1).mpr hthe, hnext, hchanges⟩

end Splice

end DepNorm
