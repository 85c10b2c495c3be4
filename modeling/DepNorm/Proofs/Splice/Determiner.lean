import DepNorm.Proofs.Graph.Forest
import DepNorm.Proofs.Graph.Reachable
import DepNorm.Proofs.Splice.Move

/-!
The rule for determiners as a sequence of moves, and the articles that it leaves. It never stops: an
article that is still to be dropped is a token until then, and relabelling one edge leaves the keys
of the others alone. The articles to be dropped are the leaves at the start, so an article that
governs nothing but them is a leaf in the end.
-/

namespace DepNorm

open DepNorm.Graph EditM

variable {graph next : Graph}

namespace Graph

/-! ### Tokens that are dropped -/

def without (graph : Graph) (indices : List Nat) : Graph :=
  { graph with
    tokens := graph.tokens.filter (·.index ∉ indices)
    arcs := graph.arcs.filter fun arc => arc.2.governor ∉ indices ∧ arc.2.dependent ∉ indices
    roots := graph.roots.filter (· ∉ indices) }

theorem foldl_eraseToken (indices : List Nat) :
    indices.foldl eraseToken graph = graph.without indices := by
  induction indices generalizing graph with
  | nil => simp [without]
  | cons index indices ih =>
      rw [List.foldl_cons, ih]
      simp only [without, eraseToken, List.filter_filter]
      congr 1
      · refine List.filter_congr fun token _ => ?_
        grind
      · refine List.filter_congr fun arc _ => ?_
        grind
      · refine List.filter_congr fun root _ => ?_
        grind

theorem WellFormed.without (h : graph.WellFormed) (indices : List Nat) :
    (graph.without indices).WellFormed := by
  rw [← foldl_eraseToken]
  induction indices generalizing graph with
  | nil => exact h
  | cons index indices ih => exact ih (h.eraseToken index)

end Graph

namespace Splice

/-! ### Articles -/

theorem mem_leavesWhere {test : Token → Bool} {index : Nat} :
    index ∈ leavesWhere graph test ↔ (graph.token? index).any test = true ∧
      ∀ dependent, ¬ graph.Governs index dependent := by
  rw [leavesWhere, List.mem_filter, leaves, List.mem_filter, mem_indices, Bool.not_eq_true',
    hasDependents_eq_false_iff]
  constructor
  · rintro ⟨⟨-, hnone⟩, htest⟩
    exact ⟨htest, hnone⟩
  · rintro ⟨htest, hnone⟩
    obtain ⟨token, htoken, -⟩ := (Option.any_eq_true _ _).mp htest
    exact ⟨⟨mem_of_token? htoken, hnone⟩, htest⟩

theorem mem_of_mem_leavesWhere {test : Token → Bool} {index : Nat}
    (h : index ∈ leavesWhere graph test) : index ∈ graph :=
  mem_indices.mp (List.mem_filter.mp (List.mem_filter.mp h).1).1

theorem nodup_leavesWhere (h : graph.WellFormed) (test : Token → Bool) :
    (leavesWhere graph test).Nodup := by
  have hindices : graph.indices.Nodup :=
    List.pairwise_map.mpr (h.tokens_ascending.imp Nat.ne_of_lt)
  exact (hindices.filter _).filter _

theorem ends_dropTokens (h : graph.WellFormed) {indices : List Nat} (hdistinct : indices.Nodup)
    (hmem : ∀ index ∈ indices, index ∈ graph) :
    Ends (indices.forM fun index => discard <| takeToken .determiner index) graph
      (fun _ next => next = indices.foldl eraseToken graph) fun _ _ => False := by
  refine (Ends.forM (fun rest changed => changed.WellFormed ∧ rest.Nodup ∧
    (∀ index ∈ rest, index ∈ changed) ∧
      rest.foldl eraseToken changed = indices.foldl eraseToken graph)
        ?_ ⟨h, hdistinct, hmem, rfl⟩).imp (fun _ _ hnext => hnext.2.2.2) fun _ _ => id
  rintro index rest changed ⟨hwf, hdistinct, hmem, hrest⟩
  obtain ⟨hnew, hdistinct⟩ := List.nodup_cons.mp hdistinct
  obtain ⟨hindex, hmem⟩ := List.forall_mem_cons.mp hmem
  refine .discard (ends_takeToken hwf hindex fun _ _ => ?_)
  refine ⟨hwf.eraseToken index, hdistinct, fun other hother => ?_, hrest⟩
  exact mem_eraseToken.mpr ⟨hmem other hother, fun heq => hnew (heq ▸ hother)⟩

theorem moves_foldl_eraseToken {indices : List Nat} (hdistinct : indices.Nodup)
    (hleaves : ∀ index ∈ indices, index ∈ graph ∧ ∀ key ∈ graph.keys, key.governor ≠ index) :
    Moves .determiner graph (indices.foldl eraseToken graph) := by
  induction indices generalizing graph with
  | nil => exact .refl
  | cons index indices ih =>
      obtain ⟨hnew, hdistinct⟩ := List.nodup_cons.mp hdistinct
      obtain ⟨⟨hindex, hleaf⟩, hleaves⟩ := List.forall_mem_cons.mp hleaves
      refine .head (.drop hindex hleaf) (ih hdistinct fun other hother => ⟨?_, ?_⟩)
      · exact mem_eraseToken.mpr ⟨(hleaves other hother).1, fun heq => hnew (heq ▸ hother)⟩
      · rw [keys_eraseToken]
        exact fun key hkey => (hleaves other hother).2 key hkey.1

/-! ### Pronouns -/

/-- The second graph has the tokens of the first, and its edges join the same tokens. -/
structure SameEnds (graph next : Graph) : Prop where
  tokens : next.tokens = graph.tokens
  governs : ∀ governor dependent, next.Governs governor dependent ↔
    graph.Governs governor dependent

theorem SameEnds.refl (graph : Graph) : SameEnds graph graph := ⟨rfl, fun _ _ => Iff.rfl⟩

theorem SameEnds.trans {mid : Graph} (h : SameEnds graph mid) (h' : SameEnds mid next) :
    SameEnds graph next :=
  ⟨h'.tokens.trans h.tokens, fun governor dependent =>
    (h'.governs governor dependent).trans (h.governs governor dependent)⟩

theorem sameEnds_of_relabelled {targets : Set EdgeKey} (htargets : targets ⊆ graph.keys)
    (hnext : graph.Rekeyed (relabelledKeys graph.keys targets) next) : SameEnds graph next := by
  refine ⟨hnext.tokens, fun governor dependent => ?_⟩
  rw [governs_iff, governs_iff, hnext.keys]
  constructor
  · rintro ⟨key, ⟨hkey, -⟩ | ⟨target, htarget, rfl⟩, hends⟩
    · exact ⟨key, hkey, hends⟩
    · exact ⟨target, htargets htarget, hends⟩
  · rintro ⟨key, hkey, hends⟩
    by_cases htarget : key ∈ targets
    · exact ⟨{ key with relation := "det" }, .inr ⟨key, htarget, rfl⟩, hends⟩
    · exact ⟨key, .inl ⟨hkey, htarget⟩, hends⟩

theorem ends_toDeterminer (h : graph.WellFormed) {key : EdgeKey} (hkey : key ∈ graph.keys) :
    Ends (toDeterminer key) graph
      (fun _ next => graph.Rekeyed (relabelledKeys graph.keys {key}) next) fun _ _ => False := by
  unfold toDeterminer
  refine .bind (ends_takeEdge h (fun edge rest _ hedge hrest => ?_) fun hmissing => hmissing hkey)
  have hgovernor : edge.governor = key.governor := congrArg EdgeKey.governor hedge
  have hdependent : edge.dependent = key.dependent := congrArg EdgeKey.dependent hedge
  refine ends_putEdge hrest.wellFormed ?_ ?_ fun next hnext => (hrest.trans hnext).congr ?_
  · exact hrest.mem_iff.mpr (hgovernor ▸ h.governor_mem_of_keys hkey)
  · exact hrest.mem_iff.mpr (hdependent ▸ h.dependent_mem_of_keys hkey)
  · rw [hrest.keys, Edge.key_relabel, hedge]
    ext other
    simp [relabelledKeys, eq_comm]

theorem ends_allToDeterminer (h : graph.WellFormed) (index : Nat) :
    Ends (allToDeterminer index) graph
      (fun _ next => Moves .determiner graph next ∧ SameEnds graph next) fun _ _ => False := by
  unfold allToDeterminer
  refine .get_bind (.bind ((Ends.forM (fun rest changed => (Moves .determiner graph changed ∧
    SameEnds graph changed) ∧ rest.Nodup ∧ ∀ key ∈ rest, key ∈ changed.keys)
      ?_ ⟨⟨.refl, .refl graph⟩, ?_, ?_⟩).imp (fun _ _ hnext => .pure hnext.1) fun _ _ => id))
  · rintro key rest changed ⟨⟨hmoves, hsame⟩, hdistinct, hkeys⟩
    obtain ⟨hnew, hdistinct⟩ := List.nodup_cons.mp hdistinct
    obtain ⟨hkey, hkeys⟩ := List.forall_mem_cons.mp hkeys
    refine (ends_toDeterminer (hmoves.wellFormed h) hkey).imp (fun _ next hnext => ?_) fun _ _ => id
    have htargets : {key} ⊆ changed.keys := Set.singleton_subset_iff.mpr hkey
    refine ⟨⟨hmoves.tail (.relabel (.inr rfl) htargets hnext),
      hsame.trans (sameEnds_of_relabelled htargets hnext)⟩, hdistinct, fun other hother => ?_⟩
    rw [hnext.keys]
    exact .inl ⟨hkeys other hother, fun heq => hnew (heq ▸ hother)⟩
  · exact List.pairwise_map.mpr ((h.keys_distinct.filter _).filter _)
  · intro key hkey
    obtain ⟨edge, hedge, rfl⟩ := List.mem_map.mp hkey
    exact key_mem_keys (List.mem_filter.mp (List.mem_filter.mp hedge).1).1

/-! ### The rule -/

def articleLeaves (graph : Graph) : List Nat := leavesWhere graph fun token => isArticle token.word

/-- The articles among the leaves are dropped, and then edges are relabelled. -/
theorem ends_determiner_sameEnds (h : graph.WellFormed) :
    Ends determiner graph (fun _ next => Moves .determiner graph next ∧
      SameEnds ((articleLeaves graph).foldl eraseToken graph) next) fun _ _ => False := by
  unfold determiner
  have hdistinct : (articleLeaves graph).Nodup := nodup_leavesWhere h _
  have hmem : ∀ index ∈ articleLeaves graph, index ∈ graph := fun _ => mem_of_mem_leavesWhere
  refine .get_bind (.bind ((ends_dropTokens h hdistinct hmem).imp ?_ fun _ _ => id))
  rintro _ dropped rfl
  have hdropped : Moves .determiner graph ((articleLeaves graph).foldl eraseToken graph) := by
    refine moves_foldl_eraseToken hdistinct fun index hindex => ⟨hmem index hindex, ?_⟩
    rintro key hkey rfl
    exact (mem_leavesWhere.mp hindex).2 _ (governs_of_mem_keys hkey)
  refine .get_bind (.bind ((Ends.mapM (fun _ _ changed => Moves .determiner graph changed ∧
    SameEnds ((articleLeaves graph).foldl eraseToken graph) changed)
      ?_ ⟨hdropped, .refl _⟩).imp (fun _ _ hnext => .pure hnext) fun _ _ => id))
  rintro index _ _ changed ⟨hmoves, hsame⟩
  refine (ends_allToDeterminer (hmoves.wellFormed h) index).imp (fun _ next hnext => ?_)
    fun _ _ => id
  exact ⟨hmoves.trans hnext.1, hsame.trans hnext.2⟩

theorem ends_determiner (h : graph.WellFormed) :
    Ends determiner graph (fun _ next => Moves .determiner graph next) fun _ _ => False :=
  (ends_determiner_sameEnds h).imp (fun _ _ => And.left) fun _ _ => id

/-! ### The articles that are left -/

theorem mem_foldl_eraseToken {indices : List Nat} {index : Nat} :
    index ∈ indices.foldl eraseToken graph ↔ index ∈ graph ∧ index ∉ indices := by
  simp only [foldl_eraseToken, mem_iff, without, List.mem_filter, decide_eq_true_eq]
  constructor
  · rintro ⟨token, ⟨htoken, hkept⟩, rfl⟩
    exact ⟨⟨token, htoken, rfl⟩, hkept⟩
  · rintro ⟨⟨token, htoken, rfl⟩, hkept⟩
    exact ⟨token, ⟨htoken, hkept⟩, rfl⟩

theorem token?_foldl_eraseToken {indices : List Nat} {index : Nat} (h : index ∉ indices) :
    (indices.foldl eraseToken graph).token? index = graph.token? index := by
  rw [foldl_eraseToken, token?, token?, without, List.find?_filter]
  congr 1
  ext token
  grind

theorem governs_foldl_eraseToken {indices : List Nat} {governor dependent : Nat} :
    (indices.foldl eraseToken graph).Governs governor dependent ↔
      graph.Governs governor dependent ∧ governor ∉ indices ∧ dependent ∉ indices := by
  simp only [foldl_eraseToken, Governs, edges, without, List.mem_map, List.mem_filter,
    decide_eq_true_eq]
  constructor
  · rintro ⟨_, ⟨arc, ⟨harc, hkept⟩, rfl⟩, rfl, rfl⟩
    exact ⟨⟨_, ⟨arc, harc, rfl⟩, rfl, rfl⟩, hkept⟩
  · rintro ⟨⟨_, ⟨arc, harc, rfl⟩, rfl, rfl⟩, hkept⟩
    exact ⟨_, ⟨arc, ⟨harc, hkept⟩, rfl⟩, rfl, rfl⟩

/-- The rule succeeds. The articles that are leaves in the end are those that governed something at
the start, and nothing but articles that were leaves. -/
theorem articleLeaves_of_determiner (h : graph.Reachable) :
    ∃ changes result, determiner.on graph = (.ok changes, result) ∧
      ∀ index, index ∈ articleLeaves result ↔
        (graph.token? index).any (fun token => isArticle token.word) = true ∧
          (∃ dependent, graph.Governs index dependent) ∧
            ∀ dependent, graph.Governs index dependent → dependent ∈ articleLeaves graph := by
  obtain ⟨changes, result, hon, -, hsame⟩ := (ends_determiner_sameEnds h.wellFormed).exists_ok
  refine ⟨changes, result, hon, fun index => ?_⟩
  have htoken : result.token? index =
      ((articleLeaves graph).foldl eraseToken graph).token? index := by
    rw [token?, hsame.tokens, ← token?]
  rw [articleLeaves, mem_leavesWhere, htoken]
  simp only [hsame.governs, governs_foldl_eraseToken]
  by_cases hdropped : index ∈ articleLeaves graph
  · -- A dropped article is no token in the end, and it governed nothing at the start.
    constructor
    · rintro ⟨htest, -⟩
      obtain ⟨token, htoken, -⟩ := (Option.any_eq_true _ _).mp htest
      exact absurd hdropped (mem_foldl_eraseToken.mp (mem_of_token? htoken)).2
    · rintro ⟨-, ⟨dependent, hgoverns⟩, -⟩
      exact absurd hgoverns ((mem_leavesWhere.mp hdropped).2 dependent)
  · rw [token?_foldl_eraseToken hdropped]
    refine and_congr_right fun htest => ?_
    have hnoleaf : ∃ dependent, graph.Governs index dependent := by
      by_contra hnone
      exact hdropped (mem_leavesWhere.mpr ⟨htest, not_exists.mp hnone⟩)
    rw [and_iff_right hnoleaf]
    refine forall_congr' fun dependent => ?_
    rw [not_and, not_and, not_not]
    exact forall_congr' fun _ => forall_prop_of_true hdropped

/-- "the a cats", where the first article governs the second. -/
def theACats : Graph where
  tokens := [
    { index := 1, word := "the", baseForm := "the", tag := "DT" },
    { index := 2, word := "a", baseForm := "a", tag := "DT" },
    { index := 3, word := "cats", baseForm := "cat", tag := "NNS" }]
  arcs := [
    (0, { governor := 3, dependent := 1, relation := "det" }),
    (1, { governor := 1, dependent := 2, relation := "det" })]
  roots := [3]
  nextEdge := 2

theorem reachable_theACats : theACats.Reachable := by
  have hread : TokenTable.read "1 the the DT 3 det\n2 a a DT 1 det\n3 cats cat NNS 0 root" =
      .ok theACats := by decide +kernel
  exact .read hread

/-- In `theACats` the second article is dropped, and the first is a leaf in the end. -/
theorem articleLeaves_of_determiner_theACats :
    ∃ changes result, determiner.on theACats = (.ok changes, result) ∧
      1 ∈ articleLeaves result ∧ 2 ∉ articleLeaves result := by
  obtain ⟨changes, result, hon, hleaves⟩ := articleLeaves_of_determiner reachable_theACats
  refine ⟨changes, result, hon, (hleaves 1).mpr ⟨by decide, ⟨2, by decide⟩, ?_⟩, fun hleaf => ?_⟩
  · rintro _ ⟨edge, hedge, hgovernor, rfl⟩
    simp only [edges, theACats, List.map_cons, List.map_nil, List.mem_cons, List.not_mem_nil,
      or_false] at hedge
    rcases hedge with rfl | rfl
    · cases hgovernor
    · decide
  · obtain ⟨-, ⟨dependent, edge, hedge, hgovernor, -⟩, -⟩ := (hleaves 2).mp hleaf
    exact absurd ⟨edge, hedge, hgovernor⟩ (by decide : ¬ ∃ edge ∈ theACats.edges, edge.governor = 2)

def theCats : Graph where
  tokens := theACats.tokens.filter (·.index != 2)
  arcs := [(0, { governor := 3, dependent := 1, relation := "det" })]
  roots := [3]
  nextEdge := 2

/-- An article may be left as a leaf: the first one of `theACats` is. -/
theorem exists_article_left :
    ¬ ∀ (graph result : Graph) (changes : Nat), graph.Reachable →
      determiner.on graph = (.ok changes, result) →
        ∀ index ∈ result.leaves, ∀ token, result.token? index = some token →
          isArticle token.word = false := by
  intro hall
  have hon : determiner.on theACats = (.ok 1, theCats) := by decide +kernel
  exact absurd (hall theACats theCats 1 reachable_theACats hon 1 (by decide) _ rfl) (by decide)

end Splice

end DepNorm
