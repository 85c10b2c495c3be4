import DepNorm.Proofs.Graph.Heads
import DepNorm.Proofs.Rounds
import DepNorm.Proofs.Splice.Dropping
import DepNorm.Proofs.Splice.Lowering

/-!
Rules that are called again and again. No rule adds an edge of the kinds that it uses up. So there
are no more calls that change something than the graph has such edges, and tokens where the rule
drops them, and then comes a call that fails or changes nothing. A call that counts no change leaves
the graph as it was.
-/

namespace DepNorm

open DepNorm.Graph EditM

variable {graph next : Graph}

namespace Graph

/-! ### Numbers of edges -/

theorem WellFormed.countP_eq_ncard (h : graph.WellFormed) (p : EdgeKey → Prop) [DecidablePred p] :
    graph.edges.countP (fun edge => p edge.key) = {key ∈ graph.keys | p key}.ncard := by
  have hdistinct : ((graph.edges.filter fun edge => p edge.key).map Edge.key).Nodup :=
    List.pairwise_map.mpr (h.keys_distinct.filter _)
  rw [ncard_eq_length hdistinct fun key => ?_, List.length_map, List.countP_eq_length_filter]
  simp only [List.mem_map, List.mem_filter, decide_eq_true_eq, Set.mem_ofPred_eq, mem_keys]
  constructor
  · rintro ⟨edge, ⟨hedge, hp⟩, rfl⟩
    exact ⟨⟨edge, hedge, rfl⟩, hp⟩
  · rintro ⟨⟨edge, hedge, rfl⟩, hp⟩
    exact ⟨edge, ⟨hedge, hp⟩, rfl⟩

/-- Of the edges of a kind of which none is put in, those are lost that are taken out. -/
theorem Exchanges.countP_add_ncard_le (hwf : graph.WellFormed) {taken : Set EdgeKey}
    {put : Set Edge} (h : graph.Exchanges taken put next) (p : EdgeKey → Prop) [DecidablePred p]
    (lost : Set EdgeKey) (hput : ∀ edge ∈ put, ¬ p edge.key)
    (hlost : lost ⊆ {key ∈ graph.keys | p key} ∩ taken) :
    next.edges.countP (fun edge => p edge.key) + lost.ncard ≤
      graph.edges.countP fun edge => p edge.key := by
  have hfinite : {key ∈ graph.keys | p key}.Finite :=
    (finite_keys graph).subset (Set.sep_subset _ _)
  have hstays : {key ∈ next.keys | p key} ⊆ {key ∈ graph.keys | p key} \ taken := by
    rintro key ⟨hkey, hp⟩
    rw [h.keys] at hkey
    rcases hkey with ⟨hkey, htaken⟩ | ⟨edge, hedge, rfl⟩
    · exact ⟨⟨hkey, hp⟩, htaken⟩
    · exact absurd hp (hput edge hedge)
  have hdisjoint : Disjoint {key ∈ next.keys | p key} lost :=
    Set.disjoint_left.mpr fun key hkey hmem => (hstays hkey).2 (hlost hmem).2
  rw [h.wellFormed.countP_eq_ncard, hwf.countP_eq_ncard, ← Set.ncard_union_eq hdisjoint
    (hfinite.subset (hstays.trans Set.sdiff_subset))
    (hfinite.subset (hlost.trans Set.inter_subset_left))]
  refine Set.ncard_le_ncard (Set.union_subset ?_ ?_) hfinite
  · exact hstays.trans Set.sdiff_subset
  · exact hlost.trans Set.inter_subset_left

end Graph

namespace Splice

/-- A call of the rule changes something and leaves the second graph. -/
def Fires (rule : EditM Nat) (graph next : Graph) : Prop :=
  ∃ changes, 0 < changes ∧ rule.on graph = (.ok changes, next)

/-- Each change that the rule counts takes one off the size at least. -/
def Spends (rule : EditM Nat) (size : Graph → Nat) : Prop :=
  ∀ graph changes next, graph.WellFormed → rule.on graph = (.ok changes, next) →
    next.WellFormed ∧ size next + changes ≤ size graph

namespace Spends

variable {rule : EditM Nat} {size : Graph → Nat} {count : Nat}

theorem lessens (h : Spends rule size) : Lessens (Fires rule) WellFormed size := by
  rintro graph next hwf ⟨changes, hpos, hon⟩
  obtain ⟨hnext, hless⟩ := h graph changes next hwf hon
  exact ⟨hnext, by omega⟩

theorem count_le (h : Spends rule size) (hwf : graph.WellFormed)
    (hrounds : Rounds (Fires rule) count graph next) : count ≤ size graph := by
  have hbound := h.lessens.count_add_size_le hwf hrounds
  omega

/-- After some calls that change something comes one that counts no change or fails. -/
theorem exists_last (h : Spends rule size) (hwf : graph.WellFormed) :
    ∃ count last, Rounds (Fires rule) count graph last ∧ last.WellFormed ∧
      ((∃ next, rule.on last = (.ok 0, next)) ∨
        ∃ fault failed, rule.on last = (.error fault, failed)) := by
  obtain ⟨count, last, hrounds, hlast, hend⟩ := h.lessens.exists_last hwf
  refine ⟨count, last, hrounds, hlast, ?_⟩
  rcases hon : rule.on last with ⟨fault | changes, next⟩
  · exact .inr ⟨fault, next, rfl⟩
  · rcases Nat.eq_zero_or_pos changes with rfl | hpos
    · exact .inl ⟨next, rfl⟩
    · exact absurd ⟨changes, hpos, hon⟩ (hend next)

end Spends

/-! ### Quantities -/

/-- The kinds of edges that the rule for quantities uses up. -/
def OfQuantity (key : EdgeKey) : Prop :=
  key.relation = "nmod:of" ∧ key.extra = false ∨ key.relation = "num"

instance : DecidablePred OfQuantity := fun key =>
  inferInstanceAs (Decidable (key.relation = "nmod:of" ∧ key.extra = false ∨ key.relation = "num"))

/-- The number of the primary edges called "nmod:of" and of the numeral edges. -/
def quantitySize (graph : Graph) : Nat := graph.edges.countP fun edge => OfQuantity edge.key

theorem Lowering.quantitySize_add_le (h : graph.WellFormed) {pattern : Pattern}
    {quantity relation : String} {changes : Nat} {taken : Set EdgeKey} {put : Set Edge}
    (hlower : Lowering pattern quantity relation graph changes taken put next)
    (hrelation : relation ≠ "nmod:of" ∧ relation ≠ "num") :
    quantitySize next + changes ≤ quantitySize graph := by
  cases hlower with
  | unmatched => exact le_rfl
  | @lowered found verb head object _ _ _ hkeys hnext =>
      have hobject : { governor := head, dependent := object, relation := "nmod:of" } ∈
          quantityKeys relation verb head object := .inr rfl
      have hless := hnext.countP_add_ncard_le h OfQuantity
        {{ governor := head, dependent := object, relation := "nmod:of" }} ?_ ?_
      · rwa [Set.ncard_singleton] at hless
      · rintro edge (rfl | rfl) (⟨hof, -⟩ | hnum)
        · exact hrelation.1 hof
        · exact hrelation.2 hnum
        · exact absurd hof (by decide : "amod" ≠ "nmod:of")
        · exact absurd hnum (by decide : "amod" ≠ "num")
      · rintro key rfl
        exact ⟨⟨hkeys hobject, .inl ⟨rfl, rfl⟩⟩, hobject⟩

theorem exists_of_on_quantity (h : graph.WellFormed) {changes : Nat}
    (hon : quantity.on graph = (.ok changes, next)) :
    ∃ lots numerals ones first second,
      (∃ taken put, Lowering aLotOf "lot" "dobj" graph lots taken put first) ∧
      first.WellFormed ∧
      (∃ taken put, Lowering numeralOf "num" "nsubj" first numerals taken put second) ∧
      second.WellFormed ∧ onesToDeterminers.on second = (.ok ones, next) ∧
      changes = lots + numerals + ones := by
  obtain ⟨lots, first, hlots, hon⟩ := exists_of_on_bind_eq_ok hon
  obtain ⟨numerals, second, hnumerals, hon⟩ := exists_of_on_bind_eq_ok hon
  obtain ⟨ones, last, hones, hon⟩ := exists_of_on_bind_eq_ok hon
  cases hon
  obtain ⟨taken, put, hlot⟩ := exists_lowering h isQuantity_aLotOf hlots
  have hfirst := (hlot.exchanges h).wellFormed
  obtain ⟨taken', put', hnumeral⟩ := exists_lowering hfirst isQuantity_numeralOf hnumerals
  exact ⟨lots, numerals, ones, first, second, ⟨taken, put, hlot⟩, hfirst,
    ⟨taken', put', hnumeral⟩, (hnumeral.exchanges hfirst).wellFormed, hones, rfl⟩

theorem spends_quantity : Spends quantity quantitySize := by
  intro graph changes next hwf hon
  obtain ⟨lots, numerals, ones, first, second, ⟨_, _, hlot⟩, hfirst, ⟨_, _, hnumeral⟩, hsecond,
    hones, rfl⟩ := exists_of_on_quantity hwf hon
  obtain ⟨rfl, hlast⟩ := exchanges_of_on_onesToDeterminers hsecond hones
  have hlot := hlot.quantitySize_add_le hwf (by decide)
  have hnumeral := hnumeral.quantitySize_add_le hfirst (by decide)
  have hone := hlast.countP_add_ncard_le hsecond OfQuantity (numeralKeys second) ?_ ?_
  · rw [← quantitySize, ← quantitySize] at hone
    exact ⟨hlast.wellFormed, by omega⟩
  · intro edge hedge
    have hdet : edge.key.relation = "det" := relation_of_mem_determiners hedge
    simp [OfQuantity, hdet]
  · exact fun key ⟨hkey, hnum⟩ => ⟨⟨hkey, .inr hnum.1⟩, hkey, hnum⟩

/-! ### Determiners -/

/-- The number of the tokens and of the edges that are no determiner edges. -/
def determinerSize (graph : Graph) : Nat :=
  graph.tokens.length + graph.edges.countP (·.key.relation ≠ "det")

theorem determinerSize_without_add_le {indices : List Nat} (hdistinct : indices.Nodup)
    (hmem : ∀ index ∈ indices, index ∈ graph) :
    determinerSize (graph.without indices) + indices.length ≤ determinerSize graph := by
  have htokens : (graph.without indices).tokens.length + indices.length ≤ graph.tokens.length := by
    have hsub : indices ⊆ (graph.tokens.filter (·.index ∈ indices)).map Token.index := by
      intro index hindex
      obtain ⟨token, htoken, rfl⟩ := hmem index hindex
      exact List.mem_map_of_mem (List.mem_filter.mpr ⟨htoken, decide_eq_true hindex⟩)
    have hle := (hdistinct.subperm hsub).length_le
    rw [List.length_map] at hle
    have hsplit := graph.tokens.length_eq_length_filter_add (·.index ∈ indices)
    simp only [← decide_not] at hsplit
    change (graph.tokens.filter (·.index ∉ indices)).length + _ ≤ _
    omega
  have hedges : (graph.without indices).edges.countP (·.key.relation ≠ "det") ≤
      graph.edges.countP (·.key.relation ≠ "det") :=
    (List.filter_sublist.map Prod.snd).countP_le
  rw [determinerSize, determinerSize]
  omega

theorem exists_of_on_determiner (h : graph.WellFormed) {changes : Nat}
    (hon : determiner.on graph = (.ok changes, next)) :
    ∃ keys, ((leavesWhere (graph.without (articleLeaves graph)) fun token =>
        token.tag == "WP").mapM allToDeterminer).on (graph.without (articleLeaves graph)) =
          (.ok keys, next) ∧
      changes = (articleLeaves graph).length + keys.flatten.length := by
  rw [determiner, on_get_bind] at hon
  obtain ⟨_, rest, hdrop, hon⟩ := exists_of_on_bind_eq_ok hon
  have hrest := (ends_dropTokens h (nodup_leavesWhere h _) fun _ =>
    mem_of_mem_leavesWhere).of_on_eq_ok hdrop
  rw [foldl_eraseToken] at hrest
  subst hrest
  rw [on_get_bind] at hon
  obtain ⟨keys, last, hrelabel, hon⟩ := exists_of_on_bind_eq_ok hon
  cases hon
  exact ⟨keys, hrelabel, rfl⟩

theorem spends_determiner : Spends determiner determinerSize := by
  intro graph changes next h hon
  obtain ⟨keys, hrelabel, rfl⟩ := exists_of_on_determiner h hon
  have hwf := h.without (articleLeaves graph)
  obtain ⟨hnodup, hkeys, hnext⟩ :=
    of_on_mapM_allToDeterminer hwf (nodup_leavesWhere hwf _) hrelabel
  have hdistinct : (articleLeaves graph).Nodup := nodup_leavesWhere h _
  have hdropped := determinerSize_without_add_le hdistinct fun _ => mem_of_mem_leavesWhere
  have hless := hnext.countP_add_ncard_le hwf (·.relation ≠ "det") _
    (fun edge hedge hother => hother (relation_of_mem_determiners hedge))
    (fun key hkey => ⟨⟨hkey.1, hkey.2.2⟩, hkey⟩)
  rw [ncard_eq_length hnodup fun key => Set.ext_iff.mp hkeys key] at hless
  have htokens : next.tokens.length = (graph.without (articleLeaves graph)).tokens.length :=
    congrArg List.length hnext.tokens
  rw [determinerSize] at hdropped ⊢
  exact ⟨hnext.wellFormed, by omega⟩

/-! ### Calls that change nothing -/

theorem eq_of_on_mapM {α β : Type} {edit : α → EditM β} (idle : β → Prop)
    (hidle : ∀ a b graph next, (edit a).on graph = (.ok b, next) → idle b → next = graph)
    {items : List α} {values : List β} (hon : (items.mapM edit).on graph = (.ok values, next))
    (hvalues : ∀ b ∈ values, idle b) : next = graph := by
  induction items generalizing graph values with
  | nil =>
      cases hon
      rfl
  | cons a items ih =>
      rw [List.mapM_cons] at hon
      obtain ⟨b, mid, hfirst, hon⟩ := exists_of_on_bind_eq_ok hon
      obtain ⟨rest, last, hrest, hon⟩ := exists_of_on_bind_eq_ok hon
      cases hon
      obtain ⟨hb, hvalues⟩ := List.forall_mem_cons.mp hvalues
      rw [ih hrest hvalues, hidle a b graph mid hfirst hb]

theorem eq_of_on_replaceRoot {root : Nat}
    (hon : (replaceRoot root).on graph = (.ok false, next)) : next = graph := by
  rw [replaceRoot, on_get_bind] at hon
  split at hon
  · split at hon
    · obtain ⟨_, _, -, hon⟩ := exists_of_on_bind_eq_ok hon
      obtain ⟨_, _, -, hon⟩ := exists_of_on_bind_eq_ok hon
      obtain ⟨_, _, -, hon⟩ := exists_of_on_bind_eq_ok hon
      cases hon
    · cases hon
      rfl
  · cases hon
    rfl

theorem eq_of_on_operatorRoot (hon : operatorRoot.on graph = (.ok 0, next)) : next = graph := by
  rw [operatorRoot, on_get_bind] at hon
  obtain ⟨replaced, last, hreplaced, hon⟩ := exists_of_on_bind_eq_ok hon
  obtain ⟨hcount, rfl⟩ := Prod.mk.inj hon
  have hnone : ∀ answer ∈ replaced, answer = false := by
    intro answer hanswer
    have htrue := List.count_eq_zero.mp (Except.ok.inj hcount)
    exact Bool.eq_false_iff.mpr fun h => htrue (h ▸ hanswer)
  refine eq_of_on_mapM (· = false) (fun root answer graph next hon hfalse => ?_) hreplaced hnone
  exact eq_of_on_replaceRoot (hfalse ▸ hon)

theorem eq_of_on_allToDeterminer {index : Nat}
    (hon : (allToDeterminer index).on graph = (.ok [], next)) : next = graph := by
  rw [allToDeterminer, on_get_bind] at hon
  obtain ⟨_, last, hrelabel, hon⟩ := exists_of_on_bind_eq_ok hon
  obtain ⟨hkeys, rfl⟩ := Prod.mk.inj hon
  rw [Except.ok.inj hkeys] at hrelabel
  cases hrelabel
  rfl

theorem eq_of_on_determiner (h : graph.WellFormed) (hon : determiner.on graph = (.ok 0, next)) :
    next = graph := by
  obtain ⟨keys, hrelabel, hchanges⟩ := exists_of_on_determiner h hon
  have hnone : articleLeaves graph = [] := List.eq_nil_of_length_eq_zero (by omega)
  have hkeys : keys.flatten = [] := List.eq_nil_of_length_eq_zero (by omega)
  have hsame : graph.without [] = graph := (foldl_eraseToken []).symm
  rw [hnone, hsame] at hrelabel
  refine eq_of_on_mapM (· = []) (fun index keys graph next hon hempty => ?_) hrelabel
    (List.flatten_eq_nil_iff.mp hkeys)
  exact eq_of_on_allToDeterminer (hempty ▸ hon)

theorem eq_of_on_clause (hon : clause.on graph = (.ok 0, next)) : next = graph := by
  rw [clause, on_get_bind] at hon
  repeat' split at hon
  all_goals first
    | cases hon; rfl
    | obtain ⟨_, _, -, hon⟩ := exists_of_on_bind_eq_ok hon; cases hon

theorem Lowering.eq_of_zero {pattern : Pattern} {quantity relation : String} {taken : Set EdgeKey}
    {put : Set Edge} (h : Lowering pattern quantity relation graph 0 taken put next) :
    next = graph := by
  cases h with
  | unmatched => rfl

theorem eq_of_on_onesToDeterminers (hon : onesToDeterminers.on graph = (.ok 0, next)) :
    next = graph := by
  rw [onesToDeterminers, on_get_bind] at hon
  obtain ⟨numerals, mid, htake, hon⟩ := exists_of_on_bind_eq_ok hon
  obtain ⟨_, last, hput, hon⟩ := exists_of_on_bind_eq_ok hon
  obtain ⟨hlength, rfl⟩ := Prod.mk.inj hon
  obtain rfl := List.eq_nil_of_length_eq_zero (Except.ok.inj hlength)
  cases hput
  exact eq_of_on_mapM (fun _ => False) (fun _ _ _ _ _ => False.elim) htake
    fun _ hedge => absurd hedge List.not_mem_nil

theorem eq_of_on_quantity (h : graph.WellFormed) (hon : quantity.on graph = (.ok 0, next)) :
    next = graph := by
  obtain ⟨lots, numerals, ones, first, second, ⟨_, _, hlot⟩, -, ⟨_, _, hnumeral⟩, -, hones, hsum⟩ :=
    exists_of_on_quantity h hon
  obtain ⟨rfl, rfl, rfl⟩ : lots = 0 ∧ numerals = 0 ∧ ones = 0 := by omega
  rw [eq_of_on_onesToDeterminers hones, hnumeral.eq_of_zero, hlot.eq_of_zero]

/-! ### The four rules -/

theorem eq_of_on_eq_zero (h : graph.WellFormed) {rule : Rule × EditM Nat}
    (hrule : rule ∈ Filters.graphRules) (hon : rule.2.on graph = (.ok 0, next)) : next = graph := by
  simp only [Filters.graphRules, List.mem_cons, List.not_mem_nil, or_false] at hrule
  rcases hrule with rfl | rfl | rfl | rfl
  · exact eq_of_on_quantity h hon
  · exact eq_of_on_operatorRoot hon
  · exact eq_of_on_determiner h hon
  · exact eq_of_on_clause hon

/-- Called again and again, the rule for quantities changes something at most once for each primary
edge called "nmod:of" and each numeral edge, and then it fails or changes nothing. The rule for
determiners changes something at most once for each token and each edge that is no determiner edge,
and then it changes nothing. Any of the four rules that counts no change leaves the graph as it
was. -/
theorem repetition_ends (h : graph.Reachable) :
    ((∀ count next, Rounds (Fires quantity) count graph next → count ≤ quantitySize graph) ∧
      ∃ count last, Rounds (Fires quantity) count graph last ∧
        (quantity.on last = (.ok 0, last) ∨
          ∃ fault failed, quantity.on last = (.error fault, failed))) ∧
    ((∀ count next, Rounds (Fires determiner) count graph next → count ≤ determinerSize graph) ∧
      ∃ count last, Rounds (Fires determiner) count graph last ∧
        determiner.on last = (.ok 0, last)) ∧
    ∀ rule ∈ Filters.graphRules, ∀ next, rule.2.on graph = (.ok 0, next) → next = graph := by
  have hwf := h.wellFormed
  refine ⟨⟨fun _ _ => spends_quantity.count_le hwf, ?_⟩,
    ⟨fun _ _ => spends_determiner.count_le hwf, ?_⟩,
    fun rule hrule next => eq_of_on_eq_zero hwf hrule⟩
  · obtain ⟨count, last, hrounds, hlast, hend⟩ := spends_quantity.exists_last hwf
    refine ⟨count, last, hrounds, hend.imp_left fun ⟨next, hon⟩ => ?_⟩
    rwa [eq_of_on_quantity hlast hon] at hon
  · obtain ⟨count, last, hrounds, hlast, ⟨next, hon⟩ | ⟨fault, failed, hon⟩⟩ :=
      spends_determiner.exists_last hwf
    · rw [eq_of_on_determiner hlast hon] at hon
      exact ⟨count, last, hrounds, hon⟩
    · exact ((ends_determiner hlast).of_on_eq_error hon).elim

/-- In `eatsLotCake` the rule for quantities changes something once. The next call sees the
secondary edges, takes nothing out and fails. The rule for determiners changes nothing. -/
theorem repetition_ends_eatsLotCake :
    Rounds (Fires quantity) 1 eatsLotCake eatsCakeLot ∧
      (∀ count next, Rounds (Fires quantity) count eatsLotCake next → count ≤ 1) ∧
      quantity.on eatsCakeLot = (.error (.missingEdge .quantity
        { governor := 1, dependent := 2, relation := "dobj" }), eatsCakeLot) ∧
      ∀ next, determiner.on eatsLotCake = (.ok 0, next) → next = eatsLotCake := by
  obtain ⟨⟨hbound, -⟩, -, hsame⟩ := repetition_ends reachable_eatsLotCake
  have hsize : quantitySize eatsLotCake = 1 := by decide
  refine ⟨.next ⟨1, Nat.one_pos, on_eatsLotCake⟩ (.none _), fun count next hrounds => ?_, ?_,
    hsame (.determiner, determiner) (by simp [Filters.graphRules])⟩
  · exact (hbound count next hrounds).trans_eq hsize
  · simp only [quantity, lowerFirst, view, outgoing, Edge.sort_eq_insertionSort]
    decide +kernel

end Splice

end DepNorm
