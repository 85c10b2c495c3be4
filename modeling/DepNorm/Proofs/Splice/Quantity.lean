import DepNorm.Proofs.Graph.Reachable
import DepNorm.Proofs.Graph.Sort
import DepNorm.Proofs.Pattern.Occurrence
import DepNorm.Proofs.Splice.Move

/-!
The rule for quantities as a sequence of moves, and what it leaves of the quantities that it lowers.
It can only stop where its match has seen a secondary edge: the edge that it takes out first is not
the one that it takes out next. It takes out primary edges only, so a quantity is seen again, in the
same place, if a secondary edge runs beside each of the two that are taken out.
-/

namespace DepNorm.Splice

open DepNorm.Graph EditM

variable {graph next : Graph}

/-! ### Lowering a quantity -/

/-- If both edges of the quantity are there, be they primary or secondary, the quantity is lowered
or the rule stops. -/
theorem ends_lowerQuantity (h : graph.WellFormed) {relation : String} {verb quantity object : Nat}
    (hdistinct : [verb, quantity, object].Nodup) (hquantity : graph.Joins verb relation quantity)
    (hobject : graph.Joins quantity "nmod:of" object) :
    Ends (lowerQuantity relation verb quantity object) graph
      (fun _ next => { governor := verb, dependent := quantity, relation } ∈ graph.keys ∧
        { governor := quantity, dependent := object, relation := "nmod:of" } ∈ graph.keys ∧
          graph.Rekeyed (loweredKeys graph.keys relation verb quantity object) next)
      (Stopped .quantity graph) := by
  obtain ⟨hverbmem, hquantitymem⟩ := h.mem_of_joins hquantity
  have hobjectmem := (h.mem_of_joins hobject).2
  have hverb : quantity ≠ verb := by
    rintro rfl
    simp at hdistinct
  unfold lowerQuantity
  refine .bind (ends_takeJoined (Rekeyed.refl h) subset_rfl hquantity fun mid hfirst hmid => ?_)
  have hstill := hobject.of_keys_eq hmid.keys fun heq => absurd heq hverb
  refine .bind (ends_takeJoined hmid Set.sdiff_subset hstill fun rest hsecond hrest => ?_)
  refine .bind (ends_putEdge hrest.wellFormed (hrest.mem_iff.mpr hverbmem)
    (hrest.mem_iff.mpr hobjectmem) fun put hput => ?_)
  have hput := hrest.trans hput
  refine ends_putEdge hput.wellFormed (hput.mem_iff.mpr hobjectmem)
    (hput.mem_iff.mpr hquantitymem) fun next hnext => ?_
  refine ⟨hfirst, hsecond.1, (hput.trans hnext).congr ?_⟩
  rw [hput.keys, hrest.keys]
  rfl

/-- The pattern is that of a quantity: its node hangs below the verb by the relation, and the object
below it. -/
structure IsQuantity (pattern : Pattern) (quantity relation : String) : Prop where
  governed : Pattern.Governed [pattern.anchor.name] pattern.edges
  asks_quantity : pattern.Asks
    { governor := "verb", dependent := quantity, relation := .exact relation }
  asks_object : pattern.Asks
    { governor := quantity, dependent := "obj", relation := .exact "nmod:of" }
  names_distinct : ["verb", quantity, "obj"].Nodup

theorem isQuantity_aLotOf : IsQuantity aLotOf "lot" "dobj" where
  governed := by simp [Pattern.Governed, aLotOf]
  asks_quantity := ⟨[], _, rfl, rfl, by decide⟩
  asks_object := ⟨aLotOf.edges.take 2, [], rfl, rfl, by decide⟩
  names_distinct := by decide

theorem isQuantity_numeralOf : IsQuantity numeralOf "num" "nsubj" where
  governed := by simp [Pattern.Governed, numeralOf]
  asks_quantity := ⟨[], _, rfl, rfl, by decide⟩
  asks_object := ⟨numeralOf.edges.take 1, [], rfl, rfl, by decide⟩
  names_distinct := by decide

/-- The tokens to which a match of a quantity binds its three nodes. -/
structure BindsQuantity (quantity : String) (found : Match) (verb head object : Nat) : Prop where
  verb : found.node? "verb" = some verb
  head : found.node? quantity = some head
  object : found.node? "obj" = some object

theorem IsQuantity.exists_tokens {pattern : Pattern} {quantity relation : String}
    (hpattern : IsQuantity pattern quantity relation) {found : Match}
    (hfind : pattern.find? graph.view = some found) :
    ∃ verb head object, BindsQuantity quantity found verb head object ∧
      [verb, head, object].Nodup ∧ graph.Joins verb relation head ∧
        graph.Joins head "nmod:of" object := by
  obtain ⟨verb, head, hverb, hhead, hjoins⟩ :=
    Pattern.joins_of_find? hpattern.governed hfind hpattern.asks_quantity
  obtain ⟨head', object, hhead', hobject, hjoins'⟩ :=
    Pattern.joins_of_find? hpattern.governed hfind hpattern.asks_object
  cases hhead.symm.trans hhead'
  exact ⟨verb, head, object, ⟨hverb, hhead, hobject⟩,
    Pattern.nodup_of_node? hpattern.governed hfind hpattern.names_distinct
      (by simp [hverb, hhead, hobject]), hjoins, hjoins'⟩

/-- What the rule does to the first match of a pattern. The answer is the number of changes. -/
inductive LowersFirst (pattern : Pattern) (quantity relation : String) (graph : Graph) :
    Nat → Graph → Prop
  | unmatched (hfind : pattern.find? graph.view = none) :
      LowersFirst pattern quantity relation graph 0 graph
  | lowered {found : Match} {verb head object : Nat} {next : Graph}
      (hfind : pattern.find? graph.view = some found)
      (hbinds : BindsQuantity quantity found verb head object)
      (hdistinct : [verb, head, object].Nodup)
      (hquantity : { governor := verb, dependent := head, relation } ∈ graph.keys)
      (hobject : { governor := head, dependent := object, relation := "nmod:of" } ∈ graph.keys)
      (hnext : graph.Rekeyed (loweredKeys graph.keys relation verb head object) next) :
      LowersFirst pattern quantity relation graph 1 next

theorem ends_lowerFirst (h : graph.WellFormed) {pattern : Pattern} {quantity relation : String}
    (hpattern : IsQuantity pattern quantity relation) :
    Ends (lowerFirst pattern quantity relation) graph
      (LowersFirst pattern quantity relation graph) (Stopped .quantity graph) := by
  unfold lowerFirst
  refine .get_bind ?_
  cases hfind : pattern.find? graph.view with
  | none => exact .pure (.unmatched hfind)
  | some found =>
      obtain ⟨verb, head, object, hbinds, hdistinct, hquantity, hobject⟩ :=
        hpattern.exists_tokens hfind
      simp only [hbinds.verb, hbinds.head, hbinds.object]
      refine .bind ((ends_lowerQuantity h hdistinct hquantity hobject).imp ?_ fun _ _ => id)
      rintro _ next ⟨hquantity, hobject, hnext⟩
      exact .pure (.lowered hfind hbinds hdistinct hquantity hobject hnext)

namespace LowersFirst

variable {pattern : Pattern} {quantity relation : String} {changes : Nat} {key : EdgeKey}

theorem moves (h : LowersFirst pattern quantity relation graph changes next) :
    Moves .quantity graph next := by
  cases h with
  | unmatched => exact .refl
  | lowered _ _ hdistinct hquantity hobject hnext =>
      exact .single (.lower hdistinct hquantity hobject hnext)

theorem mem_of_mem (h : LowersFirst pattern quantity relation graph changes next)
    (hrelation : key.relation ≠ relation) (hamod : key.relation ≠ "amod") (hkey : key ∈ next.keys) :
    key ∈ graph.keys := by
  cases h with
  | unmatched => exact hkey
  | lowered _ _ _ _ _ hnext =>
      rw [hnext.keys] at hkey
      rcases hkey with rfl | rfl | ⟨⟨hkey, -⟩, -⟩
      · exact absurd rfl hamod
      · exact absurd rfl hrelation
      · exact hkey

theorem mem_iff_of_extra (h : LowersFirst pattern quantity relation graph changes next)
    (hextra : key.extra = true) : key ∈ next.keys ↔ key ∈ graph.keys := by
  cases h with
  | unmatched => exact Iff.rfl
  | lowered _ _ _ _ _ hnext =>
      rw [hnext.keys]
      constructor
      · rintro (rfl | rfl | ⟨⟨hkey, -⟩, -⟩)
        · cases hextra
        · cases hextra
        · exact hkey
      · intro hkey
        refine .inr (.inr ⟨⟨hkey, ?_⟩, ?_⟩)
        · rintro rfl
          cases hextra
        · rintro rfl
          cases hextra

theorem not_mem (h : LowersFirst pattern quantity relation graph changes next) {found : Match}
    {verb head object : Nat} (hfind : pattern.find? graph.view = some found)
    (hbinds : BindsQuantity quantity found verb head object) :
    { governor := verb, dependent := head, relation } ∉ next.keys ∧
      { governor := head, dependent := object, relation := "nmod:of" } ∉ next.keys := by
  cases h with
  | unmatched hnone => cases hfind.symm.trans hnone
  | @lowered found' verb' head' object' _ hfind' hbinds' hdistinct _ _ hnext =>
      cases hfind.symm.trans hfind'
      cases hbinds.verb.symm.trans hbinds'.verb
      cases hbinds.head.symm.trans hbinds'.head
      cases hbinds.object.symm.trans hbinds'.object
      rw [hnext.keys]
      simp only [List.nodup_cons, List.mem_cons, List.not_mem_nil, or_false, not_or] at hdistinct
      obtain ⟨⟨hverb, hverb'⟩, hhead, -⟩ := hdistinct
      constructor
      · rintro (heq | heq | ⟨⟨-, hne⟩, -⟩)
        · exact hverb' (congrArg EdgeKey.governor heq)
        · exact hhead (congrArg EdgeKey.dependent heq)
        · exact hne rfl
      · rintro (heq | heq | ⟨-, hne⟩)
        · exact hhead (congrArg EdgeKey.governor heq)
        · exact hverb (congrArg EdgeKey.governor heq).symm
        · exact hne rfl

end LowersFirst

/-! ### Numerals -/

theorem nodup_keys_numeralsOne (h : graph.WellFormed) :
    ((numeralsOne graph).map Edge.key).Nodup := by
  have hsorted : graph.sortedEdges.Pairwise (·.key ≠ ·.key) :=
    (List.mergeSort_perm graph.edges _).pairwise_iff Ne.symm |>.mpr h.keys_distinct
  exact List.pairwise_map.mpr (hsorted.filter _)

theorem of_mem_numeralsOne {key : EdgeKey} (h : key ∈ (numeralsOne graph).map Edge.key) :
    key ∈ graph.keys ∧ key.relation = "num" := by
  obtain ⟨edge, hedge, rfl⟩ := List.mem_map.mp h
  obtain ⟨hmem, htest⟩ := List.mem_filter.mp hedge
  rw [Bool.and_eq_true, beq_iff_eq] at htest
  exact ⟨key_mem_keys (List.mem_mergeSort.mp hmem), htest.1⟩

/-- Some numeral edges become determiner edges. -/
def RelabelsNumerals (graph next : Graph) : Prop :=
  ∃ targets ⊆ graph.keys, (∀ key ∈ targets, key.relation = "num") ∧
    graph.Rekeyed (relabelledKeys graph.keys targets) next

theorem RelabelsNumerals.moves (h : RelabelsNumerals graph next) : Moves .quantity graph next := by
  obtain ⟨targets, htargets, -, hnext⟩ := h
  exact .single (.relabel (.inl rfl) htargets hnext)

theorem RelabelsNumerals.mem_iff (h : RelabelsNumerals graph next) {key : EdgeKey}
    (hnum : key.relation ≠ "num") (hdet : key.relation ≠ "det") :
    key ∈ next.keys ↔ key ∈ graph.keys := by
  obtain ⟨targets, -, hnumerals, hnext⟩ := h
  rw [hnext.keys]
  constructor
  · rintro (⟨hkey, -⟩ | ⟨target, -, rfl⟩)
    · exact hkey
    · exact absurd rfl hdet
  · exact fun hkey => .inl ⟨hkey, fun htarget => hnum (hnumerals key htarget)⟩

/-- All numeral edges into "one" become determiner edges at once. -/
theorem ends_onesToDeterminers (h : graph.WellFormed) :
    Ends onesToDeterminers graph (fun _ next => RelabelsNumerals graph next) fun _ _ => False := by
  unfold onesToDeterminers
  refine .get_bind (.bind (ends_mapM_takeEdge h (nodup_keys_numeralsOne h)
    (fun key hkey => (of_mem_numeralsOne hkey).1) fun numerals rest hkeys hrest => ?_))
  have htargets (key : EdgeKey) (hkey : key ∈ numerals.map Edge.key) :
      key ∈ graph.keys ∧ key.relation = "num" := of_mem_numeralsOne (hkeys ▸ hkey)
  refine .bind (ends_forM_putEdge hrest.wellFormed (fun edge hedge => ?_) fun next hnext => ?_)
  · obtain ⟨hkey, -⟩ := htargets edge.key (List.mem_map_of_mem hedge)
    rw [hrest.mem_iff, hrest.mem_iff]
    exact ⟨h.governor_mem_of_keys hkey, h.dependent_mem_of_keys hkey⟩
  · refine .pure ⟨{key | key ∈ numerals.map Edge.key}, fun key hkey => (htargets key hkey).1,
      fun key hkey => (htargets key hkey).2, (hrest.trans hnext).congr ?_⟩
    rw [hrest.keys, ← hkeys]
    ext key
    simp [relabelledKeys]

/-! ### The rule -/

theorem ends_quantity (h : graph.WellFormed) :
    Ends quantity graph (fun _ next => Moves .quantity graph next) (Stopped .quantity graph) := by
  unfold quantity
  refine .bind ((ends_lowerFirst h isQuantity_aLotOf).imp (fun lots mid hmid => ?_) fun _ _ => id)
  have hmid := hmid.moves
  refine .bind ((ends_lowerFirst (hmid.wellFormed h) isQuantity_numeralOf).imp
    (fun numerals rest hrest => ?_) fun _ _ hstopped => hstopped.of_moves hmid)
  have hrest : Moves .quantity graph rest := hmid.trans hrest.moves
  refine .bind ((ends_onesToDeterminers (hrest.wellFormed h)).imp (fun ones next hnext => ?_)
    fun _ _ => False.elim)
  exact .pure (hrest.trans hnext.moves)

/-! ### Quantities that have been lowered -/

/-- A search sees the two edges of a quantity. -/
def Seen (view : View) (relation : String) (verb quantity object : Nat) : Prop :=
  { dependent := quantity, relation } ∈ view.outgoing verb ∧
    { dependent := object, relation := "nmod:of" } ∈ view.outgoing quantity

/-- What is left of a quantity between the first graph and the second: its primary edges are gone,
and a search sees it still exactly if it had both secondary edges as well. -/
structure Consumed (graph next : Graph) (relation : String) (verb quantity object : Nat) :
    Prop where
  quantity_not_mem : { governor := verb, dependent := quantity, relation } ∉ next.keys
  object_not_mem :
    { governor := quantity, dependent := object, relation := "nmod:of" } ∉ next.keys
  seen_iff : Seen next.view relation verb quantity object ↔
    { governor := verb, dependent := quantity, relation, extra := true } ∈ graph.keys ∧
      { governor := quantity, dependent := object, relation := "nmod:of", extra := true } ∈
        graph.keys

theorem joins_iff_extra_mem {governor dependent : Nat} {relation : String}
    (h : { governor, dependent, relation } ∉ graph.keys) :
    graph.Joins governor relation dependent ↔
      { governor, dependent, relation, extra := true } ∈ graph.keys :=
  ⟨fun hjoins => hjoins.extra_mem h, fun hextra => ⟨true, hextra⟩⟩

theorem consumed_of_not_mem {relation : String} {verb quantity object : Nat}
    (hnum : relation ≠ "num") (hdet : relation ≠ "det")
    (hextra : ∀ key : EdgeKey, key.extra = true → key.relation ≠ "num" → key.relation ≠ "det" →
      (key ∈ next.keys ↔ key ∈ graph.keys))
    (hquantity : { governor := verb, dependent := quantity, relation } ∉ next.keys)
    (hobject : { governor := quantity, dependent := object, relation := "nmod:of" } ∉ next.keys) :
    Consumed graph next relation verb quantity object := by
  refine ⟨hquantity, hobject, ?_⟩
  rw [Seen, mem_view_outgoing, mem_view_outgoing, joins_iff_extra_mem hquantity,
    joins_iff_extra_mem hobject, hextra _ rfl hnum hdet, hextra _ rfl (by simp) (by simp)]

/-- When the rule succeeds, the primary edges of the quantities that it has lowered are gone, and
a quantity is still seen exactly if it had both secondary edges as well. -/
theorem consumed_of_quantity (h : graph.Reachable) {changes : Nat} {result : Graph}
    (hon : quantity.on graph = (.ok changes, result)) :
    (∀ found verb lot object, aLotOf.find? graph.view = some found →
      BindsQuantity "lot" found verb lot object → Consumed graph result "dobj" verb lot object) ∧
    ∀ lots mid, (lowerFirst aLotOf "lot" "dobj").on graph = (.ok lots, mid) →
      ∀ found verb num object, numeralOf.find? mid.view = some found →
        BindsQuantity "num" found verb num object →
          Consumed graph result "nsubj" verb num object := by
  obtain ⟨lots, mid, hlots, hon⟩ := exists_of_on_bind_eq_ok hon
  obtain ⟨numerals, rest, hnumerals, hon⟩ := exists_of_on_bind_eq_ok hon
  obtain ⟨ones, last, hones, hon⟩ := exists_of_on_bind_eq_ok hon
  cases hon
  have hwf := h.wellFormed
  have hlot := (ends_lowerFirst hwf isQuantity_aLotOf).of_on_eq_ok hlots
  have hmid := hlot.moves.wellFormed hwf
  have hnumeral := (ends_lowerFirst hmid isQuantity_numeralOf).of_on_eq_ok hnumerals
  have hrest := hnumeral.moves.wellFormed hmid
  have hone := (ends_onesToDeterminers hrest).of_on_eq_ok hones
  -- No step touches a secondary edge, apart from numerals that become determiners.
  have hextra (key : EdgeKey) (hextra : key.extra = true) (hnum : key.relation ≠ "num")
      (hdet : key.relation ≠ "det") : key ∈ result.keys ↔ key ∈ graph.keys := by
    rw [hone.mem_iff hnum hdet, hnumeral.mem_iff_of_extra hextra, hlot.mem_iff_of_extra hextra]
  constructor
  · intro found verb lot object hfind hbinds
    obtain ⟨hquantity, hobject⟩ := hlot.not_mem hfind hbinds
    refine consumed_of_not_mem (by simp) (by simp) hextra (fun hmem => hquantity ?_)
      fun hmem => hobject ?_
    · rw [hone.mem_iff (by simp) (by simp)] at hmem
      exact hnumeral.mem_of_mem (by simp) (by simp) hmem
    · rw [hone.mem_iff (by simp) (by simp)] at hmem
      exact hnumeral.mem_of_mem (by simp) (by simp) hmem
  · intro lots' mid' hmid' found verb num object hfind hbinds
    cases hlots.symm.trans hmid'
    obtain ⟨hquantity, hobject⟩ := hnumeral.not_mem hfind hbinds
    refine consumed_of_not_mem (by simp) (by simp) hextra (fun hmem => hquantity ?_)
      fun hmem => hobject ?_
    · rwa [hone.mem_iff (by simp) (by simp)] at hmem
    · rwa [hone.mem_iff (by simp) (by simp)] at hmem

/-- "eats lot cake", where a secondary edge runs beside each edge of the quantity. -/
def eatsLotCake : Graph where
  tokens := [
    { index := 1, word := "eats", baseForm := "eat", tag := "VBZ" },
    { index := 2, word := "lot", baseForm := "lot", tag := "NN" },
    { index := 3, word := "cake", baseForm := "cake", tag := "NN" }]
  arcs := [
    (0, { governor := 1, dependent := 2, relation := "dobj" }),
    (1, { governor := 1, dependent := 2, relation := "dobj", extra := true }),
    (2, { governor := 2, dependent := 3, relation := "nmod:of" }),
    (3, { governor := 2, dependent := 3, relation := "nmod:of", extra := true })]
  roots := [1]
  nextEdge := 4

theorem reachable_eatsLotCake : eatsLotCake.Reachable := by
  have hread : TokenTable.read ("1 eats eat VBZ 0 root\n2 lot lot NN 1 dobj _ 1:dobj\n" ++
      "3 cake cake NN 2 nmod:of _ 2:nmod:of") = .ok eatsLotCake := by decide +kernel
  exact .read hread

def eatsCakeLot : Graph where
  tokens := eatsLotCake.tokens
  arcs := [
    (1, { governor := 1, dependent := 2, relation := "dobj", extra := true }),
    (3, { governor := 2, dependent := 3, relation := "nmod:of", extra := true }),
    (4, .made 1 3 "dobj"),
    (5, .made 3 2 "amod")]
  roots := [1]
  nextEdge := 6

theorem on_eatsLotCake : quantity.on eatsLotCake = (.ok 1, eatsCakeLot) := by
  simp only [quantity, lowerFirst, onesToDeterminers, numeralsOne, view, outgoing, sortedEdges,
    Edge.sort_eq_insertionSort]
  decide +kernel

def lotOfCake : Match where
  bindings := [("verb", 1), ("lot", 2), ("obj", 3)]

theorem find?_eatsLotCake : aLotOf.find? eatsLotCake.view = some lotOfCake := by
  simp only [view, outgoing, Edge.sort_eq_insertionSort]
  decide +kernel

theorem bindsQuantity_lotOfCake : BindsQuantity "lot" lotOfCake 1 2 3 := ⟨rfl, rfl, rfl⟩

/-- The quantity of `eatsLotCake` is lowered, and it is still seen. -/
theorem consumed_of_quantity_eatsLotCake : Seen eatsCakeLot.view "dobj" 1 2 3 := by
  obtain ⟨hlot, -⟩ := consumed_of_quantity reachable_eatsLotCake on_eatsLotCake
  have hconsumed := hlot lotOfCake 1 2 3 find?_eatsLotCake bindsQuantity_lotOfCake
  exact hconsumed.seen_iff.mpr
    ⟨mem_keys_iff_arcs.mpr (by decide), mem_keys_iff_arcs.mpr (by decide)⟩

/-- A quantity that has been lowered may be seen again: the one of `eatsLotCake` is. -/
theorem exists_quantity_seen_again :
    ¬ ∀ (graph result : Graph) (changes : Nat) (found : Match) (verb lot object : Nat),
      graph.Reachable → quantity.on graph = (.ok changes, result) →
        aLotOf.find? graph.view = some found → BindsQuantity "lot" found verb lot object →
          ¬ Seen result.view "dobj" verb lot object := by
  intro hall
  refine hall eatsLotCake eatsCakeLot 1 lotOfCake 1 2 3 reachable_eatsLotCake on_eatsLotCake
    find?_eatsLotCake bindsQuantity_lotOfCake ⟨?_, ?_⟩
  · exact mem_view_outgoing.mpr ⟨true, mem_keys_iff_arcs.mpr (by decide)⟩
  · exact mem_view_outgoing.mpr ⟨true, mem_keys_iff_arcs.mpr (by decide)⟩

end DepNorm.Splice
