import DepNorm.Proofs.Graph.Exchange
import DepNorm.Proofs.Splice.Quantity

/-!
The rule for quantities edge by edge. It takes three steps, each on the graph that the one before
has left: the first match of either pattern is lowered, if there is one, and then all numeral edges
into "one" become determiner edges. Each step is an exchange of edges, and so are all three
together, since by their relations no step takes out what an earlier one has put in.
-/

namespace DepNorm.Splice

open DepNorm.Graph EditM

variable {graph next : Graph}

/-! ### Lowering the first match -/

def quantityKeys (relation : String) (verb quantity object : Nat) : Set EdgeKey :=
  {{ governor := verb, dependent := quantity, relation },
    { governor := quantity, dependent := object, relation := "nmod:of" }}

def loweredEdges (relation : String) (verb quantity object : Nat) : Set Edge :=
  {.made verb object relation, .made object quantity "amod"}

theorem exchanges_of_on_lowerQuantity (h : graph.WellFormed) {relation : String}
    {verb quantity object : Nat} {outcome : Unit}
    (hon : (lowerQuantity relation verb quantity object).on graph = (.ok outcome, next)) :
    quantityKeys relation verb quantity object ⊆ graph.keys ∧
      graph.Exchanges (quantityKeys relation verb quantity object)
        (loweredEdges relation verb quantity object) next := by
  unfold lowerQuantity at hon
  obtain ⟨_, first, htake, hon⟩ := exists_of_on_bind_eq_ok hon
  obtain ⟨hquantity, htake⟩ := exchanges_of_on_takeEdge h htake
  obtain ⟨_, second, htake', hon⟩ := exists_of_on_bind_eq_ok hon
  obtain ⟨hobject, htake'⟩ := exchanges_of_on_takeEdge htake.wellFormed htake'
  obtain ⟨_, third, hput, hon⟩ := exists_of_on_bind_eq_ok hon
  have hput := (appends_of_on_putEdge htake'.wellFormed hput).1
  have hputs := (hput.append (appends_of_on_putEdge hput.wellFormed hon).1).exchanges
  have htaken := htake.trans h htake' fun _ => False.elim
  constructor
  · rintro key (rfl | rfl)
    · exact hquantity
    · rw [htake.keys, Set.image_empty, Set.union_empty] at hobject
      exact hobject.1
  · refine (htaken.trans h hputs fun _ _ => Set.notMem_empty _).congr ?_ ?_
    · rw [Set.union_empty, Set.singleton_union]
      rfl
    · ext edge
      simp [loweredEdges]

/-- What the rule does to the first match of a pattern: how many changes it makes, which keys it
takes out, which edges it puts in, and the graph that it leaves. -/
inductive Lowering (pattern : Pattern) (quantity relation : String) (graph : Graph) :
    Nat → Set EdgeKey → Set Edge → Graph → Prop
  | unmatched (hfind : pattern.find? graph.view = none) :
      Lowering pattern quantity relation graph 0 ∅ ∅ graph
  | lowered {found : Match} {verb head object : Nat} {next : Graph}
      (hfind : pattern.find? graph.view = some found)
      (hbinds : BindsQuantity quantity found verb head object)
      (hkeys : quantityKeys relation verb head object ⊆ graph.keys)
      (hnext : graph.Exchanges (quantityKeys relation verb head object)
        (loweredEdges relation verb head object) next) :
      Lowering pattern quantity relation graph 1 (quantityKeys relation verb head object)
        (loweredEdges relation verb head object) next

theorem exists_lowering (h : graph.WellFormed) {pattern : Pattern} {quantity relation : String}
    (hpattern : IsQuantity pattern quantity relation) {changes : Nat}
    (hon : (lowerFirst pattern quantity relation).on graph = (.ok changes, next)) :
    ∃ taken put, Lowering pattern quantity relation graph changes taken put next := by
  unfold lowerFirst at hon
  rw [on_get_bind] at hon
  cases hfind : pattern.find? graph.view with
  | none =>
      rw [hfind] at hon
      cases hon
      exact ⟨∅, ∅, .unmatched hfind⟩
  | some found =>
      obtain ⟨verb, head, object, hbinds, -⟩ := hpattern.exists_tokens hfind
      simp only [hfind, hbinds.verb, hbinds.head, hbinds.object] at hon
      obtain ⟨_, mid, hlower, hon⟩ := exists_of_on_bind_eq_ok hon
      cases hon
      obtain ⟨hkeys, hnext⟩ := exchanges_of_on_lowerQuantity h hlower
      exact ⟨_, _, .lowered hfind hbinds hkeys hnext⟩

namespace Lowering

variable {pattern : Pattern} {quantity relation : String} {changes : Nat} {taken : Set EdgeKey}
  {put : Set Edge}

theorem exchanges (h : graph.WellFormed)
    (hlower : Lowering pattern quantity relation graph changes taken put next) :
    graph.Exchanges taken put next := by
  cases hlower with
  | unmatched => exact .refl h
  | lowered _ _ _ hnext => exact hnext

theorem relation_of_mem_taken {key : EdgeKey}
    (hlower : Lowering pattern quantity relation graph changes taken put next)
    (hkey : key ∈ taken) : key.relation = relation ∨ key.relation = "nmod:of" := by
  cases hlower with
  | unmatched => exact hkey.elim
  | lowered =>
      rcases hkey with rfl | rfl
      · exact .inl rfl
      · exact .inr rfl

theorem relation_of_mem_put {edge : Edge}
    (hlower : Lowering pattern quantity relation graph changes taken put next)
    (hedge : edge ∈ put) : edge.key.relation = relation ∨ edge.key.relation = "amod" := by
  cases hlower with
  | unmatched => exact hedge.elim
  | lowered =>
      rcases hedge with rfl | rfl
      · exact .inl rfl
      · exact .inr rfl

end Lowering

/-! ### Numeral edges into "one" -/

/-- The token with the index is the word "one", whatever the case of its letters, or the digit. -/
def OneAt (graph : Graph) (index : Nat) : Prop :=
  ∃ token ∈ graph.tokens, token.index = index ∧
    (token.word.toList.map Char.toLower = ['o', 'n', 'e'] ∨ token.word = "1")

def numeralKeys (graph : Graph) : Set EdgeKey :=
  {key ∈ graph.keys | key.relation = "num" ∧ OneAt graph key.dependent}

theorem isOne_iff {word : String} :
    isOne word = true ↔ word.toList.map Char.toLower = ['o', 'n', 'e'] ∨ word = "1" := by
  have hone : "one".toList.map Char.toLower = ['o', 'n', 'e'] := by decide
  rw [isOne, sameLetters, hone, Bool.or_eq_true, beq_iff_eq, beq_iff_eq]

theorem mem_numeralsOne_iff (h : graph.WellFormed) {key : EdgeKey} :
    key ∈ (numeralsOne graph).map Edge.key ↔ key ∈ numeralKeys graph := by
  simp only [numeralsOne, sortedEdges, Edge.sort, List.mem_map, List.mem_filter,
    List.mem_mergeSort, Bool.and_eq_true, beq_iff_eq, h.any_token?_iff, isOne_iff, numeralKeys,
    mem_keys, OneAt, Set.mem_ofPred_eq]
  constructor
  · rintro ⟨edge, ⟨hedge, hnum, hone⟩, rfl⟩
    exact ⟨⟨edge, hedge, rfl⟩, hnum, hone⟩
  · rintro ⟨⟨edge, hedge, rfl⟩, hnum, hone⟩
    exact ⟨edge, ⟨hedge, hnum, hone⟩, rfl⟩

/-- All numeral edges into "one" become determiner edges, and the answer is their number. -/
theorem exchanges_of_on_onesToDeterminers (h : graph.WellFormed) {changes : Nat}
    (hon : onesToDeterminers.on graph = (.ok changes, next)) :
    changes = (numeralKeys graph).ncard ∧
      graph.Relabels (numeralKeys graph) next := by
  unfold onesToDeterminers at hon
  rw [on_get_bind] at hon
  obtain ⟨numerals, rest, htake, hon⟩ := exists_of_on_bind_eq_ok hon
  obtain ⟨_, last, hput, hon⟩ := exists_of_on_bind_eq_ok hon
  cases hon
  obtain ⟨hkeys, hedges, htake⟩ := of_on_mapM_takeEdge h htake
  have hputs := (appends_of_on_forM_putEdge htake.wellFormed hput).exchanges
  have hmem (key : EdgeKey) : key ∈ numerals.map Edge.key ↔ key ∈ numeralKeys graph := by
    rw [hkeys, mem_numeralsOne_iff h]
  constructor
  · rw [ncard_eq_length (hkeys ▸ nodup_keys_numeralsOne h) hmem, List.length_map]
  · refine (htake.trans h hputs fun _ => False.elim).congr ?_ ?_
    · ext key
      rw [Set.union_empty, Set.mem_ofPred_eq, mem_numeralsOne_iff h]
    · ext edge
      simp only [Set.empty_union, Set.mem_ofPred_eq, List.mem_map, determiners]
      constructor
      · rintro ⟨old, hold, rfl⟩
        exact ⟨old, hedges old hold, (hmem _).mp (List.mem_map_of_mem hold), rfl⟩
      · rintro ⟨old, hold, hkey, rfl⟩
        obtain ⟨numeral, hnumeral, heq⟩ := List.mem_map.mp ((hmem _).mpr hkey)
        exact ⟨numeral, hnumeral, h.edge_eq_of_key_eq (hedges numeral hnumeral) hold heq ▸ rfl⟩

theorem injOn_key_determiners (h : graph.WellFormed) :
    (graph.determiners (numeralKeys graph)).InjOn Edge.key := by
  rintro _ ⟨old, hold, ⟨-, hnum, -⟩, rfl⟩ _ ⟨other, hother, ⟨-, hnum', -⟩, rfl⟩ heq
  have hback (edge : Edge) (hedge : edge.key.relation = "num") :
      edge.key = { (edge.relabel "det").key with relation := "num" } := by
    rw [← hedge]
    rfl
  have hkey : old.key = other.key := by rw [hback old hnum, hback other hnum', heq]
  rw [h.edge_eq_of_key_eq hold hother hkey]

theorem numeralKeys_eq_empty
    (hnext : graph.Relabels (numeralKeys graph) next) :
    numeralKeys next = ∅ := by
  refine Set.eq_empty_of_forall_notMem ?_
  rintro key ⟨hkey, hnum, hone⟩
  rw [OneAt, hnext.tokens] at hone
  rw [hnext.keys] at hkey
  rcases hkey with ⟨hkey, htaken⟩ | ⟨edge, hedge, rfl⟩
  · exact htaken ⟨hkey, hnum, hone⟩
  · have hdet : edge.key.relation = "det" := relation_of_mem_determiners hedge
    rw [hdet] at hnum
    simp at hnum

/-! ### The rule -/

/-- Where the rule for quantities succeeds, it takes three steps: it lowers the first match of "a
lot of", then, in what this leaves, the first match of "N of", and then makes determiner edges of
the numeral edges into "one", none of which is left. The answer counts the matches and these edges.
All three steps together keep the tokens, the roots, and each edge whose key none of them takes out.
A numeral edge keeps its weight and its flags as a determiner edge, if no edge had its new key. -/
theorem steps_of_quantity (h : graph.Reachable) {changes : Nat} {result : Graph}
    (hon : quantity.on graph = (.ok changes, result)) :
    ∃ lots numerals taken taken' put put' first second,
      Lowering aLotOf "lot" "dobj" graph lots taken put first ∧
      Lowering numeralOf "num" "nsubj" first numerals taken' put' second ∧
      second.Relabels (numeralKeys second) result ∧
      changes = lots + numerals + (numeralKeys second).ncard ∧
      numeralKeys result = ∅ ∧
      graph.Exchanges (taken ∪ taken' ∪ numeralKeys second)
        (put ∪ put' ∪ second.determiners (numeralKeys second)) result ∧
      ∀ old ∈ second.edges, old.key ∈ numeralKeys second →
        (old.relabel "det").key ∉ second.keys →
          ∃ number, (number, old.relabel "det") ∈ result.arcs := by
  have hwf := h.wellFormed
  obtain ⟨lots, first, hlots, hon⟩ := exists_of_on_bind_eq_ok hon
  obtain ⟨numerals, second, hnumerals, hon⟩ := exists_of_on_bind_eq_ok hon
  obtain ⟨ones, last, hones, hon⟩ := exists_of_on_bind_eq_ok hon
  cases hon
  obtain ⟨taken, put, hlot⟩ := exists_lowering hwf isQuantity_aLotOf hlots
  have hfirst := hlot.exchanges hwf
  obtain ⟨taken', put', hnumeral⟩ :=
    exists_lowering hfirst.wellFormed isQuantity_numeralOf hnumerals
  have hsecond := hnumeral.exchanges hfirst.wellFormed
  obtain ⟨rfl, hlast⟩ := exchanges_of_on_onesToDeterminers hsecond.wellFormed hones
  refine ⟨lots, numerals, taken, taken', put, put', first, second, hlot, hnumeral, hlast, rfl, ?_,
    ?_, fun old hold hkey hnew => ?_⟩
  · exact numeralKeys_eq_empty hlast
  · -- No step takes out what one before it put in: the relations differ.
    refine (hfirst.trans hwf hsecond fun edge hedge hkey => ?_).trans hwf hlast ?_
    · rcases hlot.relation_of_mem_put hedge with hput | hput <;>
        rcases hnumeral.relation_of_mem_taken hkey with htaken | htaken <;>
          simp [hput] at htaken
    · rintro edge (hedge | hedge) ⟨-, hnum, -⟩
      · rcases hlot.relation_of_mem_put hedge with hput | hput <;> simp [hput] at hnum
      · rcases hnumeral.relation_of_mem_put hedge with hput | hput <;> simp [hput] at hnum
  · obtain ⟨number, -, harc⟩ := hlast.exists_number (injOn_key_determiners hsecond.wellFormed)
      ⟨old, hold, hkey, rfl⟩ fun hmem => hnew hmem.1
    exact ⟨number, harc⟩

/-- "three of the cats eat a lot of one cake", without the small words: both patterns match, and a
numeral edge leads to "One". -/
def threeEatLots : Graph where
  tokens := [
    { index := 1, word := "three", baseForm := "three", tag := "CD" },
    { index := 2, word := "cats", baseForm := "cat", tag := "NNS" },
    { index := 3, word := "eat", baseForm := "eat", tag := "VBP" },
    { index := 4, word := "lot", baseForm := "lot", tag := "NN" },
    { index := 5, word := "One", baseForm := "one", tag := "CD" },
    { index := 6, word := "cake", baseForm := "cake", tag := "NN" }]
  arcs := [
    (0, { governor := 3, dependent := 1, relation := "nsubj" }),
    (1, { governor := 1, dependent := 2, relation := "nmod:of" }),
    (2, { governor := 3, dependent := 4, relation := "dobj" }),
    (3, { governor := 6, dependent := 5, relation := "num" }),
    (4, { governor := 4, dependent := 6, relation := "nmod:of" })]
  roots := [3]
  nextEdge := 5

theorem reachable_threeEatLots : threeEatLots.Reachable := by
  have hread : TokenTable.read
      ("1 three three CD 3 nsubj\n2 cats cat NNS 1 nmod:of\n3 eat eat VBP 0 root\n" ++
        "4 lot lot NN 3 dobj\n5 One one CD 6 num\n6 cake cake NN 4 nmod:of") =
      .ok threeEatLots := by decide +kernel
  exact .read hread

def catsEatCake : Graph where
  tokens := threeEatLots.tokens
  arcs := [
    (5, .made 3 6 "dobj"),
    (6, .made 6 4 "amod"),
    (7, .made 3 2 "nsubj"),
    (8, .made 2 1 "amod"),
    (9, { governor := 6, dependent := 5, relation := "det" })]
  roots := [3]
  nextEdge := 10

/-- In `threeEatLots` the rule makes three changes. The first step lowers "lot", and no numeral edge
into "one" is left. -/
theorem steps_of_quantity_threeEatLots :
    quantity.on threeEatLots = (.ok 3, catsEatCake) ∧
      ∃ numerals taken put first second,
        Lowering aLotOf "lot" "dobj" threeEatLots 1 (quantityKeys "dobj" 3 4 6)
          (loweredEdges "dobj" 3 4 6) first ∧
        Lowering numeralOf "num" "nsubj" first numerals taken put second ∧
        2 = numerals + (numeralKeys second).ncard ∧ numeralKeys catsEatCake = ∅ := by
  have hon : quantity.on threeEatLots = (.ok 3, catsEatCake) := by
    simp only [quantity, lowerFirst, onesToDeterminers, numeralsOne, view, outgoing, sortedEdges,
      Edge.sort_eq_insertionSort]
    decide +kernel
  have hmatch : aLotOf.find? threeEatLots.view = some {
      bindings := [("verb", 3), ("lot", 4), ("obj", 6)] } := by
    simp only [view, outgoing, Edge.sort_eq_insertionSort]
    decide +kernel
  obtain ⟨lots, numerals, taken, taken', put, put', first, second, hlot, hnumeral, -, hchanges,
    hnone, -⟩ := steps_of_quantity reachable_threeEatLots hon
  cases hlot with
  | unmatched hfind => cases hmatch.symm.trans hfind
  | lowered hfind hbinds hkeys hnext =>
      cases hmatch.symm.trans hfind
      obtain ⟨hverb, hhead, hobject⟩ := hbinds
      cases hverb
      cases hhead
      cases hobject
      exact ⟨hon, numerals, taken', put', first, second, .lowered hfind ⟨rfl, rfl, rfl⟩ hkeys hnext,
        hnumeral, by omega, hnone⟩

end DepNorm.Splice
