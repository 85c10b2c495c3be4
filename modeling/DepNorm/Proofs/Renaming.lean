import DepNorm.Proofs.Provenance
import DepNorm.Proofs.Splice.Likeness
import Mathlib.Data.Nat.Nth

/-!
Normalization of a graph whose tokens are renamed. Only the order of the tokens counts, so a
renaming that keeps it makes no difference but in the names. Such a renaming may close gaps, and
then no strictly increasing function on all numbers agrees with it. But both graphs come from the
one whose tokens are numbered without gaps, by renamings that are strictly increasing everywhere.
-/

namespace DepNorm

open DepNorm.Graph EditM

/-! ### Strictly increasing functions -/

/-- A function that is strictly increasing below a number agrees there with one that is so
everywhere. -/
theorem exists_strictMono_eqOn {bound : Nat} {f : Nat → Nat}
    (h : StrictMonoOn f (Set.Iio bound)) :
    ∃ g : Nat → Nat, StrictMono g ∧ Set.EqOn g f (Set.Iio bound) := by
  refine ⟨fun i => if i < bound then f i else f (bound - 1) + 1 + i, fun i j hlt => ?_,
    fun i hi => if_pos hi⟩
  dsimp only
  by_cases hj : j < bound
  · rw [if_pos (hlt.trans hj), if_pos hj]
    exact h (hlt.trans hj) hj hlt
  · rw [if_neg hj]
    by_cases hi : i < bound
    · have hlast : f i ≤ f (bound - 1) :=
        h.monotoneOn hi (Set.mem_Iio.mpr (by omega)) (by omega)
      rw [if_pos hi]
      omega
    · rw [if_neg hi]
      omega

theorem exists_strictMono_count {p : Nat → Prop} [DecidablePred p] (hfinite : {i | p i}.Finite)
    {f : Nat → Nat} (h : StrictMonoOn f {i | p i}) :
    ∃ g : Nat → Nat, StrictMono g ∧ ∀ i, p i → g (Nat.count p i) = f i := by
  have hnth : StrictMonoOn (f ∘ Nat.nth p) (Set.Iio hfinite.toFinset.card) :=
    h.comp (Nat.nth_strictMonoOn hfinite) fun i hi => Nat.nth_mem_of_lt_card hfinite hi
  obtain ⟨g, hg, heq⟩ := exists_strictMono_eqOn hnth
  refine ⟨g, hg, fun i hi => (heq (Nat.count_lt_card hfinite hi)).trans ?_⟩
  rw [Function.comp_apply, Nat.nth_count hi]

/-! ### Renaming throughout -/

namespace Likeness

/-- Tokens and edges are alike if the second ones are the first ones renamed. -/
def renamed {index : Nat → Nat} (hindex : StrictMono index) : Likeness where
  index := index
  token token other := other = token.rename index
  edge edge other := other = edge.rename index
  strictMono := hindex
  index_eq h := h ▸ rfl
  like h := h ▸ ⟨rfl, rfl, rfl⟩
  key_eq h := h ▸ rfl
  made _ _ _ := rfl
  relabel h _ := h ▸ rfl
  turned h _ := h ▸ rfl

theorem alike_renamed_iff {index : Nat → Nat} (hindex : StrictMono index) {graph other : Graph}
    (h : graph.WellFormed) : (renamed hindex).Alike graph other ↔ other = graph.rename index := by
  have harcs {arcs arcs' : List (Nat × Edge)} :
      List.Forall₂ (fun arc arc' => arc'.1 = arc.1 ∧ arc'.2 = arc.2.rename index) arcs arcs' ↔
        arcs' = arcs.map fun arc => (arc.1, arc.2.rename index) := by
    rw [← forall₂_eq_map_iff]
    simp only [Prod.ext_iff]
  constructor
  · rintro ⟨-, -, htokens, harcs', hroots, hnext⟩
    obtain ⟨tokens, arcs, roots, nextEdge⟩ := other
    rw [Graph.rename, ← forall₂_eq_map_iff.mp htokens, ← harcs.mp harcs', ← hnext]
    exact congrArg (fun roots => Graph.mk tokens arcs roots nextEdge) hroots
  · rintro rfl
    exact ⟨h, h.rename (hindex.strictMonoOn _), forall₂_eq_map_iff.mpr rfl, harcs.mpr rfl, rfl, rfl⟩

end Likeness

/-! ### Closing the gaps -/

namespace Graph

variable {graph : Graph} {index : Nat → Nat}

/-- The graph with its tokens numbered from zero without gaps. -/
def dense (graph : Graph) : Graph := graph.rename (Nat.count (· ∈ graph))

theorem WellFormed.dense (h : graph.WellFormed) : graph.dense.WellFormed :=
  h.rename fun _ hname _ _ hlt => Nat.count_strict_mono hname hlt

theorem finite_mem (graph : Graph) : {name | name ∈ graph}.Finite :=
  graph.indices.toFinset.finite_toSet.subset fun _ hname =>
    List.mem_toFinset.mpr (mem_indices.mpr hname)

/-- A renaming that keeps the order of the tokens can be made from the graph without gaps, and from
there by a function that is strictly increasing everywhere. -/
theorem WellFormed.exists_dense_rename (h : graph.WellFormed)
    (hindex : StrictMonoOn index {name | name ∈ graph}) :
    ∃ forth : Nat → Nat, StrictMono forth ∧ graph.dense.rename forth = graph.rename index ∧
      ∀ name ∈ graph, forth (Nat.count (· ∈ graph) name) = index name := by
  obtain ⟨forth, hforth, heq⟩ := exists_strictMono_count graph.finite_mem hindex
  have hrename : graph.rename (forth ∘ Nat.count (· ∈ graph)) = graph.rename index :=
    h.rename_congr heq
  exact ⟨forth, hforth, by rw [Graph.dense, rename_comp, hrename], heq⟩

end Graph

/-! ### The outcome -/

namespace Filters

variable {filters : Filters} {graph : Graph} {index index' : Nat → Nat}

/-- The outcome of a normalization with the tokens renamed. -/
def renameOutcome (index : Nat → Nat) :
    Except Fault (Graph × List Pass) → Except Fault (Graph × List Pass)
  | .ok (result, passes) => .ok (result.rename index, passes)
  | .error fault => .error (fault.rename index)

theorem renameOutcome_comp (outcome : Except Fault (Graph × List Pass)) :
    renameOutcome index' (renameOutcome index outcome) =
      renameOutcome (index' ∘ index) outcome := by
  rcases outcome with fault | ⟨result, passes⟩
  · simp only [renameOutcome, Fault.rename_comp]
  · simp only [renameOutcome, rename_comp]

theorem rename_fault_congr (h : graph.WellFormed) {fault : Fault}
    (herror : filters.normalizeGraph graph = .error fault)
    (heq : ∀ name ∈ graph, index name = index' name) :
    fault.rename index = fault.rename index' := by
  obtain ⟨failed, hon⟩ := on_of_normalizeGraph_eq_error herror
  obtain ⟨rule, -, last, -, hfails⟩ := (ends_passesGraph filters h).of_on_eq_error hon
  have hfrom := (keeps_passesGraph filters graph (.refl h)).of_on_eq_error hon
  have hmem {name : Nat} : name ∈ failed → name ∈ graph := by
    rintro ⟨token, htoken, rfl⟩
    exact ⟨token, hfrom.tokens htoken, rfl⟩
  cases hfails with
  | stopped _ hstopped =>
      obtain ⟨key, rfl, -, -, hextra⟩ := hstopped.1
      have hgovernor := heq _ (hmem (hfrom.wellFormed.governor_mem_of_keys hextra))
      have hdependent := heq _ (hmem (hfrom.wellFormed.dependent_mem_of_keys hextra))
      simp only [Fault.rename, EdgeKey.rename, hgovernor, hdependent]
  | rootless => rfl

theorem renameOutcome_congr (h : graph.WellFormed)
    (heq : ∀ name ∈ graph, index name = index' name) :
    renameOutcome index (filters.normalizeGraph graph) =
      renameOutcome index' (filters.normalizeGraph graph) := by
  cases hrun : filters.normalizeGraph graph with
  | error fault => exact congrArg Except.error (rename_fault_congr h hrun heq)
  | ok outcome =>
      obtain ⟨result, passes⟩ := outcome
      have hfrom := comesFrom_of_normalizeGraph h hrun
      have hresult : result.rename index = result.rename index' := by
        refine hfrom.wellFormed.rename_congr ?_
        rintro _ ⟨token, htoken, rfl⟩
        exact heq _ ⟨token, hfrom.tokens htoken, rfl⟩
      simp only [renameOutcome, hresult]

theorem normalizeGraph_rename_of_strictMono (h : graph.WellFormed) (hindex : StrictMono index) :
    filters.normalizeGraph (graph.rename index) =
      renameOutcome index (filters.normalizeGraph graph) := by
  have halike := (Likeness.alike_renamed_iff hindex h).mpr rfl
  rcases (Likeness.renamed hindex).simulation.normalizeGraph halike filters with
    ⟨fault, hrun, hrun'⟩ | ⟨result, result', passes, hrun, hrun', hresult⟩
  · rw [hrun, hrun']
    rfl
  · rw [hrun, hrun', (Likeness.alike_renamed_iff hindex hresult.wellFormed).mp hresult]
    rfl

/-- Renaming the tokens of a graph in a way that keeps their order makes no difference to its
normalization: the passes are the same, and the result or the fault is the renamed one. -/
theorem normalizeGraph_rename (h : graph.Reachable)
    (hindex : StrictMonoOn index {name | name ∈ graph}) (filters : Filters) :
    filters.normalizeGraph (graph.rename index) =
      renameOutcome index (filters.normalizeGraph graph) := by
  have hwf := h.wellFormed
  obtain ⟨back, hback, hgraph, hplace⟩ := hwf.exists_dense_rename (strictMono_id.strictMonoOn _)
  obtain ⟨forth, hforth, hrenamed, hplace'⟩ := hwf.exists_dense_rename hindex
  rw [rename_id] at hgraph
  have hsame : ∀ name ∈ graph.dense, forth name = (index ∘ back) name := by
    intro name hname
    obtain ⟨old, hold, rfl⟩ := mem_rename_iff.mp hname
    rw [hplace' old hold, Function.comp_apply, hplace old hold, id]
  calc filters.normalizeGraph (graph.rename index)
    _ = renameOutcome forth (filters.normalizeGraph graph.dense) := by
        rw [← hrenamed, normalizeGraph_rename_of_strictMono hwf.dense hforth]
    _ = renameOutcome index (renameOutcome back (filters.normalizeGraph graph.dense)) := by
        rw [renameOutcome_comp, renameOutcome_congr hwf.dense hsame]
    _ = renameOutcome index (filters.normalizeGraph graph) := by
        rw [← normalizeGraph_rename_of_strictMono hwf.dense hback, hgraph]

/-- "eats lot cake" as it stands in a longer sentence from which other tokens are gone. -/
def scattered : Graph where
  tokens := [
    { index := 3, word := "eats", baseForm := "eat", tag := "VBZ" },
    { index := 5, word := "lot", baseForm := "lot", tag := "NN" },
    { index := 8, word := "cake", baseForm := "cake", tag := "NN" }]
  arcs := [
    (0, { governor := 3, dependent := 5, relation := "dobj" }),
    (1, { governor := 5, dependent := 8, relation := "nmod:of" })]
  roots := [3]
  nextEdge := 2

theorem read_scattered :
    TokenTable.read "3 eats eat VBZ 0 root\n5 lot lot NN 3 dobj\n8 cake cake NN 5 nmod:of" =
      .ok scattered := by decide +kernel

/-- Renames the tokens of `scattered` to 1, 2 and 3, and so is not increasing on other numbers. -/
def closeUp : Nat → Nat
  | 3 => 1
  | 5 => 2
  | 8 => 3
  | _ => 0

/-- In `scattered` the quantity is lowered, and in the same way when the gaps have been closed. -/
theorem normalizeGraph_rename_scattered :
    ∃ result passes,
      ({.quantity} : Filters).normalizeGraph scattered = .ok (result, passes) ∧
      ({.quantity} : Filters).normalizeGraph (scattered.rename closeUp) =
        .ok (result.rename closeUp, passes) ∧
      Pass.fired passes = [.quantity] ∧
      (result.rename closeUp).edges = [.made 1 3 "dobj", .made 3 2 "amod"] := by
  have hindex : StrictMonoOn closeUp {name | name ∈ scattered} := by
    rintro _ ⟨token, htoken, rfl⟩ _ ⟨other, hother, rfl⟩ hlt
    have hall : ∀ token ∈ scattered.tokens, ∀ other ∈ scattered.tokens,
        token.index < other.index → closeUp token.index < closeUp other.index := by decide
    exact hall token htoken other hother hlt
  have hrename := normalizeGraph_rename (.read read_scattered) hindex {.quantity}
  have hresult : (({.quantity} : Filters).normalizeGraph scattered).map
      (fun outcome => (Pass.fired outcome.2, (outcome.1.rename closeUp).edges)) =
      .ok ([.quantity], [.made 1 3 "dobj", .made 3 2 "amod"]) := by
    simp only [normalizeGraph, passesGraph, graphRules, Splice.quantity, Splice.lowerFirst,
      Splice.onesToDeterminers, Splice.numeralsOne, view, outgoing, sortedEdges,
      Edge.sort_eq_insertionSort]
    decide +kernel
  obtain ⟨⟨result, passes⟩, hrun, heq⟩ := Outcome.exists_of_map_eq_ok hresult
  obtain ⟨hfired, hedges⟩ := Prod.mk.inj heq
  rw [hrun] at hrename
  exact ⟨result, passes, hrun, hrename, hfired, hedges⟩

end Filters

end DepNorm
