import DepNorm.Proofs.Graph.Edit
import DepNorm.Proofs.Graph.Sort
import DepNorm.Proofs.Outcome

/-!
What a configuration stands for. Only the set of the rules that it names counts: their order, blanks
around them, empty items and repetitions make no difference. Normalization by such a set is the
normalization by each of its rules alone, one after the other in the order of the rules.
-/

namespace DepNorm

open Outcome

theorem Rule.name_toList_inj {rule other : Rule} :
    rule.name.toList = other.name.toList ↔ rule = other := by
  refine ⟨fun h => ?_, fun h => h ▸ rfl⟩
  rw [← Option.some_inj, ← Rule.ofName?_name, ← Rule.ofName?_name, String.toList_inj.mp h]

namespace EditM

variable {α β : Type}

/-- What an edit makes of a graph, and its value. A graph on which it has failed is dropped. -/
def outcome (edit : EditM α) (graph : Graph) : Except Fault (Graph × α) :=
  match edit.on graph with
  | (.ok a, next) => .ok (next, a)
  | (.error fault, _) => .error fault

theorem outcome_pure (a : α) (graph : Graph) : (pure a : EditM α).outcome graph = .ok (graph, a) :=
  rfl

theorem outcome_bind (edit : EditM α) (next : α → EditM β) (graph : Graph) :
    (edit >>= next).outcome graph =
      edit.outcome graph >>= fun reached => (next reached.2).outcome reached.1 := by
  simp only [outcome, on_bind]
  rcases edit.on graph with ⟨_ | _, changed⟩ <;> rfl

end EditM

namespace Filters

variable {filters : Filters} {rule : Rule}

/-! ### Reading a configuration -/

/-- The item is not blank, and with the blanks around it taken off it is no rule's name. -/
def Unknown (item : List Char) : Prop :=
  Text.trim item ≠ [] ∧ ∀ rule : Rule, Text.trim item ≠ rule.name.toList

/-- Adds the rule that an item between commas names. -/
def readItem (filters : Filters) (item : List Char) : Except Fault Filters :=
  if Text.trim item = [] then .ok filters
  else
    match Rule.ofName? (String.ofList (Text.trim item)) with
    | some rule => .ok (insert rule filters)
    | none => .error (.unknownFilter (String.ofList (Text.trim item)))

theorem parse_eq_foldlM (config : String) :
    parse config = (config.toList.splitOn ',').foldlM readItem ∅ := by
  simp only [parse, items, List.foldlM_map, List.foldlM_filter]
  congr 1
  funext filters item
  simp only [readItem, ← List.isEmpty_iff]
  cases (Text.trim item).isEmpty <;> rfl

theorem readItem_of_unknown {item : List Char} (h : Unknown item) :
    filters.readItem item = .error (.unknownFilter (String.ofList (Text.trim item))) := by
  obtain ⟨hne, hname⟩ := h
  rw [readItem, if_neg hne]
  cases hrule : Rule.ofName? (String.ofList (Text.trim item)) with
  | none => rfl
  | some rule =>
      refine absurd ?_ (hname rule)
      rw [Rule.name_of_ofName? hrule, String.toList_ofList]

theorem exists_readItem {item : List Char} (h : ¬ Unknown item) (filters : Filters) :
    ∃ next, filters.readItem item = .ok next ∧
      ∀ rule, rule ∈ next ↔ rule ∈ filters ∨ Text.trim item = rule.name.toList := by
  rw [Unknown, not_and_or, not_not, not_forall] at h
  rcases h with hblank | ⟨named, hnamed⟩
  · refine ⟨filters, if_pos hblank, fun rule => (or_iff_left ?_).symm⟩
    rw [hblank]
    cases rule <;> decide
  · rw [not_not] at hnamed
    have hne : Text.trim item ≠ [] := by
      rw [hnamed]
      cases named <;> decide
    refine ⟨insert named filters, ?_, fun rule => ?_⟩
    · rw [readItem, if_neg hne, hnamed, String.ofList_toList, Rule.ofName?_name]
    · rw [mem_insert, hnamed, Rule.name_toList_inj, or_comm, eq_comm]

theorem exists_readItems {items : List (List Char)} (h : ∀ item ∈ items, ¬ Unknown item)
    (filters : Filters) :
    ∃ last, items.foldlM readItem filters = .ok last ∧
      ∀ rule, rule ∈ last ↔ rule ∈ filters ∨ ∃ item ∈ items, Text.trim item = rule.name.toList := by
  induction items generalizing filters with
  | nil => exact ⟨filters, rfl, by simp⟩
  | cons item items ih =>
      obtain ⟨hitem, hitems⟩ := List.forall_mem_cons.mp h
      obtain ⟨next, hnext, hmem⟩ := exists_readItem hitem filters
      obtain ⟨last, hlast, hmem'⟩ := ih hitems next
      refine ⟨last, ?_, fun rule => ?_⟩
      · rw [List.foldlM_cons, hnext]
        exact hlast
      · simp only [hmem', hmem, List.mem_cons, exists_eq_or_imp, or_assoc]

theorem parse_eq_error_of_unknown {config : String} {before after : List (List Char)}
    {item : List Char} (hconfig : config.toList.splitOn ',' = before ++ item :: after)
    (hbefore : ∀ earlier ∈ before, ¬ Unknown earlier) (hitem : Unknown item) :
    parse config = .error (.unknownFilter (String.ofList (Text.trim item))) := by
  obtain ⟨_, hfault, rfl⟩ := exists_foldlM_error (P := fun _ => True)
    (R := (· = Fault.unknownFilter (String.ofList (Text.trim item))))
    (fun filters _ earlier hearlier =>
      (exists_readItem (hbefore earlier hearlier) filters).imp fun _ h => ⟨h.1, trivial⟩)
    (fun filters _ => ⟨_, readItem_of_unknown hitem, rfl⟩) trivial
  rw [parse_eq_foldlM, hconfig, hfault]

/-- Either an item is no rule's name, and there is a first such item, or the configuration stands
for the set of the rules that it names. -/
theorem parse_cases (config : String) :
    (∃ before item after, config.toList.splitOn ',' = before ++ item :: after ∧
      (∀ earlier ∈ before, ¬ Unknown earlier) ∧ Unknown item) ∨
    ∃ filters, parse config = .ok filters ∧ ∀ rule, rule ∈ filters ↔
      ∃ item ∈ config.toList.splitOn ',', Text.trim item = rule.name.toList := by
  by_cases hunknown : ∃ item ∈ config.toList.splitOn ',', Unknown item
  · obtain ⟨before, item, after, hfirst⟩ := exists_first hunknown
    exact .inl ⟨before, item, after, hfirst⟩
  · have hknown : ∀ item ∈ config.toList.splitOn ',', ¬ Unknown item := fun item hitem h =>
      hunknown ⟨item, hitem, h⟩
    obtain ⟨filters, hfilters, hmem⟩ := exists_readItems hknown ∅
    refine .inr ⟨filters, (parse_eq_foldlM config).trans hfilters, fun rule => ?_⟩
    rw [hmem, or_iff_right (not_mem_empty rule)]

/-! ### One rule after the other -/

variable {σ : Type}

/-- What a rule makes of its input, and how often it changes something. -/
abbrev Step (σ : Type) := σ → Except Fault (σ × Nat)

/-- The rules of the set, each on what the one before has left, until one fails. -/
def chain (filters : Filters) :
    List (Rule × Step σ) → σ → Except Fault (σ × List Pass)
  | [], s => .ok (s, [])
  | (rule, step) :: rules, s =>
    if rule ∈ filters then do
      let (s, changes) ← step s
      let (s, passes) ← chain filters rules s
      return (s, ⟨rule, true, changes⟩ :: passes)
    else do
      let (s, passes) ← chain filters rules s
      return (s, ⟨rule, false, 0⟩ :: passes)

def changesOf (rule : Rule) (passes : List Pass) : Nat :=
  ((passes.find? (·.rule = rule)).map Pass.changes).getD 0

/-- The members of the set among the given rules, each run by itself on what the one before has
left, until one fails. What became of it is read off its own run. -/
def inTurn (alone : Rule → σ → Except Fault (σ × List Pass)) (filters : Filters) :
    List Rule → σ → Except Fault (σ × List Pass)
  | [], s => .ok (s, [])
  | rule :: rules, s =>
    if rule ∈ filters then do
      let (s, single) ← alone rule s
      let (s, passes) ← inTurn alone filters rules s
      return (s, ⟨rule, true, changesOf rule single⟩ :: passes)
    else do
      let (s, passes) ← inTurn alone filters rules s
      return (s, ⟨rule, false, 0⟩ :: passes)

/-- The pass of a rule where only the rule with the given number of changes is switched on. -/
def lonePass (rule : Rule) (changes : Nat) (other : Rule) : Pass :=
  if other = rule then ⟨rule, true, changes⟩ else ⟨other, false, 0⟩

theorem changesOf_lonePass {changes : Nat} {rules : List Rule} (h : rule ∈ rules) :
    changesOf rule (rules.map (lonePass rule changes)) = changes := by
  induction rules with
  | nil => cases h
  | cons other rules ih =>
      by_cases hother : other = rule
      · simp [changesOf, lonePass, hother]
      · have hrest := ih ((List.mem_cons.mp h).resolve_left (Ne.symm hother))
        simpa [changesOf, lonePass, hother] using hrest

theorem chain_of_not_mem {rules : List (Rule × Step σ)} (h : rule ∉ rules.map Prod.fst)
    (changes : Nat) (s : σ) :
    chain {rule} rules s = .ok (s, (rules.map Prod.fst).map (lonePass rule changes)) := by
  induction rules with
  | nil => rfl
  | cons entry rules ih =>
      obtain ⟨hentry, hrules⟩ := not_or.mp (mt List.mem_cons.mpr h)
      have hother : entry.1 ∉ ({rule} : Filters) := mt mem_singleton.mp (Ne.symm hentry)
      rw [chain, if_neg hother, ih hrules, List.map_cons, List.map_cons, lonePass,
        if_neg (Ne.symm hentry)]
      rfl

theorem chain_singleton {rules : List (Rule × Step σ)} (hrules : (rules.map Prod.fst).Nodup)
    {step : Step σ} (h : (rule, step) ∈ rules) (s : σ) :
    chain {rule} rules s = step s >>= fun reached =>
      pure (reached.1, (rules.map Prod.fst).map (lonePass rule reached.2)) := by
  induction rules with
  | nil => cases h
  | cons entry rules ih =>
      obtain ⟨hfirst, hrules⟩ := List.nodup_cons.mp hrules
      rcases List.mem_cons.mp h with rfl | h
      · rw [chain, if_pos (mem_singleton.mpr rfl)]
        refine bind_congr fun (next, changes) => ?_
        dsimp only
        rw [chain_of_not_mem hfirst changes, List.map_cons, List.map_cons, lonePass, if_pos rfl]
        rfl
      · have hne : entry.1 ≠ rule := fun heq =>
          hfirst (List.mem_map.mpr ⟨(rule, step), h, heq.symm⟩)
        rw [chain, if_neg (mt mem_singleton.mp hne), ih hrules h, bind_assoc]
        refine bind_congr fun reached => ?_
        rw [List.map_cons, List.map_cons, lonePass, if_neg hne]
        rfl

/-- A run of a set of rules does no more than the runs of its members by themselves. -/
theorem chain_eq_inTurn {rules : List (Rule × Step σ)} (hrules : (rules.map Prod.fst).Nodup)
    (filters : Filters) (s : σ) :
    filters.chain rules s =
      inTurn (fun rule => chain {rule} rules) filters (rules.map Prod.fst) s := by
  suffices hrest : ∀ rest ⊆ rules, ∀ s, filters.chain rest s =
      inTurn (fun rule => chain {rule} rules) filters (rest.map Prod.fst) s from
    hrest rules (List.Subset.refl rules) s
  intro rest
  induction rest with
  | nil => exact fun _ _ => rfl
  | cons entry rest ih =>
      intro hsub s
      obtain ⟨hentry, hrest⟩ := List.cons_subset.mp hsub
      rw [List.map_cons, chain, inTurn, chain_singleton hrules hentry, bind_assoc]
      split
      · refine bind_congr fun (next, changes) => ?_
        have hchanges : changesOf entry.1 ((rules.map Prod.fst).map (lonePass entry.1 changes)) =
            changes := changesOf_lonePass (List.mem_map.mpr ⟨entry, hentry, rfl⟩)
        simp only [pure_bind, hchanges, ih hrest]
      · rw [ih hrest]

/-! ### Graphs and texts -/

def checked (rule : Rule) (splice : EditM Nat) : EditM Nat := do
  let rooted := !(← get).roots.isEmpty
  let changes ← splice
  let graph ← get
  graph.check
  if rooted && graph.roots.isEmpty && !graph.tokens.isEmpty then throw (.rootless rule)
  return changes

theorem passGraph_eq (rule : Rule) (splice : EditM Nat) :
    filters.passGraph rule splice =
      if rule ∈ filters then checked rule splice >>= fun changes => pure ⟨rule, true, changes⟩
      else pure ⟨rule, false, 0⟩ := by
  unfold passGraph checked
  split
  · simp only [bind_assoc]
    refine bind_congr fun before => bind_congr fun changes => bind_congr fun after =>
      bind_congr fun _ => ?_
    split <;> rfl
  · rfl

def graphStep (rule : Rule × EditM Nat) : Rule × Step Graph :=
  (rule.1, (checked rule.1 rule.2).outcome)

theorem chain_graphStep (rules : List (Rule × EditM Nat)) (graph : Graph) :
    filters.chain (rules.map graphStep) graph =
      (rules.mapM fun rule => filters.passGraph rule.1 rule.2 : EditM (List Pass)).outcome
        graph := by
  induction rules generalizing graph with
  | nil => rfl
  | cons rule rules ih =>
      rw [List.mapM_cons, EditM.outcome_bind, passGraph_eq]
      simp only [EditM.outcome_bind, EditM.outcome_pure, List.map_cons, graphStep, chain, ih]
      split
      · rw [EditM.outcome_bind, bind_assoc]
        rfl
      · rfl

theorem normalizeGraph_eq_chain (filters : Filters) (graph : Graph) :
    filters.normalizeGraph graph = filters.chain (graphRules.map graphStep) graph := by
  rw [chain_graphStep, normalizeGraph, ← passesGraph, EditM.outcome]
  rcases filters.passesGraph.on graph with ⟨_ | _, _⟩ <;> rfl

def textStep (rule : Rule × (List Char → Option (List Char))) : Rule × Step String :=
  (rule.1, fun text =>
    match rule.2 text.toList with
    | some changed => .ok (String.ofList changed, 1)
    | none => .ok (text, 0))

theorem run_passText (rule : Rule) (change? : List Char → Option (List Char)) (text : List Char) :
    (filters.passText rule change?).run text =
      if rule ∈ filters then
        match change? text with
        | some changed => (⟨rule, true, 1⟩, changed)
        | none => (⟨rule, true, 0⟩, text)
      else (⟨rule, false, 0⟩, text) := by
  simp only [passText]
  split
  · rw [StateT.run_bind]
    change StateT.run (match change? text with | some _ => _ | none => _) text = _
    cases change? text <;> rfl
  · rfl

theorem chain_textStep (rules : List (Rule × (List Char → Option (List Char)))) (text : String) :
    filters.chain (rules.map textStep) text =
      let (passes, changed) :=
        (rules.mapM fun rule => filters.passText rule.1 rule.2 : StateM (List Char) _).run
          text.toList
      .ok (String.ofList changed, passes) := by
  induction rules generalizing text with
  | nil => exact congrArg (fun text => Except.ok (text, [])) String.ofList_toList.symm
  | cons rule rules ih =>
      simp only [List.map_cons, textStep, chain, List.mapM_cons, StateT.run_bind, run_passText]
      split
      · cases rule.2 text.toList with
        | none =>
            change filters.chain (rules.map textStep) text >>= _ = _
            rw [ih]
            rfl
        | some changed =>
            change filters.chain (rules.map textStep) (String.ofList changed) >>= _ = _
            rw [ih, String.toList_ofList]
            rfl
      · rw [ih]
        rfl

theorem normalizeText_eq_chain (filters : Filters) (text : String) :
    .ok (filters.normalizeText text) = filters.chain (textRules.map textStep) text :=
  (chain_textStep textRules text).symm

/-! ### Configured normalization -/

def normalizeGraphBy (config : String) (graph : Graph) : Except Fault (Graph × List Pass) := do
  (← parse config).normalizeGraph graph

def normalizeTextBy (config : String) (text : String) : Except Fault (String × List Pass) := do
  return (← parse config).normalizeText text

/-- The passes are those of the given rules in their order, and tell which of them are in the set.
A rule that is not in the set has changed nothing. -/
structure Lists (filters : Filters) (rules : List Rule) (passes : List Pass) : Prop where
  rules_eq : passes.map Pass.rule = rules
  enabled_iff : ∀ pass ∈ passes, pass.enabled = true ↔ pass.rule ∈ filters
  changes_eq : ∀ pass ∈ passes, pass.rule ∉ filters → pass.changes = 0

theorem Lists.cons {rules : List Rule} {passes : List Pass} (h : filters.Lists rules passes)
    (pass : Pass) (henabled : pass.enabled = true ↔ pass.rule ∈ filters)
    (hchanges : pass.rule ∉ filters → pass.changes = 0) :
    filters.Lists (pass.rule :: rules) (pass :: passes) where
  rules_eq := congrArg (pass.rule :: ·) h.rules_eq
  enabled_iff := List.forall_mem_cons.mpr ⟨henabled, h.enabled_iff⟩
  changes_eq := List.forall_mem_cons.mpr ⟨hchanges, h.changes_eq⟩

theorem lists_of_inTurn {alone : Rule → σ → Except Fault (σ × List Pass)} {rules : List Rule}
    {s last : σ} {passes : List Pass} (h : inTurn alone filters rules s = .ok (last, passes)) :
    filters.Lists rules passes := by
  induction rules generalizing s passes with
  | nil =>
      cases h
      exact ⟨rfl, fun _ h => (List.not_mem_nil h).elim, fun _ h => (List.not_mem_nil h).elim⟩
  | cons rule rules ih =>
      rw [inTurn] at h
      split at h
      · next hrule =>
        obtain ⟨⟨next, single⟩, -, h⟩ := exists_of_bind_eq_ok h
        obtain ⟨⟨result, rest⟩, hrest, h⟩ := exists_of_bind_eq_ok h
        cases h
        exact (ih hrest).cons ⟨rule, true, _⟩ (iff_of_true rfl hrule) fun hnot => (hnot hrule).elim
      · next hrule =>
        obtain ⟨⟨result, rest⟩, hrest, h⟩ := exists_of_bind_eq_ok h
        cases h
        exact (ih hrest).cons ⟨rule, false, 0⟩ (iff_of_false Bool.false_ne_true hrule) fun _ => rfl

theorem parse_name (rule : Rule) : parse rule.name = .ok {rule} := by
  cases rule <;> decide +kernel

theorem normalizeGraphBy_eq_chain {config : String} (h : parse config = .ok filters) :
    normalizeGraphBy config = filters.chain (graphRules.map graphStep) := by
  funext graph
  rw [normalizeGraphBy, h, ← normalizeGraph_eq_chain]
  rfl

theorem normalizeGraphBy_eq_inTurn {config : String} (h : parse config = .ok filters)
    (graph : Graph) :
    normalizeGraphBy config graph =
      inTurn (fun rule => normalizeGraphBy rule.name) filters
        [.quantity, .operatorRoot, .determiner, .clause] graph := by
  simp only [normalizeGraphBy_eq_chain h, normalizeGraphBy_eq_chain (parse_name _)]
  exact chain_eq_inTurn (by decide) filters graph

theorem normalizeTextBy_eq_chain {config : String} (h : parse config = .ok filters) :
    normalizeTextBy config = filters.chain (textRules.map textStep) := by
  funext text
  rw [normalizeTextBy, h, ← normalizeText_eq_chain]
  rfl

theorem normalizeTextBy_eq_inTurn {config : String} (h : parse config = .ok filters)
    (text : String) :
    normalizeTextBy config text =
      inTurn (fun rule => normalizeTextBy rule.name) filters [.thereBe, .atLeast] text := by
  simp only [normalizeTextBy_eq_chain h, normalizeTextBy_eq_chain (parse_name _)]
  exact chain_eq_inTurn (by decide) filters text

/-- A configuration is refused for its first item that is no rule's name. An accepted one stands for
the set of the rules that it names, and normalization by it is that by each of these names alone,
one after the other in the order of the rules. -/
theorem configuration_eq_inTurn (config : String) :
    (∀ fault, parse config = .error fault ↔
      ∃ before item after, config.toList.splitOn ',' = before ++ item :: after ∧
        (∀ earlier ∈ before, ¬ Unknown earlier) ∧ Unknown item ∧
        fault = .unknownFilter (String.ofList (Text.trim item))) ∧
    ∀ filters, parse config = .ok filters →
      (∀ rule, rule ∈ filters ↔
        ∃ item ∈ config.toList.splitOn ',', Text.trim item = rule.name.toList) ∧
      (∀ graph,
        normalizeGraphBy config graph =
          inTurn (fun rule => normalizeGraphBy rule.name) filters
            [.quantity, .operatorRoot, .determiner, .clause] graph ∧
        ∀ result passes, normalizeGraphBy config graph = .ok (result, passes) →
          filters.Lists [.quantity, .operatorRoot, .determiner, .clause] passes) ∧
      ∀ text,
        normalizeTextBy config text =
          inTurn (fun rule => normalizeTextBy rule.name) filters [.thereBe, .atLeast] text ∧
        ∃ result passes, normalizeTextBy config text = .ok (result, passes) ∧
          filters.Lists [.thereBe, .atLeast] passes := by
  refine ⟨fun fault => ⟨fun h => ?_, ?_⟩, fun filters h => ⟨?_, fun graph => ?_, fun text => ?_⟩⟩
  · rcases parse_cases config with ⟨before, item, after, hconfig, hbefore, hitem⟩ |
      ⟨filters, hfilters, -⟩
    · have hparse := parse_eq_error_of_unknown hconfig hbefore hitem
      exact ⟨before, item, after, hconfig, hbefore, hitem, Except.error.inj (h.symm.trans hparse)⟩
    · cases h.symm.trans hfilters
  · rintro ⟨before, item, after, hconfig, hbefore, hitem, rfl⟩
    exact parse_eq_error_of_unknown hconfig hbefore hitem
  · rcases parse_cases config with ⟨before, item, after, hconfig, hbefore, hitem⟩ |
      ⟨filters, hfilters, hmem⟩
    · cases h.symm.trans (parse_eq_error_of_unknown hconfig hbefore hitem)
    · cases h.symm.trans hfilters
      exact hmem
  · have hrun : normalizeGraphBy config graph = _ := normalizeGraphBy_eq_inTurn h graph
    exact ⟨hrun, fun result passes hok => lists_of_inTurn (hrun.symm.trans hok)⟩
  · have hrun : normalizeTextBy config text = _ := normalizeTextBy_eq_inTurn h text
    have hok : normalizeTextBy config text = .ok (filters.normalizeText text) := by
      rw [normalizeTextBy, h]
      rfl
    exact ⟨hrun, _, _, hok, lists_of_inTurn (hrun.symm.trans hok)⟩

/-- "eats lot cake than he has". -/
def lotThan : Graph where
  tokens := [
    { index := 1, word := "eats", baseForm := "eat", tag := "VBZ" },
    { index := 2, word := "lot", baseForm := "lot", tag := "NN" },
    { index := 3, word := "cake", baseForm := "cake", tag := "NN" },
    { index := 4, word := "than", baseForm := "than", tag := "IN" },
    { index := 5, word := "he", baseForm := "he", tag := "PRP" },
    { index := 6, word := "has", baseForm := "have", tag := "VBZ" }]
  arcs := [
    (0, { governor := 1, dependent := 2, relation := "dobj" }),
    (1, { governor := 2, dependent := 3, relation := "nmod:of" }),
    (2, { governor := 6, dependent := 4, relation := "mark" }),
    (3, { governor := 6, dependent := 5, relation := "nsubj" }),
    (4, { governor := 1, dependent := 6, relation := "advcl" })]
  roots := [1]
  nextEdge := 5

/-- A configuration that names two rules, one of them twice, in another order than that of the
rules: both find something to do in `lotThan`. -/
theorem configuration_eq_inTurn_lotThan :
    ∃ filters result passes, parse " has,,mods ,has" = .ok filters ∧
      normalizeGraphBy " has,,mods ,has" lotThan = .ok (result, passes) ∧
      inTurn (fun rule => normalizeGraphBy rule.name) filters
        [.quantity, .operatorRoot, .determiner, .clause] lotThan = .ok (result, passes) ∧
      passes = [⟨.quantity, true, 1⟩, ⟨.operatorRoot, false, 0⟩, ⟨.determiner, false, 0⟩,
        ⟨.clause, true, 1⟩] := by
  have hparse : parse " has,,mods ,has" = .ok {.quantity, .clause} := by decide +kernel
  have hpasses : (normalizeGraphBy " has,,mods ,has" lotThan).map Prod.snd =
      .ok [⟨.quantity, true, 1⟩, ⟨.operatorRoot, false, 0⟩, ⟨.determiner, false, 0⟩,
        ⟨.clause, true, 1⟩] := by
    simp only [normalizeGraphBy, hparse, normalizeGraph, passesGraph, graphRules, Splice.quantity,
      Splice.lowerFirst, Splice.onesToDeterminers, Splice.numeralsOne, Splice.clause, Graph.view,
      Graph.outgoing, Graph.sortedEdges, Edge.sort_eq_insertionSort]
    decide +kernel
  obtain ⟨⟨result, passes⟩, hrun, rfl⟩ := exists_of_map_eq_ok hpasses
  obtain ⟨-, hgraph, -⟩ := (configuration_eq_inTurn " has,,mods ,has").2 _ hparse
  exact ⟨_, result, _, hparse, hrun, (hgraph lotThan).1.symm.trans hrun, rfl⟩

end Filters

end DepNorm
