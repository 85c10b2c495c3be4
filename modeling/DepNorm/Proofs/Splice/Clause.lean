import DepNorm.Proofs.Pattern.Occurrence
import DepNorm.Proofs.Splice.Move

/-!
The rule for comparative clauses as a single move, or none. Like the rule for quantities it can only
stop at an edge that its match has seen and that is a secondary one. Whatever else the verb of the
clause governs is taken out by number, hence whether or not it is secondary.
-/

namespace DepNorm.Splice

open DepNorm.Graph EditM

variable {graph : Graph}

/-! ### Taking out all that a token governs -/

theorem on_detach (h : graph.WellFormed) {arc : Nat × Edge} (harc : arc ∈ graph.arcs) :
    (detach arc.1).on graph = (.ok (some arc.2), graph.eraseEdge arc.1) := by
  have htake : graph.takeNumbered? arc.1 = some (arc.2, graph.eraseEdge arc.1) := by
    rw [takeNumbered?, h.edge?_eq_some_iff.mpr harc, Option.map_some]
  simp only [detach, on_get_bind, htake]
  rfl

theorem on_mapM_detach (h : graph.WellFormed) {arcs : List (Nat × Edge)}
    (hdistinct : arcs.Pairwise (·.1 ≠ ·.1)) (harcs : ∀ arc ∈ arcs, arc ∈ graph.arcs) :
    ((arcs.map Prod.fst).mapM detach).on graph =
      (.ok (arcs.map fun arc => some arc.2),
        { graph with arcs := graph.arcs.filter fun arc => arc.1 ∉ arcs.map Prod.fst }) := by
  induction arcs generalizing graph with
  | nil =>
      simp only [List.map_nil, List.mapM_nil, List.not_mem_nil, not_false_eq_true, decide_true,
        List.filter_true]
      rfl
  | cons arc arcs ih =>
      obtain ⟨hnew, hdistinct⟩ := List.pairwise_cons.mp hdistinct
      obtain ⟨harc, harcs⟩ := List.forall_mem_cons.mp harcs
      have hstill : ∀ other ∈ arcs, other ∈ (graph.eraseEdge arc.1).arcs := by
        intro other hother
        refine List.mem_filter.mpr ⟨harcs other hother, ?_⟩
        simpa using (hnew other hother).symm
      have hrest : (graph.eraseEdge arc.1).arcs.filter (fun other => other.1 ∉ arcs.map Prod.fst) =
          graph.arcs.filter fun other => other.1 ∉ (arc :: arcs).map Prod.fst := by
        rw [Graph.eraseEdge, List.filter_filter]
        refine List.filter_congr fun other _ => ?_
        rw [Bool.eq_iff_iff, Bool.and_eq_true, decide_eq_true_iff, decide_eq_true_iff, bne_iff_ne,
          List.map_cons, List.mem_cons, not_or]
        exact and_comm
      rw [List.map_cons, List.mapM_cons, on_bind, on_detach h harc]
      simp only [on_bind, ih (h.eraseEdge arc.1) hdistinct hstill, hrest]
      rfl

theorem on_detachAll (h : graph.WellFormed) (index : Nat) :
    (detachAll index).on graph =
      (.ok (graph.edges.filter (·.governor == index)),
        { graph with arcs := graph.arcs.filter (·.2.governor != index) }) := by
  have harcs : ∀ arc ∈ graph.arcs.filter (·.2.governor == index), arc ∈ graph.arcs :=
    fun arc harc => (List.mem_filter.mp harc).1
  have hleft : graph.arcs.filter
      (fun arc => arc.1 ∉ (graph.arcs.filter (·.2.governor == index)).map Prod.fst) =
        graph.arcs.filter (·.2.governor != index) := by
    refine List.filter_congr fun arc harc => ?_
    rw [Bool.eq_iff_iff, decide_eq_true_iff, bne_iff_ne, not_iff_not]
    constructor
    · -- Two arcs with one number are one arc.
      intro hmem
      obtain ⟨other, hother, heq⟩ := List.mem_map.mp hmem
      obtain ⟨hother, hgovernor⟩ := List.mem_filter.mp hother
      have hfound := h.edge?_eq_some_iff.mpr hother
      rw [heq, h.edge?_eq_some_iff.mpr harc] at hfound
      rw [Option.some.inj hfound]
      simpa using hgovernor
    · intro hgovernor
      exact List.mem_map_of_mem (List.mem_filter.mpr ⟨harc, by simpa using hgovernor⟩)
  have hedges : (graph.arcs.filter (·.2.governor == index)).map Prod.snd =
      graph.edges.filter (·.governor == index) := by
    rw [edges, List.filter_map]
    rfl
  have hsome :
      ((graph.arcs.filter (·.2.governor == index)).map fun arc => some arc.2).filterMap id =
        graph.edges.filter (·.governor == index) := by
    rw [← hedges, List.filterMap_map, ← List.filterMap_eq_map]
    rfl
  unfold detachAll
  rw [on_get_bind, on_bind, outgoingNumbers,
    on_mapM_detach h ((h.numbers_ascending.imp Nat.ne_of_lt).filter _) harcs, hleft]
  simp only [hsome]
  rfl

theorem ends_detachAll (h : graph.WellFormed) (index : Nat) {good : List Edge → Graph → Prop}
    {bad : Fault → Graph → Prop}
    (hgood : ∀ edges rest, (∀ edge, edge ∈ edges ↔ edge ∈ graph.edges ∧ edge.governor = index) →
      graph.Rekeyed {key ∈ graph.keys | key.governor ≠ index} rest → good edges rest) :
    Ends (detachAll index) graph good bad := by
  have hkeys : ({ graph with arcs := graph.arcs.filter (·.2.governor != index) } : Graph).keys =
      {key ∈ graph.keys | key.governor ≠ index} := by
    ext key
    simp only [mem_keys_iff_arcs, List.mem_filter, bne_iff_ne, Set.mem_ofPred_eq]
    constructor
    · rintro ⟨arc, ⟨harc, hgovernor⟩, rfl⟩
      exact ⟨⟨arc, harc, rfl⟩, hgovernor⟩
    · rintro ⟨⟨arc, harc, rfl⟩, hgovernor⟩
      exact ⟨arc, ⟨harc, hgovernor⟩, rfl⟩
  simp only [Ends, on_detachAll h]
  refine hgood _ _ (fun edge => ?_) ⟨h.filter_arcs _, rfl, rfl, hkeys⟩
  rw [List.mem_filter, beq_iff_eq]

/-! ### Collapsing a clause -/

theorem cutKeys_eq {keys : Set EdgeKey} {root verb preposition object : Nat} {relation : String} :
    {key ∈ ((keys \ {{ governor := root, dependent := verb, relation }}) \
        {{ governor := verb, dependent := preposition, relation := "mark" }}) \
          {{ governor := verb, dependent := object, relation := "nsubj" }} |
      key.governor ≠ preposition ∧ key.dependent ≠ preposition} =
    cutKeys keys root verb preposition object relation := by
  ext key
  simp only [cutKeys, Set.mem_ofPred_eq, Set.mem_sdiff, Set.mem_singleton_iff]
  constructor
  · rintro ⟨⟨⟨⟨hkey, hverb⟩, -⟩, hobject⟩, hgovernor, hdependent⟩
    exact ⟨hkey, hgovernor, hdependent, hverb, hobject⟩
  · rintro ⟨hkey, hgovernor, hdependent, hverb, hobject⟩
    refine ⟨⟨⟨⟨hkey, hverb⟩, ?_⟩, hobject⟩, hgovernor, hdependent⟩
    rintro rfl
    exact hdependent rfl

/-- The dependents of the verb are handed to the main verb, and the verb to its object. -/
theorem ends_reattach (h : graph.WellFormed) {root verb object : Nat} (relation : String)
    (hroot : root ∈ graph) (hverb : verb ∈ graph) (hobject : object ∈ graph)
    {good : Unit → Graph → Prop} {bad : Fault → Graph → Prop}
    (hgood : ∀ next, graph.Rekeyed (collapsedKeys graph.keys root verb object relation) next →
      good () next) :
    Ends (do
      let detached ← detachAll verb
      putEdge (.made root object relation)
      putEdge (.made object verb "mark")
      detached.forM fun edge => putEdge (.made root edge.dependent edge.relation))
      graph good bad := by
  refine .bind (ends_detachAll h verb fun edges rest hedges hrest => ?_)
  refine .bind (ends_putEdge hrest.wellFormed (hrest.mem_iff.mpr hroot)
    (hrest.mem_iff.mpr hobject) fun put hput => ?_)
  have hput := hrest.trans hput
  refine .bind (ends_putEdge hput.wellFormed (hput.mem_iff.mpr hobject)
    (hput.mem_iff.mpr hverb) fun put' hput' => ?_)
  have hput' := hput.trans hput'
  refine ends_forM_putEdge hput'.wellFormed (fun edge hedge => ⟨?_, ?_⟩) fun next hnext => ?_
  · exact hput'.mem_iff.mpr hroot
  · exact hput'.mem_iff.mpr (h.dependent_mem edge ((hedges edge).mp hedge).1)
  · -- The keys put in last are those of the edges that were taken out first.
    refine hgood next ((hput'.trans hnext).congr ?_)
    rw [hput'.keys, hput.keys, hrest.keys]
    ext key
    simp only [collapsedKeys, Set.mem_union, Set.mem_insert_iff, Set.mem_ofPred_eq, hedges]
    constructor
    · rintro ((rfl | rfl | hkey) | ⟨edge, ⟨hedge, hgovernor⟩, rfl⟩)
      · exact .inr (.inr (.inl rfl))
      · exact .inr (.inl rfl)
      · exact .inl hkey
      · exact .inr (.inr (.inr ⟨edge.key, key_mem_keys hedge, hgovernor, rfl⟩))
    · rintro (hkey | rfl | rfl | ⟨_, ⟨edge, hedge, rfl⟩, hgovernor, rfl⟩)
      · exact .inl (.inr (.inr hkey))
      · exact .inl (.inr (.inl rfl))
      · exact .inl (.inl rfl)
      · exact .inr ⟨edge, ⟨hedge, hgovernor⟩, rfl⟩

theorem ne_of_distinct {root verb preposition object : Nat}
    (hdistinct : [root, verb, preposition, object].Nodup) :
    (root ≠ verb ∧ root ≠ preposition ∧ root ≠ object) ∧
      (verb ≠ preposition ∧ verb ≠ object) ∧ preposition ≠ object := by
  simpa using hdistinct

/-- If the edges that the match has seen are there, be they primary or secondary, the clause is
collapsed or the rule stops. -/
theorem ends_collapse (h : graph.WellFormed) {root verb preposition object : Nat}
    {relation : String} (hdistinct : [root, verb, preposition, object].Nodup)
    (hverb : graph.Joins root relation verb) (hmark : graph.Joins verb "mark" preposition)
    (hobject : graph.Joins verb "nsubj" object) :
    Ends (collapse root verb preposition object relation) graph
      (fun _ next => ClauseAt graph root verb preposition object relation ∧
        ∃ name, (∃ token ∈ graph.tokens, prepositionRelation token.word = name) ∧
          Collapsed graph root verb preposition object relation name next)
      (Stopped .clause graph) := by
  obtain ⟨⟨hrv, hrp, hro⟩, ⟨hvp, hvo⟩, hpo⟩ := ne_of_distinct hdistinct
  unfold collapse
  -- No removal takes an edge that a later one needs.
  refine .bind (ends_takeJoined (Rekeyed.refl h) subset_rfl hverb fun first hverbkey hfirst => ?_)
  have hmark' := hmark.of_keys_eq hfirst.keys fun heq => absurd heq hrv.symm
  have hobject' := hobject.of_keys_eq hfirst.keys fun heq => absurd heq hrv.symm
  refine .bind (ends_takeJoined hfirst Set.sdiff_subset hmark' fun second hmarkkey hsecond => ?_)
  have hobject' := hobject'.of_keys_eq (hfirst.keys ▸ hsecond.keys) fun _ => hpo.symm
  refine .bind (ends_takeJoined hsecond (Set.sdiff_subset.trans Set.sdiff_subset) hobject'
    fun third hobjectkey hthird => ?_)
  refine .bind (ends_takeToken hthird.wellFormed
    (hthird.mem_iff.mpr (h.mem_of_joins hmark).2) fun token htoken => ?_)
  have hcut : (graph.eraseToken preposition).Rekeyed
      (cutKeys graph.keys root verb preposition object relation)
        (third.eraseToken preposition) := (hthird.eraseToken preposition).congr cutKeys_eq
  have hmem {index : Nat} (hindex : index ∈ graph) (hne : index ≠ preposition) :
      index ∈ third.eraseToken preposition :=
    mem_eraseToken.mpr ⟨hthird.mem_iff.mpr hindex, hne⟩
  refine ends_reattach hcut.wellFormed _ (hmem (h.mem_of_joins hverb).1 hrp)
    (hmem (h.mem_of_joins hverb).2 hvp) (hmem (h.mem_of_joins hobject).2 hpo.symm)
      fun next hnext => ?_
  rw [hcut.keys] at hnext
  have htoken := (hthird.wellFormed.token?_eq_some_iff.mp htoken).1
  exact ⟨⟨hdistinct, hverbkey, hmarkkey.1, hobjectkey.1.1⟩, _,
    ⟨token, hthird.tokens ▸ htoken, rfl⟩, hcut.trans hnext⟩

/-! ### The rule -/

theorem governed_comparativeClause :
    Pattern.Governed [comparativeClause.anchor.name] comparativeClause.edges := by
  simp [Pattern.Governed, comparativeClause]

theorem asks_mark : comparativeClause.Asks
    { governor := "has", dependent := "prep", relation := .exact "mark" } :=
  ⟨comparativeClause.edges.take 1, _, rfl, rfl, by decide⟩

theorem asks_subject : comparativeClause.Asks
    { governor := "has", dependent := "pobj", relation := .exact "nsubj" } :=
  ⟨comparativeClause.edges.take 2, [], rfl, rfl, by decide⟩

/-- The tokens to which a match of a comparative clause binds its four nodes. -/
structure BindsClause (found : Match) (root verb preposition object : Nat) : Prop where
  root : found.node? "root" = some root
  verb : found.node? "has" = some verb
  preposition : found.node? "prep" = some preposition
  object : found.node? "pobj" = some object

theorem exists_tokens_of_comparativeClause {found : Match} {relation : String}
    (hfind : comparativeClause.find? graph.view = some found)
    (hrelation : found.relation? "clause" = some relation) :
    ∃ root verb preposition object, BindsClause found root verb preposition object ∧
      [root, verb, preposition, object].Nodup ∧ graph.Joins root relation verb ∧
      graph.Joins verb "mark" preposition ∧ graph.Joins verb "nsubj" object := by
  have hgoverned := governed_comparativeClause
  obtain ⟨edge, hedge, hcapture, root, verb, hroot, hverb, hjoins⟩ :=
    Pattern.joins_of_relation? hgoverned hfind hrelation
  obtain ⟨hgovernor, hdependent⟩ : edge.governor = "root" ∧ edge.dependent = "has" := by
    simp only [comparativeClause, List.mem_cons, List.not_mem_nil, or_false] at hedge
    rcases hedge with rfl | rfl | rfl
    · exact ⟨rfl, rfl⟩
    · cases hcapture
    · cases hcapture
  rw [hgovernor] at hroot
  rw [hdependent] at hverb
  obtain ⟨verb', preposition, hverb', hpreposition, hmark⟩ :=
    Pattern.joins_of_find? hgoverned hfind asks_mark
  obtain ⟨verb'', object, hverb'', hobject, hsubject⟩ :=
    Pattern.joins_of_find? hgoverned hfind asks_subject
  cases hverb.symm.trans hverb'
  cases hverb.symm.trans hverb''
  have hnames : ["root", "has", "prep", "pobj"].Nodup := by decide
  exact ⟨root, verb, preposition, object, ⟨hroot, hverb, hpreposition, hobject⟩,
    Pattern.nodup_of_node? hgoverned hfind hnames (by simp [hroot, hverb, hpreposition, hobject]),
    hjoins, hmark, hsubject⟩

/-- What the rule does to the first match. The answer is the number of changes. -/
inductive CollapsesFirst (graph : Graph) : Nat → Graph → Prop
  | unchanged : CollapsesFirst graph 0 graph
  | collapsed {found : Match} {root verb preposition object : Nat} {relation name : String}
      {next : Graph} (hfind : comparativeClause.find? graph.view = some found)
      (hbinds : BindsClause found root verb preposition object)
      (hclause : ClauseAt graph root verb preposition object relation)
      (hname : ∃ token ∈ graph.tokens, prepositionRelation token.word = name)
      (hnext : Collapsed graph root verb preposition object relation name next) :
      CollapsesFirst graph 1 next

theorem ends_collapsesFirst (h : graph.WellFormed) :
    Ends clause graph (CollapsesFirst graph) (Stopped .clause graph) := by
  unfold clause
  refine .get_bind ?_
  cases hfind : comparativeClause.find? graph.view with
  | none => exact .pure .unchanged
  | some found =>
      cases hrelation : found.relation? "clause" with
      | none =>
          simp only [hrelation]
          repeat' split
          all_goals exact .pure .unchanged
      | some relation =>
          obtain ⟨root, verb, preposition, object, hbinds, hdistinct, hjoins, hmark, hsubject⟩ :=
            exists_tokens_of_comparativeClause hfind hrelation
          simp only [hbinds.root, hbinds.verb, hbinds.preposition, hbinds.object, hrelation]
          refine .bind ((ends_collapse h hdistinct hjoins hmark hsubject).imp ?_ fun _ _ => id)
          rintro _ next ⟨hclause, name, hname, hnext⟩
          exact .pure (.collapsed hfind hbinds hclause hname hnext)

/-- The rule leaves the graph alone or collapses one clause, unless it stops. -/
theorem ends_clause (h : graph.WellFormed) :
    Ends clause graph (fun _ next => Relation.ReflGen (Move .clause) graph next)
      (Stopped .clause graph) := by
  refine (ends_collapsesFirst h).imp (fun changes next hfirst => ?_) fun _ _ => id
  cases hfirst with
  | unchanged => exact .refl
  | collapsed _ _ hclause hname hnext => exact .single (.collapse hclause hnext hname)

end DepNorm.Splice
