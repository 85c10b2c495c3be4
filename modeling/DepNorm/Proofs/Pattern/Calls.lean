import DepNorm.Proofs.Pattern.First

/-!
The calls that a search makes of itself. `Pattern.calls` lists them, each with the trail as the call
found it and as it left it, in the order in which they end: the search runs as it is, edge by edge,
and writes down each call as it returns. Every call has a decided governor, its trail holds declared
names only, and a call that leads nowhere leaves the trail as it found it.

What one call does to the trail before it calls for the edges that remain is `Pattern.Onward`; an
invariant that these changes keep holds for every call.
-/

namespace DepNorm

structure Call where
  edges : List PatternEdge
  /-- The trail as the call found it. -/
  before : Trail
  /-- Whether there was a way through the edges. -/
  found : Bool
  /-- The trail as the call left it. -/
  after : Trail
  deriving DecidableEq, Repr

/-- What writes down the calls that have ended. -/
abbrev Recorded := StateM (List Call)

namespace Pattern

variable {view : View} {pattern : Pattern}

/-! ### The search with a record -/

/-- Goes a way and writes it down as the call for the given edges. -/
def record (edges : List PatternEdge) (way : StateT Trail Recorded Bool) :
    StateT Trail Recorded Bool := do
  let before ← get
  let found ← way
  let after ← get
  modifyThe (List Call) (· ++ [⟨edges, before, found, after⟩])
  return found

def extendRecorded (view : View) (pattern : Pattern) :
    List PatternEdge → StateT Trail Recorded Bool
  | [] => record [] (return true)
  | edge :: edges =>
    record (edge :: edges) (getPast view pattern edge (extendRecorded view pattern edges))

def matchAtRecorded? (view : View) (pattern : Pattern) (index : Nat) : Recorded (Option Match) := do
  if (view.token? index).any pattern.anchor.test.holds then
    let start : Trail := { bindings := [(pattern.anchor.name, index)] }
    let (found, trail) ← (extendRecorded view pattern pattern.edges).run start
    return if found then some trail.toMatch else none
  else return none

def findRecorded? (pattern : Pattern) (view : View) : Recorded (Option Match) :=
  view.indices.findSomeM? (matchAtRecorded? view pattern)

/-- All calls that the search makes, from every index that it tries for the anchor. -/
def calls (pattern : Pattern) (view : View) : List Call := ((pattern.findRecorded? view).run []).2

/-! ### The record leaves the search as it is -/

/-- The recorded computation gives the value, and the calls that it adds to any record have the
property. -/
def Adds {α : Type} (P : Call → Prop) (recorded : Recorded α) (a : α) : Prop :=
  ∀ log, ∃ calls, recorded.run log = (a, log ++ calls) ∧ ∀ call ∈ calls, P call

namespace Adds

variable {α β : Type} {P : Call → Prop}

theorem pure (a : α) : Adds P (Pure.pure a) a :=
  fun log => ⟨[], by rw [List.append_nil]; rfl, nofun⟩

theorem bind {first : Recorded α} {next : α → Recorded β} {a : α} {b : β}
    (hfirst : Adds P first a) (hnext : Adds P (next a) b) : Adds P (first >>= next) b := by
  intro log
  obtain ⟨calls, hcalls, hP⟩ := hfirst log
  obtain ⟨more, hmore, hP'⟩ := hnext (log ++ calls)
  refine ⟨calls ++ more, ?_, List.forall_mem_append.mpr ⟨hP, hP'⟩⟩
  rw [StateT.run_bind, hcalls, ← List.append_assoc]
  exact hmore

theorem findSomeM? {items : List α} {recorded : α → Recorded (Option β)} {result : α → Option β}
    (h : ∀ a, Adds P (recorded a) (result a)) :
    Adds P (items.findSomeM? recorded) (items.findSome? result) := by
  induction items with
  | nil => exact pure none
  | cons a items ih =>
      rw [List.findSomeM?_cons, List.findSome?_cons]
      refine bind (h a) ?_
      cases result a with
      | some b => exact pure (some b)
      | none => exact ih

end Adds

/-- From the trail, the recorded search ends as the plain one does, and the calls that it adds to
any record have the property. -/
def Records {α : Type} (P : Call → Prop) (recorded : StateT Trail Recorded α)
    (plain : StateM Trail α) (trail : Trail) : Prop :=
  Adds P (recorded.run trail) (plain.run trail)

namespace Records

variable {α β : Type} {P : Call → Prop} {trail : Trail}

theorem pure (a : α) : Records P (Pure.pure a) (Pure.pure a) trail := Adds.pure (a, trail)

theorem bind {first : StateT Trail Recorded α} {plain : StateM Trail α}
    {next : α → StateT Trail Recorded β} {plainNext : α → StateM Trail β}
    (hfirst : Records P first plain trail)
    (hnext : Records P (next (plain.run trail).1) (plainNext (plain.run trail).1)
      (plain.run trail).2) :
    Records P (first >>= next) (plain >>= plainNext) trail := by
  rw [Records, StateT.run_bind]
  exact Adds.bind hfirst hnext

theorem get_bind {next : Trail → StateT Trail Recorded α} {plainNext : Trail → StateM Trail α}
    (hnext : Records P (next trail) (plainNext trail) trail) :
    Records P (get >>= next) (get >>= plainNext) trail := hnext

theorem attempt {change : Trail → Trail} {way : StateT Trail Recorded Bool}
    {plain : StateM Trail Bool} (hway : Records P way plain (change trail)) :
    Records P (Pattern.attempt do modify change; way) (Pattern.attempt do modify change; plain)
      trail := by
  have hmodify : Records P (do modify change; way) (do modify change; plain) trail := hway
  refine get_bind (bind hmodify ?_)
  cases ((do modify change; plain : StateM Trail Bool).run trail).1 with
  | true => exact pure true
  | false => exact pure false

theorem anyM {items : List α} {way : α → StateT Trail Recorded Bool}
    {plain : α → StateM Trail Bool} {result : α → Option Trail}
    (hway : ∀ a ∈ items, Records P (way a) (plain a) trail)
    (hplain : ∀ a, (plain a).run trail = ended trail (result a)) :
    Records P (items.anyM way) (items.anyM plain) trail := by
  induction items with
  | nil => exact pure false
  | cons a items ih =>
      -- The later items matter only if the first has led nowhere, and then the trail is as it was.
      obtain ⟨hfirst, hrest⟩ := List.forall_mem_cons.mp hway
      rw [List.anyM_cons, List.anyM_cons]
      refine bind hfirst ?_
      rw [hplain]
      cases result a with
      | some last => exact pure true
      | none => exact ih hrest

theorem run_record (edges : List PatternEdge) (way : StateT Trail Recorded Bool) (trail : Trail)
    (log : List Call) :
    ((Pattern.record edges way).run trail).run log =
      let ended := (way.run trail).run log
      (ended.1, ended.2 ++ [⟨edges, trail, ended.1.1, ended.1.2⟩]) := rfl

theorem record {edges : List PatternEdge} {way : StateT Trail Recorded Bool}
    {plain : StateM Trail Bool} (hway : Records P way plain trail)
    (hcall : P ⟨edges, trail, (plain.run trail).1, (plain.run trail).2⟩) :
    Records P (Pattern.record edges way) plain trail := by
  intro log
  obtain ⟨calls, hcalls, hP⟩ := hway log
  refine ⟨calls ++ [⟨edges, trail, (plain.run trail).1, (plain.run trail).2⟩], ?_,
    List.forall_mem_append.mpr ⟨hP, List.forall_mem_singleton.mpr hcall⟩⟩
  rw [run_record, hcalls, ← List.append_assoc]

end Records

/-! ### One call -/

/-- What a call for the edge and others after it does to the trail before it calls for those
others. -/
inductive Onward (view : View) (pattern : Pattern) (edge : PatternEdge) (trail : Trail) :
    Trail → Prop
  | passOver (hgovernor : trail.isAside edge.governor = true) :
      Onward view pattern edge trail (trail.setAside edge.dependent)
  | follow {governor : Nat} {arc : Arc} (hgovernor : trail.node? edge.governor = some governor)
      (harc : arc ∈ view.outgoing governor) (hfits : fits view pattern trail edge arc = true) :
      Onward view pattern edge trail (trail.follow edge arc)
  | giveUp {governor : Nat} (hgovernor : trail.node? edge.governor = some governor)
      (hoptional : edge.optional = true) :
      Onward view pattern edge trail (trail.giveUp edge.dependent)

theorem records_getPast {P : Call → Prop} {edge : PatternEdge} {edges : List PatternEdge}
    {trail : Trail} {further : StateT Trail Recorded Bool}
    (hfurther : ∀ next, Onward view pattern edge trail next →
      Records P further (extend view pattern edges) next) :
    Records P (getPast view pattern edge further)
      (getPast view pattern edge (extend view pattern edges)) trail := by
  refine Records.get_bind ?_
  by_cases haside : trail.isAside edge.governor
  · simp only [if_pos haside]
    exact .attempt (hfurther _ (.passOver haside))
  · simp only [if_neg haside]
    cases hgovernor : trail.node? edge.governor with
    | none => exact .pure false
    | some governor =>
        -- No arc that leads nowhere leaves a trace, so all are tried from the same trail.
        have hplain (arc : Arc) : (attempt do
            modify (·.follow edge arc); extend view pattern edges).run trail =
              ended trail (through? view pattern edges (trail.follow edge arc)) :=
          run_attempt (run_extend view pattern edges _) (trail.rewind_follow edge arc)
        have hrecorded : ∀ arc ∈ (view.outgoing governor).filter (fits view pattern trail edge),
            Records P (attempt do modify (·.follow edge arc); further)
              (attempt do modify (·.follow edge arc); extend view pattern edges) trail := by
          intro arc harc
          obtain ⟨harc, hfits⟩ := List.mem_filter.mp harc
          exact .attempt (hfurther _ (.follow hgovernor harc hfits))
        refine (Records.anyM hrecorded hplain).bind ?_
        rw [run_anyM hplain]
        cases List.findSome? _ _ with
        | some last => exact .pure true
        | none =>
            cases hoptional : edge.optional with
            | true => exact .attempt (hfurther _ (.giveUp hgovernor hoptional))
            | false => exact .pure false

/-! ### All calls -/

/-- Kept by what each call does to the trail before it calls for the edges after its own. -/
def Kept (view : View) (pattern : Pattern) (I : List PatternEdge → Trail → Prop) : Prop :=
  ∀ edge edges trail next, I (edge :: edges) trail → Onward view pattern edge trail next →
    I edges next

variable {I : List PatternEdge → Trail → Prop} {edges : List PatternEdge} {trail : Trail}

/-- The recorded search does what the search does. Each of its calls is one of the search, and is
entered with the invariant. -/
theorem records_extendRecorded (hkept : Kept view pattern I) (hinv : I edges trail) :
    Records (fun call => I call.edges call.before ∧
        (extend view pattern call.edges).run call.before = (call.found, call.after))
      (extendRecorded view pattern edges) (extend view pattern edges) trail := by
  -- On the edges that remain. The property speaks of the plain search, so that what one call says
  -- of itself does not hang on what the record says of the calls within it.
  induction edges generalizing trail with
  | nil => exact .record (.pure true) ⟨hinv, rfl⟩
  | cons edge edges ih =>
      refine .record (records_getPast fun next honward => ?_) ⟨hinv, rfl⟩
      exact ih (hkept edge edges trail next hinv honward)

theorem Kept.of_through? (hkept : Kept view pattern I) (hinv : I edges trail) {last : Trail}
    (h : through? view pattern edges trail = some last) : I [] last := by
  induction edges generalizing trail with
  | nil =>
      cases h
      exact hinv
  | cons edge edges ih =>
      have hnext {next : Trail} (honward : Onward view pattern edge trail next)
          (h : through? view pattern edges next = some last) : I [] last :=
        ih (hkept edge edges trail next hinv honward) h
      rw [through?] at h
      split at h
      · next haside => exact hnext (.passOver haside) h
      · split at h
        · cases h
        · next governor hgovernor =>
          simp only [Option.orElse_eq_orElse, Option.orElse_eq_or, Option.or_eq_some_iff] at h
          rcases h with hfollow | ⟨-, hgiveUp⟩
          · obtain ⟨arc, harc, hthrough⟩ := List.exists_of_findSome?_eq_some hfollow
            obtain ⟨harc, hfits⟩ := List.mem_filter.mp harc
            exact hnext (.follow hgovernor harc hfits) hthrough
          · split at hgiveUp
            · next hoptional => exact hnext (.giveUp hgovernor hoptional) hgiveUp
            · cases hgiveUp

theorem adds_findRecorded? (hkept : Kept view pattern I)
    (hstart : ∀ index, I pattern.edges { bindings := [(pattern.anchor.name, index)] }) :
    Adds (fun call => I call.edges call.before ∧
        (extend view pattern call.edges).run call.before = (call.found, call.after))
      (pattern.findRecorded? view) (pattern.find? view) := by
  refine .findSomeM? fun index => ?_
  rw [matchAtRecorded?, matchAt?]
  split
  · exact .bind (records_extendRecorded hkept (hstart index)) (.pure _)
  · exact .pure none

/-- What holds when the search starts, and is kept by what a call does to the trail, holds whenever
a call is entered. -/
theorem forall_calls (hkept : Kept view pattern I)
    (hstart : ∀ index, I pattern.edges { bindings := [(pattern.anchor.name, index)] }) :
    ∀ call ∈ pattern.calls view, I call.edges call.before ∧
      (extend view pattern call.edges).run call.before = (call.found, call.after) := by
  obtain ⟨calls, hcalls, hP⟩ := adds_findRecorded? hkept hstart []
  rw [Pattern.calls, hcalls]
  exact hP

theorem run_findRecorded? (pattern : Pattern) (view : View) :
    (pattern.findRecorded? view).run [] = (pattern.find? view, pattern.calls view) := by
  have hkept : Kept view pattern fun _ _ => True := fun _ _ _ _ _ _ => trivial
  obtain ⟨calls, hcalls, -⟩ := adds_findRecorded? hkept (fun _ => trivial) []
  rw [Pattern.calls, hcalls]

end Pattern

/-! ### The names on a trail -/

namespace Trail

variable (trail : Trail) (name : String)

def names : List String := trail.bindings.map Prod.fst ++ trail.aside

theorem names_giveUp_subset : (trail.giveUp name).names ⊆ name :: trail.names := by
  intro other hother
  unfold giveUp at hother
  split at hother
  · exact List.mem_cons_of_mem _ hother
  · simp only [names, List.mem_append, List.mem_cons] at hother ⊢
    tauto

theorem names_setAside_subset : (trail.setAside name).names ⊆ name :: trail.names := by
  rcases trail.setAside_eq_or name with h | h
  · exact h.symm ▸ List.subset_cons_self name trail.names
  · exact h.symm ▸ trail.names_giveUp_subset name

theorem names_follow_subset (edge : PatternEdge) (arc : Arc) :
    (trail.follow edge arc).names ⊆ edge.dependent :: trail.names := by
  intro other hother
  simp only [names, follow] at hother ⊢
  split at hother
  · exact List.mem_cons_of_mem _ hother
  · simp only [List.map_append, List.map_cons, List.map_nil, List.mem_append,
      List.mem_cons] at hother ⊢
    tauto

end Trail

namespace Pattern

variable {view : View} {pattern : Pattern}

/-! ### Accepted patterns -/

/-- How an accepted pattern's search stands when a call is entered: the trail holds declared names
only, and the walk along the edges that remain starts from names that have been decided on. -/
structure Settled (pattern : Pattern) (edges : List PatternEdge) (trail : Trail) : Prop where
  names_declared : trail.names ⊆ pattern.nodes.map PatternNode.name
  dependents_declared : ∀ edge ∈ edges, edge.dependent ∈ pattern.nodes.map PatternNode.name
  governors_decided : ∃ reached, Governed reached edges ∧ trail.Decided reached

theorem Settled.start (hpattern : pattern.WellDeclared) (index : Nat) :
    pattern.Settled pattern.edges { bindings := [(pattern.anchor.name, index)] } where
  names_declared := by simp [Trail.names, nodes]
  dependents_declared := hpattern.dependent_declared
  governors_decided := ⟨_, hpattern.governed, decided_start pattern index⟩

theorem Settled.onward {edge : PatternEdge} {edges : List PatternEdge} {trail next : Trail}
    (h : pattern.Settled (edge :: edges) trail) (hnext : Onward view pattern edge trail next) :
    pattern.Settled edges next := by
  obtain ⟨hnames, hdependents, reached, ⟨hgovernor, hgoverned⟩, hdecided⟩ := h
  obtain ⟨hdependent, hdependents⟩ := List.forall_mem_cons.mp hdependents
  have hmore : edge.dependent :: trail.names ⊆ pattern.nodes.map PatternNode.name :=
    List.cons_subset.mpr ⟨hdependent, hnames⟩
  cases hnext with
  | passOver _ =>
      exact ⟨List.Subset.trans (trail.names_setAside_subset _) hmore, hdependents, _, hgoverned,
        hdecided.setAside edge.dependent⟩
  | follow _ _ _ =>
      exact ⟨List.Subset.trans (trail.names_follow_subset edge _) hmore, hdependents, _, hgoverned,
        hdecided.follow edge _⟩
  | giveUp _ _ =>
      exact ⟨List.Subset.trans (trail.names_giveUp_subset _) hmore, hdependents, _, hgoverned,
        hdecided.giveUp edge.dependent⟩

theorem kept_settled : Kept view pattern pattern.Settled :=
  fun _ _ _ _ hsettled hnext => hsettled.onward hnext

theorem Settled.governor {edge : PatternEdge} {edges : List PatternEdge} {trail : Trail}
    (h : pattern.Settled (edge :: edges) trail) :
    (trail.node? edge.governor).isSome = true ∨ trail.isAside edge.governor = true := by
  obtain ⟨reached, ⟨hgovernor, -⟩, hdecided⟩ := h.governors_decided
  cases hnode : trail.node? edge.governor with
  | some index => exact .inl rfl
  | none => exact .inr (hdecided.isAside_of_lookup_eq_none hgovernor hnode)

/-- A call ends at the end of the first way through its edges or, if there is none, where it
began. -/
theorem end_of_run_extend {edges : List PatternEdge} {before after : Trail} {found : Bool}
    (h : (extend view pattern edges).run before = (found, after)) :
    (found = true ∧ through? view pattern edges before = some after) ∨
      (found = false ∧ after = before) := by
  rw [run_extend] at h
  cases hthrough : through? view pattern edges before with
  | some last =>
      rw [hthrough] at h
      obtain ⟨hfound, rfl⟩ := Prod.mk.inj h
      exact .inl ⟨hfound.symm, rfl⟩
  | none =>
      rw [hthrough] at h
      obtain ⟨hfound, hafter⟩ := Prod.mk.inj h
      exact .inr ⟨hfound.symm, hafter.symm⟩

/-- In the search for a pattern that is accepted, in any view, each call finds the governor of its
edge bound or set aside, all names on its trail are declared, when it is entered and when it
returns, and if it gets nowhere it leaves the trail as it found it. The calls are those of the
search: written down they change nothing, and each ends as the search from there does. -/
theorem calls_settled_of_declare {name : String} {declarations : List Declaration}
    (hdeclare : declare name declarations = .ok pattern) (view : View) :
    (pattern.findRecorded? view).run [] = (pattern.find? view, pattern.calls view) ∧
      ∀ call ∈ pattern.calls view,
        (extend view pattern call.edges).run call.before = (call.found, call.after) ∧
          (∀ edge ∈ call.edges.head?, (call.before.node? edge.governor).isSome = true ∨
            call.before.isAside edge.governor = true) ∧
          (∀ trail ∈ [call.before, call.after], ∀ name ∈ trail.names,
            ∃ node ∈ pattern.nodes, node.name = name) ∧
          (call.found = false → call.after = call.before) := by
  refine ⟨run_findRecorded? pattern view, fun call hcall => ?_⟩
  have hpattern := wellDeclared_of_declare hdeclare
  obtain ⟨hsettled, hrun⟩ := forall_calls kept_settled (Settled.start hpattern) call hcall
  refine ⟨hrun, ?_, ?_, ?_⟩
  · intro edge hedge
    obtain ⟨edges, hedges⟩ := List.head?_eq_some_iff.mp hedge
    rw [hedges] at hsettled
    exact hsettled.governor
  · have hafter : call.after.names ⊆ pattern.nodes.map PatternNode.name := by
      rcases end_of_run_extend hrun with ⟨-, hthrough⟩ | ⟨-, hafter⟩
      · exact (kept_settled.of_through? hsettled hthrough).names_declared
      · exact hafter ▸ hsettled.names_declared
    have hdeclared (trail : Trail) (htrail : trail ∈ [call.before, call.after]) :
        trail.names ⊆ pattern.nodes.map PatternNode.name := by
      rcases List.mem_pair.mp htrail with rfl | rfl
      · exact hsettled.names_declared
      · exact hafter
    exact fun trail htrail name hname => List.mem_map.mp (hdeclared trail htrail hname)
  · intro hfound
    rcases end_of_run_extend hrun with ⟨htrue, -⟩ | ⟨-, hafter⟩
    · exact absurd (htrue.symm.trans hfound) (by decide)
    · exact hafter

/-- Where the verb is sought at the cake first, a call gets nowhere after it has set the mark
aside. -/
theorem calls_settled_eatsCake :
    declare "verb and noun" verbAndNoun = .ok verbAndNounPattern ∧
      ∃ call ∈ verbAndNounPattern.calls { eatsCake with indices := [2, 1] },
        call.found = false ∧ call.before.aside = ["noun", "mark"] ∧ call.after = call.before := by
  have hdeclare : declare "verb and noun" verbAndNoun = .ok verbAndNounPattern := by decide
  have hcall : ∃ call ∈ verbAndNounPattern.calls { eatsCake with indices := [2, 1] },
      call.found = false ∧ call.before.aside = ["noun", "mark"] := by decide
  obtain ⟨call, hmem, hfound, haside⟩ := hcall
  obtain ⟨-, -, -, hafter⟩ := (calls_settled_of_declare hdeclare _).2 call hmem
  exact ⟨hdeclare, call, hmem, hfound, haside, hafter hfound⟩

end Pattern

end DepNorm
