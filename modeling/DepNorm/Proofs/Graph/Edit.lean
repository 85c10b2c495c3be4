import DepNorm.Normalize
import DepNorm.Proofs.Graph.Step

/-!
Edits as sequences of elementary changes. `EditM.Within` says that an edit, whether it succeeds or
fails on the way, only moves a graph along a given relation; it is closed under everything that
edits are built from, and each of the four rules is shown to be `Within` the relation `Steps`.
-/

namespace DepNorm

namespace EditM

variable {α β : Type}

/-! ### Running an edit -/

theorem on_get_bind (next : Graph → EditM α) (graph : Graph) :
    (get >>= next : EditM α).on graph = (next graph).on graph := rfl

theorem on_bind (edit : EditM α) (next : α → EditM β) (graph : Graph) :
    (edit >>= next).on graph =
      match edit.on graph with
      | (.ok a, changed) => (next a).on changed
      | (.error fault, changed) => (.error fault, changed) := by
  simp only [on, ExceptT.run_bind, StateT.run_bind]
  rcases h : StateT.run edit.run graph with ⟨_ | _, changed⟩ <;> rfl

theorem exists_of_on_bind_eq_ok {edit : EditM α} {next : α → EditM β} {graph last : Graph} {b : β}
    (h : (edit >>= next).on graph = (.ok b, last)) :
    ∃ a mid, edit.on graph = (.ok a, mid) ∧ (next a).on mid = (.ok b, last) := by
  rw [on_bind] at h
  split at h
  · next a mid hon => exact ⟨a, mid, hon, h⟩
  · cases h

theorem on_lift (outcome : Except Fault α) (graph : Graph) :
    (liftM outcome : EditM α).on graph = (outcome, graph) := by
  cases outcome <;> rfl

theorem on_discard (edit : EditM α) (graph : Graph) :
    (discard edit).on graph = ((edit.on graph).1.map fun _ => (), (edit.on graph).2) := by
  have hbind : (discard edit : EditM Unit) = edit >>= fun _ => pure () := rfl
  rw [hbind, on_bind]
  rcases edit.on graph with ⟨_ | _, changed⟩ <;> rfl

theorem exists_of_on_discard_eq_ok {edit : EditM α} {graph last : Graph} {outcome : Unit}
    (h : (discard edit).on graph = (.ok outcome, last)) : ∃ a, edit.on graph = (.ok a, last) := by
  rw [on_discard] at h
  rcases hon : edit.on graph with ⟨fault | a, changed⟩
  · rw [hon] at h
    cases h
  · rw [hon] at h
    cases h
    exact ⟨a, rfl⟩

theorem on_takeEdge (rule : Rule) (key : EdgeKey) (graph : Graph) :
    (takeEdge rule key).on graph =
      match graph.takeEdge? key with
      | some (edge, rest) => (.ok edge, rest)
      | none => (.error (.missingEdge rule key), graph) := by
  simp only [takeEdge, on_get_bind]
  cases graph.takeEdge? key <;> rfl

theorem on_takeToken (rule : Rule) (index : Nat) (graph : Graph) :
    (takeToken rule index).on graph =
      match graph.takeToken? index with
      | some (token, rest) => (.ok token, rest)
      | none => (.error (.missingToken rule index), graph) := by
  simp only [takeToken, on_get_bind]
  cases graph.takeToken? index <;> rfl

theorem on_putEdge (edge : Edge) (graph : Graph) :
    (putEdge edge).on graph =
      match graph.addEdge edge with
      | .ok (_, next) => (.ok (), next)
      | .error fault => (.error fault, graph) := by
  simp only [putEdge, on_get_bind]
  cases graph.addEdge edge <;> rfl

theorem on_moveRoot (old new : Nat) (graph : Graph) :
    (moveRoot old new).on graph =
      match (graph.eraseRoot old).addRoot new with
      | .ok next => (.ok (), next)
      | .error fault => (.error fault, graph.eraseRoot old) := by
  have hrun : (moveRoot old new).on graph =
      (((graph.eraseRoot old).addRoot new : Except Fault Graph) >>= set : EditM Unit).on
        (graph.eraseRoot old) := rfl
  rw [hrun]
  cases (graph.eraseRoot old).addRoot new <;> rfl

/-! ### Edits that move a graph along a relation -/

/-- Whatever becomes of the edit, the graph that it leaves is related to the one it began with. -/
def Within (R : Graph → Graph → Prop) (edit : EditM α) : Prop :=
  ∀ graph, R graph (edit.on graph).2

variable {R : Graph → Graph → Prop}

theorem Within.pure [Std.Refl R] (a : α) : Within R (Pure.pure a : EditM α) :=
  fun graph => refl_of R graph

theorem Within.get_bind {next : Graph → EditM α} (h : ∀ graph, Within R (next graph)) :
    Within R (get >>= next) := by
  intro graph
  rw [on_get_bind]
  exact h graph graph

theorem Within.bind [IsTrans Graph R] {edit : EditM α} {next : α → EditM β} (h : Within R edit)
    (hnext : ∀ a, Within R (next a)) : Within R (edit >>= next) := by
  intro graph
  have hfirst := h graph
  rw [on_bind]
  rcases hon : edit.on graph with ⟨fault | a, changed⟩
  · rw [hon] at hfirst
    exact hfirst
  · rw [hon] at hfirst
    exact trans_of R hfirst (hnext a changed)

theorem Within.discard {edit : EditM α} (h : Within R edit) :
    Within R (Functor.discard edit) := by
  intro graph
  rw [on_discard]
  exact h graph

theorem Within.mapM [IsPreorder Graph R] {edit : α → EditM β} (h : ∀ a, Within R (edit a))
    (items : List α) : Within R (items.mapM edit) := by
  induction items with
  | nil => exact .pure _
  | cons a items ih =>
      rw [List.mapM_cons]
      exact (h a).bind fun _ => ih.bind fun _ => .pure _

theorem Within.forM [IsPreorder Graph R] {edit : α → EditM PUnit} (h : ∀ a, Within R (edit a))
    (items : List α) : Within R (items.forM edit) := by
  rw [List.forM_eq_forM]
  induction items with
  | nil => exact .pure _
  | cons a items ih =>
      rw [List.forM_cons]
      exact (h a).bind fun _ => ih

end EditM

open EditM

/-! ### The steps that edits take -/

namespace Graph

theorem Steps.takeNumbered? {graph rest : Graph} {number : Nat} {edge : Edge}
    (h : graph.takeNumbered? number = some (edge, rest)) : Steps graph rest := by
  obtain ⟨edge, -, heq⟩ := Option.map_eq_some_iff.mp h
  obtain ⟨-, rfl⟩ := Prod.mk.inj heq
  exact .single (.eraseEdge graph number)

theorem Steps.takeEdge? {graph rest : Graph} {key : EdgeKey} {edge : Edge}
    (h : graph.takeEdge? key = some (edge, rest)) : Steps graph rest := by
  obtain ⟨number, -, htake⟩ := Option.bind_eq_some_iff.mp h
  exact Steps.takeNumbered? htake

theorem Steps.takeToken? {graph rest : Graph} {index : Nat} {token : Token}
    (h : graph.takeToken? index = some (token, rest)) : Steps graph rest := by
  obtain ⟨token, -, heq⟩ := Option.map_eq_some_iff.mp h
  obtain ⟨-, rfl⟩ := Prod.mk.inj heq
  exact .single (.eraseToken graph index)

theorem Steps.addRoot {graph next : Graph} {index : Nat} (h : graph.addRoot index = .ok next) :
    Steps graph next := by
  unfold Graph.addRoot at h
  split at h
  · next hindex =>
    cases h
    exact .single (.markRoot hindex)
  · cases h

end Graph

namespace EditM

theorem within_takeEdge (rule : Rule) (key : EdgeKey) : Within Graph.Steps (takeEdge rule key) := by
  intro graph
  rw [on_takeEdge]
  split
  · next edge rest htake => exact Graph.Steps.takeEdge? htake
  · exact .refl

theorem within_takeToken (rule : Rule) (index : Nat) :
    Within Graph.Steps (takeToken rule index) := by
  intro graph
  rw [on_takeToken]
  split
  · next token rest htake => exact Graph.Steps.takeToken? htake
  · exact .refl

theorem within_putEdge (edge : Edge) : Within Graph.Steps (putEdge edge) := by
  intro graph
  rw [on_putEdge]
  split
  · next number next hadd => exact .single (.addEdge hadd)
  · exact .refl

theorem within_moveRoot (old new : Nat) : Within Graph.Steps (moveRoot old new) := by
  intro graph
  rw [on_moveRoot]
  split
  · next next hadd => exact .head (.eraseRoot graph old) (Graph.Steps.addRoot hadd)
  · -- The old root is gone even if the new one cannot be marked.
    exact .single (.eraseRoot graph old)

end EditM

/-! ### The four rules -/

namespace Splice

theorem within_lowerQuantity (relation : String) (verb quantity object : Nat) :
    Within Graph.Steps (lowerQuantity relation verb quantity object) := by
  unfold lowerQuantity
  refine (within_takeEdge _ _).discard.bind fun _ => ?_
  refine (within_takeEdge _ _).discard.bind fun _ => ?_
  exact (within_putEdge _).bind fun _ => within_putEdge _

theorem within_lowerFirst (pattern : Pattern) (quantity relation : String) :
    Within Graph.Steps (lowerFirst pattern quantity relation) := by
  unfold lowerFirst
  refine Within.get_bind fun graph => ?_
  repeat' split
  all_goals first
    | exact .pure _
    | exact (within_lowerQuantity _ _ _ _).bind fun _ => .pure _

theorem within_onesToDeterminers : Within Graph.Steps onesToDeterminers := by
  unfold onesToDeterminers
  refine Within.get_bind fun graph => ?_
  refine (Within.mapM (within_takeEdge _) _).bind fun numerals => ?_
  refine (Within.forM (fun edge => within_putEdge _) numerals).bind fun _ => ?_
  exact .pure _

theorem within_quantity : Within Graph.Steps quantity := by
  unfold quantity
  refine (within_lowerFirst _ _ _).bind fun lots => ?_
  refine (within_lowerFirst _ _ _).bind fun numerals => ?_
  exact within_onesToDeterminers.bind fun ones => .pure _

theorem within_replaceRoot (root : Nat) : Within Graph.Steps (replaceRoot root) := by
  unfold replaceRoot
  refine Within.get_bind fun graph => ?_
  split
  · split
    · refine (within_takeEdge _ _).discard.bind fun _ => ?_
      refine (within_moveRoot _ _).bind fun _ => ?_
      exact (within_putEdge _).bind fun _ => .pure _
    · exact .pure _
  · exact .pure _

theorem within_operatorRoot : Within Graph.Steps operatorRoot := by
  unfold operatorRoot
  refine Within.get_bind fun graph => ?_
  exact (Within.mapM within_replaceRoot _).bind fun _ => .pure _

theorem within_toDeterminer (key : EdgeKey) : Within Graph.Steps (toDeterminer key) :=
  (within_takeEdge _ _).bind fun _ => within_putEdge _

theorem within_allToDeterminer (index : Nat) : Within Graph.Steps (allToDeterminer index) := by
  unfold allToDeterminer
  refine Within.get_bind fun graph => ?_
  exact (Within.forM within_toDeterminer _).bind fun _ => .pure _

theorem within_determiner : Within Graph.Steps determiner := by
  unfold determiner
  refine Within.get_bind fun graph => ?_
  refine (Within.forM (fun _ => (within_takeToken _ _).discard) _).bind fun _ => ?_
  refine Within.get_bind fun graph => ?_
  exact (Within.mapM within_allToDeterminer _).bind fun _ => .pure _

theorem within_detach (number : Nat) : Within Graph.Steps (detach number) := by
  intro graph
  simp only [detach, on_get_bind]
  cases htake : graph.takeNumbered? number with
  | some taken => exact Graph.Steps.takeNumbered? htake
  | none => exact .refl

theorem within_detachAll (index : Nat) : Within Graph.Steps (detachAll index) := by
  unfold detachAll
  refine Within.get_bind fun graph => ?_
  exact (Within.mapM within_detach _).bind fun _ => .pure _

theorem within_collapse (root verb preposition object : Nat) (relation : String) :
    Within Graph.Steps (collapse root verb preposition object relation) := by
  unfold collapse
  refine (within_takeEdge _ _).discard.bind fun _ => ?_
  refine (within_takeEdge _ _).discard.bind fun _ => ?_
  refine (within_takeEdge _ _).discard.bind fun _ => ?_
  refine (within_takeToken _ _).bind fun token => ?_
  refine (within_detachAll _).bind fun detached => ?_
  refine (within_putEdge _).bind fun _ => ?_
  refine (within_putEdge _).bind fun _ => ?_
  exact Within.forM (fun _ => within_putEdge _) _

theorem within_clause : Within Graph.Steps clause := by
  unfold clause
  refine Within.get_bind fun graph => ?_
  repeat' split
  all_goals first
    | exact .pure _
    | exact (within_collapse _ _ _ _ _).bind fun _ => .pure _

end Splice

end DepNorm
