import DepNorm.Proofs.Graph.Ends
import Mathlib.Data.List.Forall2

/-!
Edits side by side. `EditM.Agree` says of two edits, each on a graph of its own, that both end in
values or both end in faults, and what holds of the two ends. There is one rule for each way in
which edits are put together, as there is for `EditM.Ends`.
-/

namespace DepNorm.EditM

variable {α α' β β' : Type}

/-- The two edits end in values that with the graphs they leave are good, or both end in faults, and
these are bad. -/
def Agree (edit : EditM α) (edit' : EditM α') (graph graph' : Graph)
    (good : α → Graph → α' → Graph → Prop) (bad : Fault → Fault → Prop) : Prop :=
  match edit.on graph, edit'.on graph' with
  | (.ok a, next), (.ok a', next') => good a next a' next'
  | (.error fault, _), (.error fault', _) => bad fault fault'
  | _, _ => False

variable {graph graph' : Graph} {good : α → Graph → α' → Graph → Prop} {bad : Fault → Fault → Prop}

theorem Agree.of_ok {edit : EditM α} {edit' : EditM α'} {a : α} {a' : α'} {next next' : Graph}
    (hon : edit.on graph = (.ok a, next)) (hon' : edit'.on graph' = (.ok a', next'))
    (h : good a next a' next') : Agree edit edit' graph graph' good bad := by
  simpa only [Agree, hon, hon'] using h

theorem Agree.of_error {edit : EditM α} {edit' : EditM α'} {fault fault' : Fault}
    {failed failed' : Graph} (hon : edit.on graph = (.error fault, failed))
    (hon' : edit'.on graph' = (.error fault', failed')) (h : bad fault fault') :
    Agree edit edit' graph graph' good bad := by
  simpa only [Agree, hon, hon'] using h

theorem Agree.cases {edit : EditM α} {edit' : EditM α'}
    (h : Agree edit edit' graph graph' good bad) :
    (∃ a next a' next', edit.on graph = (.ok a, next) ∧ edit'.on graph' = (.ok a', next') ∧
        good a next a' next') ∨
      ∃ fault failed fault' failed', edit.on graph = (.error fault, failed) ∧
        edit'.on graph' = (.error fault', failed') ∧ bad fault fault' := by
  unfold Agree at h
  split at h
  · next hon hon' => exact .inl ⟨_, _, _, _, hon, hon', h⟩
  · next hon hon' => exact .inr ⟨_, _, _, _, hon, hon', h⟩
  · exact h.elim

theorem Agree.imp_of_on {good' : α → Graph → α' → Graph → Prop} {edit : EditM α}
    {edit' : EditM α'} (h : Agree edit edit' graph graph' good bad)
    (hgood : ∀ a next a' next', edit.on graph = (.ok a, next) →
      edit'.on graph' = (.ok a', next') → good a next a' next' → good' a next a' next') :
    Agree edit edit' graph graph' good' bad := by
  rcases h.cases with ⟨a, next, a', next', hon, hon', h⟩ | ⟨_, _, _, _, hon, hon', h⟩
  · exact .of_ok hon hon' (hgood a next a' next' hon hon' h)
  · exact .of_error hon hon' h

theorem Agree.imp {good' : α → Graph → α' → Graph → Prop} {edit : EditM α} {edit' : EditM α'}
    (h : Agree edit edit' graph graph' good bad)
    (hgood : ∀ a next a' next', good a next a' next' → good' a next a' next') :
    Agree edit edit' graph graph' good' bad :=
  h.imp_of_on fun a next a' next' _ _ => hgood a next a' next'

/-! ### How edits are put together -/

theorem Agree.pure {a : α} {a' : α'} (h : good a graph a' graph') :
    Agree (Pure.pure a) (Pure.pure a') graph graph' good bad := h

theorem Agree.throw {fault fault' : Fault} (h : bad fault fault') :
    Agree (MonadExcept.throw fault) (MonadExcept.throw fault') graph graph' good bad := h

theorem Agree.lift_bind {outcome outcome' : Except Fault PUnit} (hok : outcome = .ok ⟨⟩)
    (hok' : outcome' = .ok ⟨⟩) {next : PUnit → EditM α} {next' : PUnit → EditM α'}
    (h : Agree (next ⟨⟩) (next' ⟨⟩) graph graph' good bad) :
    Agree ((liftM outcome : EditM PUnit) >>= next) ((liftM outcome' : EditM PUnit) >>= next')
      graph graph' good bad := by
  subst hok hok'
  exact h

theorem Agree.get_bind {next : Graph → EditM α} {next' : Graph → EditM α'}
    (h : Agree (next graph) (next' graph') graph graph' good bad) :
    Agree (get >>= next) (get >>= next') graph graph' good bad := h

theorem Agree.bind {edit : EditM β} {edit' : EditM β'} {next : β → EditM α} {next' : β' → EditM α'}
    (h : Agree edit edit' graph graph'
      (fun b changed b' changed' => Agree (next b) (next' b') changed changed' good bad) bad) :
    Agree (edit >>= next) (edit' >>= next') graph graph' good bad := by
  rcases h.cases with ⟨_, _, _, _, hon, hon', h⟩ | ⟨_, _, _, _, hon, hon', h⟩
  · simpa only [Agree, on_bind, hon, hon'] using h
  · simpa only [Agree, on_bind, hon, hon'] using h

theorem Agree.discard {edit : EditM β} {edit' : EditM β'}
    {good : Unit → Graph → Unit → Graph → Prop}
    (h : Agree edit edit' graph graph' (fun _ next _ next' => good () next () next') bad) :
    Agree (discard edit) (Functor.discard edit') graph graph' good bad := by
  have hbind {β : Type} (edit : EditM β) :
      (Functor.discard edit : EditM Unit) = edit >>= fun _ => Pure.pure () := rfl
  rw [hbind, hbind]
  exact .bind h

/-- Going through two lists of related items, edits keep a relation of graphs and give related
values. -/
theorem Agree.mapM {edit : β → EditM α} {edit' : β' → EditM α'} (item : β → β' → Prop)
    (value : α → α' → Prop) (rel : Graph → Graph → Prop)
    (hstep : ∀ b b' graph graph', item b b' → rel graph graph' →
      Agree (edit b) (edit' b') graph graph'
        (fun a next a' next' => value a a' ∧ rel next next') bad)
    {items : List β} {items' : List β'} (hitems : List.Forall₂ item items items')
    (h : rel graph graph') :
    Agree (items.mapM edit) (items'.mapM edit') graph graph'
      (fun values next values' next' => List.Forall₂ value values values' ∧ rel next next')
      bad := by
  induction hitems generalizing graph graph' with
  | nil =>
      rw [List.mapM_nil, List.mapM_nil]
      exact .pure ⟨.nil, h⟩
  | @cons b b' items items' hitem _ ih =>
      rw [List.mapM_cons, List.mapM_cons]
      refine .bind ((hstep b b' graph graph' hitem h).imp ?_)
      rintro a next a' next' ⟨hvalue, hnext⟩
      refine .bind ((ih hnext).imp ?_)
      rintro values last values' last' ⟨hvalues, hlast⟩
      exact .pure ⟨.cons hvalue hvalues, hlast⟩

theorem Agree.forM {edit : β → EditM PUnit} {edit' : β' → EditM PUnit} (item : β → β' → Prop)
    (rel : Graph → Graph → Prop)
    (hstep : ∀ b b' graph graph', item b b' → rel graph graph' →
      Agree (edit b) (edit' b') graph graph' (fun _ next _ next' => rel next next') bad)
    {items : List β} {items' : List β'} (hitems : List.Forall₂ item items items')
    (h : rel graph graph') :
    Agree (items.forM edit) (items'.forM edit') graph graph' (fun _ next _ next' => rel next next')
      bad := by
  rw [List.forM_eq_forM, List.forM_eq_forM]
  induction hitems generalizing graph graph' with
  | nil => exact .pure h
  | @cons b b' items items' hitem _ ih =>
      rw [List.forM_cons, List.forM_cons]
      exact .bind ((hstep b b' graph graph' hitem h).imp fun _ _ _ _ hnext => ih hnext)

end DepNorm.EditM
