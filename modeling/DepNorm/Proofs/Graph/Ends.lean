import DepNorm.Proofs.Graph.Keys
import Mathlib.Tactic.Tauto

/-!
How edits end. `EditM.Ends` says of an edit on a graph what holds if it ends in a value and what
holds if it ends in a fault, each time of the graph that it leaves as well. There is one rule for
each way in which edits are put together, and one for each elementary edit of a well-formed graph.
-/

namespace DepNorm.EditM

variable {α β : Type}

/-- On the graph, the edit ends in a value and a graph that are good, or else in a fault and a graph
that are bad. -/
def Ends (edit : EditM α) (graph : Graph) (good : α → Graph → Prop)
    (bad : Fault → Graph → Prop) : Prop :=
  match edit.on graph with
  | (.ok a, next) => good a next
  | (.error fault, failed) => bad fault failed

variable {graph : Graph} {good : α → Graph → Prop} {bad : Fault → Graph → Prop}

theorem Ends.of_on_eq_ok {edit : EditM α} (h : Ends edit graph good bad) {a : α} {next : Graph}
    (hon : edit.on graph = (.ok a, next)) : good a next := by
  simpa only [Ends, hon] using h

theorem Ends.of_on_eq_error {edit : EditM α} (h : Ends edit graph good bad) {fault : Fault}
    {failed : Graph} (hon : edit.on graph = (.error fault, failed)) : bad fault failed := by
  simpa only [Ends, hon] using h

theorem Ends.exists_ok {edit : EditM α} (h : Ends edit graph good fun _ _ => False) :
    ∃ a next, edit.on graph = (.ok a, next) ∧ good a next := by
  rcases hon : edit.on graph with ⟨fault | a, next⟩
  · exact (h.of_on_eq_error hon).elim
  · exact ⟨a, next, rfl, h.of_on_eq_ok hon⟩

theorem Ends.imp {good' : α → Graph → Prop} {bad' : Fault → Graph → Prop} {edit : EditM α}
    (h : Ends edit graph good bad) (hgood : ∀ a next, good a next → good' a next)
    (hbad : ∀ fault failed, bad fault failed → bad' fault failed) :
    Ends edit graph good' bad' := by
  unfold Ends at h ⊢
  split
  · next hon => exact hgood _ _ (by simpa only [hon] using h)
  · next hon => exact hbad _ _ (by simpa only [hon] using h)

/-! ### How edits are put together -/

theorem Ends.pure {a : α} (h : good a graph) : Ends (Pure.pure a) graph good bad := h

theorem Ends.throw {fault : Fault} (h : bad fault graph) :
    Ends (MonadExcept.throw fault) graph good bad := h

theorem Ends.lift_bind {outcome : Except Fault β} {b : β} (hok : outcome = .ok b)
    {next : β → EditM α} (h : Ends (next b) graph good bad) :
    Ends ((liftM outcome : EditM β) >>= next) graph good bad := by
  subst hok
  exact h

theorem Ends.get_bind {next : Graph → EditM α} (h : Ends (next graph) graph good bad) :
    Ends (get >>= next) graph good bad := h

theorem Ends.bind {edit : EditM β} {next : β → EditM α}
    (h : Ends edit graph (fun b changed => Ends (next b) changed good bad) bad) :
    Ends (edit >>= next) graph good bad := by
  unfold Ends at h ⊢
  rw [on_bind]
  split at h
  · next hon => simpa only [hon] using h
  · next hon => simpa only [hon] using h

theorem Ends.discard {edit : EditM β} {good : Unit → Graph → Prop}
    (h : Ends edit graph (fun _ => good ()) bad) : Ends (discard edit) graph good bad := by
  have hbind : (Functor.discard edit : EditM Unit) = edit >>= fun _ => Pure.pure () := rfl
  rw [hbind]
  exact .bind h

theorem Ends.mapM_append {edit : β → EditM α} {inv : List β → List α → Graph → Prop}
    (hstep : ∀ b rest values changed, inv (b :: rest) values changed →
      Ends (edit b) changed (fun a next => inv rest (values ++ [a]) next) bad)
    {items : List β} {values : List α} (h : inv items values graph) :
    Ends (items.mapM edit) graph (fun more next => inv [] (values ++ more) next) bad := by
  induction items generalizing values graph with
  | nil =>
      rw [List.mapM_nil]
      refine .pure ?_
      rwa [List.append_nil]
  | cons b items ih =>
      rw [List.mapM_cons]
      refine .bind ((hstep b items values graph h).imp (fun a next hnext => ?_) fun _ _ => id)
      refine .bind ((ih hnext).imp (fun more last hlast => ?_) fun _ _ => id)
      refine .pure ?_
      rwa [List.append_assoc, List.singleton_append] at hlast

/-- Going through a list, an edit keeps an invariant of the items that are left, the values so far
and the graph. -/
theorem Ends.mapM {edit : β → EditM α} (inv : List β → List α → Graph → Prop)
    (hstep : ∀ b rest values changed, inv (b :: rest) values changed →
      Ends (edit b) changed (fun a next => inv rest (values ++ [a]) next) bad)
    {items : List β} (h : inv items [] graph) :
    Ends (items.mapM edit) graph (fun values next => inv [] values next) bad :=
  Ends.mapM_append hstep h

theorem Ends.forM {edit : β → EditM PUnit} (inv : List β → Graph → Prop)
    (hstep : ∀ b rest changed, inv (b :: rest) changed →
      Ends (edit b) changed (fun _ next => inv rest next) bad)
    {items : List β} (h : inv items graph) :
    Ends (items.forM edit) graph (fun _ next => inv [] next) bad := by
  rw [List.forM_eq_forM]
  induction items generalizing graph with
  | nil => exact .pure h
  | cons b items ih =>
      rw [List.forM_cons]
      exact .bind ((hstep b items graph h).imp (fun _ next hnext => ih hnext) fun _ _ => id)

/-! ### Invariants -/

/-- The edit keeps the invariant of the graph, be it that it fails, and gives a value of a kind. -/
def Keeps (inv : Graph → Prop) (kind : α → Prop) (edit : EditM α) : Prop :=
  ∀ graph, inv graph → Ends edit graph (fun a next => kind a ∧ inv next) fun _ failed => inv failed

variable {inv : Graph → Prop} {kind : α → Prop} {kind' : β → Prop}

theorem Keeps.imp {kind' : α → Prop} {edit : EditM α} (h : Keeps inv kind edit)
    (hkind : ∀ a, kind a → kind' a) : Keeps inv kind' edit :=
  fun graph hinv => (h graph hinv).imp (fun a _ ⟨ha, hnext⟩ => ⟨hkind a ha, hnext⟩) fun _ _ => id

theorem Keeps.pure {a : α} (h : kind a) : Keeps inv kind (Pure.pure a : EditM α) :=
  fun _ hinv => Ends.pure ⟨h, hinv⟩

theorem Keeps.throw {fault : Fault} : Keeps inv kind (MonadExcept.throw fault) :=
  fun _ hinv => Ends.throw hinv

theorem Keeps.lift (outcome : Except Fault α) :
    Keeps inv (fun _ => True) (liftM outcome : EditM α) := by
  cases outcome with
  | ok a => exact .pure trivial
  | error fault => exact .throw

theorem Keeps.get_bind {next : Graph → EditM α}
    (h : ∀ graph, inv graph → Keeps inv kind (next graph)) : Keeps inv kind (get >>= next) :=
  fun graph hinv => Ends.get_bind (h graph hinv graph hinv)

theorem Keeps.bind {edit : EditM β} {next : β → EditM α} (h : Keeps inv kind' edit)
    (hnext : ∀ b, kind' b → Keeps inv kind (next b)) : Keeps inv kind (edit >>= next) :=
  fun graph hinv => Ends.bind ((h graph hinv).imp
    (fun b changed ⟨hkind, hchanged⟩ => hnext b hkind changed hchanged) fun _ _ => id)

theorem Keeps.discard {edit : EditM β} (h : Keeps inv kind' edit) :
    Keeps inv (fun _ => True) (Functor.discard edit) :=
  fun graph hinv => Ends.discard ((h graph hinv).imp (fun _ _ hnext => ⟨trivial, hnext.2⟩)
    fun _ _ => id)

theorem Keeps.mapM {edit : β → EditM α} {items : List β}
    (h : ∀ item ∈ items, Keeps inv kind (edit item)) :
    Keeps inv (fun values => ∀ a ∈ values, kind a) (items.mapM edit) := by
  induction items with
  | nil => exact .pure fun _ ha => absurd ha List.not_mem_nil
  | cons item items ih =>
      obtain ⟨hitem, hitems⟩ := List.forall_mem_cons.mp h
      rw [List.mapM_cons]
      refine hitem.bind fun a ha => (ih hitems).bind fun values hvalues => .pure ?_
      exact List.forall_mem_cons.mpr ⟨ha, hvalues⟩

theorem Keeps.forM {edit : β → EditM PUnit} {items : List β}
    (h : ∀ item ∈ items, Keeps inv (fun _ => True) (edit item)) :
    Keeps inv (fun _ => True) (items.forM edit) := by
  rw [List.forM_eq_forM]
  induction items with
  | nil => exact .pure trivial
  | cons item items ih =>
      obtain ⟨hitem, hitems⟩ := List.forall_mem_cons.mp h
      rw [List.forM_cons]
      exact hitem.bind fun _ _ => ih hitems

/-! ### Elementary edits -/

theorem ends_takeEdge (h : graph.WellFormed) {rule : Rule} {key : EdgeKey}
    {good : Edge → Graph → Prop}
    (hgood : ∀ edge rest, edge ∈ graph.edges → edge.key = key →
      graph.Rekeyed (graph.keys \ {key}) rest → good edge rest)
    (hbad : key ∉ graph.keys → bad (.missingEdge rule key) graph) :
    Ends (takeEdge rule key) graph good bad := by
  unfold Ends
  rw [on_takeEdge]
  by_cases hkey : key ∈ graph.keys
  · obtain ⟨edge, rest, htake, hedge, heq, hrest⟩ := h.exists_takeEdge? hkey
    simpa only [htake] using hgood edge rest hedge heq hrest
  · have hfind : graph.find? key = none :=
      Graph.find?_eq_none_iff.mpr fun edge hedge heq => hkey ⟨edge, hedge, heq⟩
    have htake : graph.takeEdge? key = none := by simp [Graph.takeEdge?, hfind]
    simpa only [htake] using hbad hkey

theorem ends_putEdge (h : graph.WellFormed) {edge : Edge} {good : Unit → Graph → Prop}
    (hgovernor : edge.governor ∈ graph) (hdependent : edge.dependent ∈ graph)
    (hgood : ∀ next, graph.Rekeyed (insert edge.key graph.keys) next → good () next) :
    Ends (putEdge edge) graph good bad := by
  obtain ⟨number, next, hadd, hnext⟩ := h.exists_addEdge hgovernor hdependent
  simpa only [Ends, on_putEdge, hadd] using hgood next hnext

theorem ends_takeToken (h : graph.WellFormed) {rule : Rule} {index : Nat}
    {good : Token → Graph → Prop} (hindex : index ∈ graph)
    (hgood : ∀ token, graph.token? index = some token → good token (graph.eraseToken index)) :
    Ends (takeToken rule index) graph good bad := by
  obtain ⟨token, htoken⟩ := h.exists_token? hindex
  simpa only [Ends, on_takeToken, Graph.takeToken?, htoken, Option.map_some] using
    hgood token htoken

theorem ends_moveRoot {old new : Nat} {good : Unit → Graph → Prop} (hnew : new ∈ graph)
    (hgood : good () ((graph.eraseRoot old).markRoot new)) :
    Ends (moveRoot old new) graph good bad := by
  have hadd : (graph.eraseRoot old).addRoot new = .ok ((graph.eraseRoot old).markRoot new) :=
    if_pos hnew
  simpa only [Ends, on_moveRoot, hadd] using hgood

/-! ### Lists of edges -/

theorem ends_mapM_takeEdge (h : graph.WellFormed) {rule : Rule} {keys : List EdgeKey}
    {good : List Edge → Graph → Prop} (hdistinct : keys.Nodup)
    (hkeys : ∀ key ∈ keys, key ∈ graph.keys)
    (hgood : ∀ edges rest, edges.map Edge.key = keys →
      graph.Rekeyed (graph.keys \ {key | key ∈ keys}) rest → good edges rest) :
    Ends (keys.mapM (takeEdge rule)) graph good bad := by
  induction keys generalizing graph good with
  | nil =>
      rw [List.mapM_nil]
      exact .pure (hgood [] graph rfl ((Graph.Rekeyed.refl h).congr (by simp)))
  | cons key keys ih =>
      obtain ⟨hnew, hdistinct⟩ := List.nodup_cons.mp hdistinct
      obtain ⟨hkey, hkeys⟩ := List.forall_mem_cons.mp hkeys
      rw [List.mapM_cons]
      refine .bind (ends_takeEdge h (fun edge rest _ hedge hrest => ?_) fun hmissing => ?_)
      · have hstill : ∀ other ∈ keys, other ∈ rest.keys := by
          intro other hother
          rw [hrest.keys]
          exact ⟨hkeys other hother, fun heq => hnew (heq ▸ hother)⟩
        refine .bind (ih hrest.wellFormed hdistinct hstill fun edges last hedges hlast => ?_)
        refine .pure (hgood (edge :: edges) last (by rw [List.map_cons, hedge, hedges]) ?_)
        refine (hrest.trans hlast).congr ?_
        rw [hrest.keys]
        ext other
        simp [and_assoc]
      · exact absurd hkey hmissing

theorem ends_forM_putEdge (h : graph.WellFormed) {items : List β} {edge : β → Edge}
    {good : PUnit → Graph → Prop}
    (hends : ∀ item ∈ items, (edge item).governor ∈ graph ∧ (edge item).dependent ∈ graph)
    (hgood : ∀ next,
      graph.Rekeyed (graph.keys ∪ {key | ∃ item ∈ items, (edge item).key = key}) next →
        good ⟨⟩ next) :
    Ends (items.forM fun item => putEdge (edge item)) graph good bad := by
  rw [List.forM_eq_forM]
  induction items generalizing graph with
  | nil => exact .pure (hgood graph ((Graph.Rekeyed.refl h).congr (by simp)))
  | cons item items ih =>
      obtain ⟨hitem, hends⟩ := List.forall_mem_cons.mp hends
      rw [List.forM_cons]
      refine .bind (ends_putEdge h hitem.1 hitem.2 fun mid hmid => ?_)
      have hstill : ∀ other ∈ items,
          (edge other).governor ∈ mid ∧ (edge other).dependent ∈ mid := by
        intro other hother
        rw [hmid.mem_iff, hmid.mem_iff]
        exact hends other hother
      refine ih hmid.wellFormed hstill fun last hlast => hgood last ?_
      refine (hmid.trans hlast).congr ?_
      rw [hmid.keys]
      ext key
      simp only [Set.mem_union, Set.mem_insert_iff, Set.mem_ofPred_eq, List.mem_cons,
        exists_eq_or_imp, @eq_comm _ key]
      tauto

end DepNorm.EditM
