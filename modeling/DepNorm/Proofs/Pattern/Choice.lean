import DepNorm.Proofs.Pattern.Declared
import DepNorm.Proofs.Pattern.Search
import Mathlib.Data.List.Lex

/-!
A pattern as a series of choices. A series picks a listed index for the anchor and then, edge by
edge, an entry among what leaves the governor, or to skip the edge if it is optional; an edge whose
governor is not bound is passed over. `Pattern.Valid` says which series a view and a pattern allow
and what they bind, without any search, and `Pattern.First` singles out the first of them in
lexicographic order. The search finds the first valid series, and there is none if it finds none.
-/

namespace DepNorm

inductive Choice where
  /-- Its governor is not bound, so there is nothing to choose. -/
  | pass
  /-- The entry at a position among what leaves its governor. -/
  | entry (position : Nat)
  | skip
  deriving DecidableEq, Repr

/-- Entries stand in the order of their positions, and skipping comes after all of them. -/
inductive Choice.Before : Choice → Choice → Prop
  | entry {position other : Nat} (h : position < other) : Before (.entry position) (.entry other)
  | skip (position : Nat) : Before (.entry position) .skip

instance : Std.Asymm Choice.Before where
  asymm
    | _, _, .entry h, .entry h' => Nat.lt_asymm h h'

/-- Names with the indices bound to them, in the order in which they were bound. -/
abbrev Bindings := List (String × Nat)

namespace Bindings

/-- The bindings with one more at the end, unless the name is bound already. -/
def bindAtEnd (bound : Bindings) (name : String) (index : Nat) : Bindings :=
  match bound.lookup name with
  | some _ => bound
  | none => bound ++ [(name, index)]

theorem isSome_lookup_bindAtEnd (bound : Bindings) (name : String) (index : Nat) :
    ((bound.bindAtEnd name index).lookup name).isSome := by
  simp only [bindAtEnd]
  split
  · next other hlookup => rw [hlookup]; rfl
  · next hlookup => simp [List.lookup_append, hlookup]

theorem lookup_bindAtEnd_of_isSome (bound : Bindings) {name other : String} {index : Nat}
    (h : (bound.lookup other).isSome) :
    (bound.bindAtEnd name index).lookup other = bound.lookup other := by
  simp only [bindAtEnd]
  split
  · rfl
  · obtain ⟨value, hvalue⟩ := Option.isSome_iff_exists.mp h
    rw [List.lookup_append, hvalue, Option.some_or]

theorem isSome_lookup_bindAtEnd_iff {bound : Bindings} {name other : String} {index : Nat} :
    ((bound.bindAtEnd name index).lookup other).isSome ↔
      (bound.lookup other).isSome ∨ name = other := by
  by_cases heq : name = other
  · subst heq
    simp [isSome_lookup_bindAtEnd]
  · have hne : (other == name) = false := by simpa using Ne.symm heq
    simp only [bindAtEnd]
    split
    · simp [heq]
    · simp [List.lookup_append, List.lookup_cons, hne, heq]

theorem mem_bindAtEnd {bound : Bindings} {name : String} {index : Nat} {binding : String × Nat}
    (h : binding ∈ bound.bindAtEnd name index) :
    binding ∈ bound ∨ binding = (name, index) := by
  unfold bindAtEnd at h
  split at h
  · exact .inl h
  · exact (List.mem_append.mp h).imp_right List.mem_singleton.mp

theorem subset_bindAtEnd (bound : Bindings) (name : String) (index : Nat) :
    bound ⊆ bound.bindAtEnd name index := by
  unfold bindAtEnd
  split
  · exact List.Subset.refl bound
  · exact List.subset_append_left bound _

end Bindings

namespace Pattern

/-- An entry may be chosen for an edge if its relation passes and it leads to the token bound to
the edge's dependent or, if none is bound, to a token that no name has and that passes the test. -/
structure Admits (view : View) (pattern : Pattern) (bound : Bindings) (edge : PatternEdge)
    (arc : Arc) : Prop where
  relation : edge.relation.holds arc.relation = true
  dependent : bound.lookup edge.dependent = some arc.dependent ∨
    bound.lookup edge.dependent = none ∧ (∀ binding ∈ bound, binding.2 ≠ arc.dependent) ∧
      ∃ token, view.token? arc.dependent = some token ∧
        (pattern.test edge.dependent).holds token = true

/-- The choices lead through the edges from the first bindings to the last, taking the listed
entries. -/
inductive Selects (view : View) (pattern : Pattern) :
    Bindings → List PatternEdge → List Choice → List (PatternEdge × Arc) → Bindings → Prop
  | done (bound : Bindings) : Selects view pattern bound [] [] [] bound
  | pass {bound last : Bindings} {edge : PatternEdge} {edges : List PatternEdge}
      {choices : List Choice} {taken : List (PatternEdge × Arc)}
      (hgovernor : bound.lookup edge.governor = none)
      (rest : Selects view pattern bound edges choices taken last) :
      Selects view pattern bound (edge :: edges) (.pass :: choices) taken last
  | entry {bound last : Bindings} {edge : PatternEdge} {edges : List PatternEdge}
      {choices : List Choice} {taken : List (PatternEdge × Arc)} {governor position : Nat}
      {arc : Arc} (hgovernor : bound.lookup edge.governor = some governor)
      (harc : (view.outgoing governor)[position]? = some arc)
      (hadmits : Admits view pattern bound edge arc)
      (rest : Selects view pattern (bound.bindAtEnd edge.dependent arc.dependent) edges choices
        taken last) :
      Selects view pattern bound (edge :: edges) (.entry position :: choices)
        ((edge, arc) :: taken) last
  | skip {bound last : Bindings} {edge : PatternEdge} {edges : List PatternEdge}
      {choices : List Choice} {taken : List (PatternEdge × Arc)} {governor : Nat}
      (hgovernor : bound.lookup edge.governor = some governor) (hoptional : edge.optional = true)
      (rest : Selects view pattern bound edges choices taken last) :
      Selects view pattern bound (edge :: edges) (.skip :: choices) taken last

/-- A whole series: first the position of the anchor's index, then a choice for each edge. -/
inductive Valid (view : View) (pattern : Pattern) :
    List Choice → List (PatternEdge × Arc) → Bindings → Prop
  | anchor {position index : Nat} {token : Token} {choices : List Choice}
      {taken : List (PatternEdge × Arc)} {last : Bindings}
      (hindex : view.indices[position]? = some index) (htoken : view.token? index = some token)
      (htest : pattern.anchor.test.holds token = true)
      (hselects : Selects view pattern [(pattern.anchor.name, index)] pattern.edges choices taken
        last) :
      Valid view pattern (.entry position :: choices) taken last

/-- Some choices lead through the edges from the given bindings. -/
def Leads (view : View) (pattern : Pattern) (bound : Bindings) (edges : List PatternEdge) : Prop :=
  ∃ choices taken last, Selects view pattern bound edges choices taken last

/-- The choices lead through the edges, and they come before all others that do. -/
structure SelectsFirst (view : View) (pattern : Pattern) (bound : Bindings)
    (edges : List PatternEdge) (choices : List Choice) (taken : List (PatternEdge × Arc))
    (last : Bindings) : Prop where
  selects : Selects view pattern bound edges choices taken last
  least : ∀ {other taken' last'}, Selects view pattern bound edges other taken' last' →
    other = choices ∨ List.Lex Choice.Before choices other

/-- The valid series that comes before all others. -/
structure First (view : View) (pattern : Pattern) (choices : List Choice)
    (taken : List (PatternEdge × Arc)) (last : Bindings) : Prop where
  valid : Valid view pattern choices taken last
  least : ∀ {other taken' last'}, Valid view pattern other taken' last' →
    other = choices ∨ List.Lex Choice.Before choices other

/-- The relations of the entries whose edges capture them, under the names of the captures. -/
def captured (taken : List (PatternEdge × Arc)) : List (String × String) :=
  taken.filterMap fun entry => entry.1.capture.map fun name => (name, entry.2.relation)

theorem captured_cons (edge : PatternEdge) (arc : Arc) (taken : List (PatternEdge × Arc)) :
    captured ((edge, arc) :: taken) =
      (edge.capture.map fun name => (name, arc.relation)).toList ++ captured taken := by
  cases hcapture : edge.capture <;> simp [captured, hcapture]

theorem lookup_captured (taken : List (PatternEdge × Arc)) (name : String) :
    (captured taken).lookup name =
      (taken.find? fun entry => entry.1.capture == some name).map fun entry =>
        entry.2.relation := by
  induction taken with
  | nil => rfl
  | cons entry taken ih =>
      cases hcapture : entry.1.capture with
      | none => simpa [captured, hcapture] using ih
      | some other =>
          by_cases hname : name = other
          · subst hname
            simp [captured, hcapture]
          · have hother : other ≠ name := fun h => hname h.symm
            have hbeq : (name == other) = false := by simpa using hname
            simpa [captured, hcapture, List.lookup_cons, hbeq, hother] using ih

variable {view : View} {pattern : Pattern}

section

variable {bound last : Bindings} {edge : PatternEdge} {edges : List PatternEdge}
  {choices : List Choice} {taken : List (PatternEdge × Arc)} {governor position : Nat} {arc : Arc}

/-! ### What is bound -/

theorem Admits.lookup_bindAtEnd (h : Admits view pattern bound edge arc) :
    (bound.bindAtEnd edge.dependent arc.dependent).lookup edge.dependent = some arc.dependent := by
  rcases h.dependent with hlookup | ⟨hlookup, -⟩
  · simp [Bindings.bindAtEnd, hlookup]
  · simp [Bindings.bindAtEnd, hlookup, List.lookup_append]

theorem Selects.lookup_last (h : Selects view pattern bound edges choices taken last)
    {name : String} {index : Nat} (hname : bound.lookup name = some index) :
    last.lookup name = some index := by
  induction h with
  | done => exact hname
  | pass _ _ ih => exact ih hname
  | skip _ _ _ ih => exact ih hname
  | entry _ _ _ _ ih =>
      apply ih
      rw [Bindings.lookup_bindAtEnd_of_isSome _ (Option.isSome_of_eq_some hname), hname]

/-! ### Ways through the edges -/

theorem leads_nil : Leads view pattern bound [] := ⟨[], [], bound, .done bound⟩

theorem leads_cons_of_unbound (h : bound.lookup edge.governor = none) :
    Leads view pattern bound (edge :: edges) ↔ Leads view pattern bound edges := by
  constructor
  · rintro ⟨_, _, last, hselects⟩
    cases hselects with
    | pass _ rest => exact ⟨_, _, last, rest⟩
    | entry hgovernor => cases h.symm.trans hgovernor
    | skip hgovernor => cases h.symm.trans hgovernor
  · rintro ⟨_, _, last, rest⟩
    exact ⟨_, _, last, .pass h rest⟩

theorem leads_cons_of_bound (h : bound.lookup edge.governor = some governor) :
    Leads view pattern bound (edge :: edges) ↔
      (∃ arc ∈ view.outgoing governor, Admits view pattern bound edge arc ∧
        Leads view pattern (bound.bindAtEnd edge.dependent arc.dependent) edges) ∨
      edge.optional = true ∧ Leads view pattern bound edges := by
  constructor
  · rintro ⟨_, _, last, hselects⟩
    cases hselects with
    | pass hgovernor => cases h.symm.trans hgovernor
    | entry hgovernor harc hadmits rest =>
        cases h.symm.trans hgovernor
        exact .inl ⟨_, List.mem_of_getElem? harc, hadmits, _, _, last, rest⟩
    | skip _ hoptional rest => exact .inr ⟨hoptional, _, _, last, rest⟩
  · rintro (⟨arc, harc, hadmits, _, _, last, rest⟩ | ⟨hoptional, _, _, last, rest⟩)
    · obtain ⟨position, hposition⟩ := List.mem_iff_getElem?.mp harc
      exact ⟨_, _, last, .entry h hposition hadmits rest⟩
    · exact ⟨_, _, last, .skip h hoptional rest⟩

/-! ### First choices, edge by edge -/

theorem SelectsFirst.done : SelectsFirst view pattern bound [] [] [] bound where
  selects := .done bound
  least h := by
    cases h
    exact .inl rfl

theorem SelectsFirst.pass (hrest : SelectsFirst view pattern bound edges choices taken last)
    (hgovernor : bound.lookup edge.governor = none) :
    SelectsFirst view pattern bound (edge :: edges) (.pass :: choices) taken last where
  selects := .pass hgovernor hrest.selects
  least h := by
    cases h with
    | pass _ rest => exact (hrest.least rest).imp (congrArg _) .cons
    | entry hgovernor' => cases hgovernor.symm.trans hgovernor'
    | skip hgovernor' => cases hgovernor.symm.trans hgovernor'

theorem SelectsFirst.entry (hrest : SelectsFirst view pattern
      (bound.bindAtEnd edge.dependent arc.dependent) edges choices taken last)
    (hgovernor : bound.lookup edge.governor = some governor)
    (harc : (view.outgoing governor)[position]? = some arc)
    (hadmits : Admits view pattern bound edge arc)
    (hbefore : ∀ (earlier : Nat) (other : Arc), earlier < position →
      (view.outgoing governor)[earlier]? = some other → Admits view pattern bound edge other →
        ¬ Leads view pattern (bound.bindAtEnd edge.dependent other.dependent) edges) :
    SelectsFirst view pattern bound (edge :: edges) (.entry position :: choices)
      ((edge, arc) :: taken) last where
  selects := .entry hgovernor harc hadmits hrest.selects
  least h := by
    cases h with
    | pass hgovernor' => cases hgovernor.symm.trans hgovernor'
    | skip _ _ _ => exact .inr (.rel (.skip position))
    | @entry _ _ _ _ _ _ _ position' arc' hgovernor' harc' hadmits' rest =>
        cases hgovernor.symm.trans hgovernor'
        rcases Nat.lt_trichotomy position position' with hlt | rfl | hgt
        · exact .inr (.rel (.entry hlt))
        · cases harc.symm.trans harc'
          exact (hrest.least rest).imp (congrArg _) .cons
        · exact absurd ⟨_, _, _, rest⟩ (hbefore position' arc' hgt harc' hadmits')

theorem SelectsFirst.skip (hrest : SelectsFirst view pattern bound edges choices taken last)
    (hgovernor : bound.lookup edge.governor = some governor) (hoptional : edge.optional = true)
    (hnone : ∀ arc ∈ view.outgoing governor, Admits view pattern bound edge arc →
      ¬ Leads view pattern (bound.bindAtEnd edge.dependent arc.dependent) edges) :
    SelectsFirst view pattern bound (edge :: edges) (.skip :: choices) taken last where
  selects := .skip hgovernor hoptional hrest.selects
  least h := by
    cases h with
    | pass hgovernor' => cases hgovernor.symm.trans hgovernor'
    | entry hgovernor' harc hadmits rest =>
        cases hgovernor.symm.trans hgovernor'
        exact absurd ⟨_, _, _, rest⟩ (hnone _ (List.mem_of_getElem? harc) hadmits)
    | skip _ _ rest => exact (hrest.least rest).imp (congrArg _) .cons

end

/-! ### A series determines what it binds -/

theorem Valid.exists_selects {choices : List Choice} {taken : List (PatternEdge × Arc)}
    {last : Bindings} (h : Valid view pattern choices taken last) :
    ∃ start rest index, choices = start :: rest ∧
      Selects view pattern [(pattern.anchor.name, index)] pattern.edges rest taken last := by
  cases h with
  | anchor _ _ _ hselects => exact ⟨_, _, _, rfl, hselects⟩

theorem Selects.unique {bound last last' : Bindings} {edges : List PatternEdge}
    {choices : List Choice} {taken taken' : List (PatternEdge × Arc)}
    (h : Selects view pattern bound edges choices taken last)
    (h' : Selects view pattern bound edges choices taken' last') :
    taken = taken' ∧ last = last' := by
  induction h generalizing taken' with
  | done => cases h'; exact ⟨rfl, rfl⟩
  | pass _ _ ih => cases h' with | pass _ rest => exact ih rest
  | skip _ _ _ ih => cases h' with | skip _ _ rest => exact ih rest
  | entry hgovernor harc _ _ ih =>
      cases h' with
      | entry hgovernor' harc' _ rest =>
          cases hgovernor.symm.trans hgovernor'
          cases harc.symm.trans harc'
          obtain ⟨rfl, rfl⟩ := ih rest
          exact ⟨rfl, rfl⟩

theorem Valid.unique {choices : List Choice} {taken taken' : List (PatternEdge × Arc)}
    {last last' : Bindings} (h : Valid view pattern choices taken last)
    (h' : Valid view pattern choices taken' last') : taken = taken' ∧ last = last' := by
  cases h with
  | anchor hindex _ _ hselects =>
      cases h' with
      | anchor hindex' _ _ hselects' =>
          cases hindex.symm.trans hindex'
          exact hselects.unique hselects'

theorem First.unique {choices choices' : List Choice} {taken taken' : List (PatternEdge × Arc)}
    {last last' : Bindings} (h : First view pattern choices taken last)
    (h' : First view pattern choices' taken' last') :
    choices = choices' ∧ taken = taken' ∧ last = last' := by
  -- If they differed, each would come before the other.
  have heq : choices = choices' := by
    rcases h.least h'.valid with heq | hbefore
    · exact heq.symm
    · rcases h'.least h.valid with heq | hafter
      · exact heq
      · exact absurd hafter (asymm_of (List.Lex Choice.Before) hbefore)
  subst heq
  exact ⟨rfl, h.valid.unique h'.valid⟩

end Pattern

end DepNorm
