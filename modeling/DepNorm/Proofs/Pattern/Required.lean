import DepNorm.Proofs.Pattern.First

/-!
What a match promises about the required edges of its pattern. A required edge is matched as soon as
its governor is bound when its turn comes. If it is not, the edge is passed over, and it is not
looked at again when a later edge binds the governor after all.
-/

namespace DepNorm.Pattern

/-- Both ends of the edge are bound, and an entry whose relation passes leads from one to the
other. -/
def Matched (view : View) (bound : Bindings) (edge : PatternEdge) : Prop :=
  ∃ governor arc, bound.lookup edge.governor = some governor ∧ arc ∈ view.outgoing governor ∧
    edge.relation.holds arc.relation = true ∧ bound.lookup edge.dependent = some arc.dependent

/-- An entry is chosen for an edge that leads to the name. -/
def Entered (edges : List PatternEdge) (choices : List Choice) (name : String) : Prop :=
  ∃ edge position, (edge, Choice.entry position) ∈ edges.zip choices ∧ edge.dependent = name

/-- The names reached when the required edges are followed in order, starting from those in
`reached`. -/
def requiredReach (reached : List String) : List PatternEdge → List String
  | [] => reached
  | edge :: edges =>
    if !edge.optional && edge.governor ∈ reached then
      requiredReach (edge.dependent :: reached) edges
    else requiredReach reached edges

variable {view : View} {pattern : Pattern} {bound last : Bindings} {edge : PatternEdge}
  {edges : List PatternEdge} {choices : List Choice} {taken : List (PatternEdge × Arc)} {arc : Arc}
  {name : String}

/-! ### Entries and bound names -/

theorem entered_cons {choice : Choice} :
    Entered (edge :: edges) (choice :: choices) name ↔
      ((∃ position, choice = .entry position) ∧ edge.dependent = name) ∨
        Entered edges choices name := by
  constructor
  · rintro ⟨other, position, hmem, hname⟩
    rw [List.zip_cons_cons, List.mem_cons] at hmem
    rcases hmem with heq | hmem
    · cases heq
      exact .inl ⟨⟨position, rfl⟩, hname⟩
    · exact .inr ⟨other, position, hmem, hname⟩
  · rintro (⟨⟨position, rfl⟩, hname⟩ | ⟨other, position, hmem, hname⟩)
    · exact ⟨edge, position, List.mem_cons_self, hname⟩
    · exact ⟨other, position, List.mem_cons_of_mem _ hmem, hname⟩

theorem Selects.isSome_lookup_last_iff (h : Selects view pattern bound edges choices taken last) :
    (last.lookup name).isSome ↔ (bound.lookup name).isSome ∨ Entered edges choices name := by
  induction h with
  | done => simp [Entered]
  | pass _ _ ih => simp [ih, entered_cons]
  | skip _ _ _ ih => simp [ih, entered_cons]
  | entry _ _ _ _ ih =>
      rw [ih, entered_cons, Bindings.isSome_lookup_bindAtEnd_iff]
      simp [or_assoc]

/-! ### Required edges -/

/-- A run through the edges can be cut between any two of them. -/
theorem Selects.split {before after : List PatternEdge}
    (h : Selects view pattern bound (before ++ after) choices taken last) :
    ∃ choices₁ choices₂ taken₁ taken₂ middle, choices = choices₁ ++ choices₂ ∧
      choices₁.length = before.length ∧ Selects view pattern bound before choices₁ taken₁ middle ∧
        Selects view pattern middle after choices₂ taken₂ last := by
  induction before generalizing bound choices taken with
  | nil => exact ⟨[], choices, [], taken, bound, rfl, rfl, .done bound, h⟩
  | cons edge before ih =>
      cases h with
      | pass hgovernor rest =>
          obtain ⟨choices₁, choices₂, _, _, middle, rfl, hlength, hbefore, hafter⟩ := ih rest
          exact ⟨_ :: choices₁, choices₂, _, _, middle, rfl, congrArg (· + 1) hlength,
            .pass hgovernor hbefore, hafter⟩
      | skip hgovernor hoptional rest =>
          obtain ⟨choices₁, choices₂, _, _, middle, rfl, hlength, hbefore, hafter⟩ := ih rest
          exact ⟨_ :: choices₁, choices₂, _, _, middle, rfl, congrArg (· + 1) hlength,
            .skip hgovernor hoptional hbefore, hafter⟩
      | entry hgovernor harc hadmits rest =>
          obtain ⟨choices₁, choices₂, _, _, middle, rfl, hlength, hbefore, hafter⟩ := ih rest
          exact ⟨_ :: choices₁, choices₂, _, _, middle, rfl, congrArg (· + 1) hlength,
            .entry hgovernor harc hadmits hbefore, hafter⟩

theorem Selects.matched_or_pass (h : Selects view pattern bound (edge :: edges) choices taken last)
    (hrequired : edge.optional = false) :
    Matched view last edge ∨ bound.lookup edge.governor = none ∧
      ∃ choices, Selects view pattern bound edges choices taken last := by
  cases h with
  | pass hgovernor rest => exact .inr ⟨hgovernor, _, rest⟩
  | skip _ hoptional => cases hrequired.symm.trans hoptional
  | entry hgovernor harc hadmits rest =>
      exact .inl ⟨_, _, (rest.entry hgovernor harc hadmits).lookup_last hgovernor,
        List.mem_of_getElem? harc, hadmits.relation, rest.lookup_last hadmits.lookup_bindAtEnd⟩

theorem Selects.matched_of_entered {before after : List PatternEdge}
    (h : Selects view pattern bound (before ++ edge :: after) choices taken last)
    (hrequired : edge.optional = false)
    (hgovernor : (bound.lookup edge.governor).isSome ∨ Entered before choices edge.governor) :
    Matched view last edge := by
  obtain ⟨choices₁, choices₂, _, _, middle, rfl, hlength, hfirst, hrest⟩ := h.split
  rcases hrest.matched_or_pass hrequired with hmatched | ⟨hnone, -⟩
  · exact hmatched
  · have hzip : before.zip (choices₁ ++ choices₂) = before.zip choices₁ := by
      rw [← List.append_nil before, List.zip_append hlength.symm, List.zip_nil_left]
      simp
    have hbound : (middle.lookup edge.governor).isSome := by
      rw [hfirst.isSome_lookup_last_iff]
      rwa [Entered, hzip] at hgovernor
    rw [hnone] at hbound
    cases hbound

theorem Selects.matched_of_forall_after {before after : List PatternEdge}
    (h : Selects view pattern bound (before ++ edge :: after) choices taken last)
    (hrequired : edge.optional = false) (hgovernor : (last.lookup edge.governor).isSome)
    (hafter : ∀ later ∈ after, later.dependent ≠ edge.governor) : Matched view last edge := by
  obtain ⟨_, _, _, _, middle, -, -, -, hrest⟩ := h.split
  rcases hrest.matched_or_pass hrequired with hmatched | ⟨hnone, choices', hpast⟩
  · exact hmatched
  · -- The governor has been bound after the edge was passed over, by an edge that leads to it.
    rcases hpast.isSome_lookup_last_iff.mp hgovernor with hbound | ⟨later, _, hmem, hlater⟩
    · rw [hnone] at hbound
      cases hbound
    · exact absurd hlater (hafter later (List.of_mem_zip hmem).1)

/-- The names reached over required edges are bound, if those from which they are reached are. -/
theorem Selects.isSome_of_mem_requiredReach {reached : List String}
    (h : Selects view pattern bound edges choices taken last)
    (hreached : ∀ name ∈ reached, (bound.lookup name).isSome) :
    ∀ name ∈ requiredReach reached edges, (last.lookup name).isSome := by
  induction h generalizing reached with
  | done => exact hreached
  | @pass bound _ edge _ _ _ hgovernor _ ih =>
      -- An edge is only passed over if its governor is not bound, so not among the names reached.
      have hnot : edge.governor ∉ reached := by
        intro hmem
        have hbound := hreached _ hmem
        rw [hgovernor] at hbound
        cases hbound
      simpa [requiredReach, hnot] using ih hreached
  | skip _ hoptional _ ih => simpa [requiredReach, hoptional] using ih hreached
  | @entry bound _ edge _ _ _ _ _ arc _ _ _ _ ih =>
      have hstill : ∀ name ∈ reached,
          ((bound.bindAtEnd edge.dependent arc.dependent).lookup name).isSome :=
        fun name hname => Bindings.isSome_lookup_bindAtEnd_iff.mpr (.inl (hreached name hname))
      rw [requiredReach]
      split
      · apply ih
        intro name hname
        rcases List.mem_cons.mp hname with rfl | hname
        · exact Bindings.isSome_lookup_bindAtEnd _ _ _
        · exact hstill name hname
      · exact ih hstill

/-- In a match for a pattern that is accepted, a required edge is matched if it starts from the
anchor, if an entry was chosen for an edge before it that leads to its governor, or if its governor
is bound and no edge after it leads there. A name that is reached from the anchor over required
edges, followed in order, is bound. -/
theorem required_edges_matched {name : String} {declarations : List Declaration} {pattern : Pattern}
    (hdeclare : declare name declarations = .ok pattern) {view : View} {found : Match}
    (hfind : pattern.find? view = some found) :
    (∃ start choices taken, First view pattern (start :: choices) taken found.bindings ∧
      ∀ before edge after, pattern.edges = before ++ edge :: after → edge.optional = false →
        edge.governor = pattern.anchor.name ∨ Entered before choices edge.governor →
          Matched view found.bindings edge) ∧
      (∀ before edge after, pattern.edges = before ++ edge :: after → edge.optional = false →
        (found.node? edge.governor).isSome → (∀ later ∈ after, later.dependent ≠ edge.governor) →
          Matched view found.bindings edge) ∧
      ∀ node ∈ requiredReach [pattern.anchor.name] pattern.edges, (found.node? node).isSome := by
  obtain ⟨choices, taken, hfirst, -⟩ :=
    exists_first_of_find?_eq_some (governed_of_declare hdeclare) hfind
  obtain ⟨start, choices', index, rfl, hselects⟩ := hfirst.valid.exists_selects
  refine ⟨⟨start, choices', taken, hfirst, ?_⟩, ?_, ?_⟩
  · intro before edge after hedges hrequired hgovernor
    rw [hedges] at hselects
    refine hselects.matched_of_entered hrequired (hgovernor.imp_left fun heq => ?_)
    simp [heq]
  · intro before edge after hedges hrequired hgovernor hafter
    rw [hedges] at hselects
    exact hselects.matched_of_forall_after hrequired hgovernor hafter
  · apply hselects.isSome_of_mem_requiredReach
    intro node hnode
    obtain rfl := List.mem_singleton.mp hnode
    simp

/-- In `eatsCake` the edge for the object is matched, since it starts from the anchor. -/
theorem required_edges_matched_eatsCake :
    Matched eatsCake [("verb", 1), ("noun", 2)]
      { governor := "verb", dependent := "noun", relation := .exact "dobj",
        capture := some "role" } := by
  have hdeclare : declare "verb and noun" verbAndNoun = .ok verbAndNounPattern := by decide
  have hfind : verbAndNounPattern.find? eatsCake =
      some { bindings := [("verb", 1), ("noun", 2)], captures := [("role", "dobj")] } := by decide
  obtain ⟨⟨start, choices, taken, -, hmatched⟩, -⟩ := required_edges_matched hdeclare hfind
  exact hmatched (verbAndNounPattern.edges.take 2) _ [] rfl rfl (.inl rfl)

/-- A required edge may stay unmatched though its governor is bound. In `eatsCake` the noun is bound
after the edge to its mark has been passed over. -/
theorem exists_required_edge_not_matched :
    ¬ ∀ (name : String) (declarations : List Declaration) (pattern : Pattern) (view : View)
        (found : Match), declare name declarations = .ok pattern →
      pattern.find? view = some found → ∀ edge ∈ pattern.edges, edge.optional = false →
        (found.node? edge.governor).isSome → Matched view found.bindings edge := by
  intro hall
  -- When the edge to the mark has its turn, only the verb is bound.
  have hmatched := hall "verb and noun" verbAndNoun verbAndNounPattern eatsCake
    { bindings := [("verb", 1), ("noun", 2)], captures := [("role", "dobj")] } (by decide)
    (by decide) { governor := "noun", dependent := "mark", relation := .exact "det" } (by decide)
    rfl rfl
  obtain ⟨_, _, _, _, _, hmark⟩ := hmatched
  cases hmark

end DepNorm.Pattern
