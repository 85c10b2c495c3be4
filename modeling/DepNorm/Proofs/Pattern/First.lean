import DepNorm.Proofs.Pattern.Choice

/-!
The search finds the first valid series of choices. The induction is on the edges that remain. Its
invariant is `Trail.Decided`: every name that the walk has reached is bound or has been set aside,
so that an edge whose governor is not bound is one that the search passes over.
-/

namespace DepNorm

namespace Trail

variable {trail : Trail} {edge : PatternEdge} {arc : Arc} {reached : List String}

/-- Every name in the list is bound or has been set aside. -/
def Decided (reached : List String) (trail : Trail) : Prop :=
  ∀ name ∈ reached, (trail.node? name).isSome ∨ name ∈ trail.aside

theorem bindings_follow : (trail.follow edge arc).bindings =
    Bindings.bindAtEnd trail.bindings edge.dependent arc.dependent := by
  unfold follow Bindings.bindAtEnd Match.node?
  cases trail.bindings.lookup edge.dependent <;> rfl

theorem Decided.of_prefix (h : trail.Decided reached) {longer : Trail} {name : String}
    (hbindings : longer.bindings = trail.bindings) (haside : trail.aside <+: longer.aside)
    (hname : (trail.node? name).isSome ∨ name ∈ longer.aside) :
    longer.Decided (name :: reached) := by
  intro other hother
  rw [Match.node?, hbindings]
  rcases List.mem_cons.mp hother with rfl | hother
  · exact hname
  · exact (h other hother).imp_right fun hmem => haside.subset hmem

theorem Decided.setAside (h : trail.Decided reached) (name : String) :
    (trail.setAside name).Decided (name :: reached) :=
  h.of_prefix (trail.bindings_setAside name) (trail.aside_prefix_setAside name)
    (trail.decided_setAside name)

theorem Decided.giveUp (h : trail.Decided reached) (name : String) :
    (trail.giveUp name).Decided (name :: reached) :=
  h.of_prefix (trail.bindings_giveUp name) (trail.aside_prefix_giveUp name)
    (trail.decided_giveUp name)

theorem Decided.follow (h : trail.Decided reached) (edge : PatternEdge) (arc : Arc) :
    (trail.follow edge arc).Decided (edge.dependent :: reached) := by
  intro other hother
  rw [Match.node?, bindings_follow]
  rcases List.mem_cons.mp hother with rfl | hother
  · exact .inl (Bindings.isSome_lookup_bindAtEnd _ _ _)
  · rcases h other hother with hbound | haside
    · exact .inl ((Bindings.lookup_bindAtEnd_of_isSome _ hbound).symm ▸ hbound)
    · exact .inr haside

theorem Decided.isAside_of_lookup_eq_none (h : trail.Decided reached) {name : String}
    (hname : name ∈ reached) (hnone : trail.bindings.lookup name = none) :
    trail.isAside name = true := by
  rcases h name hname with hbound | haside
  · rw [Match.node?, hnone] at hbound
    cases hbound
  · simp [isAside, Match.node?, hnone, haside]

theorem isAside_of_lookup_eq_some {name : String} {index : Nat}
    (hsome : trail.bindings.lookup name = some index) : trail.isAside name = false := by
  simp [isAside, Match.node?, hsome]

end Trail

namespace Pattern

variable {view : View} {pattern : Pattern} {trail : Trail} {edge : PatternEdge}
  {edges : List PatternEdge} {arc : Arc} {reached : List String}

/-! ### Positions in a list that is searched -/

theorem findSome?_filter {α β : Type} (test : α → Bool) (result : α → Option β) (items : List α) :
    (items.filter test).findSome? result =
      items.findSome? fun item => if test item then result item else none := by
  induction items with
  | nil => rfl
  | cons item items ih => cases htest : test item <;> simp [List.findSome?_cons, htest, ih]

theorem exists_position_of_findSome? {α β : Type} {result : α → Option β} {items : List α} {b : β}
    (h : items.findSome? result = some b) :
    ∃ (position : Nat) (item : α), items[position]? = some item ∧ result item = some b ∧
      ∀ (earlier : Nat) (other : α), earlier < position → items[earlier]? = some other →
        result other = none := by
  obtain ⟨before, item, after, rfl, hresult, hbefore⟩ := List.findSome?_eq_some_iff.mp h
  refine ⟨before.length, item, by simp, hresult, ?_⟩
  intro earlier other hearlier hother
  rw [List.getElem?_append_left hearlier] at hother
  exact hbefore other (List.mem_of_getElem? hother)

/-! ### One edge -/

theorem fits_iff_admits :
    fits view pattern trail edge arc = true ↔ Admits view pattern trail.bindings edge arc := by
  have huses : trail.uses arc.dependent = false ↔
      ∀ binding ∈ trail.bindings, binding.2 ≠ arc.dependent := by
    simp [Match.uses]
  have htoken : (view.token? arc.dependent).any (pattern.test edge.dependent).holds = true ↔
      ∃ token, view.token? arc.dependent = some token ∧
        (pattern.test edge.dependent).holds token = true := by
    rw [Option.any_eq_true]
  simp only [fits, Match.node?, Bool.and_eq_true]
  constructor
  · rintro ⟨hrelation, hdependent⟩
    refine ⟨hrelation, ?_⟩
    split at hdependent
    · next index hlookup => exact .inl (by rw [hlookup, ← beq_iff_eq.mp hdependent])
    · next hlookup =>
      simp only [Bool.and_eq_true, Bool.not_eq_true'] at hdependent
      exact .inr ⟨hlookup, huses.mp hdependent.1, htoken.mp hdependent.2⟩
  · rintro ⟨hrelation, hlookup | ⟨hlookup, hunused, hfound⟩⟩
    · exact ⟨hrelation, by simp [hlookup]⟩
    · refine ⟨hrelation, ?_⟩
      rw [hlookup]
      simp only [huses.mpr hunused, htoken.mpr hfound, Bool.not_false, Bool.and_self]

theorem through?_of_unbound (hdecided : trail.Decided reached) (hreached : edge.governor ∈ reached)
    (hgovernor : trail.bindings.lookup edge.governor = none) :
    through? view pattern (edge :: edges) trail =
      through? view pattern edges (trail.setAside edge.dependent) := by
  rw [through?, if_pos (hdecided.isAside_of_lookup_eq_none hreached hgovernor)]

theorem through?_of_bound {governor : Nat}
    (hgovernor : trail.bindings.lookup edge.governor = some governor) :
    through? view pattern (edge :: edges) trail =
      (((view.outgoing governor).filter (fits view pattern trail edge)).findSome? fun arc =>
        through? view pattern edges (trail.follow edge arc)).or
      (if edge.optional then through? view pattern edges (trail.giveUp edge.dependent)
        else none) := by
  have hnode : trail.node? edge.governor = some governor := hgovernor
  rw [through?, Trail.isAside_of_lookup_eq_some hgovernor, hnode]
  simp

/-! ### All edges -/

/-- Where the search does not get through, no choices lead through. -/
theorem not_leads_of_through?_eq_none (hgoverned : Governed reached edges)
    (hdecided : trail.Decided reached) (h : through? view pattern edges trail = none) :
    ¬ Leads view pattern trail.bindings edges := by
  rintro ⟨choices, taken, last, hselects⟩
  induction edges generalizing reached trail choices taken with
  | nil => cases h
  | cons edge edges ih =>
      obtain ⟨hreached, hgoverned⟩ := hgoverned
      cases hselects with
      | pass hgovernor rest =>
          rw [through?_of_unbound hdecided hreached hgovernor] at h
          rw [← trail.bindings_setAside edge.dependent] at rest
          exact ih hgoverned (hdecided.setAside edge.dependent) h _ _ rest
      | @entry _ _ _ _ _ _ governor position arc hgovernor harc hadmits rest =>
          rw [through?_of_bound hgovernor, Option.or_eq_none_iff] at h
          -- The search has followed the chosen entry, and by the induction got nowhere from there.
          have hfits : arc ∈ (view.outgoing governor).filter (fits view pattern trail edge) :=
            List.mem_filter.mpr ⟨List.mem_of_getElem? harc, fits_iff_admits.mpr hadmits⟩
          rw [← Trail.bindings_follow] at rest
          exact ih hgoverned (hdecided.follow edge arc)
            (List.findSome?_eq_none_iff.mp h.1 arc hfits) _ _ rest
      | skip hgovernor hoptional rest =>
          rw [through?_of_bound hgovernor, Option.or_eq_none_iff, if_pos hoptional] at h
          rw [← trail.bindings_giveUp edge.dependent] at rest
          exact ih hgoverned (hdecided.giveUp edge.dependent) h.2 _ _ rest

/-- Where the search gets through, it has made the first choices that lead through. -/
theorem exists_selectsFirst_of_through?_eq_some (hgoverned : Governed reached edges)
    (hdecided : trail.Decided reached) {final : Trail}
    (h : through? view pattern edges trail = some final) :
    ∃ choices taken, SelectsFirst view pattern trail.bindings edges choices taken final.bindings ∧
      final.captures = trail.captures ++ captured taken := by
  induction edges generalizing reached trail with
  | nil =>
      cases h
      exact ⟨[], [], .done, by simp [captured]⟩
  | cons edge edges ih =>
      obtain ⟨hreached, hgoverned⟩ := hgoverned
      cases hgovernor : trail.bindings.lookup edge.governor with
      | none =>
          rw [through?_of_unbound hdecided hreached hgovernor] at h
          obtain ⟨choices, taken, hfirst, hcaptures⟩ :=
            ih hgoverned (hdecided.setAside edge.dependent) h
          rw [Trail.bindings_setAside] at hfirst
          rw [Trail.captures_setAside] at hcaptures
          exact ⟨.pass :: choices, taken, hfirst.pass hgovernor, hcaptures⟩
      | some governor =>
          -- An entry from which the search does not get through is one from which nothing does.
          have hblocked {arc : Arc}
              (h : (if fits view pattern trail edge arc then
                through? view pattern edges (trail.follow edge arc) else none) = none)
              (hadmits : Admits view pattern trail.bindings edge arc) :
              ¬ Leads view pattern (Bindings.bindAtEnd trail.bindings edge.dependent arc.dependent)
                edges := by
            rw [if_pos (fits_iff_admits.mpr hadmits)] at h
            rw [← Trail.bindings_follow]
            exact not_leads_of_through?_eq_none hgoverned (hdecided.follow edge arc) h
          rw [through?_of_bound hgovernor, findSome?_filter, Option.or_eq_some_iff] at h
          rcases h with hentry | ⟨hnone, hskip⟩
          · obtain ⟨position, arc, harc, hthrough, hbefore⟩ := exists_position_of_findSome? hentry
            split at hthrough
            · next hfits =>
              obtain ⟨choices, taken, hfirst, hcaptures⟩ :=
                ih hgoverned (hdecided.follow edge arc) hthrough
              rw [Trail.bindings_follow] at hfirst
              refine ⟨.entry position :: choices, (edge, arc) :: taken,
                hfirst.entry hgovernor harc (fits_iff_admits.mp hfits) ?_, ?_⟩
              · intro earlier other hearlier hother hadmits
                exact hblocked (hbefore earlier other hearlier hother) hadmits
              · rw [hcaptures, Trail.captures_follow, List.append_assoc, captured_cons]
            · cases hthrough
          · split at hskip
            · next hoptional =>
              obtain ⟨choices, taken, hfirst, hcaptures⟩ :=
                ih hgoverned (hdecided.giveUp edge.dependent) hskip
              rw [Trail.bindings_giveUp] at hfirst
              rw [Trail.captures_giveUp] at hcaptures
              refine ⟨.skip :: choices, taken, hfirst.skip hgovernor hoptional ?_, hcaptures⟩
              intro arc harc hadmits
              exact hblocked (List.findSome?_eq_none_iff.mp hnone arc harc) hadmits
            · cases hskip

/-! ### The anchor -/

theorem decided_start (pattern : Pattern) (index : Nat) :
    Trail.Decided [pattern.anchor.name] { bindings := [(pattern.anchor.name, index)] } := by
  intro name hname
  obtain rfl := List.mem_singleton.mp hname
  simp [Match.node?]

theorem not_leads_of_matchAt?_eq_none (hgoverned : Governed [pattern.anchor.name] pattern.edges)
    {index : Nat} {token : Token} (htoken : view.token? index = some token)
    (htest : pattern.anchor.test.holds token = true) (h : matchAt? view pattern index = none) :
    ¬ Leads view pattern [(pattern.anchor.name, index)] pattern.edges := by
  have hany : (view.token? index).any pattern.anchor.test.holds = true := by
    rw [htoken, Option.any_some, htest]
  rw [matchAt?_eq, if_pos hany, Option.map_eq_none_iff] at h
  exact not_leads_of_through?_eq_none hgoverned (decided_start pattern index) h

theorem exists_selectsFirst_of_matchAt?_eq_some
    (hgoverned : Governed [pattern.anchor.name] pattern.edges) {index : Nat} {found : Match}
    (h : matchAt? view pattern index = some found) :
    ∃ token, view.token? index = some token ∧ pattern.anchor.test.holds token = true ∧
      ∃ choices taken, SelectsFirst view pattern [(pattern.anchor.name, index)] pattern.edges
        choices taken found.bindings ∧ found.captures = captured taken := by
  rw [matchAt?_eq] at h
  split at h
  · next hany =>
    obtain ⟨token, htoken, htest⟩ := Option.any_eq_true _ _ |>.mp hany
    obtain ⟨final, hthrough, rfl⟩ := Option.map_eq_some_iff.mp h
    exact ⟨token, htoken, htest, exists_selectsFirst_of_through?_eq_some hgoverned
      (decided_start pattern index) hthrough⟩
  · cases h

theorem not_valid_of_find?_eq_none (hgoverned : Governed [pattern.anchor.name] pattern.edges)
    (h : pattern.find? view = none) {choices : List Choice} {taken : List (PatternEdge × Arc)}
    {last : Bindings} : ¬ Valid view pattern choices taken last := by
  rintro ⟨hindex, htoken, htest, hselects⟩
  have hnone := List.findSome?_eq_none_iff.mp h _ (List.mem_of_getElem? hindex)
  exact not_leads_of_matchAt?_eq_none hgoverned htoken htest hnone ⟨_, _, _, hselects⟩

/-- What is found records the first valid series. -/
theorem exists_first_of_find?_eq_some (hgoverned : Governed [pattern.anchor.name] pattern.edges)
    {found : Match} (h : pattern.find? view = some found) :
    ∃ choices taken, First view pattern choices taken found.bindings ∧
      found.captures = captured taken := by
  obtain ⟨position, index, hindex, hmatch, hbefore⟩ := exists_position_of_findSome? h
  obtain ⟨token, htoken, htest, choices, taken, hfirst, hcaptures⟩ :=
    exists_selectsFirst_of_matchAt?_eq_some hgoverned hmatch
  -- A series with the anchor at an earlier position would have been found there.
  refine ⟨.entry position :: choices, taken, ⟨.anchor hindex htoken htest hfirst.selects, ?_⟩,
    hcaptures⟩
  intro other taken' last' hvalid
  cases hvalid with
  | @anchor position' index' _ _ _ _ hindex' htoken' htest' hselects =>
      rcases Nat.lt_trichotomy position position' with hlt | rfl | hgt
      · exact .inr (.rel (.entry hlt))
      · cases hindex.symm.trans hindex'
        exact (hfirst.least hselects).imp (congrArg _) .cons
      · exact absurd ⟨_, _, _, hselects⟩ (not_leads_of_matchAt?_eq_none hgoverned htoken' htest'
          (hbefore position' index' hgt hindex'))

/-- A pattern is found if from some index for the anchor there are choices that lead through. -/
theorem isSome_find?_iff (hgoverned : Governed [pattern.anchor.name] pattern.edges) :
    (pattern.find? view).isSome = true ↔ ∃ index ∈ view.indices, ∃ token,
      view.token? index = some token ∧ pattern.anchor.test.holds token = true ∧
        Leads view pattern [(pattern.anchor.name, index)] pattern.edges := by
  constructor
  · intro h
    obtain ⟨found, hfind⟩ := Option.isSome_iff_exists.mp h
    obtain ⟨_, _, ⟨hvalid, -⟩, -⟩ := exists_first_of_find?_eq_some hgoverned hfind
    cases hvalid with
    | anchor hindex htoken htest hselects =>
        exact ⟨_, List.mem_of_getElem? hindex, _, htoken, htest, _, _, _, hselects⟩
  · rintro ⟨index, hindex, token, htoken, htest, _, _, _, hselects⟩
    obtain ⟨position, hposition⟩ := List.mem_iff_getElem?.mp hindex
    by_contra hnone
    rw [Option.not_isSome_iff_eq_none] at hnone
    exact not_valid_of_find?_eq_none hgoverned hnone (.anchor hposition htoken htest hselects)

/-- The search in any view for a pattern that is accepted finds the first valid series of choices,
with its bindings in the order in which they were made and the relations that it captures, and it
finds nothing exactly if no series is valid. -/
theorem finds_first_valid {name : String} {declarations : List Declaration} {pattern : Pattern}
    (hdeclare : declare name declarations = .ok pattern) (view : View) :
    (pattern.find? view = none ↔ ∀ choices taken last, ¬ Valid view pattern choices taken last) ∧
      ∀ found : Match, pattern.find? view = some found ↔
        ∃ choices taken, First view pattern choices taken found.bindings ∧
          found.captures = captured taken ∧
          ∀ capture, found.relation? capture =
            (taken.find? fun entry => entry.1.capture == some capture).map fun entry =>
              entry.2.relation := by
  have hgoverned := governed_of_declare hdeclare
  have hfound {found : Match} (h : pattern.find? view = some found) :
      ∃ choices taken, First view pattern choices taken found.bindings ∧
        found.captures = captured taken :=
    exists_first_of_find?_eq_some hgoverned h
  refine ⟨⟨fun h _ _ _ => not_valid_of_find?_eq_none hgoverned h, fun h => ?_⟩, fun found => ?_⟩
  · cases hfind : pattern.find? view with
    | none => rfl
    | some found =>
        obtain ⟨choices, taken, hfirst, -⟩ := hfound hfind
        exact absurd hfirst.valid (h _ _ _)
  · constructor
    · intro h
      obtain ⟨choices, taken, hfirst, hcaptures⟩ := hfound h
      refine ⟨choices, taken, hfirst, hcaptures, fun capture => ?_⟩
      rw [Match.relation?, hcaptures, lookup_captured]
    · rintro ⟨choices, taken, hfirst, hcaptures, -⟩
      cases hfind : pattern.find? view with
      | none => exact absurd hfirst.valid (not_valid_of_find?_eq_none hgoverned hfind)
      | some other =>
          obtain ⟨choices', taken', hfirst', hcaptures'⟩ := hfound hfind
          obtain ⟨-, rfl, hbindings⟩ := hfirst.unique hfirst'
          obtain ⟨bindings, captures⟩ := found
          obtain ⟨bindings', captures'⟩ := other
          cases hbindings
          cases hcaptures.trans hcaptures'.symm
          rfl

/-! ### An example -/

/-- A verb with a noun that may be its subject and has to be its object. Only a noun that is the
subject is asked for a mark. -/
def verbAndNoun : List Declaration :=
  [.node "verb" .any, .node "noun" .any, .node "mark" .any,
    .edge "verb" "noun" (.exact "nsubj") true, .edge "noun" "mark" (.exact "det") false,
    .edge "verb" "noun" (.exact "dobj") false, .capture "role"]

def verbAndNounPattern : Pattern where
  name := "verb and noun"
  anchor := { name := "verb" }
  others := [{ name := "noun" }, { name := "mark" }]
  edges := [
    { governor := "verb", dependent := "noun", relation := .exact "nsubj", optional := true },
    { governor := "noun", dependent := "mark", relation := .exact "det" },
    { governor := "verb", dependent := "noun", relation := .exact "dobj", capture := some "role" }]

/-- A verb with an object and no subject. -/
def eatsCake : View where
  indices := [1, 2]
  token?
    | 1 => some { index := 1, word := "eats", baseForm := "eat", tag := "VBZ" }
    | 2 => some { index := 2, word := "cake", baseForm := "cake", tag := "NN" }
    | _ => none
  outgoing
    | 1 => [{ dependent := 2, relation := "dobj" }]
    | _ => []

/-- In `eatsCake` the first valid series binds the noun as the object. -/
theorem finds_first_valid_eatsCake : ∃ choices taken,
    First eatsCake verbAndNounPattern choices taken [("verb", 1), ("noun", 2)] ∧
      captured taken = [("role", "dobj")] := by
  have hfind : verbAndNounPattern.find? eatsCake =
      some { bindings := [("verb", 1), ("noun", 2)], captures := [("role", "dobj")] } := by decide
  have hdeclare : declare "verb and noun" verbAndNoun = .ok verbAndNounPattern := by decide
  obtain ⟨choices, taken, hfirst, hcaptures, -⟩ :=
    ((finds_first_valid hdeclare eatsCake).2 _).mp hfind
  exact ⟨choices, taken, hfirst, hcaptures.symm⟩

end Pattern

end DepNorm
