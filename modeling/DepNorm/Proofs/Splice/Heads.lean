import DepNorm.Proofs.Graph.Heads
import DepNorm.Proofs.Splice.Move

/-!
Heads of tokens under the moves of the rules. A move leaves at most one primary edge into a token
where there was at most one, unless it makes a primary edge of a secondary one into that token. As
no move makes a secondary edge, the token then has fewer secondary edges than before.
-/

namespace DepNorm.Splice

open DepNorm.Graph

variable {rule : Rule} {graph next : Graph} {index : Nat}

/-! ### Secondary edges -/

open scoped Classical in
/-- What a key becomes when some of the keys become keys of determiner edges. -/
noncomputable def relabelledKey (targets : Set EdgeKey) (key : EdgeKey) : EdgeKey :=
  if key ∈ targets then { key with relation := "det" } else key

theorem exists_relabelledKey {targets : Set EdgeKey} (htargets : targets ⊆ graph.keys)
    {key : EdgeKey} (hkey : key ∈ relabelledKeys graph.keys targets) :
    ∃ before ∈ graph.keys, relabelledKey targets before = key ∧
      before.dependent = key.dependent ∧ before.extra = key.extra := by
  rcases hkey with ⟨hkey, hnot⟩ | ⟨target, htarget, rfl⟩
  · exact ⟨key, hkey, if_neg hnot, rfl, rfl⟩
  · exact ⟨target, htargets htarget, if_pos htarget, rfl, rfl⟩

theorem ncard_secondaryKeys_le_of_relabel {targets : Set EdgeKey} (htargets : targets ⊆ graph.keys)
    (hnext : graph.Rekeyed (relabelledKeys graph.keys targets) next) :
    (next.secondaryKeys index).ncard ≤ (graph.secondaryKeys index).ncard := by
  have hfinite := graph.finite_secondaryKeys index
  have hsubset : next.secondaryKeys index ⊆ relabelledKey targets '' graph.secondaryKeys index := by
    rintro key ⟨hkey, hdependent, hextra⟩
    obtain ⟨before, hbefore, heq, hinto, hflag⟩ := exists_relabelledKey htargets (hnext.keys ▸ hkey)
    exact ⟨before, ⟨hbefore, hinto.trans hdependent, hflag.trans hextra⟩, heq⟩
  exact (Set.ncard_le_ncard hsubset (hfinite.image _)).trans (Set.ncard_image_le hfinite)

theorem Move.ncard_secondaryKeys_le (move : Move rule graph next) (index : Nat) :
    (next.secondaryKeys index).ncard ≤ (graph.secondaryKeys index).ncard := by
  have of_subset {next : Graph} (h : ∀ key ∈ next.keys, key.extra = true → key ∈ graph.keys) :
      (next.secondaryKeys index).ncard ≤ (graph.secondaryKeys index).ncard :=
    Set.ncard_le_ncard
      (fun key ⟨hkey, hdependent, hextra⟩ => ⟨h key hkey hextra, hdependent, hextra⟩)
      (graph.finite_secondaryKeys index)
  cases move with
  | lower _ _ _ hnext =>
      refine of_subset fun key hkey hextra => ?_
      rw [hnext.keys] at hkey
      rcases hkey with rfl | rfl | ⟨⟨hkey, -⟩, -⟩
      · cases hextra
      · cases hextra
      · exact hkey
  | relabel _ htargets hnext => exact ncard_secondaryKeys_le_of_relabel htargets hnext
  | turn _ _ hnext =>
      refine of_subset fun key hkey hextra => ?_
      rw [hnext.keys] at hkey
      rcases hkey with rfl | ⟨hkey, -⟩
      · cases hextra
      · exact hkey
  | drop =>
      refine of_subset fun key hkey _ => ?_
      rw [keys_eraseToken] at hkey
      exact hkey.1
  | collapse _ hnext _ =>
      refine of_subset fun key hkey hextra => ?_
      rw [hnext.keys] at hkey
      rcases hkey with ⟨⟨hkey, -⟩, -⟩ | rfl | rfl | ⟨_, -, -, rfl⟩
      · exact hkey
      · cases hextra
      · cases hextra
      · cases hextra

theorem ncard_secondaryKeys_lt {key : EdgeKey} (hkey : key ∈ graph.keys) (hextra : key.extra = true)
    (hgone : key ∉ next.keys)
    (hsubset : ∀ key ∈ next.keys, key.extra = true → key ∈ graph.keys) :
    (next.secondaryKeys key.dependent).ncard < (graph.secondaryKeys key.dependent).ncard := by
  refine Set.ncard_lt_ncard ⟨?_, fun hsup => ?_⟩ (graph.finite_secondaryKeys key.dependent)
  · rintro other ⟨hother, hdependent, hextra'⟩
    exact ⟨hsubset other hother hextra', hdependent, hextra'⟩
  · exact hgone (hsup ⟨hkey, rfl, hextra⟩).1

/-! ### Heads -/

theorem oneHead_of_lower (h : graph.OneHead index) {relation : String} {verb quantity object : Nat}
    (hdistinct : [verb, quantity, object].Nodup)
    (hquantity : { governor := verb, dependent := quantity, relation } ∈ graph.keys)
    (hobject : { governor := quantity, dependent := object, relation := "nmod:of" } ∈ graph.keys)
    (hnext : graph.Rekeyed (loweredKeys graph.keys relation verb quantity object) next) :
    next.OneHead index := by
  have hqo : quantity ≠ object := by
    rintro rfl
    simp at hdistinct
  have hroot (hindex : index ∈ next.roots) : index ∈ graph.roots := hnext.roots ▸ hindex
  -- The quantity and its object exchange their heads, and no other token gets an edge.
  by_cases hq : index = quantity
  · subst hq
    refine h.of_replaced { governor := object, dependent := index, relation := "amod" } hquantity
      rfl rfl (fun key hkey _ hinto => ?_) hroot
    rw [hnext.keys] at hkey
    rcases hkey with rfl | rfl | ⟨⟨hkey, hne⟩, -⟩
    · exact .inl rfl
    · exact absurd hinto hqo.symm
    · exact .inr ⟨hkey, hne⟩
  · by_cases ho : index = object
    · subst ho
      refine h.of_replaced { governor := verb, dependent := index, relation } hobject rfl rfl
        (fun key hkey _ hinto => ?_) hroot
      rw [hnext.keys] at hkey
      rcases hkey with rfl | rfl | ⟨⟨hkey, -⟩, hne⟩
      · exact absurd hinto hqo
      · exact .inl rfl
      · exact .inr ⟨hkey, hne⟩
    · refine h.of_subset (fun key hkey _ hinto => ?_) hroot
      rw [hnext.keys] at hkey
      rcases hkey with rfl | rfl | ⟨⟨hkey, -⟩, -⟩
      · exact absurd hinto.symm hq
      · exact absurd hinto.symm ho
      · exact hkey

theorem oneHead_of_relabel (h : graph.OneHead index) {targets : Set EdgeKey}
    (htargets : targets ⊆ graph.keys)
    (hnext : graph.Rekeyed (relabelledKeys graph.keys targets) next) : next.OneHead index := by
  have hformer (key : EdgeKey) (hkey : key ∈ next.keys) :=
    exists_relabelledKey htargets (hnext.keys ▸ hkey)
  constructor
  · intro key hkey other hother hextra hextra' hinto hinto'
    obtain ⟨before, hbefore, rfl, hdependent, hflag⟩ := hformer key hkey
    obtain ⟨before', hbefore', rfl, hdependent', hflag'⟩ := hformer other hother
    rw [h.unique before hbefore before' hbefore' (hflag.trans hextra) (hflag'.trans hextra')
      (hdependent.trans hinto) (hdependent'.trans hinto')]
  · intro hroot key hkey hinto
    obtain ⟨before, hbefore, -, hdependent, hflag⟩ := hformer key hkey
    rw [← hflag]
    exact h.headless (hnext.roots ▸ hroot) before hbefore (hdependent.trans hinto)

section Turn

variable {key : EdgeKey} (hkey : key ∈ graph.keys)
  (hnext : ((graph.eraseRoot key.governor).markRoot key.dependent).Rekeyed
    (turnedKeys graph.keys key) next)

include hkey hnext

theorem ncard_secondaryKeys_lt_of_turn (hextra : key.extra = true) :
    (next.secondaryKeys key.dependent).ncard < (graph.secondaryKeys key.dependent).ncard := by
  refine ncard_secondaryKeys_lt hkey hextra ?_ ?_
  · rw [hnext.keys]
    rintro (heq | ⟨-, hne⟩)
    · cases hextra.symm.trans (congrArg EdgeKey.extra heq)
    · exact hne rfl
  · rw [hnext.keys]
    rintro other (rfl | ⟨hother, -⟩) hextra'
    · cases hextra'
    · exact hother

/-- The dependent that becomes a root loses its head, if the edge that is turned round is a primary
one, and the root that it replaces gets its first head. -/
theorem oneHead_of_turn_primary (h : graph.OneHead index) (hroot : key.governor ∈ graph.roots)
    (hprimary : key.dependent = index → key.extra = false) : next.OneHead index := by
  have hroots : index ∈ next.roots ↔
      index = key.dependent ∨ index ∈ graph.roots ∧ index ≠ key.governor := by
    rw [hnext.roots, mem_roots_markRoot]
    simp [eraseRoot]
  by_cases hdependent : key.dependent = index
  · have hgovernor : key.governor ≠ index := by
      rintro rfl
      exact h.not_root hkey (hprimary hdependent) hdependent hroot
    -- A primary edge that is left would be the one that was turned round.
    refine .of_none fun other hother hinto => ?_
    rw [hnext.keys] at hother
    rcases hother with rfl | ⟨hother, hne⟩
    · exact absurd hinto hgovernor
    · by_contra hextra
      rw [Bool.not_eq_true] at hextra
      exact hne (h.unique other hother key hkey hextra (hprimary hdependent) hinto hdependent)
  · by_cases hgovernor : key.governor = index
    · -- A root has no primary edge, so the new edge is the only one.
      refine .of_single (fun hindex => ?_)
        { governor := key.dependent, dependent := key.governor, relation := "op" }
        fun other hother hextra hinto => ?_
      · rcases hroots.mp hindex with heq | ⟨-, hne⟩
        · exact hdependent heq.symm
        · exact hne hgovernor.symm
      · rw [hnext.keys] at hother
        rcases hother with rfl | ⟨hother, -⟩
        · rfl
        · cases hextra.symm.trans (h.headless (hgovernor ▸ hroot) other hother hinto)
    · refine h.of_subset (fun other hother _ hinto => ?_) fun hindex => ?_
      · rw [hnext.keys] at hother
        rcases hother with rfl | ⟨hother, -⟩
        · exact absurd hinto hgovernor
        · exact hother
      · rcases hroots.mp hindex with heq | ⟨hindex, -⟩
        · exact absurd heq.symm hdependent
        · exact hindex

theorem oneHead_of_turn (h : graph.OneHead index) (hroot : key.governor ∈ graph.roots) :
    next.OneHead index ∨
      (next.secondaryKeys index).ncard < (graph.secondaryKeys index).ncard := by
  by_cases hsecondary : key.extra = true ∧ key.dependent = index
  · obtain ⟨hextra, rfl⟩ := hsecondary
    exact .inr (ncard_secondaryKeys_lt_of_turn hkey hnext hextra)
  · refine .inl (oneHead_of_turn_primary hkey hnext h hroot fun hdependent => ?_)
    simpa [hdependent] using hsecondary

end Turn

section Collapse

variable {root verb preposition object : Nat} {relation name : String}
  (hnext : Collapsed graph root verb preposition object relation name next)

include hnext

/-- A secondary edge that the verb of a clause governs is put back as a primary one. -/
theorem ncard_secondaryKeys_lt_of_collapse {key : EdgeKey}
    (hkey : key ∈ cutKeys graph.keys root verb preposition object relation)
    (hgovernor : key.governor = verb) (hextra : key.extra = true) :
    (next.secondaryKeys key.dependent).ncard < (graph.secondaryKeys key.dependent).ncard := by
  refine ncard_secondaryKeys_lt hkey.1 hextra ?_ ?_
  · rw [hnext.keys]
    rintro (⟨-, hne⟩ | heq | heq | ⟨_, -, -, heq⟩)
    · exact hne hgovernor
    all_goals cases hextra.symm.trans (congrArg EdgeKey.extra heq)
  · rw [hnext.keys]
    rintro other (⟨⟨hother, -⟩, -⟩ | rfl | rfl | ⟨_, -, -, rfl⟩) hextra'
    · exact hother
    all_goals cases hextra'

theorem oneHead_of_collapse_primary (h : graph.OneHead index)
    (hclause : ClauseAt graph root verb preposition object relation)
    (hprimary : ∀ key ∈ cutKeys graph.keys root verb preposition object relation,
      key.governor = verb → key.dependent = index → key.extra = false) : next.OneHead index := by
  obtain ⟨-, ⟨-, hvo⟩, -⟩ := hclause.ne
  have hroot (hindex : index ∈ next.roots) : index ∈ graph.roots := by
    rw [hnext.roots] at hindex
    exact (List.mem_filter.mp hindex).1
  -- The token has its head from the clause, or it is governed by the verb, or nothing changes.
  by_cases hobject : index = object
  · subst hobject
    refine h.of_replaced { governor := root, dependent := index, relation := name }
      hclause.object_mem rfl rfl (fun key hkey _ hinto => ?_) hroot
    rw [hnext.keys] at hkey
    rcases hkey with ⟨hkey, -⟩ | rfl | rfl | ⟨other, hother, hgovernor, rfl⟩
    · exact .inr ⟨hkey.1, hkey.2.2.2.2⟩
    · exact .inl rfl
    · exact absurd hinto hvo
    · exact absurd (h.unique other hother.1 _ hclause.object_mem
        (hprimary other hother hgovernor hinto) rfl hinto rfl) hother.2.2.2.2
  by_cases hverb : index = verb
  · subst hverb
    refine h.of_replaced { governor := object, dependent := index, relation := "mark" }
      hclause.verb_mem rfl rfl (fun key hkey _ hinto => ?_) hroot
    rw [hnext.keys] at hkey
    rcases hkey with ⟨hkey, -⟩ | rfl | rfl | ⟨other, hother, hgovernor, rfl⟩
    · exact .inr ⟨hkey.1, hkey.2.2.2.1⟩
    · exact absurd hinto.symm hobject
    · exact .inl rfl
    · exact absurd (h.unique other hother.1 _ hclause.verb_mem
        (hprimary other hother hgovernor hinto) rfl hinto rfl) hother.2.2.2.1
  by_cases hgoverned : ∃ key ∈ cutKeys graph.keys root verb preposition object relation,
      key.governor = verb ∧ key.dependent = index
  · obtain ⟨key, hkey, hgovernor, hinto⟩ := hgoverned
    have hextra := hprimary key hkey hgovernor hinto
    refine h.of_replaced { governor := root, dependent := key.dependent, relation := key.relation }
      hkey.1 hextra hinto (fun other hother _ hinto' => ?_) hroot
    rw [hnext.keys] at hother
    rcases hother with ⟨hother, hne⟩ | rfl | rfl | ⟨former, hformer, hgovernor', rfl⟩
    · exact .inr ⟨hother.1, fun heq => hne (heq ▸ hgovernor)⟩
    · exact absurd hinto'.symm hobject
    · exact absurd hinto'.symm hverb
    · rw [h.unique former hformer.1 key hkey.1 (hprimary former hformer hgovernor' hinto') hextra
        hinto' hinto]
      exact .inl rfl
  · refine h.of_subset (fun key hkey _ hinto => ?_) hroot
    rw [hnext.keys] at hkey
    rcases hkey with ⟨hkey, -⟩ | rfl | rfl | ⟨other, hother, hgovernor, rfl⟩
    · exact hkey.1
    · exact absurd hinto.symm hobject
    · exact absurd hinto.symm hverb
    · exact absurd ⟨other, hother, hgovernor, hinto⟩ hgoverned

theorem oneHead_of_collapse (h : graph.OneHead index)
    (hclause : ClauseAt graph root verb preposition object relation) :
    next.OneHead index ∨
      (next.secondaryKeys index).ncard < (graph.secondaryKeys index).ncard := by
  by_cases hsecondary : ∃ key ∈ cutKeys graph.keys root verb preposition object relation,
      key.governor = verb ∧ key.dependent = index ∧ key.extra = true
  · obtain ⟨key, hkey, hgovernor, rfl, hextra⟩ := hsecondary
    exact .inr (ncard_secondaryKeys_lt_of_collapse hnext hkey hgovernor hextra)
  · refine .inl (oneHead_of_collapse_primary hnext h hclause fun key hkey hgovernor hinto => ?_)
    by_contra hextra
    rw [Bool.not_eq_false] at hextra
    exact hsecondary ⟨key, hkey, hgovernor, hinto, hextra⟩

end Collapse

/-- A token keeps at most one head, unless the rule turns an edge round or collapses a clause and
thereby takes a secondary edge into the token out. -/
theorem Move.oneHead (move : Move rule graph next) (h : graph.OneHead index) :
    next.OneHead index ∨ (rule = .operatorRoot ∨ rule = .clause) ∧
      (next.secondaryKeys index).ncard < (graph.secondaryKeys index).ncard := by
  cases move with
  | lower hdistinct hquantity hobject hnext =>
      exact .inl (oneHead_of_lower h hdistinct hquantity hobject hnext)
  | relabel _ htargets hnext => exact .inl (oneHead_of_relabel h htargets hnext)
  | turn hroot hkey hnext =>
      exact (oneHead_of_turn hkey hnext h hroot).imp_right fun hlt => ⟨.inl rfl, hlt⟩
  | @drop _ dropped _ _ =>
      refine .inl (h.of_subset (fun key hkey _ _ => ?_) fun hroot => (List.mem_filter.mp hroot).1)
      rw [keys_eraseToken] at hkey
      exact hkey.1
  | collapse hclause hnext _ =>
      exact (oneHead_of_collapse hnext h hclause).imp_right fun hlt => ⟨.inr rfl, hlt⟩

/-! ### Words and relations -/

theorem Move.tokens_subset (move : Move rule graph next) : next.tokens ⊆ graph.tokens := by
  have herase (index : Nat) : (graph.eraseToken index).tokens ⊆ graph.tokens :=
    fun token htoken => (List.mem_filter.mp htoken).1
  cases move with
  | lower _ _ _ hnext => exact hnext.tokens ▸ List.Subset.refl _
  | relabel _ _ hnext => exact hnext.tokens ▸ List.Subset.refl _
  | turn _ _ hnext => exact hnext.tokens ▸ List.Subset.refl _
  | drop => exact herase _
  | collapse _ hnext _ => exact hnext.tokens ▸ herase _

theorem Move.relation_of_mem (move : Move rule graph next) {key : EdgeKey}
    (hkey : key ∈ next.keys) :
    (∃ old ∈ graph.keys, old.relation = key.relation) ∨
      key.relation ∈ ["amod", "det", "op", "mark"] ∨
      ∃ token ∈ graph.tokens, prepositionRelation token.word = key.relation := by
  cases move with
  | lower _ hquantity _ hnext =>
      rw [hnext.keys] at hkey
      rcases hkey with rfl | rfl | ⟨⟨hkey, -⟩, -⟩
      · exact .inr (.inl (by simp))
      · exact .inl ⟨_, hquantity, rfl⟩
      · exact .inl ⟨key, hkey, rfl⟩
  | relabel _ _ hnext =>
      rw [hnext.keys] at hkey
      rcases hkey with ⟨hkey, -⟩ | ⟨target, htarget, rfl⟩
      · exact .inl ⟨key, hkey, rfl⟩
      · exact .inr (.inl (by simp))
  | turn _ _ hnext =>
      rw [hnext.keys] at hkey
      rcases hkey with rfl | ⟨hkey, -⟩
      · exact .inr (.inl (by simp))
      · exact .inl ⟨key, hkey, rfl⟩
  | drop =>
      rw [keys_eraseToken] at hkey
      exact .inl ⟨key, hkey.1, rfl⟩
  | collapse _ hnext hname =>
      rw [hnext.keys] at hkey
      rcases hkey with ⟨⟨hkey, -⟩, -⟩ | rfl | rfl | ⟨other, ⟨hother, -⟩, -, rfl⟩
      · exact .inl ⟨key, hkey, rfl⟩
      · exact .inr (.inr hname)
      · exact .inr (.inl (by simp))
      · exact .inl ⟨other, hother, rfl⟩

end DepNorm.Splice
