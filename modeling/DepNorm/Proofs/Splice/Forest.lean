import DepNorm.Proofs.Graph.Forest
import DepNorm.Proofs.Splice.Move

/-!
Forests under the moves of the rules. Every move but that of the clause rule keeps a forest. That
tokens stay attached is shown from the roots downwards: each edge of the forest is still there, or
there is another way from its governor to its dependent.
-/

namespace DepNorm.Splice

open DepNorm.Graph

variable {graph next : Graph}

theorem mem_loweredKeys (h : graph.Forest) {relation : String} {verb quantity object : Nat}
    (hquantity : { governor := verb, dependent := quantity, relation } ∈ graph.keys)
    (hobject : { governor := quantity, dependent := object, relation := "nmod:of" } ∈ graph.keys)
    {key : EdgeKey} : key ∈ loweredKeys graph.keys relation verb quantity object ↔
      key = { governor := object, dependent := quantity, relation := "amod" } ∨
      key = { governor := verb, dependent := object, relation } ∨
      key ∈ graph.keys ∧ key.dependent ≠ quantity ∧ key.dependent ≠ object := by
  have hkept : key ∈ (graph.keys \ {{ governor := verb, dependent := quantity, relation }}) \
      {{ governor := quantity, dependent := object, relation := "nmod:of" }} ↔
        key ∈ graph.keys ∧ key.dependent ≠ quantity ∧ key.dependent ≠ object := by
    constructor
    · rintro ⟨hfirst, hsecond⟩
      obtain ⟨hkey, hq⟩ := (h.mem_sdiff_iff hquantity).mp hfirst
      exact ⟨hkey, hq, ((h.mem_sdiff_iff hobject).mp ⟨hkey, hsecond⟩).2⟩
    · rintro ⟨hkey, hq, ho⟩
      exact ⟨(h.mem_sdiff_iff hquantity).mpr ⟨hkey, hq⟩,
        ((h.mem_sdiff_iff hobject).mpr ⟨hkey, ho⟩).2⟩
  rw [loweredKeys, Set.mem_insert_iff, Set.mem_insert_iff, hkept]

/-- The object, which hung below the quantity, comes to hang above it. -/
theorem forest_of_lower (h : graph.Forest) {relation : String} {verb quantity object : Nat}
    (hdistinct : [verb, quantity, object].Nodup)
    (hquantity : { governor := verb, dependent := quantity, relation } ∈ graph.keys)
    (hobject : { governor := quantity, dependent := object, relation := "nmod:of" } ∈ graph.keys)
    (hnext : graph.Rekeyed (loweredKeys graph.keys relation verb quantity object) next) :
    next.Forest := by
  have hqo : quantity ≠ object := by
    rintro rfl
    simp at hdistinct
  have hqroot : quantity ∉ graph.roots := h.dependent_not_root hquantity
  have horoot : object ∉ graph.roots := h.dependent_not_root hobject
  have hmem (key : EdgeKey) : key ∈ next.keys ↔
      key = { governor := object, dependent := quantity, relation := "amod" } ∨
      key = { governor := verb, dependent := object, relation } ∨
      key ∈ graph.keys ∧ key.dependent ≠ quantity ∧ key.dependent ≠ object := by
    rw [hnext.keys, mem_loweredKeys h hquantity hobject]
  refine hnext.wellFormed.forest_iff.mpr
    ⟨(Move.lower hdistinct hquantity hobject hnext).primary h.key_primary, ?_, ?_, ?_⟩
  · intro key hkey
    rw [hnext.roots]
    rcases (hmem key).mp hkey with rfl | rfl | ⟨hkey, -⟩
    · exact hqroot
    · exact horoot
    · exact h.dependent_not_root hkey
  · intro key hkey other hother heq
    rcases (hmem key).mp hkey with rfl | rfl | ⟨hkey, hq, ho⟩ <;>
      rcases (hmem other).mp hother with rfl | rfl | ⟨hother, hq', ho'⟩
    · rfl
    · exact absurd heq hqo
    · exact absurd heq.symm hq'
    · exact absurd heq.symm hqo
    · rfl
    · exact absurd heq.symm ho'
    · exact absurd heq hq
    · exact absurd heq ho
    · exact h.key_eq hkey hother heq
  · intro index hindex
    have hobject' : next.Attached verb → next.Attached object :=
      attached_of_key ((hmem { governor := verb, dependent := object, relation }).mpr
        (.inr (.inl rfl)))
    have hquantity' : next.Attached object → next.Attached quantity :=
      attached_of_key ((hmem { governor := object, dependent := quantity, relation := "amod" }).mpr
        (.inl rfl))
    refine (h.attached index (hnext.mem_iff.mp hindex)).closed next.Attached
      (fun root hroot => ?_) fun key hkey hattached => ?_
    · exact attached_of_root (hnext.roots ▸ hroot)
    · by_cases hq : key.dependent = quantity
      · cases h.key_eq hkey hquantity hq
        exact hquantity' (hobject' hattached)
      · by_cases ho : key.dependent = object
        · cases h.key_eq hkey hobject ho
          -- The quantity can only be attached by its new edge, which comes from the object.
          obtain hroot | ⟨other, hother, hdependent, hgovernor⟩ := hattached.root_or_key
          · exact absurd (hnext.roots ▸ hroot) hqroot
          · rcases (hmem other).mp hother with rfl | rfl | ⟨-, hne, -⟩
            · exact hgovernor
            · exact absurd hdependent.symm hqo
            · exact absurd hdependent hne
        · exact attached_of_key ((hmem key).mpr (.inr (.inr ⟨hkey, hq, ho⟩))) hattached

theorem forest_of_relabel {rule : Rule} (h : graph.Forest) {targets : Set EdgeKey}
    (hrule : rule = .quantity ∨ rule = .determiner) (htargets : targets ⊆ graph.keys)
    (hnext : graph.Rekeyed (relabelledKeys graph.keys targets) next) : next.Forest := by
  -- What a key of the new graph was before.
  have hformer (key : EdgeKey) (hkey : key ∈ next.keys) : ∃ before ∈ graph.keys,
      before.dependent = key.dependent ∧ (before ∉ targets ∧ key = before ∨
        before ∈ targets ∧ key = { before with relation := "det" }) := by
    rw [hnext.keys] at hkey
    rcases hkey with ⟨hkey, hnot⟩ | ⟨target, htarget, rfl⟩
    · exact ⟨key, hkey, rfl, .inl ⟨hnot, rfl⟩⟩
    · exact ⟨target, htargets htarget, rfl, .inr ⟨htarget, rfl⟩⟩
  refine hnext.wellFormed.forest_iff.mpr
    ⟨(Move.relabel hrule htargets hnext).primary h.key_primary, ?_, ?_, ?_⟩
  · intro key hkey
    obtain ⟨before, hbefore, hdependent, -⟩ := hformer key hkey
    rw [hnext.roots, ← hdependent]
    exact h.dependent_not_root hbefore
  · intro key hkey other hother heq
    obtain ⟨before, hbefore, hdependent, hcases⟩ := hformer key hkey
    obtain ⟨before', hbefore', hdependent', hcases'⟩ := hformer other hother
    cases h.key_eq hbefore hbefore' (hdependent.trans (heq.trans hdependent'.symm))
    rcases hcases with ⟨hnot, rfl⟩ | ⟨htarget, rfl⟩ <;>
      rcases hcases' with ⟨hnot', rfl⟩ | ⟨htarget', rfl⟩
    · rfl
    · exact absurd htarget' hnot
    · exact absurd htarget hnot'
    · rfl
  · intro index hindex
    refine (h.attached index (hnext.mem_iff.mp hindex)).closed next.Attached
      (fun root hroot => ?_) fun key hkey hattached => ?_
    · exact attached_of_root (hnext.roots ▸ hroot)
    · by_cases htarget : key ∈ targets
      · have hnew : { key with relation := "det" } ∈ next.keys := by
          rw [hnext.keys]
          exact .inr ⟨key, htarget, rfl⟩
        exact (attached_of_key hnew hattached :)
      · have hkept : key ∈ next.keys := by
          rw [hnext.keys]
          exact .inl ⟨hkey, htarget⟩
        exact attached_of_key hkept hattached

theorem forest_of_turn (h : graph.Forest) {key : EdgeKey} (hroot : key.governor ∈ graph.roots)
    (hkey : key ∈ graph.keys)
    (hnext : ((graph.eraseRoot key.governor).markRoot key.dependent).Rekeyed
      (turnedKeys graph.keys key) next) : next.Forest := by
  have hheir : key.dependent ≠ key.governor := fun heq =>
    h.dependent_not_root hkey (heq ▸ hroot)
  have hroots (index : Nat) : index ∈ next.roots ↔
      index = key.dependent ∨ index ∈ graph.roots ∧ index ≠ key.governor := by
    rw [hnext.roots, mem_roots_markRoot, eraseRoot, List.mem_filter, bne_iff_ne]
  have hmem (other : EdgeKey) : other ∈ next.keys ↔
      other = { governor := key.dependent, dependent := key.governor, relation := "op" } ∨
      other ∈ graph.keys ∧ other.dependent ≠ key.dependent := by
    rw [hnext.keys, turnedKeys, Set.mem_insert_iff, h.mem_sdiff_iff hkey]
  refine hnext.wellFormed.forest_iff.mpr
    ⟨(Move.turn hroot hkey hnext).primary h.key_primary, ?_, ?_, ?_⟩
  · intro other hother
    rw [hroots]
    rcases (hmem other).mp hother with rfl | ⟨hother, hne⟩
    · rintro (heq | ⟨-, hne⟩)
      · exact hheir heq.symm
      · exact hne rfl
    · rintro (heq | ⟨hmemroots, -⟩)
      · exact hne heq
      · exact h.dependent_not_root hother hmemroots
  · -- The old root had no edge in, so the new one is its only one.
    intro other hother other' hother' heq
    rcases (hmem other).mp hother with rfl | ⟨hother, -⟩ <;>
      rcases (hmem other').mp hother' with rfl | ⟨hother', -⟩
    · rfl
    · exact absurd (heq ▸ hroot) (h.dependent_not_root hother')
    · exact absurd (heq ▸ hroot) (h.dependent_not_root hother)
    · exact h.key_eq hother hother' heq
  · -- Where the old root led, the new root leads, through the old one.
    intro index hindex
    have hheir' : next.Attached key.dependent := attached_of_root ((hroots _).mpr (.inl rfl))
    refine (h.attached index (hnext.mem_iff.mp hindex)).closed next.Attached
      (fun root hmemroots => ?_) fun other hother hattached => ?_
    · by_cases hold : root = key.governor
      · rw [hold]
        exact attached_of_key ((hmem _).mpr (.inl rfl)) hheir'
      · exact attached_of_root ((hroots root).mpr (.inr ⟨hmemroots, hold⟩))
    · by_cases hdependent : other.dependent = key.dependent
      · exact hdependent ▸ hheir'
      · exact attached_of_key ((hmem other).mpr (.inr ⟨hother, hdependent⟩)) hattached

theorem forest_of_drop (h : graph.Forest) {index : Nat} (hindex : index ∈ graph)
    (hleaf : ∀ key ∈ graph.keys, key.governor ≠ index) : (graph.eraseToken index).Forest := by
  have hmem (key : EdgeKey) : key ∈ (graph.eraseToken index).keys ↔
      key ∈ graph.keys ∧ key.governor ≠ index ∧ key.dependent ≠ index := by
    rw [keys_eraseToken]
    rfl
  have hroots (root : Nat) :
      root ∈ (graph.eraseToken index).roots ↔ root ∈ graph.roots ∧ root ≠ index := by
    rw [eraseToken, List.mem_filter, bne_iff_ne]
  refine (h.toWellFormed.eraseToken index).forest_iff.mpr
    ⟨(Move.drop hindex hleaf).primary h.key_primary, ?_, ?_, ?_⟩
  · intro key hkey hroot
    exact h.dependent_not_root ((hmem key).mp hkey).1 ((hroots _).mp hroot).1
  · intro key hkey other hother heq
    exact h.key_eq ((hmem key).mp hkey).1 ((hmem other).mp hother).1 heq
  · intro token htoken
    obtain ⟨htoken, hne⟩ := mem_eraseToken.mp htoken
    refine (h.attached token htoken).closed
      (fun token => token ≠ index → (graph.eraseToken index).Attached token)
        (fun root hroot hne => ?_) (fun key hkey hattached hne => ?_) hne
    · exact attached_of_root ((hroots root).mpr ⟨hroot, hne⟩)
    · have hgovernor := hleaf key hkey
      exact attached_of_key ((hmem key).mpr ⟨hkey, hgovernor, hne⟩) (hattached hgovernor)

/-- Every move but that of the clause rule keeps a forest. -/
theorem Move.forest {rule : Rule} (move : Move rule graph next) (hrule : rule ≠ .clause)
    (h : graph.Forest) : next.Forest := by
  cases move with
  | lower hdistinct hquantity hobject hnext =>
      exact forest_of_lower h hdistinct hquantity hobject hnext
  | relabel hrule htargets hnext => exact forest_of_relabel h hrule htargets hnext
  | turn hroot hkey hnext => exact forest_of_turn h hroot hkey hnext
  | drop hindex hleaf => exact forest_of_drop h hindex hleaf
  | collapse => exact absurd rfl hrule

theorem Moves.forest {rule : Rule} (moves : Moves rule graph next) (hrule : rule ≠ .clause)
    (h : graph.Forest) : next.Forest := moves.keep Graph.Forest (fun move => move.forest hrule) h

end DepNorm.Splice
