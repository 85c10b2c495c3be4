/-!
Rounds of one thing after another. A relation says what a round makes of a state; where each round
makes a size smaller, there are no more rounds than the size says, and after some of them no further
one is possible.
-/

namespace DepNorm

variable {α : Type}

/-- So many rounds lead from one state to the other. -/
inductive Rounds (R : α → α → Prop) : Nat → α → α → Prop
  | none (a : α) : Rounds R 0 a a
  | next {count : Nat} {a b c : α} (first : R a b) (rest : Rounds R count b c) :
      Rounds R (count + 1) a c

/-- A round keeps an invariant, and makes the size of a state that has it smaller. -/
def Lessens (R : α → α → Prop) (inv : α → Prop) (size : α → Nat) : Prop :=
  ∀ a b, inv a → R a b → inv b ∧ size b < size a

namespace Lessens

variable {R : α → α → Prop} {inv : α → Prop} {size : α → Nat} {a b : α} {count : Nat}

theorem count_add_size_le (h : Lessens R inv size) (ha : inv a) (hrounds : Rounds R count a b) :
    count + size b ≤ size a := by
  induction hrounds with
  | none => omega
  | next first _ ih =>
      obtain ⟨hmid, hlt⟩ := h _ _ ha first
      have hrest := ih hmid
      omega

/-- After some rounds no further one is possible. -/
theorem exists_last (h : Lessens R inv size) (ha : inv a) :
    ∃ count last, Rounds R count a last ∧ inv last ∧ ∀ b, ¬ R last b := by
  induction hsize : size a using Nat.strongRecOn generalizing a with
  | ind n ih =>
      by_cases hround : ∃ b, R a b
      · obtain ⟨b, hab⟩ := hround
        obtain ⟨hb, hlt⟩ := h a b ha hab
        obtain ⟨count, last, hrounds, hlast⟩ := ih (size b) (hsize ▸ hlt) hb rfl
        exact ⟨count + 1, last, .next hab hrounds, hlast⟩
      · exact ⟨0, a, .none a, ha, fun b hab => hround ⟨b, hab⟩⟩

end Lessens

end DepNorm
