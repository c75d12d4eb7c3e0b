/-!
Changes that only make things smaller. Something either stays as it is, exactly if a condition
holds, or becomes smaller; such changes can be put side by side and one after another, and the
condition for the whole is that of all parts.
-/

namespace SvgPress

/-- What was `a` is now `b`: the same if `p` holds, and smaller otherwise. -/
structure Shrinks {α : Type} (size : α → Nat) (a b : α) (p : Prop) : Prop where
  same : p → b = a
  less : ¬ p → size b < size a

namespace Shrinks

variable {α : Type} {size : α → Nat} {a b c : α} {p q : Prop}

theorem refl (a : α) (hp : p) : Shrinks size a a p :=
  ⟨fun _ => rfl, fun h => absurd hp h⟩

theorem of_less (hp : ¬ p) (h : size b < size a) : Shrinks size a b p :=
  ⟨fun h => absurd h hp, fun _ => h⟩

theorem size_le (h : Shrinks size a b p) : size b ≤ size a := by
  by_cases hp : p
  · exact Nat.le_of_eq (congrArg size (h.same hp))
  · exact Nat.le_of_lt (h.less hp)

theorem same_or_less (h : Shrinks size a b p) : b = a ∨ size b < size a := by
  by_cases hp : p
  · exact .inl (h.same hp)
  · exact .inr (h.less hp)

theorem eq_iff (h : Shrinks size a b p) : b = a ↔ p := by
  refine ⟨fun heq => ?_, h.same⟩
  by_cases hp : p
  · exact hp
  · have hless := h.less hp
    rw [heq] at hless
    exact absurd hless (Nat.lt_irrefl _)

theorem congr (h : Shrinks size a b p) (hpq : p ↔ q) : Shrinks size a b q := by
  rwa [← propext hpq]

theorem trans (h : Shrinks size a b p) (h' : Shrinks size b c q) : Shrinks size a c (p ∧ q) where
  same hpq := by rw [h'.same hpq.2, h.same hpq.1]
  less hnot := by
    have hle := h.size_le
    have hle' := h'.size_le
    by_cases hp : p
    · have hless := h'.less fun hq => hnot ⟨hp, hq⟩
      omega
    · have hless := h.less hp
      omega

/-- Two changes side by side. -/
theorem append [Append α] (hsize : ∀ x y : α, size (x ++ y) = size x + size y) {a' b' : α}
    (h : Shrinks size a b p) (h' : Shrinks size a' b' q) :
    Shrinks size (a ++ a') (b ++ b') (p ∧ q) where
  same hpq := by rw [h.same hpq.1, h'.same hpq.2]
  less hnot := by
    have hle := h.size_le
    have hle' := h'.size_le
    rw [hsize, hsize]
    by_cases hp : p
    · have hless := h'.less fun hq => hnot ⟨hp, hq⟩
      omega
    · have hless := h.less hp
      omega

end Shrinks

end SvgPress
