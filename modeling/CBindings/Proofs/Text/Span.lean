/-! The part of a text up to the first character that does not belong to it. -/

namespace CBindings.Text

theorem span_append {α : Type} {p : α → Bool} {front rest : List α}
    (inside : ∀ x ∈ front, p x = true) (stops : ∀ x ∈ rest.head?, p x = false) :
    (front ++ rest).takeWhile p = front ∧ (front ++ rest).dropWhile p = rest := by
  have stop : rest.takeWhile p = [] ∧ rest.dropWhile p = rest := by
    cases rest with
    | nil => exact ⟨rfl, rfl⟩
    | cons x more =>
      have outside : p x = false := stops x rfl
      simp [outside]
  constructor
  · rw [List.takeWhile_append_of_pos inside, stop.1, List.append_nil]
  · rw [List.dropWhile_append_of_pos inside, stop.2]

end CBindings.Text
