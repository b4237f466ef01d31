/-! Counting what is left of a finite list while its members are seen one by one. -/

namespace CBindings

variable {α : Type}

theorem length_filter_lt {p q : α → Bool} (implies : ∀ x, p x = true → q x = true) {x : α}
    {xs : List α} (member : x ∈ xs) (loses : p x = false) (holds : q x = true) :
    (xs.filter p).length < (xs.filter q).length := by
  induction xs with
  | nil => simp at member
  | cons y rest ih =>
    have le : (rest.filter p).length ≤ (rest.filter q).length := by
      clear ih member
      induction rest with
      | nil => simp
      | cons z rest ih =>
        by_cases hp : p z = true
        · simp [hp, implies z hp, ih]
        · by_cases hq : q z = true
          · simp only [List.filter_cons, hp, hq, if_true]
            exact Nat.le_succ_of_le ih
          · simpa [List.filter_cons, hp, hq] using ih
    rcases List.mem_cons.mp member with rfl | later
    · simp only [List.filter_cons, loses, holds, if_true, Bool.false_eq_true, if_false,
        List.length_cons]
      exact Nat.lt_succ_of_le le
    · have lt := ih later
      by_cases hp : p y = true
      · simp [hp, implies y hp, lt]
      · by_cases hq : q y = true
        · simp only [List.filter_cons, hp, hq, if_true]
          exact Nat.lt_succ_of_lt lt
        · simpa [List.filter_cons, hp, hq] using lt

variable [DecidableEq α]

def unseen (all seen : List α) : Nat := (all.filter fun x => x ∉ seen).length

theorem unseen_cons_lt {all seen : List α} {x : α} (member : x ∈ all) (new : x ∉ seen) :
    unseen all (x :: seen) < unseen all seen :=
  length_filter_lt (fun y h => by simp at h ⊢; exact h.2) member (by simp) (by simpa using new)

end CBindings
