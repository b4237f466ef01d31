import CBindings.Proofs.Integer.Decimal
import CBindings.Proofs.Output.Module

/-! Names of modules: each is spelled like one, and it is the first one free among the numbered
names of its header. -/

namespace CBindings.OutputModule

open Text

variable {name : String} {text other : List Char}

/-! ### Spelling -/

/-- A name that starts like one and consists of small letters, digits and low lines. -/
structure IsSpelled (text : List Char) : Prop where
  filled : text ≠ []
  characters : ∀ c ∈ text, ('a' ≤ c ∧ c ≤ 'z') ∨ ('0' ≤ c ∧ c ≤ '9') ∨ c = '_'
  start : ∀ c ∈ text.head?, ¬('0' ≤ c ∧ c ≤ '9')

theorem isNameChar_iff (c : Char) :
    isNameChar c = true ↔ ('a' ≤ c ∧ c ≤ 'z') ∨ ('0' ≤ c ∧ c ≤ '9') ∨ c = '_' := by
  simp only [isNameChar, isAsciiDigit, Bool.or_eq_true, Bool.and_eq_true, decide_eq_true_eq,
    or_assoc]

theorem IsSpelled.append (spelled : IsSpelled text) (more : ∀ c ∈ other, isNameChar c = true) :
    IsSpelled (text ++ other) where
  filled := List.append_ne_nil_of_left_ne_nil spelled.filled other
  characters c member := by
    rcases List.mem_append.mp member with first | second
    · exact spelled.characters c first
    · exact (isNameChar_iff c).mp (more c second)
  start c head := by
    rw [List.head?_append_of_ne_nil text spelled.filled] at head
    exact spelled.start c head

def numbered (base : String) : Nat → String
  | 0 => base
  | k + 1 => base ++ "_" ++ toString (k + 2)

/-- A number can stand in the way of another header, and a keyword is set apart. -/
example : namesFor [] ["a.h", "x/A.h", "a_2.h", "8.h", "type.h", ""] =
    ["a", "a_2", "a_2_2", "_8", "type_h", "header"] := by
  decide +kernel

end CBindings.OutputModule
