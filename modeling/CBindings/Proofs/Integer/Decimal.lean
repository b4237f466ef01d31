import CBindings.Integer.Literal
import Mathlib.Algebra.Group.Nat.Defs
import Mathlib.Data.List.TakeWhile

/-! The digits of a number in some base, and decimal literals: what is printed in decimal is read
again as the same number. -/

namespace CBindings

namespace Text

variable {base : Nat}

theorem digitIn?_digitChar {digit : Nat} (few : base ≤ 16) (small : digit < base) :
    digitIn? base digit.digitChar = some digit := by
  have all : ∀ b ≤ 16, ∀ d < b, digitIn? b (Nat.digitChar d) = some d := by decide
  exact all base few digit small

theorem ofDigits_append (digits : List Nat) (last : Nat) :
    ofDigits base (digits ++ [last]) = ofDigits base digits * base + last := by
  simp [ofDigits]

theorem exists_digitChar (several : 1 < base) {n : Nat} {c : Char}
    (member : c ∈ Nat.toDigits base n) : ∃ digit < base, c = digit.digitChar := by
  induction n using Nat.strongRecOn with
  | ind n ih =>
    rcases Nat.lt_or_ge n base with small | large
    · rw [Nat.toDigits_of_lt_base small, List.mem_singleton] at member
      exact ⟨n, small, member⟩
    · rw [Nat.toDigits_of_base_le several large, List.mem_append, List.mem_singleton] at member
      rcases member with front | last
      · exact ih (n / base) (Nat.div_lt_self (by omega) several) front
      · exact ⟨n % base, Nat.mod_lt n (by omega), last⟩

theorem ofDigits_toDigits_base (several : 1 < base) (few : base ≤ 16) (n : Nat) :
    ofDigits base ((Nat.toDigits base n).filterMap (digitIn? base)) = n := by
  induction n using Nat.strongRecOn with
  | ind n ih =>
    rcases Nat.lt_or_ge n base with small | large
    · rw [Nat.toDigits_of_lt_base small]
      simp [digitIn?_digitChar few small, ofDigits]
    · have last : n % base < base := Nat.mod_lt n (by omega)
      have less : n / base < n := Nat.div_lt_self (by omega) several
      rw [Nat.toDigits_of_base_le several large, List.filterMap_append, List.filterMap_cons,
        digitIn?_digitChar few last, List.filterMap_nil, ofDigits_append, ih (n / base) less]
      exact Nat.div_add_mod' n base

theorem isAsciiDigit_of_mem_toDigits (several : 1 < base) (few : base ≤ 10) {c : Char} {n : Nat}
    (member : c ∈ Nat.toDigits base n) : isAsciiDigit c = true := by
  have each : ∀ d < 10, isAsciiDigit (Nat.digitChar d) = true := by decide
  obtain ⟨d, less, rfl⟩ := exists_digitChar several member
  exact each d (by omega)

theorem mem_toDigits {c : Char} {n : Nat} (member : c ∈ Nat.toDigits 10 n) :
    isAsciiDigit c = true :=
  isAsciiDigit_of_mem_toDigits (by decide) (by decide) member

theorem ofDigits_toDigits (n : Nat) :
    ofDigits 10 ((Nat.toDigits 10 n).filterMap (digitIn? 10)) = n :=
  ofDigits_toDigits_base (by decide) (by decide) n

theorem head_toDigits {n : Nat} (positive : 0 < n) : (Nat.toDigits 10 n).head? ≠ some '0' := by
  induction n using Nat.strongRecOn with
  | ind n ih =>
    rcases Nat.lt_or_ge n 10 with small | large
    · rw [Nat.toDigits_of_lt_base small]
      have all : ∀ d < 10, 0 < d → [Nat.digitChar d].head? ≠ some '0' := by decide
      exact all n small positive
    · have front := ih (n / 10) (by omega) (by omega)
      rw [Nat.toDigits_of_base_le (by decide) large]
      cases written : Nat.toDigits 10 (n / 10) with
      | nil => exact absurd written Nat.toDigits_ne_nil
      | cons first rest => simpa [written] using front

end Text

namespace Literal

open Text

theorem digits?_toDigits (n : Nat) :
    digits? (Nat.toDigits 10 n) = some ⟨.decimal, Nat.toDigits 10 n, []⟩ := by
  rcases Nat.eq_zero_or_pos n with rfl | positive
  · rfl
  · have front := head_toDigits positive
    have digits : ∀ c ∈ Nat.toDigits 10 n, isAsciiDigit c = true := fun c => mem_toDigits
    cases written : Nat.toDigits 10 n with
    | nil => exact absurd written Nat.toDigits_ne_nil
    | cons first rest =>
      rw [written] at front digits
      have other : first ≠ '0' := fun same => front (congrArg some same)
      have taken : (first :: rest).takeWhile isAsciiDigit = first :: rest :=
        List.takeWhile_eq_self_iff.mpr digits
      have left : (first :: rest).dropWhile isAsciiDigit = [] :=
        List.dropWhile_eq_nil_iff.mpr digits
      simp only [digits?, taken, left]
      split
      · next mark rest' same => exact absurd (List.cons.inj same).1 other
      · split
        · next same => cases same
        · next same => exact absurd (List.cons.inj same).1 other
        · next same => exact absurd (List.cons.inj same).1 other
        · rfl

theorem candidates_decimal :
    candidates 32 .decimal (.plain false 0) = [.int, ⟨32, true⟩, .longLong] := by decide

theorem integer_repr {n : Nat} (small : n < 2 ^ 63) :
    ∃ value, integer n.repr = .ok value ∧ value.value = n := by
  have kept : dropFinalLineFeed (Nat.toDigits 10 n) = Nat.toDigits 10 n := by
    unfold dropFinalLineFeed
    split
    · next feed =>
      have digit := mem_toDigits (List.mem_of_getLast? feed)
      exact absurd digit (by decide)
    · rfl
  have value : valueOf .decimal (Nat.toDigits 10 n) = n := ofDigits_toDigits n
  have read : integer n.repr = .ok (typed [.int, ⟨32, true⟩, .longLong] .decimal n) := by
    simp only [integer, Nat.toList_repr, kept, digits?_toDigits, value]
    rw [← candidates_decimal]
    rfl
  refine ⟨_, read, ?_⟩
  have fits : IntType.longLong.fits n = true := by
    simp only [IntType.fits, IntType.min, IntType.max, IntType.longLong, IntType.half,
      Bool.and_eq_true, decide_eq_true_eq, if_true]
    constructor
    · simp
    · simp only [Nat.pow_eq]
      omega
  unfold typed
  split
  · rfl
  · next none =>
    rw [List.find?_eq_none] at none
    exact absurd fits (none .longLong (by simp))

end Literal

end CBindings
