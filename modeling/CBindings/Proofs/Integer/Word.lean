import CBindings.Proofs.Integer.Range
import Mathlib.Tactic.Linarith

/-! Integers as words of 64 bits: what the 64-bit types and `int` hold, and what conversions and
operations on them do to the words. -/

namespace CBindings

namespace IntType

variable {t a b : IntType} {x y : Int}

def IsWide (t : IntType) : Prop := t = .int ∨ t.bits = 64

def ofWord (t : IntType) (word : BitVec 64) : Int := if t.signed then word.toInt else word.toNat

theorem ofInt_toNat {w : Nat} (word : BitVec w) : BitVec.ofInt w word.toNat = word := by
  rw [BitVec.ofInt_natCast, BitVec.ofNat_toNat, BitVec.setWidth_eq]

theorem ofInt_ofWord (t : IntType) (word : BitVec 64) : BitVec.ofInt 64 (t.ofWord word) = word := by
  unfold ofWord
  split
  · exact BitVec.ofInt_toInt
  · exact ofInt_toNat word

theorem ofWord_zero (t : IntType) : t.ofWord 0 = 0 := by
  unfold ofWord
  split <;> rfl

theorem half_wide (wide : t.bits = 64) : t.half = 2 ^ 63 := by
  rw [half, wide]
  rfl

theorem modulus_wide (wide : t.bits = 64) : t.modulus = 2 ^ 64 := by
  rw [modulus, wide]
  rfl

theorem wrap_eq_ofWord (wide : t.bits = 64) (x : Int) :
    t.wrap x = t.ofWord (BitVec.ofInt 64 x) := by
  unfold wrap ofWord residue
  rw [half_wide wide, modulus_wide wide, BitVec.toInt_ofInt, BitVec.toNat_ofInt, Int.bmod_def]
  cases t.signed with
  | true =>
    simp only [Bool.true_and, if_true, decide_eq_true_eq]
    split <;> split <;> omega
  | false => rfl

theorem residue_eq_toNat {w : Nat} (width : t.bits = w) (x : Int) :
    t.residue x = (BitVec.ofInt w x).toNat := by
  rw [residue, modulus, width, BitVec.toNat_ofInt]
  rfl

theorem ofInt_wrap {w : Nat} (width : t.bits = w) (x : Int) :
    BitVec.ofInt w (t.wrap x) = BitVec.ofInt w x := by
  have same : t.residue (t.wrap x) = t.residue x := by
    have wrapped : t.wrap x % t.modulus = x % t.modulus := by
      unfold wrap
      rw [residue_eq_emod]
      dsimp only
      split
      · rw [Int.sub_emod_right, Int.emod_emod]
      · rw [Int.emod_emod]
    rw [residue, residue, wrapped]
  rw [← BitVec.toNat_inj, ← residue_eq_toNat width, ← residue_eq_toNat width, same]

/-! ### The type of truth values -/

theorem int_fits_iff : int.fits x = true ↔ -2 ^ 31 ≤ x ∧ x ≤ 2 ^ 31 - 1 := by
  have least : int.min = -2 ^ 31 := by decide
  have greatest : int.max = 2 ^ 31 - 1 := by decide
  rw [IntType.fits, Bool.and_eq_true, decide_eq_true_eq, decide_eq_true_eq, least, greatest]

theorem int_wrap_eq_toInt (x : Int) : int.wrap x = (BitVec.ofInt 32 x).toInt := by
  have half : int.half = 2 ^ 31 := by decide
  have modulus : int.modulus = 2 ^ 32 := by decide
  unfold wrap residue
  rw [half, modulus, BitVec.toInt_ofInt, Int.bmod_def]
  simp only [int, Bool.true_and, decide_eq_true_eq]
  split <;> split <;> omega

theorem ofInt_eq_signExtend (fits : int.fits x = true) :
    BitVec.ofInt 64 x = (BitVec.ofInt 32 x).signExtend 64 := by
  rw [← wrap_of_fits (by decide) fits, int_wrap_eq_toInt, BitVec.ofInt_toInt]
  rfl

/-! ### Conversions -/

theorem eq_ofWord_of_fits (wide : t.IsWide) (fits : t.fits x = true) :
    x = t.ofWord (BitVec.ofInt 64 x) := by
  rcases wide with rfl | wide
  · have signed : int.signed = true := rfl
    have bounds := int_fits_iff.mp fits
    rw [ofWord, if_pos signed, BitVec.toInt_ofInt, Int.bmod_def]
    split <;> omega
  · rw [← wrap_eq_ofWord wide, wrap_of_fits (by omega) fits]

theorem promote_wide (wide : t.IsWide) : t.promote = t := by
  refine promote_of_le ?_
  rcases wide with rfl | wide
  · decide
  · omega

theorem common_wide (first : a.IsWide) (second : b.IsWide) :
    a = .int ∧ b = .int ∧ common a b = .int ∨ (common a b).bits = 64 := by
  have narrow : int.bits = 32 := rfl
  unfold common
  rw [promote_wide first, promote_wide second]
  rcases first with rfl | first
  · rcases second with rfl | second
    · exact .inl ⟨rfl, rfl, by decide⟩
    · right
      have signed : int.signed = true := rfl
      simp only [narrow, signed, second, beq_iff_eq, if_true]
      split
      · rw [if_neg (by decide)]
        exact second
      · rw [if_pos (by decide)]
        exact second
  · right
    rcases second with rfl | second
    · simp only [narrow, first]
      split
      · rw [if_pos (by decide)]
        exact first
      · next differ =>
        have unsigned : a.signed = false := by simpa [int] using differ
        simp [unsigned, first, int]
    · simp only [first, second]
      split
      · rw [if_pos (Nat.le_refl 64)]
        exact first
      · cases signed : a.signed <;> simp [first, second]

end IntType

open IntType

/-! ### Operations on numbers and on their words -/

section

variable {t : IntType} {x y : Int} {f : Nat → Nat → Nat}
  {bits : (w : Nat) → BitVec w → BitVec w → BitVec w}

theorem ofInt_sub {w : Nat} (x y : Int) :
    BitVec.ofInt w (x - y) = BitVec.ofInt w x - BitVec.ofInt w y := by
  rw [Int.sub_eq_add_neg, BitVec.ofInt_add, BitVec.ofInt_neg, BitVec.sub_eq_add_neg]

theorem ofInt_complement (x : Int) : BitVec.ofInt 64 (-x - 1) = ~~~BitVec.ofInt 64 x := by
  rw [ofInt_sub, BitVec.ofInt_neg, BitVec.not_eq_neg_add]
  rfl

theorem ofInt_mul_two_pow (x : Int) (n : Nat) :
    BitVec.ofInt 64 (x * 2 ^ n) = BitVec.ofInt 64 x <<< n := by
  have power : BitVec.ofInt 64 (2 ^ n) = BitVec.twoPow 64 n := by
    rw [← BitVec.toNat_inj, BitVec.toNat_twoPow]
    norm_cast
  rw [BitVec.ofInt_mul, BitVec.shiftLeft_eq_mul_twoPow, power]

section

variable {unsigned : Bool} (sign : t.signed = !unsigned) (a b : BitVec 64)

include sign

theorem ofWord_eq : t.ofWord a = if unsigned then (a.toNat : Int) else a.toInt := by
  rw [ofWord, sign]
  cases unsigned <;> rfl

theorem ofInt_tdiv :
    BitVec.ofInt 64 ((t.ofWord a).tdiv (t.ofWord b)) = if unsigned then a / b else a.sdiv b := by
  rw [ofWord_eq sign, ofWord_eq sign]
  cases unsigned with
  | true =>
    simp only [if_true]
    rw [← Int.ofNat_tdiv, ← BitVec.toNat_udiv, ofInt_toNat]
  | false =>
    simp only [Bool.false_eq_true, if_false]
    rw [← BitVec.toInt_inj, BitVec.toInt_sdiv, BitVec.toInt_ofInt]

theorem ofInt_tmod :
    BitVec.ofInt 64 ((t.ofWord a).tmod (t.ofWord b)) = if unsigned then a % b else a.srem b := by
  rw [ofWord_eq sign, ofWord_eq sign]
  cases unsigned with
  | true =>
    simp only [if_true]
    rw [← Int.ofNat_tmod, ← BitVec.toNat_umod, ofInt_toNat]
  | false =>
    simp only [Bool.false_eq_true, if_false]
    rw [← BitVec.toInt_srem, BitVec.ofInt_toInt]

theorem ofInt_shiftRight (n : Nat) :
    BitVec.ofInt 64 (t.ofWord a >>> n) = if unsigned then a >>> n else a.sshiftRight n := by
  rw [ofWord_eq sign]
  cases unsigned with
  | true =>
    simp only [if_true]
    rw [← Int.natCast_shiftRight, ← BitVec.toNat_ushiftRight, ofInt_toNat]
  | false =>
    simp only [Bool.false_eq_true, if_false]
    rw [← BitVec.toInt_sshiftRight, BitVec.ofInt_toInt]

theorem ofWord_lt :
    decide (t.ofWord a < t.ofWord b) = if unsigned then a.ult b else a.slt b := by
  rw [ofWord_eq sign, ofWord_eq sign]
  cases unsigned with
  | true =>
    simp only [if_true, Int.ofNat_lt]
    rfl
  | false => rfl

theorem ofWord_le :
    decide (t.ofWord a ≤ t.ofWord b) = if unsigned then a.ule b else a.sle b := by
  rw [ofWord_eq sign, ofWord_eq sign]
  cases unsigned with
  | true =>
    simp only [if_true, Int.ofNat_le]
    rfl
  | false => rfl

end

/-- The evaluator's left shift stops at the width of the type. No bit of a number is left there,
unless the number leaves the range on the way. -/
theorem ofInt_shiftLeft (wide : t.IsWide) {n : Nat}
    (range : t = .int → int.fits (x * 2 ^ n) = true) :
    BitVec.ofInt 64 (t.shiftLeft x n) = BitVec.ofInt 64 x <<< n := by
  have power : ((Nat.pow 2 (Nat.min n t.bits) : Nat) : Int) = 2 ^ (min n t.bits) := by
    exact_mod_cast rfl
  unfold shiftLeft
  rw [power]
  rcases wide with rfl | wide
  · have width : int.bits = 32 := rfl
    rw [width]
    rcases Nat.le_total n 32 with small | large
    · rw [Nat.min_eq_left small, wrap_of_fits (by decide) (range rfl), ofInt_mul_two_pow]
    · have bounds := int_fits_iff.mp (range rfl)
      have huge : (2 : Int) ^ 32 ≤ 2 ^ n := by
        exact_mod_cast Nat.pow_le_pow_right (by decide) large
      have zero : x = 0 := by
        by_contra nonzero
        rcases Int.lt_or_gt_of_ne nonzero with negative | positive <;> nlinarith
      have nothing : BitVec.ofInt 64 0 = 0#64 := rfl
      rw [zero, Int.zero_mul, nothing, BitVec.zero_shiftLeft]
      rfl
  · rw [wide, ofInt_wrap wide, ofInt_mul_two_pow]
    rcases Nat.le_total n 64 with small | large
    · rw [Nat.min_eq_left small]
    · rw [Nat.min_eq_right large, BitVec.shiftLeft_eq_zero (Nat.le_refl 64),
        BitVec.shiftLeft_eq_zero large]

structure Bitwise (f : Nat → Nat → Nat) (bits : (w : Nat) → BitVec w → BitVec w → BitVec w) :
    Prop where
  toNat : ∀ w (a b : BitVec w), (bits w a b).toNat = f a.toNat b.toNat
  signExtend : ∀ a b : BitVec 32,
    (bits 32 a b).signExtend 64 = bits 64 (a.signExtend 64) (b.signExtend 64)

theorem bitwise_and : Bitwise (· &&& ·) fun _ a b => a &&& b :=
  ⟨fun _ => BitVec.toNat_and, fun _ _ => BitVec.signExtend_and⟩

theorem bitwise_or : Bitwise (· ||| ·) fun _ a b => a ||| b :=
  ⟨fun _ => BitVec.toNat_or, fun _ _ => BitVec.signExtend_or⟩

theorem bitwise_xor : Bitwise (· ^^^ ·) fun _ a b => a ^^^ b :=
  ⟨fun _ => BitVec.toNat_xor, fun _ _ => BitVec.signExtend_xor⟩

theorem ofInt_combine (bitwise : Bitwise f bits) (wide : t.IsWide)
    (range : t = .int → int.fits x = true ∧ int.fits y = true) :
    BitVec.ofInt 64 (t.combine f x y) = bits 64 (BitVec.ofInt 64 x) (BitVec.ofInt 64 y) := by
  unfold combine
  rcases wide with rfl | wide
  · obtain ⟨fitsX, fitsY⟩ := range rfl
    have width : int.bits = 32 := rfl
    rw [residue_eq_toNat width, residue_eq_toNat width, ← bitwise.toNat, int_wrap_eq_toInt,
      ofInt_toNat, ofInt_eq_signExtend fitsX, ofInt_eq_signExtend fitsY]
    exact bitwise.signExtend _ _
  · rw [residue_eq_toNat wide, residue_eq_toNat wide, ← bitwise.toNat, ofInt_wrap wide,
      ofInt_toNat]

theorem ofWord_eq_iff (t : IntType) (a b : BitVec 64) : t.ofWord a = t.ofWord b ↔ a = b := by
  constructor
  · intro same
    rw [← t.ofInt_ofWord a, same, t.ofInt_ofWord b]
  · exact congrArg t.ofWord

end

/-! ### Values and words -/

def truthWord (p : Bool) : BitVec 64 := if p then 1 else 0

namespace IntValue

variable {v : IntValue} {word : BitVec 64} {t : IntType} {x : Int}

structure Represents (v : IntValue) (word : BitVec 64) : Prop where
  wide : v.type.IsWide
  inRange : v.InRange
  word : BitVec.ofInt 64 v.value = word

namespace Represents

theorem value (represents : v.Represents word) : v.value = v.type.ofWord word := by
  rw [← represents.word]
  exact eq_ofWord_of_fits represents.wide (inRange_iff.mp represents.inRange)

theorem value_eq_zero (represents : v.Represents word) : v.value = 0 ↔ word = 0 := by
  rw [represents.value, ← ofWord_eq_iff v.type word 0, ofWord_zero]

theorem converted (represents : v.Represents word)
    (target : t.bits = 64 ∨ t = .int ∧ v.type = .int) : t.wrap v.value = t.ofWord word := by
  rcases target with wide | ⟨rfl, narrow⟩
  · rw [wrap_eq_ofWord wide, represents.word]
  · have fits := inRange_iff.mp represents.inRange
    rw [narrow] at fits
    rw [wrap_of_fits (by decide) fits, ← narrow]
    exact represents.value

end Represents

theorem represents_ofBool (p : Bool) : (IntValue.ofBool p).Represents (truthWord p) where
  wide := .inl rfl
  inRange := inRange_ofBool p
  word := by cases p <;> rfl

theorem represents_wrap (wide : t.IsWide) (style : NumberStyle)
    (range : t = .int → int.fits x = true) :
    Represents ⟨t.wrap x, t, style⟩ (BitVec.ofInt 64 x) where
  wide := wide
  inRange := inRange_wrap t x style
  word := by
    rcases wide with rfl | wide
    · exact congrArg (BitVec.ofInt 64) (wrap_of_fits (by decide) (range rfl))
    · exact ofInt_wrap wide x

end IntValue

end CBindings
