import CBindings.Expr.Evaluation
import CBindings.Integer.Literal

/-! Values in the range of their types. Wrapping leads there, promotion and all operators stay
there, and number literals start there. -/

namespace CBindings

namespace IntType

theorem modulus_pos (t : IntType) : 0 < t.modulus := Nat.two_pow_pos t.bits

theorem half_le_modulus (t : IntType) : t.half ≤ t.modulus :=
  Nat.pow_le_pow_right (by decide) (Nat.sub_le t.bits 1)

theorem modulus_le_double (t : IntType) : t.modulus ≤ 2 * t.half := by
  calc t.modulus ≤ 2 ^ (t.bits - 1 + 1) :=
        Nat.pow_le_pow_right (by decide) (by omega)
    _ = 2 * t.half := Nat.pow_succ'

theorem fits_iff {t : IntType} {value : Int} : t.fits value = true ↔
    if t.signed then -(t.half : Int) ≤ value ∧ value < t.half
    else 0 ≤ value ∧ value < t.modulus := by
  rw [fits, Bool.and_eq_true, decide_eq_true_eq, decide_eq_true_eq]
  unfold min max
  split <;> omega

theorem residue_lt (t : IntType) (value : Int) : t.residue value < t.modulus := by
  have positive : (0 : Int) < t.modulus := Int.natCast_pos.mpr t.modulus_pos
  have below := Int.emod_lt_of_pos value positive
  unfold residue
  omega

theorem fits_wrap (t : IntType) (value : Int) : t.fits (t.wrap value) = true := by
  have bound := t.residue_lt value
  have below := t.half_le_modulus
  have above := t.modulus_le_double
  rw [fits_iff]
  unfold wrap
  cases t.signed with
  | true =>
    by_cases high : (t.half : Int) ≤ t.residue value
    · simp only [high, Bool.true_and, decide_true, if_true]
      omega
    · simp only [high, Bool.true_and, decide_false, if_true, Bool.false_eq_true, if_false]
      omega
  | false =>
    simp only [Bool.false_and, Bool.false_eq_true, if_false]
    omega

theorem modulus_eq_double {t : IntType} (positive : 0 < t.bits) : t.modulus = 2 * t.half := by
  calc t.modulus = 2 ^ (t.bits - 1 + 1) := by rw [Nat.sub_add_cancel positive]; rfl
    _ = 2 * t.half := Nat.pow_succ'

theorem residue_eq_emod (t : IntType) (value : Int) :
    (t.residue value : Int) = value % t.modulus := by
  have positive := t.modulus_pos
  exact Int.toNat_of_nonneg (Int.emod_nonneg value (by omega))

theorem wrap_of_fits {t : IntType} {value : Int} (positive : 0 < t.bits)
    (fits : t.fits value = true) : t.wrap value = value := by
  have double := modulus_eq_double positive
  rw [fits_iff] at fits
  unfold wrap
  rw [residue_eq_emod]
  cases signed : t.signed with
  | false =>
    simp only [signed, Bool.false_eq_true, if_false] at fits
    simp only [Bool.false_and, Bool.false_eq_true, if_false]
    exact Int.emod_eq_of_lt fits.1 fits.2
  | true =>
    simp only [signed, if_true] at fits
    simp only [Bool.true_and, decide_eq_true_eq]
    rcases Int.lt_or_le value 0 with negative | nonnegative
    · have above : value % t.modulus = value + t.modulus := by
        rw [← Int.add_emod_right]
        exact Int.emod_eq_of_lt (by omega) (by omega)
      rw [above, if_pos (by omega)]
      omega
    · rw [Int.emod_eq_of_lt nonnegative (by omega), if_neg (by omega)]

/-- A type holds all numbers of a type that is no wider, except those that are less than zero in an
unsigned type and those that need its sign bit. -/
theorem fits_of_narrower {narrow wide : IntType} {value : Int} (bits : narrow.bits ≤ wide.bits)
    (sign : narrow.signed = wide.signed ∨ narrow.signed = false ∧ narrow.bits < wide.bits)
    (fits : narrow.fits value = true) : wide.fits value = true := by
  have half : narrow.half ≤ wide.half := Nat.pow_le_pow_right (by decide) (by omega)
  have modulus : narrow.modulus ≤ wide.modulus := Nat.pow_le_pow_right (by decide) bits
  rw [fits_iff] at fits ⊢
  rcases sign with same | ⟨unsigned, fewer⟩
  · rw [same] at fits
    split at fits
    · next signed =>
      rw [if_pos signed]
      omega
    · next unsigned =>
      rw [if_neg unsigned]
      omega
  · have room : narrow.modulus ≤ wide.half := Nat.pow_le_pow_right (by decide) (by omega)
    simp only [unsigned, Bool.false_eq_true, if_false] at fits
    split <;> omega

theorem fits_promote {t : IntType} {value : Int} (fits : t.fits value = true) :
    t.promote.fits value = true := by
  unfold promote
  split
  · next narrow =>
    refine fits_of_narrower (Nat.le_of_lt narrow) ?_ fits
    cases t.signed with
    | true => exact .inl rfl
    | false => exact .inr ⟨rfl, narrow⟩
  · exact fits

theorem fits_of_between {t : IntType} {a x : Int} (fits : t.fits a = true)
    (between : 0 ≤ x ∧ x ≤ a ∨ a ≤ x ∧ x ≤ 0) : t.fits x = true := by
  have half : 0 < t.half := Nat.two_pow_pos (t.bits - 1)
  have modulus := t.modulus_pos
  rw [fits_iff] at fits ⊢
  split at fits
  · next signed =>
    rw [if_pos signed]
    omega
  · next unsigned =>
    rw [if_neg unsigned]
    omega

theorem fits_shiftRight {t : IntType} {a : Int} (fits : t.fits a = true) (n : Nat) :
    t.fits (a >>> n) = true := by
  refine fits_of_between fits ?_
  rcases Int.le_total 0 a with positive | negative
  · exact .inl ⟨Int.le_shiftRight_of_nonneg positive, Int.shiftRight_le_of_nonneg positive⟩
  · exact .inr ⟨Int.le_shiftRight_of_nonpos negative, Int.shiftRight_le_of_nonpos negative⟩

/-! ### The type in which operands meet -/

theorem promote_of_le {t : IntType} (enough : 32 ≤ t.bits) : t.promote = t :=
  if_neg (Nat.not_lt.mpr enough)

theorem promote_bits (t : IntType) : 32 ≤ t.promote.bits := by
  unfold promote
  split
  · exact Nat.le_refl 32
  · next wide => exact Nat.not_lt.mp wide

theorem common_self {t : IntType} (enough : 32 ≤ t.bits) : common t t = t := by
  unfold common
  rw [promote_of_le enough]
  simp only [beq_self_eq_true, if_true, Nat.le_refl]

theorem common_eq_or (a b : IntType) : common a b = a.promote ∨ common a b = b.promote := by
  unfold common
  dsimp only
  split
  · split
    · exact .inl rfl
    · exact .inr rfl
  · split <;> split
    · exact .inr rfl
    · exact .inl rfl
    · exact .inl rfl
    · exact .inr rfl

theorem common_bits (a b : IntType) : 32 ≤ (common a b).bits := by
  rcases common_eq_or a b with same | same <;> rw [same]
  · exact a.promote_bits
  · exact b.promote_bits

end IntType

namespace IntValue

def InRange (v : IntValue) : Prop := v.type.min ≤ v.value ∧ v.value ≤ v.type.max

theorem inRange_iff {v : IntValue} : v.InRange ↔ v.type.fits v.value = true := by
  rw [InRange, IntType.fits, Bool.and_eq_true, decide_eq_true_eq, decide_eq_true_eq]

theorem inRange_wrap (t : IntType) (value : Int) (style : NumberStyle) :
    InRange ⟨t.wrap value, t, style⟩ := inRange_iff.mpr (t.fits_wrap value)

theorem inRange_ofBool (b : Bool) : (IntValue.ofBool b).InRange := by
  cases b <;> exact ⟨by decide, by decide⟩

end IntValue

open IntValue

/-! ### Number literals -/

theorem Literal.inRange_typed (types : List IntType) (style : NumberStyle) (value : Nat) :
    (typed types style value).InRange := by
  unfold typed
  split
  · next type found =>
    have holds := List.find?_some found
    exact inRange_iff.mpr holds
  · exact inRange_wrap _ _ _

theorem Literal.inRange_integer {text : String} {longWidth : Nat} {v : IntValue}
    (read : integer text longWidth = .ok v) : v.InRange := by
  unfold integer at read
  split at read
  · cases read
  · split at read
    · cases read
    · split at read
      · cases read
      · cases read
        exact inRange_typed _ _ _

theorem Literal.character_type {text : String} {v : IntValue} (read : character text = .ok v) :
    v.type = .int := by
  unfold character at read
  split at read
  · cases read
  · split at read
    · cases read
    · next body _ =>
      cases escaped : escape text body with
      | error error =>
        rw [escaped] at read
        cases read
      | ok value =>
        rw [escaped] at read
        cases read
        rfl
    · cases read
      rfl
    · cases read

/-! ### Operators -/

theorem BinaryOp.inRange_decided? {op : BinaryOp} {left v : IntValue}
    (decided : op.decided? left = some v) : v.InRange := by
  unfold decided? at decided
  split at decided
  · split at decided <;> cases decided
    exact inRange_ofBool true
  · split at decided <;> cases decided
    exact inRange_ofBool false
  · cases decided

theorem UnaryOp.inRange_apply {operand : IntValue} (op : UnaryOp) (inRange : operand.InRange) :
    (op.apply operand).InRange := by
  cases op with
  | negate | complement => exact inRange_wrap _ _ _
  | not => exact inRange_ofBool _
  | plus => exact inRange_iff.mpr (IntType.fits_promote (inRange_iff.mp inRange))

theorem BinaryOp.inRange_apply {op : BinaryOp} {left right v : IntValue}
    (applied : op.apply left right = .ok v) : v.InRange := by
  cases op with
  | or | and | eq | ne | lt | gt | le | ge =>
    cases applied
    exact inRange_ofBool _
  | add | sub | mul | bitAnd | bitOr | bitXor =>
    cases applied
    exact inRange_wrap _ _ _
  | shiftLeft | shiftRight | div | mod =>
    simp only [apply] at applied
    split at applied <;> cases applied
    exact inRange_wrap _ _ _

end CBindings
