import CBindings.Proofs.Integer.Wrapping

/-! Division in the range of a type. A quotient stays there, unless the least number of a signed
type is divided by -1, and a remainder always does. -/

namespace CBindings

/-- A quotient truncated toward zero, and the remainder, which has the sign of the dividend. -/
structure Truncated (a b q r : Int) : Prop where
  whole : q * b + r = a
  smaller : r.natAbs < b.natAbs
  sign : 0 ≤ a ∧ 0 ≤ r ∨ a ≤ 0 ∧ r ≤ 0

theorem sign_tmod (a b : Int) : 0 ≤ a ∧ 0 ≤ a.tmod b ∨ a ≤ 0 ∧ a.tmod b ≤ 0 := by
  rcases Int.le_total 0 a with positive | negative
  · exact .inl ⟨positive, Int.tmod_nonneg b positive⟩
  · have opposite : 0 ≤ (-a).tmod b := Int.tmod_nonneg b (by omega)
    rw [Int.neg_tmod] at opposite
    exact .inr ⟨negative, by omega⟩

theorem truncated_tdiv (a : Int) {b : Int} (nonzero : b ≠ 0) :
    Truncated a b (a.tdiv b) (a.tmod b) where
  whole := Int.tdiv_mul_add_tmod a b
  smaller := by
    rw [Int.natAbs_tmod]
    exact Nat.mod_lt _ (by omega)
  sign := sign_tmod a b

namespace IntType

variable {t : IntType} {a b : Int}

theorem fits_tmod (fits : t.fits a = true) (b : Int) : t.fits (a.tmod b) = true := by
  have size := Int.natAbs_tmod a b
  have less : a.natAbs % b.natAbs ≤ a.natAbs := Nat.mod_le _ _
  refine fits_of_between fits ?_
  rcases sign_tmod a b with positive | negative <;> omega

theorem fits_tdiv (first : t.fits a = true) (second : t.fits b = true)
    (inside : ¬(a = t.min ∧ b = -1)) : t.fits (a.tdiv b) = true := by
  have less := Int.natAbs_tdiv_le_natAbs a b
  cases signed : t.signed with
  | false =>
    simp only [fits_iff, signed, Bool.false_eq_true, if_false] at first second ⊢
    have positive := Int.tdiv_nonneg first.1 second.1
    omega
  | true =>
    have least : t.min = -t.half := by rw [min, signed, if_pos rfl]
    have half : 0 < t.half := Nat.two_pow_pos (t.bits - 1)
    simp only [fits_iff, signed, if_true] at first ⊢
    refine ⟨by omega, ?_⟩
    -- only a unit keeps the size of the least number
    by_contra beyond
    have size : (a.tdiv b).natAbs = a.natAbs / b.natAbs := Int.natAbs_tdiv a b
    have unit : b.natAbs = 1 := by
      rcases Nat.lt_trichotomy b.natAbs 1 with zero | one | more
      · rw [Nat.lt_one_iff.mp zero, Nat.div_zero] at size
        omega
      · exact one
      · have smaller := Nat.div_lt_self (n := a.natAbs) (by omega) more
        omega
    rcases Int.natAbs_eq b with one | minusOne
    · rw [one, unit, Nat.cast_one, Int.tdiv_one] at beyond
      omega
    · exact inside ⟨by omega, by omega⟩

theorem wrap_quotient (positive : 0 < t.bits) (first : t.fits a = true) (second : t.fits b = true) :
    t.wrap (a.tdiv b) = a.tdiv b ∨ a = t.min ∧ b = -1 := by
  by_cases least : a = t.min ∧ b = -1
  · exact .inr least
  · exact .inl (wrap_of_fits positive (fits_tdiv first second least))

theorem wrap_remainder (positive : 0 < t.bits) (fits : t.fits a = true) (b : Int) :
    t.wrap (a - a.tdiv b * b) = a.tmod b := by
  have remainder : a - a.tdiv b * b = a.tmod b := by rw [Int.tmod_def, Int.mul_comm]
  rw [remainder, wrap_of_fits positive (fits_tmod fits b)]

theorem wrap_dividend (positive : 0 < t.bits) (fits : t.fits a = true) (b : Int) :
    t.wrap (t.wrap (a.tdiv b) * b + a.tmod b) = a := by
  calc t.wrap (t.wrap (a.tdiv b) * b + a.tmod b)
      = t.wrap (a.tdiv b * b + a.tmod b) := by
        refine wrap_congr ?_
        rw [BitVec.ofInt_add, BitVec.ofInt_mul, ofInt_wrap rfl, ← BitVec.ofInt_mul,
          ← BitVec.ofInt_add]
    _ = a := by rw [Int.tdiv_mul_add_tmod, wrap_of_fits positive fits]

end IntType

end CBindings
