import CBindings.Proofs.Integer.Word
import Mathlib.Data.Int.Bitwise

/-! Wrapping as a homomorphism. A type keeps the low bits of a number, and ring and bit operations on
unbounded integers respect them. A negative number has the bits of two's complement. -/

namespace CBindings

section

variable {w : Nat}

theorem getLsbD_ofInt (x : Int) (i : Nat) :
    (BitVec.ofInt w x).getLsbD i = (decide (i < w) && x.testBit i) := by
  cases x with
  | ofNat n =>
    rw [Int.ofNat_eq_natCast, BitVec.ofInt_natCast, BitVec.getLsbD_ofNat]
    rfl
  | negSucc n =>
    rw [BitVec.ofInt_negSucc_eq_not_ofNat, BitVec.getLsbD_not, BitVec.getLsbD_ofNat]
    cases decide (i < w) <;> rfl

/-- An operation that treats each bit alone does the same to the low bits. -/
theorem ofInt_bits {f : Bool → Bool → Bool} {g : Int → Int → Int}
    {h : BitVec w → BitVec w → BitVec w}
    (onIntegers : ∀ a b i, (g a b).testBit i = f (a.testBit i) (b.testBit i))
    (onWords : ∀ a b i, (h a b).getLsbD i = f (a.getLsbD i) (b.getLsbD i)) (a b : Int) :
    BitVec.ofInt w (g a b) = h (BitVec.ofInt w a) (BitVec.ofInt w b) := by
  refine BitVec.eq_of_getLsbD_eq fun i inside => ?_
  rw [onWords, getLsbD_ofInt, getLsbD_ofInt, getLsbD_ofInt, onIntegers]
  simp only [inside, decide_true, Bool.true_and]

theorem ofInt_land (a b : Int) :
    BitVec.ofInt w (Int.land a b) = BitVec.ofInt w a &&& BitVec.ofInt w b :=
  ofInt_bits Int.testBit_land (fun _ _ _ => BitVec.getLsbD_and) a b

theorem ofInt_lor (a b : Int) :
    BitVec.ofInt w (Int.lor a b) = BitVec.ofInt w a ||| BitVec.ofInt w b :=
  ofInt_bits Int.testBit_lor (fun _ _ _ => BitVec.getLsbD_or) a b

theorem ofInt_lxor (a b : Int) :
    BitVec.ofInt w (Int.xor a b) = BitVec.ofInt w a ^^^ BitVec.ofInt w b :=
  ofInt_bits Int.testBit_lxor (fun _ _ _ => BitVec.getLsbD_xor) a b

theorem lnot_eq (a : Int) : Int.lnot a = -a - 1 := by
  cases a with
  | ofNat n =>
    rw [Int.lnot, Int.negSucc_eq, Int.ofNat_eq_natCast]
    omega
  | negSucc n =>
    rw [Int.lnot, Int.negSucc_eq]
    omega

end

namespace IntType

theorem wrap_congr {t : IntType} {x y : Int}
    (same : BitVec.ofInt t.bits x = BitVec.ofInt t.bits y) :
    t.wrap x = t.wrap y := by
  unfold wrap
  rw [residue_eq_toNat rfl, residue_eq_toNat rfl, same]

theorem wrap_wrap (t : IntType) (x : Int) : t.wrap (t.wrap x) = t.wrap x :=
  wrap_congr (ofInt_wrap rfl x)

theorem wrap_neg_wrap (t : IntType) (x : Int) : t.wrap (-t.wrap x) = t.wrap (-x) := by
  refine wrap_congr ?_
  rw [BitVec.ofInt_neg, ofInt_wrap rfl, BitVec.ofInt_neg]

theorem wrap_lnot_wrap (t : IntType) (x : Int) : t.wrap (-t.wrap x - 1) = t.wrap (Int.lnot x) := by
  rw [lnot_eq]
  refine wrap_congr ?_
  rw [ofInt_sub, BitVec.ofInt_neg, ofInt_wrap rfl, ← BitVec.ofInt_neg, ← ofInt_sub]

theorem wrap_add_wrap (t : IntType) (x y : Int) :
    t.wrap (t.wrap x + t.wrap y) = t.wrap (x + y) := by
  refine wrap_congr ?_
  rw [BitVec.ofInt_add, ofInt_wrap rfl, ofInt_wrap rfl, BitVec.ofInt_add]

theorem wrap_sub_wrap (t : IntType) (x y : Int) :
    t.wrap (t.wrap x - t.wrap y) = t.wrap (x - y) := by
  refine wrap_congr ?_
  rw [ofInt_sub, ofInt_wrap rfl, ofInt_wrap rfl, ofInt_sub]

theorem wrap_mul_wrap (t : IntType) (x y : Int) :
    t.wrap (t.wrap x * t.wrap y) = t.wrap (x * y) := by
  refine wrap_congr ?_
  rw [BitVec.ofInt_mul, ofInt_wrap rfl, ofInt_wrap rfl, BitVec.ofInt_mul]

/-- Bits combined below the width are those of two's complement of unbounded width. -/
theorem combine_wrap {f : Nat → Nat → Nat} {g : Int → Int → Int}
    {bits : (w : Nat) → BitVec w → BitVec w → BitVec w} (bitwise : Bitwise f bits)
    (exact : ∀ w a b, BitVec.ofInt w (g a b) = bits w (BitVec.ofInt w a) (BitVec.ofInt w b))
    (t : IntType) (x y : Int) : t.combine f (t.wrap x) (t.wrap y) = t.wrap (g x y) := by
  refine wrap_congr ?_
  rw [residue_eq_toNat rfl, residue_eq_toNat rfl, ← bitwise.toNat, ofInt_toNat, ofInt_wrap rfl,
    ofInt_wrap rfl, exact]

end IntType

end CBindings
