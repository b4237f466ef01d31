import CBindings.Macro.Condition
import CBindings.Proofs.Expr.Dependence
import CBindings.Proofs.Expr.Respelling
import CBindings.Proofs.Integer.Division

/-! Preprocessor arithmetic: every operand and every result is a word of 64 bits, and whether it is
signed is known before anything is evaluated. The values of the evaluator are these words wherever
no result in `int` leaves its range and no operator works in another signedness. -/

namespace CBindings

namespace UnaryOp

def onWord (op : UnaryOp) (word : BitVec 64) : BitVec 64 :=
  match op with
  | not => truthWord (word = 0)
  | negate => -word
  | complement => ~~~word
  | plus => word

end UnaryOp

namespace BinaryOp

def isShift : BinaryOp → Bool
  | shiftLeft | shiftRight => true
  | _ => false

def isTruth : BinaryOp → Bool
  | or | and | eq | ne | lt | gt | le | ge => true
  | _ => false

def heedsSign : BinaryOp → Bool
  | shiftRight | div | mod | lt | gt | le | ge => true
  | _ => false

def worksUnsigned (op : BinaryOp) (left right : Bool) : Bool :=
  if op.isShift then left else left || right

def onWords (op : BinaryOp) (leftUnsigned rightUnsigned : Bool) (a b : BitVec 64) :
    Except ExpressionError (BitVec 64) :=
  let unsigned := op.worksUnsigned leftUnsigned rightUnsigned
  match op with
  | or => .ok (truthWord (a ≠ 0 || b ≠ 0))
  | and => .ok (truthWord (a ≠ 0 && b ≠ 0))
  | shiftLeft =>
    if !rightUnsigned && b.msb then .error .negativeShift else .ok (a <<< b.toNat)
  | shiftRight =>
    if !rightUnsigned && b.msb then .error .negativeShift
    else .ok (if unsigned then a >>> b.toNat else a.sshiftRight b.toNat)
  | add => .ok (a + b)
  | sub => .ok (a - b)
  | mul => .ok (a * b)
  | div =>
    if b = 0 then .error .divisionByZero else .ok (if unsigned then a / b else a.sdiv b)
  | mod =>
    if b = 0 then .error .divisionByZero else .ok (if unsigned then a % b else a.srem b)
  | bitAnd => .ok (a &&& b)
  | bitOr => .ok (a ||| b)
  | bitXor => .ok (a ^^^ b)
  | eq => .ok (truthWord (a = b))
  | ne => .ok (truthWord (a ≠ b))
  | lt => .ok (truthWord (if unsigned then a.ult b else a.slt b))
  | gt => .ok (truthWord (if unsigned then b.ult a else b.slt a))
  | le => .ok (truthWord (if unsigned then a.ule b else a.sle b))
  | ge => .ok (truthWord (if unsigned then b.ule a else b.sle a))

def decidedWord? (op : BinaryOp) (left : BitVec 64) : Option (BitVec 64) :=
  match op with
  | or => if left ≠ 0 then some (truthWord true) else none
  | and => if left = 0 then some (truthWord false) else none
  | _ => none

def workType (op : BinaryOp) (left right : IntType) : IntType :=
  if op.isShift then left.promote else IntType.common left right

def unbounded? (op : BinaryOp) (a b : Int) : Option Int :=
  match op with
  | add => some (a + b)
  | sub => some (a - b)
  | mul => some (a * b)
  | div => some (a.tdiv b)
  | shiftLeft => some (a * 2 ^ b.toNat)
  | _ => none

/-- The evaluator's result is the one of 64-bit arithmetic: in `int` it does not leave the range,
and where it matters the signedness is the one that the operands have by their types. -/
structure Keeps (op : BinaryOp) (a b : IntValue) (leftUnsigned rightUnsigned : Bool) : Prop where
  range : op.workType a.type b.type = .int →
    ∀ x ∈ op.unbounded? a.value b.value, IntType.int.fits x = true
  sign : op.heedsSign = true →
    (op.workType a.type b.type).signed = !op.worksUnsigned leftUnsigned rightUnsigned
  amount : op.isShift = true → rightUnsigned = false → b.type.signed = true

end BinaryOp

namespace Expr

def isUnsigned : Expr → Bool
  | .literal value => !value.type.signed
  | .name _ => false
  | .call _ => false
  | .cast _ _ => false
  | .unary op operand => op != .not && operand.isUnsigned
  | .binary op left right => !op.isTruth && op.worksUnsigned left.isUnsigned right.isUnsigned
  | .conditional _ chosen otherwise => chosen.isUnsigned || otherwise.isUnsigned

def wideValue : Expr → Except ExpressionError (BitVec 64)
  | .literal value => .ok (BitVec.ofInt 64 value.value)
  | .name n => .ok (truthWord (n = "true"))
  | .call n => .error (.call n)
  | .cast typeName _ => .error (.castNotSupported typeName)
  | .unary op operand => operand.wideValue.map op.onWord
  | .conditional condition chosen otherwise => do
    let word ← condition.wideValue
    if word ≠ 0 then chosen.wideValue else otherwise.wideValue
  | .binary op left right => do
    let a ← left.wideValue
    match op.decidedWord? a with
    | some word => pure word
    | none =>
      let b ← right.wideValue
      op.onWords left.isUnsigned right.isUnsigned a b

end Expr

/-! ### Operators -/

open IntType

section

variable {v a b : IntValue} {word wa wb : BitVec 64} {leftUnsigned rightUnsigned : Bool}

theorem UnaryOp.represents_apply {op : UnaryOp} (operand : v.Represents word)
    (range : op = .negate → v.type = .int → int.fits (-v.value) = true) :
    (op.apply v).Represents (op.onWord word) := by
  have type := promote_wide operand.wide
  cases op with
  | not =>
    have zero : decide (v.value = 0) = decide (word = 0) :=
      decide_eq_decide.mpr operand.value_eq_zero
    simp only [apply, onWord, zero]
    exact IntValue.represents_ofBool _
  | negate =>
    simp only [apply, onWord, type]
    rw [← operand.word, ← BitVec.ofInt_neg]
    exact IntValue.represents_wrap operand.wide _ (range rfl)
  | complement =>
    simp only [apply, onWord, type]
    rw [← operand.word, ← ofInt_complement]
    refine IntValue.represents_wrap operand.wide _ fun narrow => ?_
    have fits := IntValue.inRange_iff.mp operand.inRange
    rw [narrow] at fits
    rw [int_fits_iff] at fits ⊢
    omega
  | plus =>
    simp only [apply, onWord, type]
    exact ⟨operand.wide, operand.inRange, operand.word⟩

structure Meet (a b : IntValue) (wa wb : BitVec 64) (t : IntType) : Prop where
  common : IntType.common a.type b.type = t
  wide : t.IsWide
  left : t.wrap a.value = t.ofWord wa
  right : t.wrap b.value = t.ofWord wb
  narrow : t = .int →
    a.value = t.ofWord wa ∧ b.value = t.ofWord wb ∧
      int.fits (t.ofWord wa) = true ∧ int.fits (t.ofWord wb) = true

theorem IntValue.Represents.meet (left : a.Represents wa) (right : b.Represents wb) :
    Meet a b wa wb (IntType.common a.type b.type) := by
  rcases common_wide left.wide right.wide with ⟨narrowA, narrowB, narrow⟩ | wide
  · have fitsA := IntValue.inRange_iff.mp left.inRange
    have fitsB := IntValue.inRange_iff.mp right.inRange
    rw [left.value, narrowA] at fitsA
    rw [right.value, narrowB] at fitsB
    have valueA := left.value
    have valueB := right.value
    rw [narrowA] at valueA
    rw [narrowB] at valueB
    rw [narrow]
    exact ⟨narrow, .inl rfl, left.converted (.inr ⟨rfl, narrowA⟩),
      right.converted (.inr ⟨rfl, narrowB⟩), fun _ => ⟨valueA, valueB, fitsA, fitsB⟩⟩
  · refine ⟨rfl, .inr wide, left.converted (.inl wide), right.converted (.inl wide), ?_⟩
    intro narrow
    rw [narrow] at wide
    cases wide

namespace BinaryOp

variable {op : BinaryOp}

/-- An amount that is not refused is the same number as a value and as a word. -/
theorem amount_spec (right : b.Represents wb) (positive : 0 ≤ b.value)
    (signed : rightUnsigned = false → b.type.signed = true) :
    (!rightUnsigned && wb.msb) = false ∧ b.value.toNat = wb.toNat := by
  have value := right.value
  unfold ofWord at value
  cases sign : b.type.signed with
  | true =>
    rw [if_pos sign] at value
    have msb : wb.msb = false := by
      rw [BitVec.msb_eq_toInt, ← value]
      exact decide_eq_false (Int.not_lt.mpr positive)
    rw [value, BitVec.toInt_eq_msb_cond, msb]
    simp
  | false =>
    rw [if_neg (by simp [sign])] at value
    have unsigned : rightUnsigned = true := by
      by_contra other
      rw [signed (by simpa using other)] at sign
      cases sign
    rw [value, unsigned]
    simp

theorem represents_logical (left : a.Represents wa) (right : b.Represents wb)
    (logical : op ∈ [or, and]) (applied : op.apply a b = .ok v) :
    ∃ word, op.onWords leftUnsigned rightUnsigned wa wb = .ok word ∧ v.Represents word := by
  have zeroA : decide (a.value ≠ 0) = decide (wa ≠ 0) :=
    decide_eq_decide.mpr (not_congr left.value_eq_zero)
  have zeroB : decide (b.value ≠ 0) = decide (wb ≠ 0) :=
    decide_eq_decide.mpr (not_congr right.value_eq_zero)
  simp only [List.mem_cons, List.not_mem_nil, or_false] at logical
  rcases logical with rfl | rfl
  all_goals
    cases applied
    rw [zeroA, zeroB]
    exact ⟨_, rfl, IntValue.represents_ofBool _⟩

theorem represents_arithmetic {t : IntType} (meet : Meet a b wa wb t)
    (keeps : op.Keeps a b leftUnsigned rightUnsigned)
    (arithmetic : op ∈ [add, sub, mul, div, mod]) (applied : op.apply a b = .ok v) :
    ∃ word, op.onWords leftUnsigned rightUnsigned wa wb = .ok word ∧ v.Represents word := by
  obtain ⟨rfl, wide, valueA, valueB, narrow⟩ := meet
  have common : ∀ op ∈ [add, sub, mul, div, mod], op.isShift = false := by decide
  have range := keeps.range
  have sign := keeps.sign
  simp only [workType, common op arithmetic, Bool.false_eq_true, if_false] at range sign
  simp only [apply, valueA, valueB] at applied
  generalize IntType.common a.type b.type = t at wide narrow range sign applied
  have inside : t = .int →
      ∀ x ∈ op.unbounded? (t.ofWord wa) (t.ofWord wb), int.fits x = true := by
    intro int
    obtain ⟨sameA, sameB, -⟩ := narrow int
    rw [← sameA, ← sameB]
    exact range int
  have number : ∀ {x : Int} {word : BitVec 64}, BitVec.ofInt 64 x = word →
      (t = .int → int.fits x = true) → IntValue.Represents ⟨t.wrap x, t, .decimal⟩ word := by
    rintro x word rfl fits
    exact IntValue.represents_wrap wide _ fits
  have zero : t.ofWord wb = 0 ↔ wb = 0 := by rw [← ofWord_eq_iff t, t.ofWord_zero]
  simp only [List.mem_cons, List.not_mem_nil, or_false] at arithmetic
  rcases arithmetic with rfl | rfl | rfl | rfl | rfl
  · cases applied
    refine ⟨_, rfl, number ?_ fun int => inside int _ rfl⟩
    rw [BitVec.ofInt_add, t.ofInt_ofWord, t.ofInt_ofWord]
  · cases applied
    refine ⟨_, rfl, number ?_ fun int => inside int _ rfl⟩
    rw [ofInt_sub, t.ofInt_ofWord, t.ofInt_ofWord]
  · cases applied
    refine ⟨_, rfl, number ?_ fun int => inside int _ rfl⟩
    rw [BitVec.ofInt_mul, t.ofInt_ofWord, t.ofInt_ofWord]
  · simp only at applied
    split at applied
    · cases applied
    · next nonzero =>
      cases applied
      exact ⟨_, if_neg (mt zero.mpr nonzero), number (ofInt_tdiv (sign rfl) wa wb)
        fun int => inside int _ rfl⟩
  · simp only at applied
    split at applied
    · cases applied
    · next nonzero =>
      cases applied
      have remainder : t.ofWord wa - (t.ofWord wa).tdiv (t.ofWord wb) * t.ofWord wb =
          (t.ofWord wa).tmod (t.ofWord wb) := by
        rw [Int.tmod_def, Int.mul_comm]
      rw [remainder]
      exact ⟨_, if_neg (mt zero.mpr nonzero), number (ofInt_tmod (sign rfl) wa wb)
        fun int => fits_tmod (narrow int).2.2.1 _⟩

theorem represents_bitwise {t : IntType} (meet : Meet a b wa wb t)
    (bitwise : op ∈ [bitAnd, bitOr, bitXor]) (applied : op.apply a b = .ok v) :
    ∃ word, op.onWords leftUnsigned rightUnsigned wa wb = .ok word ∧ v.Represents word := by
  obtain ⟨rfl, wide, valueA, valueB, narrow⟩ := meet
  simp only [apply, valueA, valueB] at applied
  generalize IntType.common a.type b.type = t at wide narrow applied
  have bits : ∀ {f : Nat → Nat → Nat} {g : (w : Nat) → BitVec w → BitVec w → BitVec w},
      Bitwise f g →
      IntValue.Represents ⟨t.combine f (t.ofWord wa) (t.ofWord wb), t, .decimal⟩ (g 64 wa wb) := by
    intro f g alone
    refine ⟨wide, IntValue.inRange_wrap t _ _, ?_⟩
    rw [ofInt_combine alone wide fun int => (narrow int).2.2, t.ofInt_ofWord, t.ofInt_ofWord]
  simp only [List.mem_cons, List.not_mem_nil, or_false] at bitwise
  rcases bitwise with rfl | rfl | rfl <;> cases applied
  · exact ⟨_, rfl, bits bitwise_and⟩
  · exact ⟨_, rfl, bits bitwise_or⟩
  · exact ⟨_, rfl, bits bitwise_xor⟩

theorem represents_comparison {t : IntType} (meet : Meet a b wa wb t)
    (keeps : op.Keeps a b leftUnsigned rightUnsigned)
    (comparison : op ∈ [eq, ne, lt, gt, le, ge]) (applied : op.apply a b = .ok v) :
    ∃ word, op.onWords leftUnsigned rightUnsigned wa wb = .ok word ∧ v.Represents word := by
  obtain ⟨rfl, wide, valueA, valueB, narrow⟩ := meet
  have common : ∀ op ∈ [eq, ne, lt, gt, le, ge], op.isShift = false := by decide
  have sign := keeps.sign
  simp only [workType, common op comparison, Bool.false_eq_true, if_false] at sign
  simp only [apply, valueA, valueB] at applied
  generalize IntType.common a.type b.type = t at sign applied
  have truth : ∀ {p q : Bool}, p = q → (IntValue.ofBool p).Represents (truthWord q) := by
    rintro p q rfl
    exact IntValue.represents_ofBool p
  simp only [List.mem_cons, List.not_mem_nil, or_false] at comparison
  rcases comparison with rfl | rfl | rfl | rfl | rfl | rfl <;> cases applied
  · exact ⟨_, rfl, truth (decide_eq_decide.mpr (ofWord_eq_iff t wa wb))⟩
  · exact ⟨_, rfl, truth (decide_eq_decide.mpr (not_congr (ofWord_eq_iff t wa wb)))⟩
  · exact ⟨_, rfl, truth (ofWord_lt (sign rfl) wa wb)⟩
  · exact ⟨_, rfl, truth (ofWord_lt (sign rfl) wb wa)⟩
  · exact ⟨_, rfl, truth (ofWord_le (sign rfl) wa wb)⟩
  · exact ⟨_, rfl, truth (ofWord_le (sign rfl) wb wa)⟩

theorem represents_shiftLeft (left : a.Represents wa) (right : b.Represents wb)
    (keeps : shiftLeft.Keeps a b leftUnsigned rightUnsigned)
    (applied : shiftLeft.apply a b = .ok v) :
    ∃ word, shiftLeft.onWords leftUnsigned rightUnsigned wa wb = .ok word ∧ v.Represents word := by
  have type := promote_wide left.wide
  simp only [apply, type] at applied
  split at applied
  · cases applied
  · next positive =>
    cases applied
    obtain ⟨fine, amount⟩ := amount_spec right (Int.not_lt.mp positive) (keeps.amount rfl)
    have range : a.type = .int → int.fits (a.value * 2 ^ b.value.toNat) = true :=
      fun narrow => keeps.range (type.trans narrow) _ rfl
    refine ⟨_, by rw [onWords, fine, ← amount]; rfl, left.wide, IntValue.inRange_wrap _ _ _, ?_⟩
    rw [ofInt_shiftLeft left.wide range, left.word]

theorem represents_shiftRight (left : a.Represents wa) (right : b.Represents wb)
    (keeps : shiftRight.Keeps a b leftUnsigned rightUnsigned)
    (applied : shiftRight.apply a b = .ok v) :
    ∃ word, shiftRight.onWords leftUnsigned rightUnsigned wa wb = .ok word ∧
      v.Represents word := by
  have type := promote_wide left.wide
  simp only [apply, type] at applied
  split at applied
  · cases applied
  · next positive =>
    cases applied
    obtain ⟨fine, amount⟩ := amount_spec right (Int.not_lt.mp positive) (keeps.amount rfl)
    have sign : a.type.signed = !leftUnsigned := type ▸ keeps.sign rfl
    have word := ofInt_shiftRight sign wa b.value.toNat
    rw [← left.value] at word
    refine ⟨_, by rw [onWords, fine, ← amount]; rfl, ?_⟩
    rw [worksUnsigned, if_pos (show shiftRight.isShift = true from rfl), ← word]
    refine IntValue.represents_wrap left.wide _ fun narrow => fits_shiftRight ?_ _
    have fits := IntValue.inRange_iff.mp left.inRange
    rw [narrow] at fits
    exact fits

/-- What the evaluator makes of two values is what 64-bit arithmetic makes of their words. -/
theorem represents_apply (left : a.Represents wa) (right : b.Represents wb)
    (keeps : op.Keeps a b leftUnsigned rightUnsigned) (applied : op.apply a b = .ok v) :
    ∃ word, op.onWords leftUnsigned rightUnsigned wa wb = .ok word ∧ v.Represents word := by
  have meet := left.meet right
  cases op with
  | or | and => exact represents_logical left right (by decide) applied
  | add | sub | mul | div | mod => exact represents_arithmetic meet keeps (by decide) applied
  | bitAnd | bitOr | bitXor => exact represents_bitwise meet (by decide) applied
  | eq | ne | lt | gt | le | ge => exact represents_comparison meet keeps (by decide) applied
  | shiftLeft => exact represents_shiftLeft left right keeps applied
  | shiftRight => exact represents_shiftRight left right keeps applied

theorem decided_cases (op : BinaryOp) (left : a.Represents wa) :
    op.decided? a = none ∧ op.decidedWord? wa = none ∨
      ∃ p, op.decided? a = some (.ofBool p) ∧ op.decidedWord? wa = some (truthWord p) := by
  have zero := left.value_eq_zero
  cases op with
  | or =>
    by_cases isZero : a.value = 0
    · exact .inl ⟨if_neg (not_not.mpr isZero), if_neg (not_not.mpr (zero.mp isZero))⟩
    · exact .inr ⟨true, if_pos isZero, if_pos (mt zero.mpr isZero)⟩
  | and =>
    by_cases isZero : a.value = 0
    · exact .inr ⟨false, if_pos isZero, if_pos (zero.mp isZero)⟩
    · exact .inl ⟨if_neg isZero, if_neg (mt zero.mpr isZero)⟩
  | _ => exact .inl ⟨rfl, rfl⟩

end BinaryOp

end

/-! ### Expressions -/

namespace Expr

def conditionValue (e : Expr) : Except ExpressionError IntValue :=
  e.evaluate Condition.nameValue noCasts true

/-- Evaluation keeps to 64-bit arithmetic: each operand that is evaluated does, literals are in the
range of their 64-bit types, and so is each result. The second expression is the first with the
literals that 64-bit arithmetic has. -/
def KeepsWide : Expr → Expr → Prop
  | .literal value, _ => (widened value).InRange
  | .unary op operand, .unary _ operand' =>
    KeepsWide operand operand' ∧ (op = .negate → ∀ v, operand.conditionValue = .ok v →
      v.type = .int → IntType.int.fits (-v.value) = true)
  | .binary op left right, .binary _ left' right' =>
    KeepsWide left left' ∧ ∀ a, left.conditionValue = .ok a → op.decided? a = none →
      KeepsWide right right' ∧ ∀ b, right.conditionValue = .ok b →
        op.Keeps a b left'.isUnsigned right'.isUnsigned
  | .conditional condition chosen otherwise, .conditional condition' chosen' otherwise' =>
    KeepsWide condition condition' ∧ ∀ v, condition.conditionValue = .ok v →
      if v.value ≠ 0 then KeepsWide chosen chosen' else KeepsWide otherwise otherwise'
  | _, _ => True

theorem isWide_widened (value : IntValue) : (widened value).type.IsWide := by
  unfold widened
  cases value.type.signed <;> exact .inr rfl

theorem wideValue_of_conditionValue {e e' : Expr} {v : IntValue}
    (alike : Alike IntValue.SameWord e e') (keeps : e.KeepsWide e')
    (evaluated : e.conditionValue = .ok v) : ∃ word, e'.wideValue = .ok word ∧ v.Represents word := by
  induction alike generalizing v with
  | @literal value value' same =>
    obtain rfl : widened value = v := Except.ok.inj evaluated
    exact ⟨_, rfl, isWide_widened value, keeps, same⟩
  | name n =>
    cases evaluated
    refine ⟨_, rfl, .inr rfl, ?_, ?_⟩
    · by_cases isTrue : n = "true"
      · simp only [isTrue, if_true]
        exact ⟨by decide, by decide⟩
      · simp only [isTrue, if_false]
        exact ⟨by decide, by decide⟩
    · by_cases isTrue : n = "true" <;> simp [isTrue, truthWord]
  | call n => cases evaluated
  | cast typeName inner ih => cases evaluated
  | unary op inner ih =>
    obtain ⟨operand, known, rfl⟩ := evaluate_unary_eq_ok.mp evaluated
    obtain ⟨keeps, range⟩ := keeps
    obtain ⟨word, wide, represents⟩ := ih keeps known
    refine ⟨op.onWord word, by rw [wideValue, wide]; rfl, ?_⟩
    exact UnaryOp.represents_apply represents fun isNegate => range isNegate operand known
  | conditional test first second ihTest ihFirst ihSecond =>
    obtain ⟨truth, tested, branch⟩ := evaluate_conditional_eq_ok.mp evaluated
    obtain ⟨keeps, keepsBranch⟩ := keeps
    obtain ⟨test, wideTest, representsTest⟩ := ihTest keeps tested
    have keepsBranch := keepsBranch truth tested
    rcases branch with ⟨holds, branch⟩ | ⟨fails, branch⟩
    · rw [if_pos holds] at keepsBranch
      obtain ⟨word, wide, represents⟩ := ihFirst keepsBranch branch
      refine ⟨word, Except.bind_eq_ok.mpr ⟨test, wideTest, ?_⟩, represents⟩
      rw [if_pos (mt representsTest.value_eq_zero.mpr holds)]
      exact wide
    · rw [if_neg (not_not.mpr fails)] at keepsBranch
      obtain ⟨word, wide, represents⟩ := ihSecond keepsBranch branch
      refine ⟨word, Except.bind_eq_ok.mpr ⟨test, wideTest, ?_⟩, represents⟩
      rw [if_neg (not_not.mpr (representsTest.value_eq_zero.mp fails))]
      exact wide
  | binary op first second ihFirst ihSecond =>
    obtain ⟨a, leftValue, rest⟩ := evaluate_binary_eq_ok.mp evaluated
    obtain ⟨keepsLeft, keepsRest⟩ := keeps
    obtain ⟨wa, wideLeft, left⟩ := ihFirst keepsLeft leftValue
    rcases op.decided_cases left with ⟨undecided, noWord⟩ | ⟨p, decided, word⟩
    · obtain ⟨b, rightValue, applied⟩ : ∃ b, _ ∧ op.apply a b = .ok v := by
        simpa [undecided] using rest
      obtain ⟨keepsRight, keepsBoth⟩ := keepsRest a leftValue undecided
      obtain ⟨wb, wideRight, right⟩ := ihSecond keepsRight rightValue
      obtain ⟨word, result, represents⟩ :=
        BinaryOp.represents_apply left right (keepsBoth b rightValue) applied
      refine ⟨word, Except.bind_eq_ok.mpr ⟨wa, wideLeft, ?_⟩, represents⟩
      rw [noWord]
      exact Except.bind_eq_ok.mpr ⟨wb, wideRight, result⟩
    · obtain rfl : IntValue.ofBool p = v := by simpa [decided] using rest
      refine ⟨truthWord p, Except.bind_eq_ok.mpr ⟨wa, wideLeft, ?_⟩, IntValue.represents_ofBool p⟩
      rw [word]
      rfl

end Expr

end CBindings
