import CBindings.Proofs.Expr.Failure
import CBindings.Proofs.Expr.Literal
import CBindings.Proofs.Integer.Division

/-! Evaluation in range. Where literals and names are in the range of their types, so is every
value, and division is that of the operands in the type in which they meet. -/

namespace CBindings

open IntType IntValue

namespace BinaryOp

variable {a b : IntValue}

/-- A quotient and its remainder make up the dividend again, and only the least number divided by -1
has a quotient that is wrapped. -/
theorem apply_division (nonzero : (common a.type b.type).wrap b.value ≠ 0) :
    let t := common a.type b.type
    let x := t.wrap a.value
    let y := t.wrap b.value
    ∃ q r, Truncated x y q r ∧ div.apply a b = .ok ⟨t.wrap q, t, .decimal⟩ ∧
      mod.apply a b = .ok ⟨r, t, .decimal⟩ ∧ (t.wrap q = q ∨ x = t.min ∧ y = -1) ∧
      t.wrap (t.wrap q * y + r) = x := by
  intro t x y
  have positive : 0 < t.bits := Nat.lt_of_lt_of_le (by decide) (common_bits a.type b.type)
  have first : t.fits x = true := t.fits_wrap a.value
  have second : t.fits y = true := t.fits_wrap b.value
  refine ⟨x.tdiv y, x.tmod y, truncated_tdiv x nonzero, if_neg nonzero, ?_,
    wrap_quotient positive first second, wrap_dividend positive first y⟩
  rw [← wrap_remainder positive first]
  exact if_neg nonzero

theorem apply_eq_divisionByZero {op : BinaryOp} : op.apply a b = .error .divisionByZero ↔
    (op = div ∨ op = mod) ∧ (common a.type b.type).wrap b.value = 0 := by
  cases op <;> simp only [apply, reduceCtorEq, or_false, or_true, false_and, true_and]
  case shiftLeft | shiftRight => split <;> simp
  case div | mod => split <;> simp [*]

end BinaryOp

namespace Expr

section

variable (names : String → Except ExpressionError IntValue)
  (casts : String → Except ExpressionError IntType) (widen : Bool) (expr : Expr)

def DividesByZero : Prop :=
  ∃ op left right a b, ComesTo names casts widen expr (.binary op left right) ∧
    (op = .div ∨ op = .mod) ∧ left.evaluate names casts widen = .ok a ∧
    right.evaluate names casts widen = .ok b ∧ (common a.type b.type).wrap b.value = 0

def MeetsRefusal (error : ExpressionError) : Prop :=
  (∃ n, ComesTo names casts widen expr (.name n) ∧ names n = .error error) ∨
    ∃ typeName operand, ComesTo names casts widen expr (.cast typeName operand) ∧
      casts typeName = .error error

end

variable {names : String → Except ExpressionError IntValue}
  {casts : String → Except ExpressionError IntType} {widen : Bool} {expr : Expr} {v : IntValue}

theorem inRange_widened (inRange : v.InRange) (bits : v.type.bits ≤ 64) : (widened v).InRange := by
  rw [inRange_iff] at inRange ⊢
  unfold widened
  cases signed : v.type.signed <;> exact fits_of_narrower bits (.inl signed) inRange

theorem inRange_evaluate
    (literals : ∀ v ∈ expr.literals, v.InRange ∧ (widen = true → v.type.bits ≤ 64))
    (named : ∀ n v, names n = .ok v → v.InRange)
    (evaluated : expr.evaluate names casts widen = .ok v) : v.InRange := by
  induction expr generalizing v with
  | literal value =>
    obtain ⟨inRange, bits⟩ := literals value List.mem_cons_self
    cases evaluated
    split
    · next wide => exact inRange_widened inRange (bits wide)
    · exact inRange
  | name n => exact named n v evaluated
  | call n => cases evaluated
  | cast typeName operand ih =>
    obtain ⟨target, -, inner, -, rfl⟩ := evaluate_cast_eq_ok.mp evaluated
    exact inRange_wrap _ _ _
  | unary op operand ih =>
    obtain ⟨inner, operandValue, rfl⟩ := evaluate_unary_eq_ok.mp evaluated
    exact op.inRange_apply (ih literals operandValue)
  | conditional condition chosen otherwise ihCondition ihChosen ihOtherwise =>
    simp only [Expr.literals, List.forall_mem_append] at literals
    obtain ⟨test, -, ⟨-, branch⟩ | ⟨-, branch⟩⟩ := evaluate_conditional_eq_ok.mp evaluated
    · exact ihChosen literals.1.2 branch
    · exact ihOtherwise literals.2 branch
  | binary op left right ihLeft ihRight =>
    obtain ⟨a, -, decided | ⟨-, b, -, applied⟩⟩ := evaluate_binary_eq_ok.mp evaluated
    · exact BinaryOp.inRange_decided? decided
    · exact BinaryOp.inRange_apply applied

theorem evaluate_eq_divisionByZero : expr.evaluate names casts widen = .error .divisionByZero ↔
    DividesByZero names casts widen expr ∨
      MeetsRefusal names casts widen expr .divisionByZero := by
  rw [evaluate_eq_error_iff]
  constructor
  · rintro ⟨sub, comes, raises⟩
    cases raises with
    | name refused => exact .inr (.inl ⟨_, comes, refused⟩)
    | cast refused => exact .inr (.inr ⟨_, _, comes, refused⟩)
    | operator first undecided second failed =>
      obtain ⟨division, zero⟩ := BinaryOp.apply_eq_divisionByZero.mp failed
      exact .inl ⟨_, _, _, _, _, comes, division, first, second, zero⟩
  · rintro (⟨op, left, right, a, b, comes, division, first, second, zero⟩ |
      ⟨n, comes, refused⟩ | ⟨typeName, operand, comes, refused⟩)
    · have undecided : op.decided? a = none := by rcases division with rfl | rfl <;> rfl
      exact ⟨_, comes, .operator first undecided second
        (BinaryOp.apply_eq_divisionByZero.mpr ⟨division, zero⟩)⟩
    · exact ⟨_, comes, .name refused⟩
    · exact ⟨_, comes, .cast refused⟩

/-- Values are in the range of their types. A quotient is truncated toward zero and a remainder has
the sign of the dividend, both for the operands in the type in which they meet. And division by zero
is raised for a divisor that is zero there, by a division that is evaluated, and in no other case,
unless the meaning of a name or a cast is refused with this error. -/
theorem ranges_and_division (casts : String → Except ExpressionError IntType) (expr : Expr)
    (literals : ∀ v ∈ expr.literals, v.InRange ∧ (widen = true → v.type.bits ≤ 64))
    (named : ∀ n v, names n = .ok v → v.InRange) :
    (∀ v, expr.evaluate names casts widen = .ok v → v.InRange) ∧
      (∀ left right a b, left.evaluate names casts widen = .ok a →
        right.evaluate names casts widen = .ok b →
        let t := common a.type b.type
        let x := t.wrap a.value
        let y := t.wrap b.value
        y ≠ 0 → ∃ q r, Truncated x y q r ∧
          (binary .div left right).evaluate names casts widen = .ok ⟨t.wrap q, t, .decimal⟩ ∧
          (binary .mod left right).evaluate names casts widen = .ok ⟨r, t, .decimal⟩ ∧
          (t.wrap q = q ∨ x = t.min ∧ y = -1) ∧ t.wrap (t.wrap q * y + r) = x) ∧
      (expr.evaluate names casts widen = .error .divisionByZero ↔
        DividesByZero names casts widen expr ∨
          MeetsRefusal names casts widen expr .divisionByZero) := by
  refine ⟨fun v => inRange_evaluate literals named, ?_, evaluate_eq_divisionByZero⟩
  intro left right a b first second t x y nonzero
  obtain ⟨q, r, truncated, quotient, remainder, whole⟩ := BinaryOp.apply_division nonzero
  have evaluated : ∀ {op : BinaryOp} {v : IntValue}, op.decided? a = none →
      op.apply a b = .ok v → (binary op left right).evaluate names casts widen = .ok v :=
    fun undecided applied =>
      evaluate_binary_eq_ok.mpr ⟨a, first, .inr ⟨undecided, b, second, applied⟩⟩
  exact ⟨q, r, truncated, evaluated rfl quotient, evaluated rfl remainder, whole⟩

def leastNames (name : String) : Except ExpressionError IntValue :=
  .ok ⟨if name = "X" then -2147483648 else -1, .int, .decimal⟩

def leastDivided : Expr :=
  conditional (.name "Y") (binary .div (.name "X") (.name "Y"))
    (binary .mod (.name "X") (.literal ⟨0, .int, .decimal⟩))

/-- The quotient 2147483648 is wrapped, and the divisor zero is not evaluated. -/
theorem leastDivided_in_range :
    let least : IntValue := ⟨-2147483648, .int, .decimal⟩
    (∀ v ∈ leastDivided.literals, v.InRange ∧ (true = true → v.type.bits ≤ 64)) ∧
      (∀ n v, leastNames n = .ok v → v.InRange) ∧
      leastDivided.evaluate leastNames noCasts true = .ok least ∧ least.InRange ∧
      (∃ q r, Truncated (-2147483648) (-1) q r ∧
        (binary .div (.name "X") (.name "Y")).evaluate leastNames noCasts true =
          .ok ⟨IntType.int.wrap q, .int, .decimal⟩ ∧
        (binary .mod (.name "X") (.name "Y")).evaluate leastNames noCasts true =
          .ok ⟨r, .int, .decimal⟩ ∧ IntType.int.wrap (IntType.int.wrap q * -1 + r) = -2147483648) ∧
      ¬ DividesByZero leastNames noCasts true leastDivided := by
  intro least
  have literals : ∀ v ∈ leastDivided.literals, v.InRange ∧ (true = true → v.type.bits ≤ 64) := by
    have zero : leastDivided.literals = [⟨0, .int, .decimal⟩] := rfl
    rw [zero, List.forall_mem_singleton]
    exact ⟨⟨by decide, by decide⟩, fun _ => by decide⟩
  have named : ∀ n v, leastNames n = .ok v → v.InRange := by
    intro n v known
    cases known
    by_cases isX : n = "X" <;> simp only [isX, if_true, if_false] <;> exact ⟨by decide, by decide⟩
  have evaluated : leastDivided.evaluate leastNames noCasts true = .ok least := by decide +kernel
  obtain ⟨inRange, division, byZero⟩ :=
    ranges_and_division noCasts leastDivided literals named
  obtain ⟨q, r, truncated, quotient, remainder, -, whole⟩ :=
    division (.name "X") (.name "Y") least ⟨-1, .int, .decimal⟩ rfl rfl (by decide)
  have meet : common least.type .int = .int := by decide
  have dividend : IntType.int.wrap least.value = -2147483648 := by decide
  have divisor : IntType.int.wrap (-1) = -1 := by decide
  simp only [meet, dividend, divisor] at truncated quotient remainder whole
  refine ⟨literals, named, evaluated, inRange least evaluated,
    ⟨q, r, truncated, quotient, remainder, whole⟩, fun divides => ?_⟩
  have failed := byZero.mpr (.inl divides)
  rw [evaluated] at failed
  cases failed

end Expr

end CBindings
