import CBindings.Proofs.Macro.Arithmetic

/-! The type of an expression. The type of an operator is known from the types of its operands, and
only a conditional between values of two types lets the type of an expression depend on values. -/

namespace CBindings

variable {a b v v' : IntValue}

namespace UnaryOp

def resultType (op : UnaryOp) (operand : IntType) : IntType :=
  if op = not then .int else operand.promote

theorem type_apply (op : UnaryOp) (operand : IntValue) :
    (op.apply operand).type = op.resultType operand.type := by
  cases op <;> rfl

end UnaryOp

namespace BinaryOp

variable {op : BinaryOp}

def resultType (op : BinaryOp) (left right : IntType) : IntType :=
  if op.isTruth then .int else op.workType left right

theorem type_apply (applied : op.apply a b = .ok v) : v.type = op.resultType a.type b.type := by
  cases op <;> simp only [apply] at applied
  case shiftLeft | shiftRight | div | mod =>
    split at applied
    · cases applied
    · cases applied
      rfl
  all_goals
    cases applied
    rfl

theorem type_decided? (decided : op.decided? a = some v) : op.isTruth = true ∧ v.type = .int := by
  cases op <;> simp only [decided?] at decided
  case or | and =>
    obtain ⟨-, truth⟩ := Option.ite_none_right_eq_some.mp decided
    cases truth
    exact ⟨rfl, rfl⟩
  all_goals cases decided

end BinaryOp

namespace Expr

variable {names names' : String → Except ExpressionError IntValue}
  {casts : String → Except ExpressionError IntType} {widen : Bool} {op : BinaryOp}
  {left right : Expr}

/-- The type of a truth value is that of `int`, and the type of any other result is known from the
types of both operands. -/
theorem type_binary (evaluated : (binary op left right).evaluate names casts widen = .ok v) :
    op.isTruth = true ∧ v.type = .int ∨
      op.isTruth = false ∧ ∃ a b, left.evaluate names casts widen = .ok a ∧
        right.evaluate names casts widen = .ok b ∧ v.type = op.workType a.type b.type := by
  obtain ⟨a, leftValue, decided | ⟨-, b, rightValue, applied⟩⟩ :=
    evaluate_binary_eq_ok.mp evaluated
  · exact .inl (BinaryOp.type_decided? decided)
  · have type := BinaryOp.type_apply applied
    cases truth : op.isTruth with
    | true => exact .inl ⟨rfl, by rw [type, BinaryOp.resultType, if_pos truth]⟩
    | false =>
      refine .inr ⟨rfl, a, b, leftValue, rightValue, ?_⟩
      rw [type, BinaryOp.resultType, if_neg (by simp [truth])]

def Decides (names : String → Except ExpressionError IntValue)
    (casts : String → Except ExpressionError IntType) (widen : Bool) (condition : Expr)
    (truth : Bool) : Prop :=
  ∃ test, condition.evaluate names casts widen = .ok test ∧ decide (test.value ≠ 0) = truth

variable (names names' casts widen) in
/-- A conditional from which the type of the expression is taken has its condition true under one
meaning of names and false under the other, and its values have two types. -/
inductive Forks : Expr → Prop where
  | here {condition chosen otherwise : Expr} {truth : Bool} {v v' : IntValue}
      (decides : Decides names casts widen condition truth)
      (decides' : Decides names' casts widen condition !truth)
      (value : (conditional condition chosen otherwise).evaluate names casts widen = .ok v)
      (value' : (conditional condition chosen otherwise).evaluate names' casts widen = .ok v')
      (apart : v.type ≠ v'.type) : Forks (.conditional condition chosen otherwise)
  | chosen {condition chosen otherwise : Expr} (holds : Decides names casts widen condition true)
      (holds' : Decides names' casts widen condition true) (forks : Forks chosen) :
      Forks (.conditional condition chosen otherwise)
  | otherwise {condition chosen otherwise : Expr}
      (fails : Decides names casts widen condition false)
      (fails' : Decides names' casts widen condition false) (forks : Forks otherwise) :
      Forks (.conditional condition chosen otherwise)
  | operand {op : UnaryOp} {operand : Expr} (typed : op ≠ .not) (forks : Forks operand) :
      Forks (.unary op operand)
  | left {op : BinaryOp} {left right : Expr} (typed : op.isTruth = false) (forks : Forks left) :
      Forks (.binary op left right)
  | right {op : BinaryOp} {left right : Expr} (typed : op.isTruth = false)
      (unshifted : op.isShift = false) (forks : Forks right) : Forks (.binary op left right)

theorem type_conditional {condition chosen otherwise : Expr}
    (ihChosen : ∀ {v v'}, chosen.evaluate names casts widen = .ok v →
      chosen.evaluate names' casts widen = .ok v' →
      v.type = v'.type ∨ chosen.Forks names names' casts widen)
    (ihOtherwise : ∀ {v v'}, otherwise.evaluate names casts widen = .ok v →
      otherwise.evaluate names' casts widen = .ok v' →
      v.type = v'.type ∨ otherwise.Forks names names' casts widen)
    (evaluated : (conditional condition chosen otherwise).evaluate names casts widen = .ok v)
    (evaluated' : (conditional condition chosen otherwise).evaluate names' casts widen = .ok v') :
    v.type = v'.type ∨ (conditional condition chosen otherwise).Forks names names' casts widen := by
  obtain ⟨test, tested, branch⟩ := evaluate_conditional_eq_ok.mp evaluated
  obtain ⟨test', tested', branch'⟩ := evaluate_conditional_eq_ok.mp evaluated'
  by_cases same : v.type = v'.type
  · exact .inl same
  · right
    rcases branch with ⟨holds, branch⟩ | ⟨fails, branch⟩ <;>
      rcases branch' with ⟨holds', branch'⟩ | ⟨fails', branch'⟩
    · have forks := (ihChosen branch branch').resolve_left same
      exact .chosen ⟨test, tested, by simp [holds]⟩ ⟨test', tested', by simp [holds']⟩ forks
    · exact .here ⟨test, tested, rfl⟩ ⟨test', tested', by simp [holds, fails']⟩ evaluated evaluated'
        same
    · exact .here ⟨test, tested, rfl⟩ ⟨test', tested', by simp [fails, holds']⟩ evaluated evaluated'
        same
    · have forks := (ihOtherwise branch branch').resolve_left same
      exact .otherwise ⟨test, tested, by simp [fails]⟩ ⟨test', tested', by simp [fails']⟩ forks

/-- The type of an expression does not depend on values: two meanings of names that give values of
the same types lead to the same type, unless a conditional from which the type is taken is decided in
two ways between values of two types. -/
theorem type_static (expr : Expr)
    (sameTypes : ∀ n v v', names n = .ok v → names' n = .ok v' → v.type = v'.type)
    (evaluated : expr.evaluate names casts widen = .ok v)
    (evaluated' : expr.evaluate names' casts widen = .ok v') :
    v.type = v'.type ∨ expr.Forks names names' casts widen := by
  induction expr generalizing v v' with
  | literal value =>
    cases evaluated
    cases evaluated'
    exact .inl rfl
  | name n => exact .inl (sameTypes n v v' evaluated evaluated')
  | call n => cases evaluated
  | cast typeName operand ih =>
    obtain ⟨target, known, inner, -, rfl⟩ := evaluate_cast_eq_ok.mp evaluated
    obtain ⟨target', known', inner', -, rfl⟩ := evaluate_cast_eq_ok.mp evaluated'
    exact .inl (Except.ok.inj (known.symm.trans known'))
  | unary op operand ih =>
    obtain ⟨inner, operandValue, rfl⟩ := evaluate_unary_eq_ok.mp evaluated
    obtain ⟨inner', operandValue', rfl⟩ := evaluate_unary_eq_ok.mp evaluated'
    simp only [UnaryOp.type_apply]
    by_cases truth : op = .not
    · exact .inl (by simp [UnaryOp.resultType, truth])
    · rcases ih operandValue operandValue' with same | forks
      · exact .inl (by rw [same])
      · exact .inr (.operand truth forks)
  | conditional condition chosen otherwise _ ihChosen ihOtherwise =>
    exact type_conditional ihChosen ihOtherwise evaluated evaluated'
  | binary op left right ihLeft ihRight =>
    rcases type_binary evaluated with
      ⟨truth, int⟩ | ⟨typed, a, b, leftValue, rightValue, type⟩ <;>
      rcases type_binary evaluated' with
        ⟨truth', int'⟩ | ⟨typed', a', b', leftValue', rightValue', type'⟩
    · exact .inl (int.trans int'.symm)
    · cases truth.symm.trans typed'
    · cases typed.symm.trans truth'
    · rcases ihLeft leftValue leftValue' with sameLeft | forks
      · cases shift : op.isShift with
        | true => exact .inl (by simp [type, type', BinaryOp.workType, shift, sameLeft])
        | false =>
          rcases ihRight rightValue rightValue' with sameRight | forks
          · exact .inl (by rw [type, type', sameLeft, sameRight])
          · exact .inr (.right typed shift forks)
      · exact .inr (.left typed forks)

def uniform (n : Int) (name : String) : Except ExpressionError IntValue :=
  .ok ⟨n, if name = "Y" then .uint else .int, .decimal⟩

theorem uniform_types (n n' : Int) (name : String) (v v' : IntValue)
    (value : uniform n name = .ok v) (value' : uniform n' name = .ok v') : v.type = v'.type := by
  cases value
  cases value'
  rfl

def signedProduct : Expr :=
  binary .mul (conditional (.name "X") (.unary .negate (.literal ⟨1, .int, .decimal⟩))
    (.literal ⟨1, .int, .decimal⟩)) (.name "Y")

theorem signedProduct_not_forks : ¬ signedProduct.Forks (uniform 1) (uniform 0) noCasts false := by
  rintro (_ | _ | _ | _ | ⟨-, forks⟩ | ⟨-, -, forks⟩)
  · cases forks with
    | here _ _ value value' apart =>
      cases value
      cases value'
      exact apart rfl
    | chosen _ holds _ =>
      obtain ⟨test, value, truth⟩ := holds
      cases value
      cases truth
    | otherwise _ _ forks => cases forks
  · cases forks

/-- A product with an unsigned factor is unsigned, whatever `X` chooses. -/
theorem type_of_signedProduct :
    let v : IntValue := ⟨4294967295, .uint, .decimal⟩
    let v' : IntValue := ⟨0, .uint, .decimal⟩
    signedProduct.evaluate (uniform 1) noCasts false = .ok v ∧
      signedProduct.evaluate (uniform 0) noCasts false = .ok v' ∧ v.type = v'.type := by
  intro v v'
  have first : signedProduct.evaluate (uniform 1) noCasts false = .ok v := by decide +kernel
  have second : signedProduct.evaluate (uniform 0) noCasts false = .ok v' := by decide +kernel
  have types := type_static signedProduct (uniform_types 1 0) first second
  exact ⟨first, second, types.resolve_right signedProduct_not_forks⟩

/-- The value of `X` decides whether `X ? 1 : 1u` is signed. -/
theorem type_depends_on_value :
    let choice := conditional (.name "X") (.literal ⟨1, .int, .decimal⟩)
      (.literal ⟨1, .uint, .decimal⟩)
    (∀ n v v', uniform 1 n = .ok v → uniform 0 n = .ok v' → v.type = v'.type) ∧
      choice.evaluate (uniform 1) noCasts false = .ok ⟨1, .int, .decimal⟩ ∧
      choice.evaluate (uniform 0) noCasts false = .ok ⟨1, .uint, .decimal⟩ ∧
      IntType.int ≠ .uint := ⟨uniform_types 1 0, rfl, rfl, by decide⟩

end Expr

end CBindings
