import CBindings.Proofs.Expr.Dependence

/-! Where evaluation fails. It goes through an expression in order, leaves out what a condition or a
logical operator decides against, and stops at the first subtree that raises an error of its own. -/

namespace CBindings

theorem Except.bind_eq_error {ε α β : Type} {x : Except ε α} {f : α → Except ε β} {e : ε} :
    x >>= f = .error e ↔ x = .error e ∨ ∃ a, x = .ok a ∧ f a = .error e := by
  cases x with
  | error e' => simp [bind, Except.bind]
  | ok a => simp [bind, Except.bind]

namespace Expr

section

variable (names : String → Except ExpressionError IntValue)
  (casts : String → Except ExpressionError IntType) (widen : Bool)

inductive ComesTo : Expr → Expr → Prop where
  | here {e : Expr} : ComesTo e e
  | cast {typeName : String} {target : IntType} {operand sub : Expr}
      (known : casts typeName = .ok target) (comes : ComesTo operand sub) :
      ComesTo (.cast typeName operand) sub
  | operand {op : UnaryOp} {operand sub : Expr} (comes : ComesTo operand sub) :
      ComesTo (.unary op operand) sub
  | left {op : BinaryOp} {left right sub : Expr} (comes : ComesTo left sub) :
      ComesTo (.binary op left right) sub
  | right {op : BinaryOp} {left right sub : Expr} {a : IntValue}
      (first : left.evaluate names casts widen = .ok a) (undecided : op.decided? a = none)
      (comes : ComesTo right sub) : ComesTo (.binary op left right) sub
  | condition {condition chosen otherwise sub : Expr} (comes : ComesTo condition sub) :
      ComesTo (.conditional condition chosen otherwise) sub
  | chosen {condition chosen otherwise sub : Expr} {test : IntValue}
      (tested : condition.evaluate names casts widen = .ok test) (holds : test.value ≠ 0)
      (comes : ComesTo chosen sub) : ComesTo (.conditional condition chosen otherwise) sub
  | otherwise {condition chosen otherwise sub : Expr} {test : IntValue}
      (tested : condition.evaluate names casts widen = .ok test) (fails : test.value = 0)
      (comes : ComesTo otherwise sub) : ComesTo (.conditional condition chosen otherwise) sub

/-- An expression raises an error itself, with no error from what it is made of. -/
inductive Raises : Expr → ExpressionError → Prop where
  | name {n : String} {error : ExpressionError} (refused : names n = .error error) :
      Raises (.name n) error
  | call {n : String} : Raises (.call n) (.call n)
  | cast {typeName : String} {operand : Expr} {error : ExpressionError}
      (refused : casts typeName = .error error) : Raises (.cast typeName operand) error
  | operator {op : BinaryOp} {left right : Expr} {a b : IntValue} {error : ExpressionError}
      (first : left.evaluate names casts widen = .ok a) (undecided : op.decided? a = none)
      (second : right.evaluate names casts widen = .ok b) (failed : op.apply a b = .error error) :
      Raises (.binary op left right) error

end

variable {names : String → Except ExpressionError IntValue}
  {casts : String → Except ExpressionError IntType} {widen : Bool} {error : ExpressionError}

theorem evaluate_cast_eq_error {typeName : String} {operand : Expr} :
    (Expr.cast typeName operand).evaluate names casts widen = .error error ↔
      casts typeName = .error error ∨ ∃ target, casts typeName = .ok target ∧
        operand.evaluate names casts widen = .error error := by
  simp only [evaluate, evaluateIn, Except.bind_eq_error, pure, Except.pure, reduceCtorEq, and_false,
    exists_false, or_false]

theorem evaluate_unary_eq_error {op : UnaryOp} {operand : Expr} :
    (Expr.unary op operand).evaluate names casts widen = .error error ↔
      operand.evaluate names casts widen = .error error := by
  simp only [evaluate, evaluateIn, Except.bind_eq_error, pure, Except.pure, reduceCtorEq, and_false,
    exists_false, or_false]

theorem evaluate_conditional_eq_error {condition chosen otherwise : Expr} :
    (Expr.conditional condition chosen otherwise).evaluate names casts widen = .error error ↔
      condition.evaluate names casts widen = .error error ∨
        ∃ test, condition.evaluate names casts widen = .ok test ∧
          (test.value ≠ 0 ∧ chosen.evaluate names casts widen = .error error ∨
            test.value = 0 ∧ otherwise.evaluate names casts widen = .error error) := by
  simp only [evaluate, evaluateIn, Except.bind_eq_error]
  refine or_congr_right (exists_congr fun test => and_congr_right fun _ => ?_)
  by_cases zero : test.value = 0 <;> simp [zero]

theorem evaluate_binary_eq_error {op : BinaryOp} {left right : Expr} :
    (Expr.binary op left right).evaluate names casts widen = .error error ↔
      left.evaluate names casts widen = .error error ∨
        ∃ a, left.evaluate names casts widen = .ok a ∧ op.decided? a = none ∧
          (right.evaluate names casts widen = .error error ∨
            ∃ b, right.evaluate names casts widen = .ok b ∧ op.apply a b = .error error) := by
  simp only [evaluate, evaluateIn, Except.bind_eq_error]
  refine or_congr_right (exists_congr fun a => and_congr_right fun _ => ?_)
  cases op.decided? a with
  | some decided => simp [pure, Except.pure]
  | none =>
    simp only [Except.bind_eq_error, true_and]
    refine or_congr_right (exists_congr fun b => and_congr_right fun _ => ?_)
    cases op.apply a b with
    | ok result => simp [pure, Except.pure]
    | error error => simp [throw, throwThe, MonadExceptOf.throw]

theorem raised_of_evaluate {expr : Expr}
    (failed : expr.evaluate names casts widen = .error error) :
    ∃ sub, ComesTo names casts widen expr sub ∧ Raises names casts widen sub error := by
  induction expr with
  | literal value => cases failed
  | name n => exact ⟨_, .here, .name failed⟩
  | call n =>
    cases failed
    exact ⟨_, .here, .call⟩
  | cast typeName operand ih =>
    rcases evaluate_cast_eq_error.mp failed with refused | ⟨target, known, inner⟩
    · exact ⟨_, .here, .cast refused⟩
    · obtain ⟨sub, comes, raises⟩ := ih inner
      exact ⟨sub, .cast known comes, raises⟩
  | unary op operand ih =>
    obtain ⟨sub, comes, raises⟩ := ih (evaluate_unary_eq_error.mp failed)
    exact ⟨sub, .operand comes, raises⟩
  | conditional condition chosen otherwise ihCondition ihChosen ihOtherwise =>
    rcases evaluate_conditional_eq_error.mp failed with
      inner | ⟨test, tested, ⟨holds, inner⟩ | ⟨fails, inner⟩⟩
    · obtain ⟨sub, comes, raises⟩ := ihCondition inner
      exact ⟨sub, .condition comes, raises⟩
    · obtain ⟨sub, comes, raises⟩ := ihChosen inner
      exact ⟨sub, .chosen tested holds comes, raises⟩
    · obtain ⟨sub, comes, raises⟩ := ihOtherwise inner
      exact ⟨sub, .otherwise tested fails comes, raises⟩
  | binary op left right ihLeft ihRight =>
    rcases evaluate_binary_eq_error.mp failed with
      inner | ⟨a, first, undecided, inner | ⟨b, second, applied⟩⟩
    · obtain ⟨sub, comes, raises⟩ := ihLeft inner
      exact ⟨sub, .left comes, raises⟩
    · obtain ⟨sub, comes, raises⟩ := ihRight inner
      exact ⟨sub, .right first undecided comes, raises⟩
    · exact ⟨_, .here, .operator first undecided second applied⟩

theorem Raises.evaluate {expr : Expr} (raises : Raises names casts widen expr error) :
    expr.evaluate names casts widen = .error error := by
  cases raises with
  | name refused => exact refused
  | call => rfl
  | cast refused => exact evaluate_cast_eq_error.mpr (.inl refused)
  | operator first undecided second failed =>
    exact evaluate_binary_eq_error.mpr
      (.inr ⟨_, first, undecided, .inr ⟨_, second, failed⟩⟩)

theorem ComesTo.evaluate {expr sub : Expr} (comes : ComesTo names casts widen expr sub)
    (failed : sub.evaluate names casts widen = .error error) :
    expr.evaluate names casts widen = .error error := by
  induction comes with
  | here => exact failed
  | cast known _ ih => exact evaluate_cast_eq_error.mpr (.inr ⟨_, known, ih failed⟩)
  | operand _ ih => exact evaluate_unary_eq_error.mpr (ih failed)
  | left _ ih => exact evaluate_binary_eq_error.mpr (.inl (ih failed))
  | right first undecided _ ih =>
    exact evaluate_binary_eq_error.mpr (.inr ⟨_, first, undecided, .inl (ih failed)⟩)
  | condition _ ih => exact evaluate_conditional_eq_error.mpr (.inl (ih failed))
  | chosen tested holds _ ih =>
    exact evaluate_conditional_eq_error.mpr (.inr ⟨_, tested, .inl ⟨holds, ih failed⟩⟩)
  | otherwise tested fails _ ih =>
    exact evaluate_conditional_eq_error.mpr (.inr ⟨_, tested, .inr ⟨fails, ih failed⟩⟩)

/-- Evaluation fails with an error exactly if it comes to a subtree that raises this error. -/
theorem evaluate_eq_error_iff {expr : Expr} :
    expr.evaluate names casts widen = .error error ↔
      ∃ sub, ComesTo names casts widen expr sub ∧ Raises names casts widen sub error :=
  ⟨raised_of_evaluate, fun ⟨_, comes, raises⟩ => comes.evaluate raises.evaluate⟩

end Expr

end CBindings
