import CBindings.Expr.Evaluation

/-! What the value of an expression depends on. A value stays when more names get a value, and it
needs the values of finitely many names only. -/

namespace CBindings

theorem Except.bind_eq_ok {ε α β : Type} {x : Except ε α} {f : α → Except ε β} {b : β} :
    x >>= f = .ok b ↔ ∃ a, x = .ok a ∧ f a = .ok b := by
  cases x with
  | error e => simp [bind, Except.bind]
  | ok a => simp [bind, Except.bind]

namespace Expr

def names : Expr → List String
  | .literal _ => []
  | .name n => [n]
  | .call _ => []
  | .cast _ operand => operand.names
  | .unary _ operand => operand.names
  | .binary _ left right => left.names ++ right.names
  | .conditional condition chosen otherwise => condition.names ++ chosen.names ++ otherwise.names

section

variable {names : String → Except ExpressionError IntValue}
  {casts : String → Except ExpressionError IntType} {widen : Bool} {value : IntValue}

theorem evaluate_cast_eq_ok {typeName : String} {operand : Expr} :
    (Expr.cast typeName operand).evaluate names casts widen = .ok value ↔
      ∃ target, casts typeName = .ok target ∧
        ∃ inner, operand.evaluate names casts widen = .ok inner ∧
          value = ⟨target.wrap inner.value, target, inner.style⟩ := by
  simp only [evaluate, evaluateIn, Except.bind_eq_ok, pure, Except.pure, Except.ok.injEq,
    eq_comm (b := value)]

theorem evaluate_unary_eq_ok {op : UnaryOp} {operand : Expr} :
    (Expr.unary op operand).evaluate names casts widen = .ok value ↔
      ∃ inner, operand.evaluate names casts widen = .ok inner ∧ value = op.apply inner := by
  simp only [evaluate, evaluateIn, Except.bind_eq_ok, pure, Except.pure, Except.ok.injEq,
    eq_comm (b := value)]

theorem evaluate_conditional_eq_ok {condition chosen otherwise : Expr} :
    (Expr.conditional condition chosen otherwise).evaluate names casts widen = .ok value ↔
      ∃ test, condition.evaluate names casts widen = .ok test ∧
        (test.value ≠ 0 ∧ chosen.evaluate names casts widen = .ok value ∨
          test.value = 0 ∧ otherwise.evaluate names casts widen = .ok value) := by
  simp only [evaluate, evaluateIn, Except.bind_eq_ok]
  refine exists_congr fun test => and_congr_right fun _ => ?_
  by_cases zero : test.value = 0 <;> simp [zero]

theorem evaluate_binary_eq_ok {op : BinaryOp} {left right : Expr} :
    (Expr.binary op left right).evaluate names casts widen = .ok value ↔
      ∃ a, left.evaluate names casts widen = .ok a ∧
        (op.decided? a = some value ∨
          op.decided? a = none ∧
            ∃ b, right.evaluate names casts widen = .ok b ∧ op.apply a b = .ok value) := by
  simp only [evaluate, evaluateIn, Except.bind_eq_ok]
  refine exists_congr fun a => and_congr_right fun _ => ?_
  cases op.decided? a with
  | some decided => simp [pure, Except.pure]
  | none =>
    simp only [Except.bind_eq_ok, reduceCtorEq, false_or, true_and]
    refine exists_congr fun b => and_congr_right fun _ => ?_
    cases op.apply a b with
    | ok result => rfl
    | error error => simp [throw, throwThe, MonadExceptOf.throw]

end

variable {few many : String → Except ExpressionError IntValue}
  {casts : String → Except ExpressionError IntType} {widen : Bool}

theorem evaluate_mono {expr : Expr} {value : IntValue}
    (more : ∀ n ∈ expr.names, ∀ v, few n = .ok v → many n = .ok v)
    (evaluated : expr.evaluate few casts widen = .ok value) :
    expr.evaluate many casts widen = .ok value := by
  induction expr generalizing value with
  | literal _ => exact evaluated
  | name n => exact more n List.mem_cons_self value evaluated
  | call _ => exact evaluated
  | cast typeName operand ih =>
    rw [evaluate_cast_eq_ok] at evaluated ⊢
    obtain ⟨target, cast, inner, operandValue, whole⟩ := evaluated
    exact ⟨target, cast, inner, ih more operandValue, whole⟩
  | unary op operand ih =>
    rw [evaluate_unary_eq_ok] at evaluated ⊢
    obtain ⟨inner, operandValue, whole⟩ := evaluated
    exact ⟨inner, ih more operandValue, whole⟩
  | conditional condition chosen otherwise ihCondition ihChosen ihOtherwise =>
    simp only [names, List.mem_append, or_imp, forall_and] at more
    rw [evaluate_conditional_eq_ok] at evaluated ⊢
    obtain ⟨test, tested, ⟨holds, branch⟩ | ⟨fails, branch⟩⟩ := evaluated
    · exact ⟨test, ihCondition more.1.1 tested, .inl ⟨holds, ihChosen more.1.2 branch⟩⟩
    · exact ⟨test, ihCondition more.1.1 tested, .inr ⟨fails, ihOtherwise more.2 branch⟩⟩
  | binary op left right ihLeft ihRight =>
    simp only [names, List.mem_append, or_imp, forall_and] at more
    rw [evaluate_binary_eq_ok] at evaluated ⊢
    obtain ⟨a, leftValue, decided | ⟨undecided, b, rightValue, applied⟩⟩ := evaluated
    · exact ⟨a, ihLeft more.1 leftValue, .inl decided⟩
    · exact ⟨a, ihLeft more.1 leftValue, .inr ⟨undecided, b, ihRight more.2 rightValue, applied⟩⟩

/-- A value that needs what a growing sequence of meanings gives in the end is there at some stage
of the sequence. -/
theorem evaluate_at_stage {stage : Nat → String → Except ExpressionError IntValue}
    {limit : String → Except ExpressionError IntValue} {expr : Expr} {value : IntValue}
    (grows : ∀ k n v, stage k n = .ok v → stage (k + 1) n = .ok v)
    (reached : ∀ n v, limit n = .ok v → ∃ k, stage k n = .ok v)
    (evaluated : expr.evaluate limit casts widen = .ok value) :
    ∃ k, expr.evaluate (stage k) casts widen = .ok value := by
  have keeps : ∀ {k l : Nat}, k ≤ l → ∀ {e : Expr} {v : IntValue},
      e.evaluate (stage k) casts widen = .ok v → e.evaluate (stage l) casts widen = .ok v := by
    intro k l le e v early
    induction le with
    | refl => exact early
    | step _ ih => exact evaluate_mono (fun n _ w => grows _ n w) ih
  induction expr generalizing value with
  | literal _ => exact ⟨0, evaluated⟩
  | name n => exact reached n value evaluated
  | call _ => exact ⟨0, evaluated⟩
  | cast typeName operand ih =>
    obtain ⟨target, cast, inner, operandValue, whole⟩ := evaluate_cast_eq_ok.mp evaluated
    obtain ⟨k, early⟩ := ih operandValue
    exact ⟨k, evaluate_cast_eq_ok.mpr ⟨target, cast, inner, early, whole⟩⟩
  | unary op operand ih =>
    obtain ⟨inner, operandValue, whole⟩ := evaluate_unary_eq_ok.mp evaluated
    obtain ⟨k, early⟩ := ih operandValue
    exact ⟨k, evaluate_unary_eq_ok.mpr ⟨inner, early, whole⟩⟩
  | conditional condition chosen otherwise ihCondition ihChosen ihOtherwise =>
    obtain ⟨test, tested, branch⟩ := evaluate_conditional_eq_ok.mp evaluated
    obtain ⟨k, testedEarly⟩ := ihCondition tested
    rcases branch with ⟨holds, branch⟩ | ⟨fails, branch⟩
    · obtain ⟨l, early⟩ := ihChosen branch
      exact ⟨max k l, evaluate_conditional_eq_ok.mpr ⟨test, keeps (Nat.le_max_left k l) testedEarly,
        .inl ⟨holds, keeps (Nat.le_max_right k l) early⟩⟩⟩
    · obtain ⟨l, early⟩ := ihOtherwise branch
      exact ⟨max k l, evaluate_conditional_eq_ok.mpr ⟨test, keeps (Nat.le_max_left k l) testedEarly,
        .inr ⟨fails, keeps (Nat.le_max_right k l) early⟩⟩⟩
  | binary op left right ihLeft ihRight =>
    obtain ⟨a, leftValue, rest⟩ := evaluate_binary_eq_ok.mp evaluated
    obtain ⟨k, leftEarly⟩ := ihLeft leftValue
    rcases rest with decided | ⟨undecided, b, rightValue, applied⟩
    · exact ⟨k, evaluate_binary_eq_ok.mpr ⟨a, leftEarly, .inl decided⟩⟩
    · obtain ⟨l, rightEarly⟩ := ihRight rightValue
      exact ⟨max k l, evaluate_binary_eq_ok.mpr ⟨a, keeps (Nat.le_max_left k l) leftEarly,
        .inr ⟨undecided, b, keeps (Nat.le_max_right k l) rightEarly, applied⟩⟩⟩

end Expr

end CBindings
