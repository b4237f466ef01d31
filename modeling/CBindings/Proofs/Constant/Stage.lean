import CBindings.Proofs.Constant.Agreement

/-! The values of constants as the limit of a growing sequence: in each round a constant gets a value
if all that it needs has one already. The results of what can recover from a failure are given. -/

namespace CBindings

structure Results where
  constant : String → Option ConstantValue
  enum : Nat → List (String × Option Int)

namespace ConstantScope

variable {scope : ConstantScope} {name : String} {tokens : List Token} {self : Pursuit}
  {few many : String → Except ExpressionError IntValue} {value : IntValue}
  {result : ConstantValue} {given : Results} {k l : Nat}

theorem valueUnder_expression (expression : literal? tokens = none) :
    scope.valueUnder few tokens = some result ↔
      ∃ value, scope.integerUnder few tokens = .ok value ∧ result = .integer value := by
  simp only [valueUnder, expression]
  cases scope.integerUnder few tokens with
  | error error => simp [Except.toOption]
  | ok value => simp [Except.toOption, eq_comm]

theorem integerUnder_eq_ok : scope.integerUnder few tokens = .ok value ↔
    ∃ expr, Expr.parse tokens scope.reading = .ok expr ∧
      expr.evaluate few scope.castType false = .ok value :=
  Except.bind_eq_ok

theorem valueUnder_mono (more : ∀ n v, few n = .ok v → many n = .ok v)
    (known : scope.valueUnder few tokens = some result) :
    scope.valueUnder many tokens = some result := by
  cases literal : literal? tokens with
  | some fixed =>
    simp only [valueUnder, literal] at known ⊢
    exact known
  | none =>
    obtain ⟨value, evaluated, rfl⟩ := (valueUnder_expression literal).mp known
    obtain ⟨expr, parsed, early⟩ := integerUnder_eq_ok.mp evaluated
    have late := Expr.evaluate_mono (fun n _ => more n) early
    exact (valueUnder_expression literal).mpr
      ⟨value, integerUnder_eq_ok.mpr ⟨expr, parsed, late⟩, rfl⟩

theorem valueUnder_at_stage {stage : Nat → String → Except ExpressionError IntValue}
    (grows : ∀ k n v, stage k n = .ok v → stage (k + 1) n = .ok v)
    (reached : ∀ n v, many n = .ok v → ∃ k, stage k n = .ok v)
    (known : scope.valueUnder many tokens = some result) :
    ∃ k, scope.valueUnder (stage k) tokens = some result := by
  cases literal : literal? tokens with
  | some fixed =>
    simp only [valueUnder, literal] at known ⊢
    exact ⟨0, known⟩
  | none =>
    obtain ⟨value, evaluated, rfl⟩ := (valueUnder_expression literal).mp known
    obtain ⟨expr, parsed, late⟩ := integerUnder_eq_ok.mp evaluated
    obtain ⟨k, early⟩ := Expr.evaluate_at_stage grows reached late
    exact ⟨k, (valueUnder_expression literal).mpr
      ⟨value, integerUnder_eq_ok.mpr ⟨expr, parsed, early⟩, rfl⟩⟩

/-! ### The meaning of a name inside a constant or an enum -/

def enumeratorIn (scope : ConstantScope) (results : Results) (self : Pursuit) (name : String) :
    Except ExpressionError (Option Int) :=
  match scope.table.enumerator? name with
  | none => .ok none
  | some (symbol, _) =>
    if self = .enum symbol.serial then .error .ownEnum
    else .ok (valueOf (results.enum symbol.serial) name)

def asEnumerator (name : String) : Option Int → Except ExpressionError IntValue
  | some n => .ok ⟨n, .int, .decimal⟩
  | none => .error (.unknownName name)

/-- The meaning of a name by results, inside something that cannot ask for itself. -/
def meaningIn (scope : ConstantScope) (results : Results) (self : Pursuit) (name : String) :
    Except ExpressionError IntValue :=
  match if self = .constant name then none else results.constant name with
  | some (.integer value) => .ok ⟨value.value, value.type, .decimal⟩
  | some _ => .error (.notIntegerConstant name)
  | none => scope.enumeratorIn results self name >>= asEnumerator name

/-- Where a name has no enumerator, a meaning comes from a constant alone. -/
theorem meaningIn_plain {results : Results} (plain : scope.table.enumerator? name = none) :
    scope.meaningIn results self name = .ok value ↔
      self ≠ .constant name ∧ ∃ v, results.constant name = some (.integer v) ∧
        value = ⟨v.value, v.type, .decimal⟩ := by
  have unknown : scope.enumeratorIn results self name = .ok none := by rw [enumeratorIn, plain]
  by_cases own : self = .constant name
  · rw [meaningIn, if_pos own, unknown]
    simp [own, asEnumerator, bind, Except.bind]
  · rw [meaningIn, if_neg own]
    cases results.constant name with
    | none => simp [unknown, asEnumerator, bind, Except.bind]
    | some result => cases result <;> simp [own, eq_comm]

theorem meaningIn_mono {fewer more : String → Option ConstantValue}
    {enum : Nat → List (String × Option Int)}
    (fixed : ∀ n, (scope.table.enumerator? n).isSome → fewer n = more n)
    (grows : ∀ n v, fewer n = some v → more n = some v)
    (known : scope.meaningIn ⟨fewer, enum⟩ self name = .ok value) :
    scope.meaningIn ⟨more, enum⟩ self name = .ok value := by
  cases found : scope.table.enumerator? name with
  | some entry =>
    have same := fixed name (by rw [found]; rfl)
    simp only [meaningIn, enumeratorIn, same] at known ⊢
    exact known
  | none =>
    rw [meaningIn_plain found] at known ⊢
    obtain ⟨other, v, entry, rfl⟩ := known
    exact ⟨other, v, grows _ _ entry, rfl⟩

/-! ### Rounds -/

def stage (scope : ConstantScope) (given : Results) : Nat → String → Option ConstantValue
  | 0, name => if (scope.table.enumerator? name).isSome then given.constant name else none
  | k + 1, name =>
    if (scope.table.enumerator? name).isSome then given.constant name
    else (scope.table.constant? name).bind fun tokens =>
      scope.valueUnder (scope.meaningIn ⟨scope.stage given k, given.enum⟩ (.constant name))
        (tokenize (" ".intercalate tokens))

theorem stage_recovers (shadowed : (scope.table.enumerator? name).isSome) :
    scope.stage given k name = given.constant name := by
  cases k <;> exact if_pos shadowed

theorem stage_zero (plain : scope.table.enumerator? name = none) :
    scope.stage given 0 name = none := by
  rw [stage, plain]
  rfl

theorem stage_succ (plain : scope.table.enumerator? name = none) :
    scope.stage given (k + 1) name = (scope.table.constant? name).bind fun tokens =>
      scope.valueUnder (scope.meaningIn ⟨scope.stage given k, given.enum⟩ (.constant name))
        (tokenize (" ".intercalate tokens)) := by
  rw [stage, plain]
  rfl

theorem stage_grows (known : scope.stage given k name = some result) :
    scope.stage given (k + 1) name = some result := by
  induction k generalizing name result with
  | zero =>
    cases found : scope.table.enumerator? name with
    | some entry =>
      have shadowed : (scope.table.enumerator? name).isSome := by rw [found]; rfl
      rw [stage_recovers shadowed] at known ⊢
      exact known
    | none =>
      rw [stage_zero found] at known
      cases known
  | succ k ih =>
    cases found : scope.table.enumerator? name with
    | some entry =>
      have shadowed : (scope.table.enumerator? name).isSome := by rw [found]; rfl
      rw [stage_recovers shadowed] at known ⊢
      exact known
    | none =>
      rw [stage_succ found, Option.bind_eq_some_iff] at known ⊢
      obtain ⟨tokens, declared, early⟩ := known
      refine ⟨tokens, declared, valueUnder_mono (fun n v => ?_) early⟩
      apply meaningIn_mono
      · intro n shadowed
        exact (stage_recovers shadowed).trans (stage_recovers shadowed).symm
      · intro n v
        exact ih

theorem stage_mono (le : k ≤ l) (known : scope.stage given k name = some result) :
    scope.stage given l name = some result := by
  induction le with
  | refl => exact known
  | step _ ih => exact stage_grows ih

open Classical in
/-- The value that a constant gets in any round. -/
noncomputable def limit (scope : ConstantScope) (given : Results) (name : String) :
    Option ConstantValue :=
  if reached : ∃ result, ∃ k, scope.stage given k name = some result then some reached.choose
  else none

theorem limit_eq_some :
    scope.limit given name = some result ↔ ∃ k, scope.stage given k name = some result := by
  unfold limit
  constructor
  · intro known
    split at known
    · next reached =>
      cases known
      exact reached.choose_spec
    · cases known
  · rintro ⟨k, known⟩
    have reached : ∃ result, ∃ k, scope.stage given k name = some result := ⟨result, k, known⟩
    rw [dif_pos reached]
    obtain ⟨l, chosen⟩ := reached.choose_spec
    have late := stage_mono (Nat.le_max_left k l) known
    rw [stage_mono (Nat.le_max_right k l) chosen] at late
    exact late

theorem limit_recovers (shadowed : (scope.table.enumerator? name).isSome) :
    scope.limit given name = given.constant name := by
  apply Option.ext
  intro result
  rw [limit_eq_some]
  simp only [stage_recovers shadowed, exists_const]

theorem limit_absent (plain : scope.table.enumerator? name = none)
    (absent : scope.table.constant? name = none) : scope.limit given name = none := by
  rw [Option.eq_none_iff_forall_ne_some]
  intro result known
  obtain ⟨k, early⟩ := limit_eq_some.mp known
  have next := stage_grows early
  rw [stage_succ plain, absent] at next
  cases next

noncomputable def settled (scope : ConstantScope) (given : Results) : Results where
  constant := scope.limit given
  enum := given.enum

theorem meaningIn_settled
    (early : scope.meaningIn ⟨scope.stage given k, given.enum⟩ self name = .ok value) :
    scope.meaningIn (scope.settled given) self name = .ok value := by
  refine meaningIn_mono (fun n shadowed => ?_) (fun n v known => ?_) early
  · exact (stage_recovers shadowed).trans (limit_recovers shadowed).symm
  · exact limit_eq_some.mpr ⟨k, known⟩

/-- A constant in the end has the value that its replacement list has in the end. -/
theorem limit_eq {words : List String} (plain : scope.table.enumerator? name = none)
    (declared : scope.table.constant? name = some words) :
    scope.limit given name =
      scope.valueUnder (scope.meaningIn (scope.settled given) (.constant name))
        (tokenize (" ".intercalate words)) := by
  apply Option.ext
  intro result
  constructor
  · intro known
    obtain ⟨k, early⟩ := limit_eq_some.mp known
    have next := stage_grows early
    rw [stage_succ plain, declared] at next
    exact valueUnder_mono (fun n v => meaningIn_settled) next
  · intro known
    have reached : ∃ k, scope.valueUnder
        (scope.meaningIn ⟨scope.stage given k, given.enum⟩ (.constant name))
        (tokenize (" ".intercalate words)) = some result := by
      refine valueUnder_at_stage (fun k n v early => ?_) (fun n v late => ?_) known
      · refine meaningIn_mono (fun m shadowed => ?_) (fun m v => stage_grows) early
        exact (stage_recovers shadowed).trans (stage_recovers shadowed).symm
      · cases found : scope.table.enumerator? n with
        | some entry =>
          have shadowed : (scope.table.enumerator? n).isSome := by rw [found]; rfl
          refine ⟨0, ?_⟩
          simpa only [meaningIn, enumeratorIn, settled, limit_recovers shadowed,
            stage_recovers shadowed] using late
        | none =>
          obtain ⟨other, w, entry, rfl⟩ := (meaningIn_plain found).mp late
          obtain ⟨k, early⟩ := limit_eq_some.mp entry
          exact ⟨k, (meaningIn_plain found).mpr ⟨other, w, early, rfl⟩⟩
    obtain ⟨k, early⟩ := reached
    refine limit_eq_some.mpr ⟨k + 1, ?_⟩
    rw [stage_succ plain, declared]
    exact early

end ConstantScope

end CBindings
