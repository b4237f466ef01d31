import CBindings.Proofs.Constant.Reference

/-! Evaluation that agrees with fixed meanings of names. If each name that is asked for gets its
meaning, then so does what is evaluated, and whatever the names keep true of the memo is kept. -/

namespace CBindings

variable {σ α β : Type} {good : Prop}

/-- A computation keeps `holds` true of the memo and gives a result that is `ok`. -/
def Ensures (holds : σ → Prop) (x : StateM σ α) (ok : α → Prop) : Prop :=
  ∀ memo, holds memo → ok (x memo).1 ∧ holds (x memo).2

namespace Ensures

section

variable {holds : σ → Prop} {start : σ}

theorem pure {ok : α → Prop} {a : α} (fine : ok a) : Ensures holds (Pure.pure a) ok :=
  fun _ held => ⟨fine, held⟩

theorem mono {ok ok' : α → Prop} {x : StateM σ α} (ensures : Ensures holds x ok)
    (weaker : ∀ a, ok a → ok' a) : Ensures holds x ok' :=
  fun memo held => (ensures memo held).imp_left (weaker _)

theorem bind {ok : α → Prop} {ok' : β → Prop} {x : StateM σ α} {f : α → StateM σ β}
    (first : Ensures holds x ok) (second : ∀ a, ok a → Ensures holds (f a) ok') :
    Ensures holds (x >>= f) ok' := by
  intro memo held
  obtain ⟨fine, still⟩ := first memo held
  exact second _ fine _ still

theorem fresh {x : StateM σ α} {a : α} (first : holds start)
    (ensures : Ensures holds x fun result => good → result = a) :
    Ensures holds x fun result => good → result = (x start).1 :=
  ensures.mono fun _ right isGood => (right isGood).trans ((ensures start first).1 isGood).symm

theorem bindFresh {x : StateM σ α} {f : α → StateM σ β} (empty : holds start)
    (first : Ensures holds x fun result => good → result = (x start).1)
    (second : ∀ a, Ensures holds (f a) fun result => good → result = (f a start).1) :
    Ensures holds (x >>= f) fun result => good → result = ((x >>= f) start).1 := by
  intro memo held
  obtain ⟨same, kept⟩ := first memo held
  obtain ⟨right, still⟩ := second (x memo).1 _ kept
  refine ⟨fun isGood => ?_, still⟩
  have alone := (second (x start).1 _ (first start empty).2).1 isGood
  calc (f (x memo).1 (x memo).2).1
    _ = (f (x memo).1 start).1 := right isGood
    _ = (f (x start).1 start).1 := by rw [same isGood]
    _ = (f (x start).1 (x start).2).1 := alone.symm

theorem mapFresh {x : StateM σ α} (f : α → β) (empty : holds start)
    (first : Ensures holds x fun result => good → result = (x start).1) :
    Ensures holds (f <$> x) fun result => good → result = ((f <$> x) start).1 :=
  first.bindFresh empty fun _ => .pure fun _ => rfl

end

variable {holds : ConstantMemo → Prop}

theorem bindLift {ok : α → Prop} {ok' : Except ExpressionError β → Prop} {x : Remembering α}
    {f : α → Evaluating β} (first : Ensures holds x ok)
    (second : ∀ a, ok a → Ensures holds (f a).run ok') :
    Ensures holds ((liftM x : Evaluating α) >>= f).run ok' :=
  first.bind second

/-- The result of a sequence is known if it is known of its parts. `good` tells whether it matters
what the results are. -/
theorem bindE {x : Evaluating α} {f : α → Evaluating β} {expected : Except ExpressionError α}
    {next : α → Except ExpressionError β}
    (first : Ensures holds x.run fun result => good → result = expected)
    (second : ∀ a, (good → expected = .ok a) →
      Ensures holds (f a).run fun result => good → result = next a) :
    Ensures holds (x >>= f).run fun result => good → result = expected >>= next := by
  rw [ExceptT.run_bind]
  refine first.bind fun result known => ?_
  cases result with
  | error error => exact .pure fun isGood => known isGood ▸ rfl
  | ok a =>
    intro memo held
    obtain ⟨fine, still⟩ := second a (fun isGood => (known isGood).symm) memo held
    exact ⟨fun isGood => known isGood ▸ fine isGood, still⟩

theorem bindLiftFresh {x : Remembering α} {f : α → Evaluating β} (empty : holds {})
    (first : Ensures holds x fun result => good → result = (x {}).1)
    (second : ∀ a, Ensures holds (f a).run fun result => good → result = ((f a).run {}).1) :
    Ensures holds ((liftM x : Evaluating α) >>= f).run fun result =>
      good → result = (((liftM x : Evaluating α) >>= f).run {}).1 :=
  first.bindFresh empty second

theorem bindEFresh {x : Evaluating α} {f : α → Evaluating β} (empty : holds {})
    (first : Ensures holds x.run fun result => good → result = (x.run {}).1)
    (second : ∀ a, Ensures holds (f a).run fun result => good → result = ((f a).run {}).1) :
    Ensures holds (x >>= f).run fun result => good → result = ((x >>= f).run {}).1 := by
  rw [ExceptT.run_bind]
  refine first.bindFresh empty fun result => ?_
  cases result with
  | error error => exact .pure fun _ => rfl
  | ok a => exact second a

end Ensures

variable {holds : ConstantMemo → Prop} {names : String → Evaluating IntValue} {meaning : String → Except ExpressionError IntValue}
  {hopes : (String → Except ExpressionError IntValue) → Prop}

/-- An expression is evaluated as `meaning` says if its names are. A name must be asked for only
where all of `hopes` have a value for it. They have one for each name that is asked for in truth, if
they have one for the expression and `meaning` agrees with them. -/
theorem evaluateIn_ensures {casts : String → Except ExpressionError IntType} {widen : Bool}
    {expr : Expr}
    (below : ∀ hope, hopes hope → ∀ n v, hope n = .ok v → meaning n = .ok v)
    (named : ∀ n ∈ expr.names, (∀ hope, hopes hope → ∃ v, hope n = .ok v) →
      Ensures holds (names n).run fun result => good → result = meaning n)
    (hoped : ∀ hope, hopes hope → good ∧ ∃ v, expr.evaluate hope casts widen = .ok v) :
    Ensures holds
      (expr.evaluateIn names (fun typeName => .mk (pure (casts typeName))) widen).run
      fun result => good → result = expr.evaluate meaning casts widen := by
  have agrees : ∀ {hope e v}, hopes hope → Expr.evaluate hope casts widen e = .ok v →
      Expr.evaluate meaning casts widen e = .ok v :=
    fun isHope value => Expr.evaluate_mono (fun n _ v => below _ isHope n v) value
  induction expr with
  | literal value => exact .pure fun _ => rfl
  | name n => exact named n List.mem_cons_self fun hope isHope => (hoped hope isHope).2
  | call n => exact .pure fun _ => rfl
  | cast typeName operand ih =>
    refine Ensures.bindE (Ensures.pure fun _ => rfl) fun target _ => ?_
    refine Ensures.bindE (ih named ?_) fun value _ => .pure fun _ => rfl
    intro hope isHope
    obtain ⟨isGood, v, whole⟩ := hoped hope isHope
    obtain ⟨-, -, inner, value, -⟩ := Expr.evaluate_cast_eq_ok.mp whole
    exact ⟨isGood, inner, value⟩
  | unary op operand ih =>
    refine Ensures.bindE (ih named ?_) fun value _ => .pure fun _ => rfl
    intro hope isHope
    obtain ⟨isGood, v, whole⟩ := hoped hope isHope
    obtain ⟨inner, value, -⟩ := Expr.evaluate_unary_eq_ok.mp whole
    exact ⟨isGood, inner, value⟩
  | conditional condition chosen otherwise ihCondition ihChosen ihOtherwise =>
    simp only [Expr.names, List.mem_append, or_imp, forall_and] at named
    refine Ensures.bindE (ihCondition named.1.1 ?_) fun test tested => ?_
    · intro hope isHope
      obtain ⟨isGood, v, whole⟩ := hoped hope isHope
      obtain ⟨test, value, -⟩ := Expr.evaluate_conditional_eq_ok.mp whole
      exact ⟨isGood, test, value⟩
    · -- the hopes take the same branch, since they agree with `meaning` on the condition
      have branch : ∀ hope, hopes hope → good ∧
          (test.value ≠ 0 ∧ (∃ v, chosen.evaluate hope casts widen = .ok v) ∨
            test.value = 0 ∧ ∃ v, otherwise.evaluate hope casts widen = .ok v) := by
        intro hope isHope
        obtain ⟨isGood, v, whole⟩ := hoped hope isHope
        obtain ⟨test', value, rest⟩ := Expr.evaluate_conditional_eq_ok.mp whole
        obtain rfl : test' = test :=
          Except.ok.inj ((agrees isHope value).symm.trans (tested isGood))
        exact ⟨isGood, rest.imp (fun taken => ⟨taken.1, v, taken.2⟩)
          fun taken => ⟨taken.1, v, taken.2⟩⟩
      split
      · next holds =>
        refine ihChosen named.1.2 fun hope isHope => ?_
        obtain ⟨isGood, ⟨-, value⟩ | ⟨zero, -⟩⟩ := branch hope isHope
        · exact ⟨isGood, value⟩
        · exact absurd zero holds
      · next zero =>
        refine ihOtherwise named.2 fun hope isHope => ?_
        obtain ⟨isGood, ⟨holds, -⟩ | ⟨-, value⟩⟩ := branch hope isHope
        · exact absurd holds zero
        · exact ⟨isGood, value⟩
  | binary op left right ihLeft ihRight =>
    simp only [Expr.names, List.mem_append, or_imp, forall_and] at named
    refine Ensures.bindE (ihLeft named.1 ?_) fun a known => ?_
    · intro hope isHope
      obtain ⟨isGood, v, whole⟩ := hoped hope isHope
      obtain ⟨a, value, -⟩ := Expr.evaluate_binary_eq_ok.mp whole
      exact ⟨isGood, a, value⟩
    · cases undecided : op.decided? a with
      | some decided => exact .pure fun _ => rfl
      | none =>
        refine Ensures.bindE (ihRight named.2 ?_) fun b _ => ?_
        · intro hope isHope
          obtain ⟨isGood, v, whole⟩ := hoped hope isHope
          obtain ⟨a', value, rest⟩ := Expr.evaluate_binary_eq_ok.mp whole
          obtain rfl : a' = a :=
            Except.ok.inj ((agrees isHope value).symm.trans (known isGood))
          obtain decided | ⟨-, b, rightValue, -⟩ := rest
          · rw [undecided] at decided
            cases decided
          · exact ⟨isGood, b, rightValue⟩
        · cases op.apply a b with
          | ok value => exact .pure fun _ => rfl
          | error error => exact .pure fun _ => rfl

namespace ConstantScope

variable {scope : ConstantScope} {tokens : List Token} {resolve : String → Evaluating IntValue}

/-! ### Replacement lists -/

def integerUnder (scope : ConstantScope) (meaning : String → Except ExpressionError IntValue)
    (tokens : List Token) : Except ExpressionError IntValue :=
  Expr.parse tokens scope.reading >>= fun expr => expr.evaluate meaning scope.castType false

/-- The result of a replacement list that is not read as an integer expression. -/
def literal? (tokens : List Token) : Option (Option ConstantValue) :=
  if tokens.isEmpty then some none
  else
    match Constant.string? tokens with
    | some text => some (some (.text text))
    | none => (Constant.float? tokens).map fun x => some (.float x)

theorem literal?_ne_integer {v : IntValue} :
    literal? tokens ≠ some (some (.integer v)) := by
  unfold literal?
  split
  · simp
  · split
    · simp
    · cases Constant.float? tokens <;> simp

def valueUnder (scope : ConstantScope) (meaning : String → Except ExpressionError IntValue)
    (tokens : List Token) : Option ConstantValue :=
  match literal? tokens with
  | some result => result
  | none => (scope.integerUnder meaning tokens).toOption.map .integer

theorem value_literal {result : Option ConstantValue} (literal : literal? tokens = some result) :
    scope.value resolve tokens = pure result := by
  unfold literal? at literal
  unfold value
  by_cases empty : tokens.isEmpty = true
  · rw [if_pos empty] at literal ⊢
    cases literal
    rfl
  · rw [if_neg empty] at literal ⊢
    cases string : Constant.string? tokens with
    | some text =>
      simp only [string] at literal ⊢
      cases literal
      rfl
    | none =>
      cases float : Constant.float? tokens with
      | none => simp [string, float] at literal
      | some x =>
        simp only [string, float, Option.map_some] at literal ⊢
        cases literal
        rfl

theorem value_expression (expression : literal? tokens = none) :
    scope.value resolve tokens =
      (fun result => result.toOption.map .integer) <$> (scope.integer resolve tokens).run := by
  unfold literal? at expression
  unfold value
  by_cases empty : tokens.isEmpty = true
  · rw [if_pos empty] at expression
    cases expression
  · rw [if_neg empty] at expression ⊢
    cases string : Constant.string? tokens with
    | some text => simp [string] at expression
    | none =>
      simp only [string, Option.map_eq_none_iff] at expression ⊢
      simp only [expression, map_eq_pure_bind]
      refine congrArg ((scope.integer resolve tokens).run >>= ·) ?_
      funext result
      cases result <;> rfl

theorem integer_eq (resolve : String → Evaluating IntValue) (tokens : List Token) :
    scope.integer resolve tokens = integer.liftExcept (Expr.parse tokens scope.reading) >>= fun expr =>
      expr.evaluateIn resolve (fun typeName => integer.liftExcept (scope.castType typeName)) false :=
  rfl

theorem integer_single (name : String) (line : Nat) :
    scope.integer resolve [⟨.ident, name, line⟩] = resolve name := by
  rw [integer_eq, parse_single]
  rfl

theorem integerUnder_single (name : String) (line : Nat) :
    scope.integerUnder meaning [⟨.ident, name, line⟩] = meaning name := by
  rw [integerUnder, parse_single]
  rfl

theorem integer_ensures
    (below : ∀ hope, hopes hope → ∀ n v, hope n = .ok v → meaning n = .ok v)
    (named : ∀ n ∈ scope.namesIn tokens, (∀ hope, hopes hope → ∃ v, hope n = .ok v) →
      Ensures holds (resolve n).run fun result => good → result = meaning n)
    (hoped : ∀ hope, hopes hope → good ∧ ∃ v, scope.integerUnder hope tokens = .ok v) :
    Ensures holds (scope.integer resolve tokens).run
      fun result => good → result = scope.integerUnder meaning tokens := by
  rw [integer_eq]
  cases parsed : Expr.parse tokens scope.reading with
  | error error =>
    rw [integerUnder, parsed]
    exact .pure fun _ => rfl
  | ok expr =>
    simp only [namesIn, parsed] at named
    simp only [integerUnder, parsed] at hoped ⊢
    exact evaluateIn_ensures below named hoped

theorem value_ensures
    (below : ∀ hope, hopes hope → ∀ n v, hope n = .ok v → meaning n = .ok v)
    (named : ∀ n ∈ scope.namesIn tokens, (∀ hope, hopes hope → ∃ v, hope n = .ok v) →
      Ensures holds (resolve n).run fun result => good → result = meaning n)
    (hoped : ∀ hope, hopes hope → good ∧ (scope.valueUnder hope tokens).isSome) :
    Ensures holds (scope.value resolve tokens)
      fun result => good → result = scope.valueUnder meaning tokens := by
  cases literal : literal? tokens with
  | some result =>
    rw [value_literal literal, valueUnder, literal]
    exact .pure fun _ => rfl
  | none =>
    rw [value_expression literal, map_eq_pure_bind]
    simp only [valueUnder, literal] at hoped ⊢
    refine (integer_ensures below named fun hope isHope => ?_).bind fun result known =>
      .pure fun isGood => known isGood ▸ rfl
    obtain ⟨isGood, value⟩ := hoped hope isHope
    cases evaluated : scope.integerUnder hope tokens with
    | error error =>
      rw [evaluated] at value
      cases value
    | ok v => exact ⟨isGood, v, rfl⟩

/-! ### Enumerators -/

def meaningAfter (done : List (String × Option Int))
    (meaning : String → Except ExpressionError IntValue) (name : String) :
    Except ExpressionError IntValue :=
  match done.lookup name with
  | some (some n) => .ok ⟨n, .int, .decimal⟩
  | some none => .error (.noEnumeratorValue name)
  | none => meaning name

def assignedUnder (scope : ConstantScope) (meaning : String → Except ExpressionError IntValue)
    (done : List (String × Option Int)) (following : Option Int) : Assigned → Option Int
  | .implicit => following
  | .number n => some n
  | .text expression =>
    (scope.integerUnder (meaningAfter done meaning) (tokenize expression)).toOption.map
      IntValue.value

def enumeratorsUnder (scope : ConstantScope) (meaning : String → Except ExpressionError IntValue) :
    List (String × Option Int) → Option Int → List Enumerator → List (String × Option Int)
  | done, _, [] => done
  | done, following, e :: rest =>
    let value := (scope.assignedUnder meaning done following e.value).map IntType.int.wrap
    scope.enumeratorsUnder meaning (done ++ [(e.name, value)]) (value.map (· + 1)) rest

theorem resolveIn_ensures {done : List (String × Option Int)} {name : String}
    (named : name ∉ done.map Prod.fst →
      Ensures holds (resolve name).run fun result => good → result = meaning name) :
    Ensures holds (resolveIn done resolve name).run
      fun result => good → result = meaningAfter done meaning name := by
  cases found : done.lookup name with
  | some value =>
    cases value with
    | some n =>
      simp only [resolveIn, meaningAfter, found]
      exact .pure fun _ => rfl
    | none =>
      simp only [resolveIn, meaningAfter, found]
      exact .pure fun _ => rfl
  | none =>
    simp only [resolveIn, meaningAfter, found]
    refine named fun member => ?_
    obtain ⟨⟨earlier, value⟩, listed, rfl⟩ := List.mem_map.mp member
    rw [List.lookup_eq_none_iff] at found
    simpa using found _ listed

theorem assigned_ensures {done : List (String × Option Int)} {following : Option Int}
    {given : Assigned}
    (named : ∀ n ∈ scope.namesAsked (done.map Prod.fst) given,
      Ensures holds (resolve n).run fun result => good → result = meaning n) :
    Ensures holds (scope.assigned resolve done following given)
      fun value => good → value = scope.assignedUnder meaning done following given := by
  unfold assigned
  cases given with
  | implicit => exact .pure fun _ => rfl
  | number n => exact .pure fun _ => rfl
  | text expression =>
    have evaluated : Ensures holds (scope.integer (resolveIn done resolve) (tokenize expression)).run
        fun result => good →
          result = scope.integerUnder (meaningAfter done meaning) (tokenize expression) := by
      refine integer_ensures (fun _ => False.elim) (fun n member _ => ?_) (fun _ => False.elim)
      refine resolveIn_ensures fun new => named n ?_
      exact List.mem_filter.mpr ⟨member, decide_eq_true new⟩
    refine evaluated.bind fun result known => ?_
    cases result with
    | ok v => exact .pure fun isGood => by rw [assignedUnder, ← known isGood]; rfl
    | error error => exact .pure fun isGood => by rw [assignedUnder, ← known isGood]; rfl

theorem enumeratorsFrom_ensures {values : List Enumerator} (done : List (String × Option Int))
    (following : Option Int)
    (named : ∀ n ∈ scope.namesFrom (done.map Prod.fst) values,
      Ensures holds (resolve n).run fun result => good → result = meaning n) :
    Ensures holds (scope.enumeratorsFrom resolve done following values)
      fun result => good → result = scope.enumeratorsUnder meaning done following values := by
  induction values generalizing done following with
  | nil => exact .pure fun _ => rfl
  | cons e rest ih =>
    have first : Ensures holds (scope.assigned resolve done following e.value) fun value =>
        good → value = scope.assignedUnder meaning done following e.value :=
      assigned_ensures fun n member => named n (List.mem_append_left _ member)
    refine first.bind fun given known memo held => ?_
    have later : ∀ n ∈ scope.namesFrom
        ((done ++ [(e.name, given.map IntType.int.wrap)]).map Prod.fst) rest,
        Ensures holds (resolve n).run fun result => good → result = meaning n := by
      intro n member
      rw [List.map_append] at member
      exact named n (List.mem_append_right _ member)
    have agrees := ih _ ((given.map IntType.int.wrap).map (· + 1)) later memo held
    refine ⟨fun isGood => ?_, agrees.2⟩
    rw [enumeratorsUnder, ← known isGood]
    exact agrees.1 isGood

end ConstantScope

end CBindings
