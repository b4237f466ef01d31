import CBindings.Proofs.Constant.Agreement
import CBindings.Proofs.Constant.Replay
import CBindings.Proofs.Constant.Request

/-! Evaluation of constants with guards that are set and taken back, errors that can come out, and
fuel that can run out. On every table it gives the results of the plain evaluation: no error comes
out, no guard stays, and the fuel needed is bounded by the number of names. -/

namespace CBindings

/-- What an evaluator keeps: results, and the guards of all that it is evaluating. -/
structure Workings where
  memo : ConstantMemo
  active : List Pursuit

abbrev Guarding := ExceptT ExpressionError (StateT Workings Option)

namespace Guarding

variable {α β : Type}

def outOfFuel : Guarding α := ExceptT.mk fun _ => none

def lift (result : Except ExpressionError α) : Guarding α := ExceptT.mk (pure result)

def during (guard : Pursuit) (body : Guarding α) : Guarding α := ExceptT.mk do
  modify fun workings => { workings with active := workings.active.insert guard }
  let result ← body.run
  modify fun workings => { workings with active := workings.active.erase guard }
  return result

def caught (body : Guarding α) : Guarding (Option α) := ExceptT.mk do
  return .ok (← body.run).toOption

end Guarding

namespace ConstantScope

open Guarding

/-! ### The evaluator -/

def typedefWithFuel (scope : ConstantScope) : Nat → List String → String → Guarding IntType
  | 0, _, _ => outOfFuel
  | fuel + 1, seen, name =>
    if name ∈ seen then throw (.typedefCycle name)
    else
      match scope.table.typedef? name with
      | some (.named type) =>
        match type.kind with
        | .primitive => lift (scope.primitiveType type.spelling)
        | .enum => pure .int
        | .typedef => typedefWithFuel scope fuel (name :: seen) type.spelling
        | .struct | .union => throw (.nonIntegerCast name)
      | some _ => throw (.nonIntegerCast name)
      | none =>
        match scope.target.typedefWidth name with
        | some (bits, signed) => pure ⟨bits, signed⟩
        | none => throw (.unknownTypeCast name)

def castWithFuel (scope : ConstantScope) (fuel : Nat) (typeName : String) : Guarding IntType :=
  let words := ((Text.splitOn ' ' typeName.toList).filter (!·.isEmpty)).map String.ofList
  if words.all Primitive.keywords.contains then
    match Primitive.canonical words with
    | .ok name => lift (scope.primitiveType name)
    | .error error => throw (.specifiers error)
  else scope.typedefWithFuel fuel [] typeName

section

variable (scope : ConstantScope) (fuel : Nat) (resolve : String → Guarding IntValue)

def guardedInteger (tokens : List Token) : Guarding IntValue := do
  let reading : Expr.Reading :=
    { longWidth := scope.target.longWidth, isTypeName := scope.table.isTypeName }
  let expr ← lift (Expr.parse tokens reading)
  expr.evaluateIn resolve (scope.castWithFuel fuel) false

def guardedValue (tokens : List Token) : Guarding (Option ConstantValue) :=
  match literal? tokens with
  | some result => pure result
  | none => do
    match ← caught (scope.guardedInteger fuel resolve tokens) with
    | some value => pure (some (.integer value))
    | none => pure none

def newGuardedConstant (name : String) (tokens : List String) :
    Guarding (Option ConstantValue) := do
  let result ← during (.constant name)
    (scope.guardedValue fuel resolve (tokenize (" ".intercalate tokens)))
  modify fun workings => { workings with
    memo := { workings.memo with constants := workings.memo.constants.insert name result } }
  return result

def guardedConstant (name : String) : Guarding (Option ConstantValue) := do
  match (← get).memo.constants.get? name with
  | some result => pure result
  | none =>
    match scope.table.constant? name with
    | none => pure none
    | some tokens =>
      if .constant name ∈ (← get).active then pure none
      else scope.newGuardedConstant fuel resolve name tokens

def guardedName (done : List (String × Option Int)) (name : String) : Guarding IntValue :=
  match done.lookup name with
  | some (some n) => pure ⟨n, .int, .decimal⟩
  | some none => throw (.noEnumeratorValue name)
  | none => resolve name

def guardedAssigned (done : List (String × Option Int)) (following : Option Int) :
    Assigned → Guarding (Option Int)
  | .implicit => pure following
  | .number n => pure (some n)
  | .text expression => do
    match ← caught (scope.guardedInteger fuel (guardedName resolve done) (tokenize expression)) with
    | some value => pure (some value.value)
    | none => pure none

def guardedEnumerators :
    List (String × Option Int) → Option Int → List Enumerator →
      Guarding (List (String × Option Int))
  | done, _, [] => pure done
  | done, following, e :: rest => do
    let given ← scope.guardedAssigned fuel resolve done following e.value
    let value := given.map IntType.int.wrap
    guardedEnumerators (done ++ [(e.name, value)]) (value.map (· + 1)) rest

def newGuardedEnum (symbol : Symbol) : Guarding (List (String × Option Int)) := do
  let result ← during (.enum symbol.serial)
    (scope.guardedEnumerators fuel resolve [] (some 0) symbol.item.enumerators)
  modify fun workings => { workings with
    memo := { workings.memo with enums := workings.memo.enums.insert symbol.serial result } }
  return result

def guardedEnum (symbol : Symbol) : Guarding (List (String × Option Int)) := do
  match (← get).memo.enums.get? symbol.serial with
  | some values => pure values
  | none =>
    if .enum symbol.serial ∈ (← get).active then throw .ownEnum
    else scope.newGuardedEnum fuel resolve symbol

def guardedEnumerator (name : String) : Guarding (Option Int) :=
  match scope.table.enumerator? name with
  | none => pure none
  | some (symbol, _) => (valueOf · name) <$> scope.guardedEnum fuel resolve symbol

end

def meaningWithFuel (scope : ConstantScope) : Nat → String → Guarding IntValue
  | 0, _ => outOfFuel
  | fuel + 1, name => do
    match ← scope.guardedConstant fuel (meaningWithFuel scope fuel) name with
    | some (.integer value) => pure ⟨value.value, value.type, .decimal⟩
    | some _ => throw (.notIntegerConstant name)
    | none =>
      match ← scope.guardedEnumerator fuel (meaningWithFuel scope fuel) name with
      | some n => pure ⟨n, .int, .decimal⟩
      | none => throw (.unknownName name)

def guardedExtent (scope : ConstantScope) (fuel : Nat) : Extent → Guarding (Option Int)
  | .flexible => pure none
  | .count n => pure (some n)
  | .text expression => do
    match ← scope.guardedValue fuel (scope.meaningWithFuel fuel) (tokenize expression) with
    | some (.integer value) => pure (if 0 ≤ value.value then some value.value else none)
    | _ => pure none

def replyWithFuel (scope : ConstantScope) (fuel : Nat) : ConstantRequest → Guarding ConstantReply
  | .tokens list => .value <$> scope.guardedValue fuel (scope.meaningWithFuel fuel) list
  | .constant name => .value <$> scope.guardedConstant fuel (scope.meaningWithFuel fuel) name
  | .enum symbol => .enum <$> scope.guardedEnum fuel (scope.meaningWithFuel fuel) symbol
  | .enumerator name =>
    .number <$> scope.guardedEnumerator fuel (scope.meaningWithFuel fuel) name
  | .extent size => .number <$> scope.guardedExtent fuel size

/-- What came of some requests in a row, with the guards that stood after each. -/
def session (scope : ConstantScope) (fuel : Nat) (requests : List ConstantRequest) :
    StateT Workings Option (List (Except ExpressionError ConstantReply × List Pursuit)) :=
  requests.mapM fun request => do
    let result ← (scope.replyWithFuel fuel request).run
    return (result, (← get).active)

def depth (scope : ConstantScope) : Nat :=
  scope.pursuits.length + scope.table.names.length + 2

end ConstantScope

/-! ### It follows the plain evaluation -/

variable {α β : Type} {scope : ConstantScope} {pursued : List Pursuit} {fuel : Nat}

def Follows (pursued : List Pursuit) (guarded : StateT Workings Option α) (plain : Remembering α) :
    Prop :=
  ∀ memo, guarded ⟨memo, pursued⟩ = some ((plain memo).1, ⟨(plain memo).2, pursued⟩)

namespace Follows

theorem pure (a : α) : Follows pursued (Pure.pure a) (Pure.pure a) := fun _ => rfl

theorem bind {x : StateT Workings Option α} {y : Remembering α} {f : α → StateT Workings Option β}
    {g : α → Remembering β} (first : Follows pursued x y)
    (second : ∀ a, Follows pursued (f a) (g a)) : Follows pursued (x >>= f) (y >>= g) := by
  intro memo
  change (x ⟨memo, pursued⟩).bind _ = _
  rw [first memo]
  exact second _ _

theorem pureE (a : α) :
    Follows pursued (Pure.pure a : Guarding α).run (Pure.pure a : Evaluating α).run :=
  fun _ => rfl

theorem throwE (error : ExpressionError) :
    Follows pursued (throw error : Guarding α).run (throw error : Evaluating α).run :=
  fun _ => rfl

theorem lift (result : Except ExpressionError α) :
    Follows pursued (Guarding.lift result).run (ConstantScope.integer.liftExcept result).run :=
  fun _ => rfl

theorem bindE {x : Guarding α} {y : Evaluating α} {f : α → Guarding β} {g : α → Evaluating β}
    (first : Follows pursued x.run y.run) (second : ∀ a, Follows pursued (f a).run (g a).run) :
    Follows pursued (x >>= f).run (y >>= g).run := by
  rw [ExceptT.run_bind, ExceptT.run_bind]
  refine first.bind fun result => ?_
  cases result with
  | ok a => exact second a
  | error error => exact .pure _

theorem mapE {x : Guarding α} {y : Evaluating α} (f : α → β)
    (follows : Follows pursued x.run y.run) : Follows pursued (f <$> x).run (f <$> y).run := by
  rw [map_eq_pure_bind, map_eq_pure_bind]
  exact follows.bindE fun a => .pureE (f a)

theorem getE {f : Workings → Guarding α} {g : ConstantMemo → Evaluating α}
    (next : ∀ memo, Follows pursued (f ⟨memo, pursued⟩).run (g memo).run) :
    Follows pursued (get >>= f).run (get >>= g).run := fun memo => next memo memo

theorem lookE {f : Workings → Guarding α} {y : Evaluating α}
    (next : ∀ memo, Follows pursued (f ⟨memo, pursued⟩).run y.run) :
    Follows pursued (get >>= f).run y.run := fun memo => next memo memo

/-- A guard that is new is there for the time of the evaluation and no longer. -/
theorem during {x : Guarding α} {y : Evaluating α} {guard : Pursuit} (new : guard ∉ pursued)
    (follows : Follows (guard :: pursued) x.run y.run) :
    Follows pursued (Guarding.during guard x).run y.run := by
  intro memo
  have start : pursued.insert guard = guard :: pursued := List.insert_of_not_mem new
  have inside := follows memo
  rw [← start] at inside
  change (x.run ⟨memo, pursued.insert guard⟩).bind _ = _
  rw [inside]
  change some (_, Workings.mk _ ((pursued.insert guard).erase guard)) = _
  rw [start, List.erase_cons_head]

end Follows

def Answers (pursued : List Pursuit) (guarded : Guarding α) (plain : Remembering α) : Prop :=
  Follows pursued guarded.run (Except.ok <$> plain)

namespace Answers

theorem pure (a : α) : Answers pursued (Pure.pure a) (Pure.pure a) := fun _ => rfl

theorem bind {x : Guarding α} {y : Remembering α} {f : α → Guarding β} {g : α → Remembering β}
    (first : Answers pursued x y) (second : ∀ a, Answers pursued (f a) (g a)) :
    Answers pursued (x >>= f) (y >>= g) :=
  Follows.bindE (y := (liftM y : Evaluating α)) (g := fun a => (liftM (g a) : Evaluating β)) first
    second

theorem map {x : Guarding α} {y : Remembering α} (f : α → β) (answers : Answers pursued x y) :
    Answers pursued (f <$> x) (f <$> y) := by
  rw [map_eq_pure_bind, map_eq_pure_bind]
  exact answers.bind fun a => .pure (f a)

theorem caught {x : Guarding α} {y : Evaluating α} {f : Option α → Guarding β}
    {g : Except ExpressionError α → Remembering β} (follows : Follows pursued x.run y.run)
    (next : ∀ result, Answers pursued (f result.toOption) (g result)) :
    Answers pursued (Guarding.caught x >>= f) (y.run >>= g) := by
  intro memo
  change ((x.run ⟨memo, pursued⟩).bind _).bind _ = _
  rw [follows memo]
  exact next _ _

theorem during {x : Guarding α} {y : Remembering α} {guard : Pursuit} (new : guard ∉ pursued)
    (answers : Answers (guard :: pursued) x y) :
    Answers pursued (Guarding.during guard x) y :=
  Follows.during (y := (liftM y : Evaluating α)) new answers

theorem get {f : Workings → Guarding α} {g : ConstantMemo → Remembering α}
    (next : ∀ memo, Answers pursued (f ⟨memo, pursued⟩) (g memo)) :
    Answers pursued (get >>= f) (get >>= g) := fun memo => next memo memo

theorem look {f : Workings → Guarding α} {y : Remembering α}
    (next : ∀ memo, Answers pursued (f ⟨memo, pursued⟩) y) : Answers pursued (MonadState.get >>= f) y :=
  fun memo => next memo memo

theorem remember {f : Workings → Workings} {g : ConstantMemo → ConstantMemo} {a : α}
    (same : ∀ memo, f ⟨memo, pursued⟩ = ⟨g memo, pursued⟩) :
    Answers pursued (do modify f; return a) (do modify g; return a) := by
  intro memo
  change some (_, f ⟨memo, pursued⟩) = _
  rw [same]
  rfl

end Answers

/-! ### Expressions -/

theorem evaluateIn_follows {names : String → Guarding IntValue} {casts : String → Guarding IntType}
    {names' : String → Evaluating IntValue} {casts' : String → Evaluating IntType}
    (named : ∀ name, Follows pursued (names name).run (names' name).run)
    (cast : ∀ typeName, Follows pursued (casts typeName).run (casts' typeName).run) (widen : Bool)
    (expr : Expr) :
    Follows pursued (expr.evaluateIn names casts widen).run
      (expr.evaluateIn names' casts' widen).run := by
  induction expr with
  | literal value => exact .pureE _
  | name n => exact named n
  | call n => exact .throwE _
  | cast typeName operand ih =>
    exact (cast typeName).bindE fun target => ih.bindE fun value => .pureE _
  | unary op operand ih => exact ih.bindE fun value => .pureE _
  | conditional condition chosen otherwise ihCondition ihChosen ihOtherwise =>
    refine ihCondition.bindE fun value => ?_
    split
    · exact ihChosen
    · exact ihOtherwise
  | binary op left right ihLeft ihRight =>
    refine ihLeft.bindE fun a => ?_
    split
    · exact .pureE _
    · refine ihRight.bindE fun b => ?_
      split
      · exact .pureE _
      · exact .throwE _

namespace ConstantScope

theorem typedefType_eq (scope : ConstantScope) (seen : List String) (name : String) :
    scope.typedefType seen name =
      if name ∈ seen then .error (.typedefCycle name)
      else
        match scope.table.typedef? name with
        | some (.named type) =>
          match type.kind with
          | .primitive => scope.primitiveType type.spelling
          | .enum => .ok .int
          | .typedef => scope.typedefType (name :: seen) type.spelling
          | .struct | .union => .error (.nonIntegerCast name)
        | some _ => .error (.nonIntegerCast name)
        | none =>
          match scope.target.typedefWidth name with
          | some (bits, signed) => .ok ⟨bits, signed⟩
          | none => .error (.unknownTypeCast name) := by
  rw [typedefType]
  by_cases old : name ∈ seen
  · rw [dif_pos old, if_pos old]
  · rw [dif_neg old, if_neg old]
    split
    · next type found =>
      rewrite [found]
      rfl
    · next other noName found =>
      rewrite [found]
      cases other with
      | named type => exact (noName type rfl).elim
      | _ => rfl
    · next absent =>
      rewrite [absent]
      rfl

theorem typedefWithFuel_follows (scope : ConstantScope) (seen : List String) (name : String)
    (enough : unseen scope.table.names seen < fuel) :
    Follows pursued (scope.typedefWithFuel fuel seen name).run
      (integer.liftExcept (scope.typedefType seen name)).run := by
  induction fuel generalizing seen name with
  | zero => exact absurd enough (Nat.not_lt_zero _)
  | succ fuel ih =>
    rw [typedefType_eq, typedefWithFuel]
    by_cases old : name ∈ seen
    · rw [if_pos old, if_pos old]
      exact .throwE _
    · rw [if_neg old, if_neg old]
      cases found : scope.table.typedef? name with
      | none =>
        cases scope.target.typedefWidth name with
        | none => exact .throwE _
        | some width => exact .pureE _
      | some type =>
        have fewer := unseen_cons_lt (SymbolTable.mem_names_of_typedef? found) old
        cases type with
        | named type =>
          dsimp only
          cases type.kind with
          | primitive => exact .lift _
          | enum => exact .pureE _
          | typedef => exact ih (name :: seen) type.spelling (by omega)
          | struct => exact .throwE _
          | union => exact .throwE _
        | _ => exact .throwE _

theorem castWithFuel_follows (scope : ConstantScope) (typeName : String)
    (enough : scope.table.names.length < fuel) :
    Follows pursued (scope.castWithFuel fuel typeName).run
      (integer.liftExcept (scope.castType typeName)).run := by
  have whole : unseen scope.table.names [] < fuel :=
    Nat.lt_of_le_of_lt (List.length_filter_le _ _) enough
  unfold castWithFuel castType
  simp only
  split
  · cases Primitive.canonical _ with
    | ok name => exact .lift _
    | error error => exact .throwE _
  · exact typedefWithFuel_follows scope [] typeName whole

/-! ### Constants and enumerators -/

section

variable {resolve : String → Guarding IntValue} {resolve' : String → Evaluating IntValue}

theorem guardedInteger_follows (enough : scope.table.names.length < fuel)
    (resolved : ∀ name, Follows pursued (resolve name).run (resolve' name).run)
    (tokens : List Token) :
    Follows pursued (scope.guardedInteger fuel resolve tokens).run
      (scope.integer resolve' tokens).run :=
  (Follows.lift _).bindE fun expr =>
    evaluateIn_follows resolved (fun typeName => castWithFuel_follows scope typeName enough) false
      expr

theorem guardedValue_answers (enough : scope.table.names.length < fuel)
    (resolved : ∀ name, Follows pursued (resolve name).run (resolve' name).run)
    (tokens : List Token) :
    Answers pursued (scope.guardedValue fuel resolve tokens) (scope.value resolve' tokens) := by
  unfold guardedValue
  cases literal : literal? tokens with
  | some result =>
    rw [value_literal literal]
    exact .pure result
  | none =>
    rw [value_expression literal, map_eq_pure_bind]
    refine .caught (guardedInteger_follows enough resolved tokens) fun result => ?_
    cases result with
    | ok value => exact .pure _
    | error error => exact .pure none

theorem guardedName_follows
    (resolved : ∀ name, Follows pursued (resolve name).run (resolve' name).run)
    (done : List (String × Option Int)) (name : String) :
    Follows pursued (guardedName resolve done name).run (resolveIn done resolve' name).run := by
  unfold guardedName resolveIn
  cases done.lookup name with
  | none => exact resolved name
  | some value =>
    cases value with
    | some n => exact .pureE _
    | none => exact .throwE _

theorem guardedAssigned_answers (enough : scope.table.names.length < fuel)
    (resolved : ∀ name, Follows pursued (resolve name).run (resolve' name).run)
    (done : List (String × Option Int)) (following : Option Int) (given : Assigned) :
    Answers pursued (scope.guardedAssigned fuel resolve done following given)
      (scope.assigned resolve' done following given) := by
  cases given with
  | implicit => exact .pure following
  | number n => exact .pure (some n)
  | text expression =>
    have evaluated := guardedInteger_follows enough (guardedName_follows resolved done)
      (tokenize expression)
    refine .caught evaluated fun result => ?_
    cases result with
    | ok value => exact .pure _
    | error error => exact .pure none

theorem guardedEnumerators_answers (enough : scope.table.names.length < fuel)
    (resolved : ∀ name, Follows pursued (resolve name).run (resolve' name).run)
    (done : List (String × Option Int)) (following : Option Int) (values : List Enumerator) :
    Answers pursued (scope.guardedEnumerators fuel resolve done following values)
      (scope.enumeratorsFrom resolve' done following values) := by
  induction values generalizing done following with
  | nil => exact .pure done
  | cons e rest ih =>
    exact (guardedAssigned_answers enough resolved done following e.value).bind fun given => ih _ _

end

/-! ### Guards -/

variable {resolve : String → Guarding IntValue} {resolve' : String → Evaluating IntValue}

theorem newGuardedConstant_answers {name : String} {tokens : List String}
    (enough : scope.table.names.length < fuel) (new : .constant name ∉ pursued)
    (inside : ∀ inner, Follows (.constant name :: pursued) (resolve inner).run
      (resolve' inner).run) :
    Answers pursued (scope.newGuardedConstant fuel resolve name tokens)
      (scope.constantValue resolve' name tokens) := by
  have evaluated := guardedValue_answers enough inside (tokenize (" ".intercalate tokens))
  exact (Answers.during new evaluated).bind fun result => .remember fun memo => rfl

theorem newGuardedEnum_answers {symbol : Symbol} (enough : scope.table.names.length < fuel)
    (new : .enum symbol.serial ∉ pursued)
    (inside : ∀ inner, Follows (.enum symbol.serial :: pursued) (resolve inner).run
      (resolve' inner).run) :
    Answers pursued (scope.newGuardedEnum fuel resolve symbol)
      (scope.enumeratorValues resolve' symbol) := by
  have evaluated := guardedEnumerators_answers enough inside [] (some 0) symbol.item.enumerators
  exact (Answers.during new evaluated).bind fun values => .remember fun memo => rfl

theorem guardedConstant_answers {name : String} (enough : scope.table.names.length < fuel)
    (resolved : .constant name ∈ scope.pursuits → .constant name ∉ pursued → ∀ inner,
      Follows (.constant name :: pursued) (resolve inner).run
        (scope.resolve (.constant name :: pursued) inner).run) :
    Answers pursued (scope.guardedConstant fuel resolve name)
      (scope.constantBy (scope.follow pursued) name) := by
  refine .get fun memo => ?_
  cases memo.constants.get? name with
  | some result => exact .pure result
  | none =>
    cases found : scope.table.constant? name with
    | none =>
      rw [newConstant_absent found]
      exact .pure none
    | some tokens =>
      refine .look fun memo => ?_
      by_cases new : .constant name ∈ pursued
      · rw [newConstant_pursued new, if_pos new]
        exact .pure none
      · rw [newConstant_found found new, if_neg new]
        exact newGuardedConstant_answers enough new (resolved (constant_mem_pursuits found) new)

theorem guardedEnum_follows (pursued : List Pursuit) (symbol : Symbol)
    (enough : scope.table.names.length < fuel)
    (resolved : .enum symbol.serial ∉ pursued → ∀ inner,
      Follows (.enum symbol.serial :: pursued) (resolve inner).run
        (scope.resolve (.enum symbol.serial :: pursued) inner).run) :
    Follows pursued (scope.guardedEnum fuel resolve symbol).run
      (scope.enumValuesBy (if .enum symbol.serial ∈ pursued then none
        else some (scope.resolve (.enum symbol.serial :: pursued))) symbol).run := by
  refine .getE fun memo => ?_
  cases memo.enums.get? symbol.serial with
  | some values => exact .pureE values
  | none =>
    refine .lookE fun memo => ?_
    by_cases new : .enum symbol.serial ∈ pursued
    · rw [if_pos new, if_pos new]
      exact .throwE _
    · rw [if_neg new, if_neg new]
      exact newGuardedEnum_answers enough new (resolved new)

theorem guardedEnumerator_follows (name : String) (enough : scope.table.names.length < fuel)
    (resolved : ∀ serial, .enum serial ∈ scope.pursuits → .enum serial ∉ pursued → ∀ inner,
      Follows (.enum serial :: pursued) (resolve inner).run
        (scope.resolve (.enum serial :: pursued) inner).run) :
    Follows pursued (scope.guardedEnumerator fuel resolve name).run
      (scope.enumeratorBy (scope.follow pursued) name).run := by
  unfold enumeratorBy
  split
  · next absent =>
    rw [guardedEnumerator, absent]
    exact .pureE none
  · next symbol e found =>
    have guarded : scope.guardedEnumerator fuel resolve name =
        (valueOf · name) <$> scope.guardedEnum fuel resolve symbol := by
      rw [guardedEnumerator, found]
    rw [guarded]
    exact (guardedEnum_follows pursued symbol enough (resolved _ (enum_mem_pursuits found))).mapE _

theorem meaningWithFuel_follows (pursued : List Pursuit) (name : String)
    (enough : unseen scope.pursuits pursued + scope.table.names.length + 1 < fuel) :
    Follows pursued (scope.meaningWithFuel fuel name).run (scope.resolve pursued name).run := by
  -- each name that is looked into sets a guard, so fewer are left than fuel
  induction fuel generalizing pursued name with
  | zero => exact absurd enough (Nat.not_lt_zero _)
  | succ fuel ih =>
    have nested : ∀ pursuit ∈ scope.pursuits, pursuit ∉ pursued → ∀ inner,
        Follows (pursuit :: pursued) (scope.meaningWithFuel fuel inner).run
          (scope.resolve (pursuit :: pursued) inner).run := by
      intro pursuit member new inner
      have fewer := unseen_cons_lt member new
      exact ih (pursuit :: pursued) inner (by omega)
    have chains : scope.table.names.length < fuel := by omega
    rw [resolve_eq, meaningWithFuel, meaning]
    have constant : Follows pursued
        (scope.guardedConstant fuel (scope.meaningWithFuel fuel) name).run
        (liftM (scope.constantBy (scope.follow pursued) name) : Evaluating _).run :=
      guardedConstant_answers chains (nested _)
    have enumerator := guardedEnumerator_follows name chains
      fun serial => nested (.enum serial)
    refine constant.bindE fun result => ?_
    cases result with
    | some result =>
      cases result with
      | integer value => exact .pureE _
      | float x => exact .throwE _
      | text body => exact .throwE _
    | none =>
      refine enumerator.bindE fun value => ?_
      cases value with
      | some n => exact .pureE _
      | none => exact .throwE _

/-! ### Requests -/

theorem meaningWithFuel_enough (more : Nat) (pursued : List Pursuit) (name : String) :
    Follows pursued (scope.meaningWithFuel (scope.depth + more) name).run
      (scope.resolve pursued name).run := by
  have fewer : unseen scope.pursuits pursued ≤ scope.pursuits.length := List.length_filter_le _ _
  exact meaningWithFuel_follows pursued name (by unfold depth; omega)

theorem evaluateEnum_eq (symbol : Symbol) :
    (scope.enumValuesBy (some (scope.resolve [.enum symbol.serial])) symbol).run =
      Except.ok <$> scope.evaluateEnum symbol := by
  funext memo
  cases known : memo.enums.get? symbol.serial with
  | some values =>
    rw [enumValuesBy_known known]
    change _ = (Except.ok (scope.evaluateEnum symbol memo).1, (scope.evaluateEnum symbol memo).2)
    rw [evaluateEnum_known known]
  | none =>
    rw [enumValuesBy_lacking known]
    change _ = (Except.ok (scope.evaluateEnum symbol memo).1, (scope.evaluateEnum symbol memo).2)
    rw [evaluateEnum_lacking known]

theorem guardedEnum_answers (more : Nat) (symbol : Symbol) :
    Answers [] (scope.guardedEnum (scope.depth + more)
      (scope.meaningWithFuel (scope.depth + more)) symbol) (scope.evaluateEnum symbol) := by
  have chains : scope.table.names.length < scope.depth + more := by unfold depth; omega
  have follows := guardedEnum_follows [] symbol chains fun _ =>
    meaningWithFuel_enough more [.enum symbol.serial]
  rw [if_neg List.not_mem_nil, evaluateEnum_eq] at follows
  exact follows

theorem replyWithFuel_answers (more : Nat) (request : ConstantRequest) :
    Answers [] (scope.replyWithFuel (scope.depth + more) request) (scope.reply request) := by
  have chains : scope.table.names.length < scope.depth + more := by unfold depth; omega
  have values (tokens : List Token) :
      Answers [] (scope.guardedValue (scope.depth + more)
        (scope.meaningWithFuel (scope.depth + more)) tokens) (scope.evaluate tokens) :=
    guardedValue_answers chains (meaningWithFuel_enough more []) tokens
  cases request with
  | tokens list => exact (values list).map _
  | constant name =>
    exact (guardedConstant_answers chains fun _ _ =>
      meaningWithFuel_enough more [.constant name]).map _
  | enum symbol => exact (guardedEnum_answers more symbol).map _
  | enumerator name =>
    refine Answers.map _ ?_
    unfold guardedEnumerator evaluateEnumerator
    cases scope.table.enumerator? name with
    | none => exact .pure none
    | some found => exact (guardedEnum_answers more found.1).map _
  | extent size =>
    refine Answers.map _ ?_
    cases size with
    | flexible => exact .pure none
    | count n => exact .pure (some n)
    | text expression =>
      refine (values (tokenize expression)).bind fun result => ?_
      cases result with
      | none => exact .pure none
      | some result =>
        cases result with
        | integer value => exact .pure _
        | float x => exact .pure none
        | text body => exact .pure none

def unguarded (reply : ConstantReply) : Except ExpressionError ConstantReply × List Pursuit :=
  (.ok reply, [])

theorem session_follows (scope : ConstantScope) (more : Nat) (requests : List ConstantRequest) :
    Follows [] (scope.session (scope.depth + more) requests)
      (List.map unguarded <$> scope.replies requests) := by
  unfold session replies
  induction requests with
  | nil => exact .pure []
  | cons request rest ih =>
    rw [List.mapM_cons, List.mapM_cons]
    have first : Follows [] (do
        let result ← (scope.replyWithFuel (scope.depth + more) request).run
        return (result, (← get).active)) (unguarded <$> scope.reply request) := by
      intro memo
      change (ExceptT.run (scope.replyWithFuel (scope.depth + more) request) ⟨memo, []⟩).bind _ = _
      rw [replyWithFuel_answers more request memo]
      rfl
    exact first.bind fun reply => ih.bind fun replies => .pure (reply :: replies)

/-- Requests end on every table and from any memo: with fuel for all names there is a reply to each,
the one of plain evaluation, no error comes out, and no guard stays behind. -/
theorem session_eq_replies (scope : ConstantScope) (requests : List ConstantRequest)
    (memo : ConstantMemo) (more : Nat) :
    scope.session (scope.depth + more) requests ⟨memo, []⟩ =
      some ((scope.replies requests memo).1.map fun reply => (.ok reply, []),
        ⟨(scope.replies requests memo).2, []⟩) :=
  session_follows scope more requests memo

end ConstantScope

end CBindings
