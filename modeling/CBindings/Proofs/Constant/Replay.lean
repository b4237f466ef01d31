import CBindings.Constant.Evaluation

/-! What has been evaluated once is evaluated again to the same result: results are only added to
the memo, and what an evaluation asked for is in it afterwards. -/

namespace CBindings

namespace ConstantMemo

structure Extends (before after : ConstantMemo) : Prop where
  constants : ∀ name result, before.constants.get? name = some result →
    after.constants.get? name = some result
  enums : ∀ serial values, before.enums.get? serial = some values →
    after.enums.get? serial = some values

theorem Extends.refl (memo : ConstantMemo) : memo.Extends memo :=
  ⟨fun _ _ known => known, fun _ _ known => known⟩

theorem Extends.trans {before middle after : ConstantMemo} (first : before.Extends middle)
    (second : middle.Extends after) : before.Extends after where
  constants name result known := second.constants name result (first.constants name result known)
  enums serial values known := second.enums serial values (first.enums serial values known)

def Lacks (memo : ConstantMemo) : Pursuit → Prop
  | .constant name => memo.constants.get? name = none
  | .enum serial => memo.enums.get? serial = none

def Proper (table : SymbolTable) (memo : ConstantMemo) : Prop :=
  ∀ name result, memo.constants.get? name = some result →
    ∃ tokens, table.constant? name = some tokens

end ConstantMemo

open ConstantMemo

variable {scope : ConstantScope} {pursued : List Pursuit} {α β : Type}

structure Learns (scope : ConstantScope) (pursued : List Pursuit) (before after : ConstantMemo) :
    Prop where
  adds : before.Extends after
  spares : ∀ pursuit ∈ pursued, before.Lacks pursuit → after.Lacks pursuit
  proper : before.Proper scope.table → after.Proper scope.table

theorem Learns.refl (memo : ConstantMemo) : Learns scope pursued memo memo :=
  ⟨.refl memo, fun _ _ lacks => lacks, id⟩

theorem Learns.trans {before middle after : ConstantMemo} (first : Learns scope pursued before middle)
    (second : Learns scope pursued middle after) : Learns scope pursued before after where
  adds := first.adds.trans second.adds
  spares pursuit member lacks := second.spares pursuit member (first.spares pursuit member lacks)
  proper := second.proper ∘ first.proper

theorem Learns.forget {pursuit : Pursuit} {before after : ConstantMemo}
    (learns : Learns scope (pursuit :: pursued) before after) :
    Learns scope pursued before after :=
  ⟨learns.adds, fun other member => learns.spares other (List.mem_cons_of_mem _ member),
    learns.proper⟩

/-- A computation that learns, and that repeats itself on any later memo if nothing is pursued. -/
structure Tame (scope : ConstantScope) (pursued : List Pursuit) (x : Remembering α) : Prop where
  learns : ∀ memo : ConstantMemo, Learns scope pursued memo (x memo).2
  replays : pursued = [] → ∀ memo later : ConstantMemo, later.Proper scope.table →
    (x memo).2.Extends later → x later = ((x memo).1, later)

namespace Tame

theorem pure (a : α) : Tame scope pursued (Pure.pure a) where
  learns := Learns.refl
  replays _ _ _ _ _ := rfl

theorem bind {x : Remembering α} {f : α → Remembering β} (first : Tame scope pursued x)
    (second : ∀ a, Tame scope pursued (f a)) : Tame scope pursued (x >>= f) where
  learns memo := (first.learns memo).trans ((second _).learns _)
  replays nothing memo later proper extends' := by
    have early : (x memo).2.Extends later := ((second _).learns _).adds.trans extends'
    change f (x later).1 (x later).2 = (((x >>= f) memo).1, later)
    rw [first.replays nothing memo later proper early]
    exact (second _).replays nothing _ later proper extends'

theorem map {x : Remembering α} (f : α → β) (tame : Tame scope pursued x) :
    Tame scope pursued (f <$> x) :=
  tame.bind fun a => .pure (f a)

theorem pureE (a : α) : Tame scope pursued (Pure.pure a : Evaluating α).run :=
  .pure (Except.ok a : Except ExpressionError α)

theorem throwE (error : ExpressionError) :
    Tame scope pursued (throw error : Evaluating α).run :=
  .pure (Except.error error : Except ExpressionError α)

theorem bindE {x : Evaluating α} {f : α → Evaluating β} (first : Tame scope pursued x.run)
    (second : ∀ a, Tame scope pursued (f a).run) : Tame scope pursued (x >>= f).run := by
  rw [ExceptT.run_bind]
  refine first.bind fun result => ?_
  cases result with
  | ok a => exact second a
  | error error => exact .pure _

theorem liftE {x : Remembering α} (tame : Tame scope pursued x) :
    Tame scope pursued (liftM x : Evaluating α).run :=
  tame.map Except.ok

end Tame

theorem evaluateIn_tame {names : String → Evaluating IntValue}
    {casts : String → Evaluating IntType} (named : ∀ name, Tame scope pursued (names name).run)
    (cast : ∀ typeName, Tame scope pursued (casts typeName).run) (widen : Bool) (expr : Expr) :
    Tame scope pursued (expr.evaluateIn names casts widen).run := by
  induction expr with
  | literal value => exact .pureE _
  | name n => exact named n
  | call n => exact .throwE _
  | cast typeName operand ih => exact (cast typeName).bindE fun target => ih.bindE fun value => .pureE _
  | unary op operand ih => exact ih.bindE fun value => .pureE _
  | conditional condition chosen otherwise ihCondition ihChosen ihOtherwise =>
    refine ihCondition.bindE fun value => ?_
    split
    · exact ihChosen
    · exact ihOtherwise
  | binary op left right ihLeft ihRight =>
    refine ihLeft.bindE fun a => ?_
    split
    · exact .pureE _
    · refine ihRight.bindE fun b => ?_
      split
      · exact .pureE _
      · exact .throwE _

namespace ConstantScope

variable {resolve : String → Evaluating IntValue}

theorem liftExcept_tame (result : Except ExpressionError α) :
    Tame scope pursued (integer.liftExcept result).run := .pure result

theorem integer_tame (resolved : ∀ name, Tame scope pursued (resolve name).run)
    (tokens : List Token) : Tame scope pursued (scope.integer resolve tokens).run :=
  (liftExcept_tame _).bindE fun expr =>
    evaluateIn_tame resolved (fun _ => liftExcept_tame _) false expr

theorem value_tame (resolved : ∀ name, Tame scope pursued (resolve name).run)
    (tokens : List Token) : Tame scope pursued (scope.value resolve tokens) := by
  unfold value
  split
  · exact .pure none
  · split
    · exact .pure _
    · split
      · exact .pure _
      · refine (integer_tame resolved tokens).bind fun result => ?_
        cases result with
        | ok value => exact .pure _
        | error error => exact .pure none

theorem resolveIn_tame (resolved : ∀ name, Tame scope pursued (resolve name).run)
    (done : List (String × Option Int)) (name : String) :
    Tame scope pursued (resolveIn done resolve name).run := by
  unfold resolveIn
  split
  · exact .pureE _
  · exact .throwE _
  · exact resolved name

theorem assigned_tame (resolved : ∀ name, Tame scope pursued (resolve name).run)
    (done : List (String × Option Int)) (following : Option Int) (given : Assigned) :
    Tame scope pursued (scope.assigned resolve done following given) := by
  cases given with
  | implicit => exact .pure following
  | number n => exact .pure (some n)
  | text expression =>
    refine (integer_tame (resolveIn_tame resolved done) (tokenize expression)).bind fun result => ?_
    cases result with
    | ok value => exact .pure _
    | error error => exact .pure none

theorem enumeratorsFrom_tame (resolved : ∀ name, Tame scope pursued (resolve name).run)
    (values : List Enumerator) (done : List (String × Option Int)) (following : Option Int) :
    Tame scope pursued (scope.enumeratorsFrom resolve done following values) := by
  induction values generalizing done following with
  | nil => exact .pure done
  | cons e rest ih => exact (assigned_tame resolved done following e.value).bind fun given => ih _ _

/-! ### Remembering a result -/

theorem learns_constant {name : String} {tokens : List String} {memo : ConstantMemo}
    (new : .constant name ∉ pursued) (found : scope.table.constant? name = some tokens)
    (lacks : memo.Lacks (.constant name)) (result : Option ConstantValue) :
    Learns scope pursued memo { memo with constants := memo.constants.insert name result } where
  adds := by
    refine ⟨fun other value known => ?_, fun _ _ known => known⟩
    have different : other ≠ name := by
      rintro rfl
      rw [show memo.constants.get? other = none from lacks] at known
      cases known
    exact (OrderedMap.get?_insert_ne _ _ different).trans known
  spares pursuit member absent := by
    cases pursuit with
    | enum serial => exact absent
    | constant other =>
      have different : other ≠ name := fun same => new (same ▸ member)
      exact (OrderedMap.get?_insert_ne _ _ different).trans absent
  proper proper other value known := by
    by_cases same : other = name
    · exact ⟨tokens, same ▸ found⟩
    · exact proper other value ((OrderedMap.get?_insert_ne _ _ same).symm.trans known)

theorem learns_enum {serial : Nat} {memo : ConstantMemo} (new : .enum serial ∉ pursued)
    (lacks : memo.Lacks (.enum serial)) (values : List (String × Option Int)) :
    Learns scope pursued memo { memo with enums := memo.enums.insert serial values } where
  adds := by
    refine ⟨fun _ _ known => known, fun other result known => ?_⟩
    have different : other ≠ serial := by
      rintro rfl
      rw [show memo.enums.get? other = none from lacks] at known
      cases known
    exact (OrderedMap.get?_insert_ne _ _ different).trans known
  spares pursuit member absent := by
    cases pursuit with
    | constant name => exact absent
    | enum other =>
      have different : other ≠ serial := fun same => new (same ▸ member)
      exact (OrderedMap.get?_insert_ne _ _ different).trans absent
  proper := id

theorem constantValue_learns {name : String} {tokens : List String}
    (new : .constant name ∉ pursued) (found : scope.table.constant? name = some tokens)
    (resolved : ∀ inner, Tame scope (.constant name :: pursued) (resolve inner).run)
    {memo : ConstantMemo} (lacks : memo.Lacks (.constant name)) :
    Learns scope pursued memo (scope.constantValue resolve name tokens memo).2 := by
  have inner := (value_tame resolved (tokenize (" ".intercalate tokens))).learns memo
  have still := inner.spares (.constant name) List.mem_cons_self lacks
  exact inner.forget.trans (learns_constant new found still _)

theorem enumeratorValues_learns {symbol : Symbol} (new : .enum symbol.serial ∉ pursued)
    (resolved : ∀ inner, Tame scope (.enum symbol.serial :: pursued) (resolve inner).run)
    {memo : ConstantMemo} (lacks : memo.Lacks (.enum symbol.serial)) :
    Learns scope pursued memo (scope.enumeratorValues resolve symbol memo).2 := by
  have inner := (enumeratorsFrom_tame resolved symbol.item.enumerators [] (some 0)).learns memo
  have still := inner.spares (.enum symbol.serial) List.mem_cons_self lacks
  exact inner.forget.trans (learns_enum new still _)

theorem constantValue_remembered (name : String) (tokens : List String) (memo : ConstantMemo) :
    (scope.constantValue resolve name tokens memo).2.constants.get? name =
      some (scope.constantValue resolve name tokens memo).1 :=
  OrderedMap.get?_insert_self _ _ _

theorem enumeratorValues_remembered (symbol : Symbol) (memo : ConstantMemo) :
    (scope.enumeratorValues resolve symbol memo).2.enums.get? symbol.serial =
      some (scope.enumeratorValues resolve symbol memo).1 :=
  OrderedMap.get?_insert_self _ _ _

/-! ### Names -/

def NestedTame (scope : ConstantScope) (pursued : List Pursuit) : Prop :=
  ∀ pursuit ∈ scope.pursuits, pursuit ∉ pursued → ∀ name,
    Tame scope (pursuit :: pursued) (scope.resolve (pursuit :: pursued) name).run

theorem constantBy_known {follow : Following scope} {name : String} {memo : ConstantMemo}
    {result : Option ConstantValue} (known : memo.constants.get? name = some result) :
    scope.constantBy follow name memo = (result, memo) := by
  simp only [constantBy, bind, StateT.bind, get, getThe, MonadStateOf.get, StateT.get, pure, known]
  rfl

theorem constantBy_lacking {follow : Following scope} {name : String} {memo : ConstantMemo}
    (lacks : memo.Lacks (.constant name)) :
    scope.constantBy follow name memo = scope.newConstant follow name memo := by
  simp only [constantBy, bind, StateT.bind, get, getThe, MonadStateOf.get, StateT.get, pure,
    show memo.constants.get? name = none from lacks]

theorem newConstant_absent {follow : Following scope} {name : String}
    (absent : scope.table.constant? name = none) : scope.newConstant follow name = pure none := by
  unfold newConstant
  split
  · rfl
  · next tokens found =>
    rw [absent] at found
    cases found

theorem newConstant_pursued {name : String} (pursuing : .constant name ∈ pursued) :
    scope.newConstant (scope.follow pursued) name = pure none := by
  unfold newConstant
  split
  · rfl
  · simp only [follow, pursuing, if_true]

theorem newConstant_found {name : String} {tokens : List String}
    (found : scope.table.constant? name = some tokens) (new : .constant name ∉ pursued) :
    scope.newConstant (scope.follow pursued) name =
      scope.constantValue (scope.resolve (.constant name :: pursued)) name tokens := by
  unfold newConstant
  split
  · next absent =>
    rw [found] at absent
    cases absent
  · next others found' =>
    rw [found] at found'
    cases found'
    simp only [follow, new, if_false]

theorem constantBy_tame (nested : NestedTame scope pursued) (name : String) :
    Tame scope pursued (scope.constantBy (scope.follow pursued) name) where
  learns memo := by
    cases known : memo.constants.get? name with
    | some result =>
      rw [constantBy_known known]
      exact .refl memo
    | none =>
      rw [constantBy_lacking known]
      by_cases new : .constant name ∈ pursued
      · rw [newConstant_pursued new]
        exact .refl memo
      · cases found : scope.table.constant? name with
        | none =>
          rw [newConstant_absent found]
          exact .refl memo
        | some tokens =>
          rw [newConstant_found found new]
          exact constantValue_learns new found (nested _ (constant_mem_pursuits found) new) known
  replays nothing memo later proper extends' := by
    subst nothing
    cases known : memo.constants.get? name with
    | some result =>
      rw [constantBy_known known] at extends' ⊢
      exact constantBy_known (extends'.constants name result known)
    | none =>
      rw [constantBy_lacking known] at extends' ⊢
      cases found : scope.table.constant? name with
      | none =>
        have absent : later.Lacks (.constant name) := by
          cases lookup : later.constants.get? name with
          | none => exact lookup
          | some result =>
            obtain ⟨tokens, impossible⟩ := proper name result lookup
            rw [found] at impossible
            cases impossible
        rw [constantBy_lacking absent, newConstant_absent found]
        rfl
      | some tokens =>
        rw [newConstant_found found List.not_mem_nil] at extends' ⊢
        exact constantBy_known
          (extends'.constants _ _ (constantValue_remembered name tokens memo))

theorem run_get_bind {α : Type} (next : ConstantMemo → Evaluating α) (memo : ConstantMemo) :
    ((get : Evaluating ConstantMemo) >>= next).run memo = (next memo).run memo := rfl

theorem enumValuesBy_known {inner : Option (String → Evaluating IntValue)} {symbol : Symbol}
    {memo : ConstantMemo} {values : List (String × Option Int)}
    (known : memo.enums.get? symbol.serial = some values) :
    (scope.enumValuesBy inner symbol).run memo = (.ok values, memo) := by
  simp only [enumValuesBy, run_get_bind, known]
  rfl

theorem enumValuesBy_lacking {inner : Option (String → Evaluating IntValue)} {symbol : Symbol}
    {memo : ConstantMemo} (lacks : memo.Lacks (.enum symbol.serial)) :
    (scope.enumValuesBy inner symbol).run memo =
      match inner with
      | none => (.error .ownEnum, memo)
      | some resolve =>
        let after := scope.enumeratorValues resolve symbol memo
        (.ok after.1, after.2) := by
  have absent : memo.enums.get? symbol.serial = none := lacks
  simp only [enumValuesBy, run_get_bind, absent]
  cases inner <;> rfl

theorem enumValuesBy_tame (symbol : Symbol)
    (resolved : .enum symbol.serial ∉ pursued → ∀ inner, Tame scope (.enum symbol.serial :: pursued)
      (scope.resolve (.enum symbol.serial :: pursued) inner).run) :
    Tame scope pursued (scope.enumValuesBy
      (if .enum symbol.serial ∈ pursued then none
        else some (scope.resolve (.enum symbol.serial :: pursued))) symbol).run where
  learns memo := by
    cases known : memo.enums.get? symbol.serial with
    | some values =>
      rw [enumValuesBy_known known]
      exact .refl memo
    | none =>
      rw [enumValuesBy_lacking known]
      by_cases new : .enum symbol.serial ∈ pursued
      · simp only [new, if_true]
        exact .refl memo
      · simp only [new, if_false]
        exact enumeratorValues_learns new (resolved new) known
  replays nothing memo later proper extends' := by
    subst nothing
    cases known : memo.enums.get? symbol.serial with
    | some values =>
      rw [enumValuesBy_known known] at extends' ⊢
      exact enumValuesBy_known (extends'.enums _ values known)
    | none =>
      rw [enumValuesBy_lacking known] at extends' ⊢
      simp only [List.not_mem_nil, if_false] at extends' ⊢
      exact enumValuesBy_known (extends'.enums _ _ (enumeratorValues_remembered symbol memo))

theorem enumeratorBy_tame (nested : NestedTame scope pursued) (name : String) :
    Tame scope pursued (scope.enumeratorBy (scope.follow pursued) name).run := by
  unfold enumeratorBy
  split
  · exact .pureE none
  · next symbol value found =>
    have values := enumValuesBy_tame symbol (nested _ (enum_mem_pursuits found))
    rw [map_eq_pure_bind]
    exact values.bindE fun values => .pureE _

theorem meaning_tame (nested : NestedTame scope pursued) (name : String) :
    Tame scope pursued (scope.meaning (scope.follow pursued) name).run := by
  refine (constantBy_tame nested name).liftE.bindE fun result => ?_
  cases result with
  | some result =>
    cases result with
    | integer value => exact .pureE _
    | float x => exact .throwE _
    | text body => exact .throwE _
  | none =>
    refine (enumeratorBy_tame nested name).bindE fun value => ?_
    cases value with
    | some n => exact .pureE _
    | none => exact .throwE _

theorem resolve_eq (pursued : List Pursuit) :
    scope.resolve pursued = scope.meaning (scope.follow pursued) := by
  funext name
  rw [resolve]
  rfl

theorem resolve_tame (pursued : List Pursuit) (name : String) :
    Tame scope pursued (scope.resolve pursued name).run := by
  rw [resolve_eq]
  refine meaning_tame (fun pursuit member new inner => ?_) name
  exact resolve_tame (pursuit :: pursued) inner
termination_by unseen scope.pursuits pursued
decreasing_by exact unseen_cons_lt member new

/-! ### From the outside -/

theorem evaluate_tame (tokens : List Token) : Tame scope [] (scope.evaluate tokens) :=
  value_tame (resolve_tame []) tokens

theorem evaluateConstant_tame (name : String) : Tame scope [] (scope.evaluateConstant name) :=
  constantBy_tame (fun pursuit _ _ inner => resolve_tame [pursuit] inner) name

theorem evaluateEnum_known {symbol : Symbol} {memo : ConstantMemo}
    {values : List (String × Option Int)} (known : memo.enums.get? symbol.serial = some values) :
    scope.evaluateEnum symbol memo = (values, memo) := by
  simp only [evaluateEnum, bind, StateT.bind, get, getThe, MonadStateOf.get, StateT.get, pure, known]
  rfl

theorem evaluateEnum_lacking {symbol : Symbol} {memo : ConstantMemo}
    (lacks : memo.Lacks (.enum symbol.serial)) :
    scope.evaluateEnum symbol memo =
      scope.enumeratorValues (scope.resolve [.enum symbol.serial]) symbol memo := by
  simp only [evaluateEnum, bind, StateT.bind, get, getThe, MonadStateOf.get, StateT.get, pure,
    show memo.enums.get? symbol.serial = none from lacks]

theorem evaluateEnum_tame (symbol : Symbol) : Tame scope [] (scope.evaluateEnum symbol) where
  learns memo := by
    cases known : memo.enums.get? symbol.serial with
    | some values =>
      rw [evaluateEnum_known known]
      exact .refl memo
    | none =>
      rw [evaluateEnum_lacking known]
      exact enumeratorValues_learns List.not_mem_nil (resolve_tame [.enum symbol.serial]) known
  replays _ memo later _ extends' := by
    cases known : memo.enums.get? symbol.serial with
    | some values =>
      rw [evaluateEnum_known known] at extends' ⊢
      exact evaluateEnum_known (extends'.enums _ values known)
    | none =>
      rw [evaluateEnum_lacking known] at extends' ⊢
      exact evaluateEnum_known (extends'.enums _ _ (enumeratorValues_remembered symbol memo))

theorem evaluateExtent_tame (extent : Extent) : Tame scope [] (scope.evaluateExtent extent) := by
  cases extent with
  | flexible => exact .pure none
  | count n => exact .pure (some n)
  | text expression =>
    refine (evaluate_tame (tokenize expression)).bind fun result => ?_
    split
    · exact .pure _
    · exact .pure none

end ConstantScope

end CBindings
