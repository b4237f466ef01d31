import CBindings.Proofs.Constant.Replay
import CBindings.Proofs.Rust.Typedef
import CBindings.Proofs.SymbolTable.Winner

/-! A type that has been mapped once is mapped again to the same Rust type, whatever has been asked
since. -/

namespace CBindings

open SymbolTable

namespace MappingMemo

structure Extends (before after : MappingMemo) : Prop where
  typedefs : ∀ name problems, before.typedefs.get? name = some problems →
    after.typedefs.get? name = some problems
  constants : before.constants.Extends after.constants

theorem Extends.refl (memo : MappingMemo) : memo.Extends memo :=
  ⟨fun _ _ known => known, .refl memo.constants⟩

theorem Extends.trans {before middle after : MappingMemo} (first : before.Extends middle)
    (second : middle.Extends after) : before.Extends after where
  typedefs name problems known := second.typedefs name problems (first.typedefs name problems known)
  constants := first.constants.trans second.constants

/-- The problems of every remembered typedef are those that its type has, now and later. -/
structure Sound (mapper : TypeMapper) (memo : MappingMemo) : Prop where
  constants : memo.constants.Proper mapper.scope.table
  typedefs : ∀ name problems, memo.typedefs.get? name = some problems →
    ∃ underlying, mapper.scope.table.typedef? name = some underlying ∧
      ∀ later : MappingMemo, later.constants.Proper mapper.scope.table → memo.Extends later →
        (mapper.mapWith (mapper.typedefProblems []) none underlying later).1.problems = problems

theorem sound_empty (mapper : TypeMapper) : Sound mapper {} where
  constants name result known := by cases known
  typedefs name problems known := by cases known

end MappingMemo

open MappingMemo

variable {mapper : TypeMapper} {reach : String → Prop} {α β : Type}

structure Gains (mapper : TypeMapper) (reach : String → Prop) (before after : MappingMemo) :
    Prop where
  adds : before.Extends after
  spares : ∀ name, ¬ reach name → before.typedefs.get? name = none →
    after.typedefs.get? name = none
  sound : before.Sound mapper → after.Sound mapper

theorem Gains.refl (memo : MappingMemo) : Gains mapper reach memo memo :=
  ⟨.refl memo, fun _ _ lacks => lacks, id⟩

theorem Gains.trans {before middle after : MappingMemo} (first : Gains mapper reach before middle)
    (second : Gains mapper reach middle after) : Gains mapper reach before after where
  adds := first.adds.trans second.adds
  spares name far lacks := second.spares name far (first.spares name far lacks)
  sound := second.sound ∘ first.sound

theorem Gains.mono {wider : String → Prop} {before after : MappingMemo}
    (gains : Gains mapper reach before after) (within : ∀ name, reach name → wider name) :
    Gains mapper wider before after :=
  ⟨gains.adds, fun name far => gains.spares name (mt (within name) far), gains.sound⟩

/-- A computation that gains, and that repeats itself on any later memo. -/
structure Steady (mapper : TypeMapper) (reach : String → Prop) (x : MappingM α) : Prop where
  gains : ∀ memo : MappingMemo, Gains mapper reach memo (x memo).2
  replays : ∀ memo later : MappingMemo, later.constants.Proper mapper.scope.table →
    (x memo).2.Extends later → x later = ((x memo).1, later)

namespace Steady

theorem pure (a : α) : Steady mapper reach (Pure.pure a) where
  gains := Gains.refl
  replays _ _ _ _ := rfl

theorem bind {x : MappingM α} {f : α → MappingM β} (first : Steady mapper reach x)
    (second : ∀ a, Steady mapper reach (f a)) : Steady mapper reach (x >>= f) where
  gains memo := (first.gains memo).trans ((second _).gains _)
  replays memo later proper extends' := by
    have early : (x memo).2.Extends later := ((second _).gains _).adds.trans extends'
    change f (x later).1 (x later).2 = (((x >>= f) memo).1, later)
    rw [first.replays memo later proper early]
    exact (second _).replays _ later proper extends'

theorem map {x : MappingM α} (f : α → β) (steady : Steady mapper reach x) :
    Steady mapper reach (f <$> x) :=
  steady.bind fun a => .pure (f a)

theorem mapM {f : α → MappingM β} (steady : ∀ a, Steady mapper reach (f a)) (xs : List α) :
    Steady mapper reach (xs.mapM f) := by
  induction xs with
  | nil =>
    rw [List.mapM_nil]
    exact .pure []
  | cons a rest ih =>
    rw [List.mapM_cons]
    exact (steady a).bind fun b => ih.bind fun bs => .pure (b :: bs)

theorem mono {wider : String → Prop} {x : MappingM α} (steady : Steady mapper reach x)
    (within : ∀ name, reach name → wider name) : Steady mapper wider x :=
  ⟨fun memo => (steady.gains memo).mono within, steady.replays⟩

theorem constants {x : Remembering α} (tame : Tame mapper.scope [] x) :
    Steady mapper reach (MappingM.constants x) where
  gains memo := by
    have learns := tame.learns memo.constants
    have adds : memo.Extends (MappingM.constants x memo).2 :=
      ⟨fun _ _ known => known, learns.adds⟩
    refine ⟨adds, fun _ _ lacks => lacks, fun sound => ⟨learns.proper sound.constants, ?_⟩⟩
    intro name problems known
    obtain ⟨underlying, found, holds⟩ := sound.typedefs name problems known
    exact ⟨underlying, found, fun later proper extends' =>
      holds later proper (adds.trans extends')⟩
  replays memo later proper extends' := by
    have again := tame.replays rfl memo.constants later.constants proper extends'.constants
    change ((x later.constants).1, { later with constants := (x later.constants).2 }) = _
    rw [again]
    rfl

end Steady

namespace TypeMapper

variable {module : Option String} {inherited : String → MappingM (List String)}

mutual

theorem mapWith_steady : (type : CType) →
    (∀ name, mapper.scope.table.Consults type.names name →
      Steady mapper reach (inherited name)) →
    Steady mapper reach (mapper.mapWith inherited module type)
  | .named t, inherits => by
    rw [mapWith_named]
    rcases named_cases mapper t with ⟨consults, typedef⟩ | fixed
    · rw [typedef]
      exact (inherits _ consults).map _
    · rw [fixed]
      exact .pure _
  | .pointer target qualifiers, inherits => by
    rw [mapWith_pointer]
    exact (mapWith_steady target inherits).map _
  | .array element extent, inherits => by
    rw [mapWith]
    refine (mapWith_steady element inherits).bind fun element => ?_
    exact (Steady.constants (ConstantScope.evaluateExtent_tame extent)).bind fun length => .pure _
  | .function result parameters variadic convention, inherits => by
    rw [mapWith]
    have others := mapParameters_steady parameters fun name consults =>
      inherits name (consults.append_right _)
    refine others.bind fun parameters => ?_
    split
    · exact .pure _
    · have results := mapWith_steady result fun name consults =>
        inherits name (consults.append_left _)
      exact results.bind fun result => .pure _

theorem mapParameters_steady : (parameters : List Parameter) →
    (∀ name, mapper.scope.table.Consults (CType.parameterNames parameters) name →
      Steady mapper reach (inherited name)) →
    Steady mapper reach (mapper.mapParameters inherited module parameters)
  | [], _ => by
    rw [mapParameters]
    exact .pure []
  | (_, type) :: rest, inherits => by
    rw [mapParameters]
    have here := mapWith_steady type fun name consults => inherits name (consults.append_left _)
    have later := mapParameters_steady rest fun name consults =>
      inherits name (consults.append_right _)
    exact here.bind fun first => later.bind fun rest => .pure _

end

/-! ### Problems of typedefs -/

theorem gains_typedef {name : String} {underlying : CType} {problems : List String}
    {memo : MappingMemo} (lacks : memo.typedefs.get? name = none)
    (found : mapper.scope.table.typedef? name = some underlying)
    (holds : ∀ later : MappingMemo, later.constants.Proper mapper.scope.table →
      memo.Extends later →
        (mapper.mapWith (mapper.typedefProblems []) none underlying later).1.problems = problems)
    (near : reach name) :
    Gains mapper reach memo { memo with typedefs := memo.typedefs.insert name problems } := by
  have adds : memo.Extends { memo with typedefs := memo.typedefs.insert name problems } := by
    refine ⟨fun other result known => ?_, .refl memo.constants⟩
    have different : other ≠ name := by
      rintro rfl
      rw [lacks] at known
      cases known
    exact (OrderedMap.get?_insert_ne _ _ different).trans known
  refine ⟨adds, fun other far absent => ?_, fun sound => ⟨sound.constants, ?_⟩⟩
  · have different : other ≠ name := fun same => far (same ▸ near)
    exact (OrderedMap.get?_insert_ne _ _ different).trans absent
  · intro other result known
    by_cases same : other = name
    · subst same
      have result' : problems = result :=
        Option.some.inj ((OrderedMap.get?_insert_self _ _ _).symm.trans known)
      subst result'
      exact ⟨underlying, found, fun later proper extends' =>
        holds later proper (adds.trans extends')⟩
    · have old := (OrderedMap.get?_insert_ne _ _ same).symm.trans known
      obtain ⟨type, found', holds'⟩ := sound.typedefs other result old
      exact ⟨type, found', fun later proper extends' =>
        holds' later proper (adds.trans extends')⟩

theorem freshProblems_remembered (inherited : String → MappingM (List String)) (name : String)
    (underlying : CType) (memo : MappingMemo) :
    (mapper.freshProblems inherited name underlying memo).2.typedefs.get? name =
      some (mapper.freshProblems inherited name underlying memo).1 :=
  OrderedMap.get?_insert_self _ _ _

theorem typedefProblems_steady (acyclic : mapper.scope.table.Acyclic) (name : String)
    {underlying : CType} (found : mapper.scope.table.typedef? name = some underlying) :
    Steady mapper (Relation.ReflTransGen mapper.scope.table.Refers name)
      (mapper.typedefProblems [] name) := by
  induction name using acyclic.induction generalizing underlying with
  | step name ih =>
    have inner : Steady mapper (Relation.TransGen mapper.scope.table.Refers name)
        (mapper.mapWith (mapper.typedefProblems []) none underlying) := by
      refine mapWith_steady underlying fun next consults => ?_
      have refers : mapper.scope.table.Refers name next := ⟨underlying, found, consults⟩
      obtain ⟨-, -, -, -, type, typedef⟩ := consults
      exact (ih next refers typedef).mono fun other way => .head' refers way
    constructor
    · intro memo
      cases known : memo.typedefs.get? name with
      | some problems =>
        rw [typedefProblems_known known]
        exact .refl memo
      | none =>
        rw [typedefProblems_eq acyclic known found]
        have gains := inner.gains memo
        have still := gains.spares name (acyclic name) known
        have remembers := gains_typedef still found (fun later proper extends' =>
            (congrArg (fun done => done.1.problems) (inner.replays memo later proper extends') :
              _ = (mapper.mapWith (mapper.typedefProblems []) none underlying memo).1.problems))
          (Relation.ReflTransGen.refl : Relation.ReflTransGen mapper.scope.table.Refers name name)
        exact (gains.mono fun other way => way.to_reflTransGen).trans remembers
    · intro memo later proper extends'
      cases known : memo.typedefs.get? name with
      | some problems =>
        rw [typedefProblems_known known] at extends' ⊢
        exact typedefProblems_known (extends'.typedefs name problems known)
      | none =>
        rw [typedefProblems_eq acyclic known found] at extends' ⊢
        exact typedefProblems_known (extends'.typedefs name _
          (freshProblems_remembered _ name underlying memo))

theorem consulted_steady (acyclic : mapper.scope.table.Acyclic) {references : List TypeName}
    (name : String) (consults : mapper.scope.table.Consults references name) :
    Steady mapper (fun _ => True) (mapper.typedefProblems [] name) := by
  obtain ⟨-, -, -, -, underlying, found⟩ := consults
  exact (typedefProblems_steady acyclic name found).mono fun _ _ => trivial

theorem map_steady (acyclic : mapper.scope.table.Acyclic) (module : Option String) (type : CType) :
    Steady mapper (fun _ => True) (mapper.map module type) :=
  mapWith_steady type (consulted_steady acyclic)

theorem mapField_steady (acyclic : mapper.scope.table.Acyclic) (module : Option String)
    (f : Field) : Steady mapper (fun _ => True) (mapper.mapField module f) := by
  unfold mapField
  refine (map_steady acyclic module f.type).bind fun mapped => ?_
  split
  · exact .pure _
  · exact .pure _

theorem mapResult_steady (acyclic : mapper.scope.table.Acyclic) (module : Option String)
    (type : CType) : Steady mapper (fun _ => True) (mapper.mapResult module type) := by
  unfold mapResult
  split
  · exact .pure _
  · exact map_steady acyclic module type

theorem mapParameterList_steady (acyclic : mapper.scope.table.Acyclic) (module : Option String)
    (parameters : List Parameter) (variadic : Bool) :
    Steady mapper (fun _ => True) (mapper.mapParameterList module parameters variadic) := by
  unfold mapParameterList
  refine Steady.bind (.mapM (fun entry => ?_) _) fun mapped => .pure _
  exact (map_steady acyclic module entry.1.2).bind fun mapped => .pure _

/-! ### Any questions in any order -/

/-- What a memo becomes while types, constants and enums are asked for. -/
inductive Leads (mapper : TypeMapper) (first : MappingMemo) : MappingMemo → Prop where
  | start : Leads mapper first first
  | map {memo : MappingMemo} (before : Leads mapper first memo) (module : Option String)
      (type : CType) : Leads mapper first (mapper.map module type memo).2
  | constant {memo : MappingMemo} (before : Leads mapper first memo) (name : String) :
      Leads mapper first (MappingM.constants (mapper.scope.evaluateConstant name) memo).2
  | enum {memo : MappingMemo} (before : Leads mapper first memo) {symbol : Symbol}
      (listed : symbol ∈ mapper.scope.table.symbols) :
      Leads mapper first (MappingM.constants (mapper.scope.evaluateEnum symbol) memo).2
  | tokens {memo : MappingMemo} (before : Leads mapper first memo) (tokens : List Token) :
      Leads mapper first (MappingM.constants (mapper.scope.evaluate tokens) memo).2

theorem Leads.gains (acyclic : mapper.scope.table.Acyclic) {first last : MappingMemo}
    (leads : Leads mapper first last) : Gains mapper (fun _ => True) first last := by
  induction leads with
  | start => exact .refl first
  | map before module type ih => exact ih.trans ((map_steady acyclic module type).gains _)
  | constant before name ih =>
    have steady : Steady mapper (fun _ => True)
      (.constants (mapper.scope.evaluateConstant name)) :=
        .constants (ConstantScope.evaluateConstant_tame name)
    exact ih.trans (steady.gains _)
  | @enum memo before symbol listed ih =>
    have steady : Steady mapper (fun _ => True) (.constants (mapper.scope.evaluateEnum symbol)) :=
      .constants (ConstantScope.evaluateEnum_tame symbol)
    exact ih.trans (steady.gains _)
  | tokens before tokens ih =>
    have steady : Steady mapper (fun _ => True) (.constants (mapper.scope.evaluate tokens)) :=
      .constants (ConstantScope.evaluate_tame tokens)
    exact ih.trans (steady.gains _)

theorem Leads.trans {first middle last : MappingMemo} (before : Leads mapper first middle)
    (after : Leads mapper middle last) : Leads mapper first last := by
  induction after with
  | start => exact before
  | map _ module type ih => exact .map ih module type
  | constant _ name ih => exact .constant ih name
  | enum _ listed ih => exact .enum ih listed
  | tokens _ tokens ih => exact .tokens ih tokens

end TypeMapper

end CBindings
