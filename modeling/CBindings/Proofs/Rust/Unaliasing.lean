import CBindings.Proofs.Rust.Alias

/-! The Rust type for a C type without its aliases, and that for the C type without its typedefs. -/

namespace CBindings

open TypeMapper SymbolTable

/-- A type in which every parameter that is an array, and every result that is void, says so itself
and not by the name of a typedef. -/
inductive SymbolTable.Overt (table : SymbolTable) : CType → Prop where
  | typedef {t : TypeName} {underlying : CType} (found : table.underlying? t = some underlying)
      (overt : Overt table underlying) : Overt table (.named t)
  | plain {t : TypeName} (plain : table.underlying? t = none) : Overt table (.named t)
  | pointer {target : CType} {qualifiers : List String} (overt : Overt table target) :
      Overt table (.pointer target qualifiers)
  | array {element : CType} {extent : Extent} (overt : Overt table element) :
      Overt table (.array element extent)
  | function {result : CType} {parameters : List Parameter} {variadic : Bool}
      {convention : Option String} (overt : Overt table result)
      (value : (table.expand result).isVoid = true → result.isVoid = true)
      (each : ∀ parameter ∈ parameters, Overt table parameter.2)
      (noArray : ∀ parameter ∈ parameters, (table.expand parameter.2).isArray = false) :
      Overt table (.function result parameters variadic convention)

namespace SymbolTable.Overt

variable {table : SymbolTable}

theorem typedef_iff {t : TypeName} {underlying : CType}
    (found : table.underlying? t = some underlying) :
    table.Overt (.named t) ↔ table.Overt underlying := by
  constructor
  · intro overt
    cases overt with
    | typedef found' overt =>
      cases found.symm.trans found'
      exact overt
    | plain plain => cases found.symm.trans plain
  · exact .typedef found

theorem pointer_iff {target : CType} {qualifiers : List String} :
    table.Overt (.pointer target qualifiers) ↔ table.Overt target :=
  ⟨fun | .pointer overt => overt, .pointer⟩

theorem array_iff {element : CType} {extent : Extent} :
    table.Overt (.array element extent) ↔ table.Overt element :=
  ⟨fun | .array overt => overt, .array⟩

theorem function_iff {result : CType} {parameters : List Parameter} {variadic : Bool}
    {convention : Option String} :
    table.Overt (.function result parameters variadic convention) ↔
      (∀ parameter ∈ parameters,
        table.Overt parameter.2 ∧ (table.expand parameter.2).isArray = false) ∧
      table.Overt result ∧ ((table.expand result).isVoid = true → result.isVoid = true) := by
  constructor
  · intro overt
    cases overt with
    | function overt value each noArray =>
      exact ⟨fun parameter member => ⟨each parameter member, noArray parameter member⟩, overt, value⟩
  · rintro ⟨each, overt, value⟩
    exact .function overt value (fun parameter member => (each parameter member).1)
      fun parameter member => (each parameter member).2

end SymbolTable.Overt

def TypeMapper.placeOf (mapper : TypeMapper) (name : String) : ItemPlace :=
  ((mapper.moduleOf name).getD "", Rust.declaredName name)

/-- The aliases of a viewpoint are the typedefs of the table that have no problems, each in the
module of its declaration, and no two declarations are mistaken for each other. -/
structure Viewpoint.Faithful (view : Viewpoint) (mapper : TypeMapper) (memo : MappingMemo) :
    Prop where
  ownTypes : view.ownTypes = Rust.ownTypes mapper.scope.target
  owned : ∀ name symbol, mapper.scope.table.get? name = some symbol →
    ∃ owner, mapper.moduleOf name = some owner
  notOwn : ∀ name symbol, mapper.scope.table.get? name = some symbol →
    Rust.declaredName name ∉ view.ownTypes
  apart : ∀ name other symbol, (mapper.scope.table.typedef? name).isSome →
    mapper.scope.table.get? other = some symbol → mapper.placeOf name = mapper.placeOf other →
      name = other
  untagged : ∀ t : TypeName, t.IsReference → (mapper.scope.table.typedef? t.qualifiedName).isSome →
    t.kind = .typedef
  listed : ∀ t underlying, mapper.scope.table.underlying? t = some underlying →
    mapper.Settled memo (.named t) → mapper.Settled memo underlying ∧
      view.alias? (mapper.placeOf t.spelling) =
        some (mapper.written memo (some (mapper.placeOf t.spelling).1) underlying)
  source : ∀ place type, view.alias? place = some type → ∃ name underlying,
    mapper.scope.table.typedef? name = some underlying ∧ mapper.Settled memo underlying ∧
      place = mapper.placeOf name ∧ type = mapper.written memo (some place.1) underlying

namespace TypeMapper

variable {mapper : TypeMapper} {memo : MappingMemo} {module : Option String}

theorem written_qualified (qualifiers : List String) (type : CType) :
    mapper.written memo module (type.qualified qualifiers) = mapper.written memo module type := by
  induction type using CType.induction with
  | named t => rfl
  | pointer target others ih => rfl
  | array element extent ih => rw [CType.qualified, written, written, ih]
  | function result parameters variadic convention ih ihs => rfl

theorem settled_qualified (qualifiers : List String) (type : CType) :
    mapper.Settled memo (type.qualified qualifiers) ↔ mapper.Settled memo type := by
  induction type using CType.induction with
  | named t => exact .rfl
  | pointer target others ih => exact .rfl
  | array element extent ih => rw [CType.qualified, Settled, Settled, ih]
  | function result parameters variadic convention ih ihs => exact .rfl

theorem settled_asParameter {type : CType} (settled : mapper.Settled memo type) :
    mapper.Settled memo type.asParameter := by
  cases type with
  | named t => exact settled
  | pointer target others => exact settled
  | array element extent =>
    rw [Settled] at settled
    exact settled.1
  | function result parameters variadic convention => exact settled

theorem written_asParameter {type : CType} (noArray : type.isArray = false) :
    mapper.written memo module type.asParameter = mapper.written memo module type := by
  cases type with
  | named t => rfl
  | pointer target others => rfl
  | array element extent => cases noArray
  | function result parameters variadic convention => rfl

theorem isArray_written_asParameter {type : CType} (isArray : type.isArray = true) :
    (mapper.written memo module type.asParameter).isArray = false := by
  cases type with
  | named t => cases isArray
  | pointer target others => cases isArray
  | function result parameters variadic convention => cases isArray
  | array element extent =>
    cases element with
    | pointer target others => rfl
    | array element' extent' => rfl
    | function result parameters variadic convention => rfl
    | named t =>
      simp only [CType.asParameter, written, pointing]
      split
      · exact isArray_writtenName module t
      · rfl

/-- Whether a pointer is written as one is decided by what its target stands for. -/
theorem pointing_eq (acyclic : mapper.scope.table.Acyclic) (target : CType) (inner : RustType) :
    mapper.pointing target inner =
      if (mapper.scope.table.expand target).isFunction then inner
      else .pointer (isConst target) inner := by
  cases target with
  | named t =>
    rw [← isFunctionTypedef_eq acyclic]
    rfl
  | pointer target' others =>
    rw [expand_pointer]
    rfl
  | array element extent =>
    rw [expand_array]
    rfl
  | function result parameters variadic convention =>
    rw [expand_function]
    rfl

theorem isFunction_expand_expand {table : SymbolTable} (acyclic : table.Acyclic) (type : CType) :
    (table.expand (table.expand type)).isFunction = (table.expand type).isFunction := by
  cases expanded : table.expand type with
  | named t => rw [expand_plain (plain_of_expand_eq_named acyclic expanded)]
  | pointer target' others => rw [expand_pointer]; rfl
  | array element extent => rw [expand_array]; rfl
  | function result parameters variadic convention => rw [expand_function]; rfl

end TypeMapper

namespace Viewpoint.Faithful

variable {view : Viewpoint} {mapper : TypeMapper} {memo : MappingMemo} {t : TypeName}
  {name reader : String} {symbol : Symbol} {meaning : ItemPlace → RustType} {underlying type : CType}

theorem alias?_item (faithful : view.Faithful mapper memo)
    (entry : mapper.scope.table.get? name = some symbol)
    (other : mapper.scope.table.typedef? name = none) : view.alias? (mapper.placeOf name) = none := by
  cases found : view.alias? (mapper.placeOf name) with
  | none => rfl
  | some type =>
    obtain ⟨source, underlying, typedef, -, same, -⟩ := faithful.source _ _ found
    have isTypedef : (mapper.scope.table.typedef? source).isSome = true := by rw [typedef]; rfl
    cases faithful.apart source name symbol isTypedef entry same.symm
    cases typedef.symm.trans other

theorem alias?_own (faithful : view.Faithful mapper memo)
    (own : name ∈ Rust.ownTypes mapper.scope.target) (owner : String) :
    view.alias? (owner, name) = none := by
  cases found : view.alias? (owner, name) with
  | none => rfl
  | some type =>
    obtain ⟨source, underlying, typedef, -, same, -⟩ := faithful.source _ _ found
    obtain ⟨symbol, other, entry, -⟩ := typedef?_eq_some.mp typedef
    have named : name = Rust.declaredName source := congrArg Prod.snd same
    have notOwn := faithful.notOwn source symbol entry
    rw [faithful.ownTypes, ← named] at notOwn
    exact absurd own notOwn

theorem pathFrom_own (faithful : view.Faithful mapper memo)
    (own : name ∈ Rust.ownTypes mapper.scope.target) :
    view.pathFrom reader meaning none name = .path none name := by
  simp [pathFrom, faithful.alias?_own own, faithful.ownTypes, own]

/-- A path to a declaration leads to its place, from wherever it is written. -/
theorem typeFrom_pathTo (faithful : view.Faithful mapper memo)
    (entry : mapper.scope.table.get? name = some symbol) :
    view.typeFrom reader meaning (mapper.pathTo name (some reader)) =
      if (view.alias? (mapper.placeOf name)).isSome then meaning (mapper.placeOf name)
      else mapper.pathTo name (some view.module) := by
  obtain ⟨owner, owned⟩ := faithful.owned name symbol entry
  have notOwn := faithful.notOwn name symbol entry
  have place : mapper.placeOf name = (owner, Rust.declaredName name) := by
    rw [placeOf, owned]
    rfl
  have back : (if owner = reader then none else some owner).getD reader = owner := by
    by_cases here : owner = reader
    · simp [here]
    · simp [here]
  rw [pathTo_owned owned, pathTo_owned owned, typeFrom, pathFrom, back, ← place]
  split
  · rfl
  · rw [if_neg (fun both => notOwn both.2), place]

/-! ### What an alias stands for -/

def RefersFrom (mapper : TypeMapper) (place other : ItemPlace) : Prop :=
  ∃ name next, mapper.scope.table.Refers name next ∧ place = mapper.placeOf name ∧
    other = mapper.placeOf next

theorem founded (faithful : view.Faithful mapper memo) (acyclic : mapper.scope.table.Acyclic) :
    WellFounded (Function.swap (RefersFrom mapper)) := by
  have named : ∀ name, (mapper.scope.table.typedef? name).isSome →
      Acc (Function.swap (RefersFrom mapper)) (mapper.placeOf name) := by
    intro name
    induction name using acyclic.induction with
    | step name ih =>
      intro isTypedef
      refine .intro _ fun place refers => ?_
      obtain ⟨source, next, refers', same, rfl⟩ := refers
      obtain ⟨type, found, consults⟩ := id refers'
      obtain ⟨symbol, -, entry, -⟩ := typedef?_eq_some.mp found
      cases faithful.apart name source symbol isTypedef entry same
      obtain ⟨-, -, -, -, underlying, typedef⟩ := consults
      exact ih next refers' (by rw [typedef]; rfl)
  constructor
  intro place
  refine .intro _ fun other refers => ?_
  obtain ⟨source, next, ⟨type, found, -, -, -, -, underlying, typedef⟩, -, rfl⟩ := refers
  exact named next (by rw [typedef]; rfl)

theorem typeFrom_pointing (target : CType) (inner : RustType) :
    view.typeFrom reader meaning (mapper.pointing target inner) =
      mapper.pointing target (view.typeFrom reader meaning inner) := by
  cases target with
  | function result parameters variadic convention => rfl
  | pointer target' others => rfl
  | array element extent => rfl
  | named t =>
    unfold pointing
    simp only
    split
    · rfl
    · rfl

theorem typeFrom_function (result : CType) (parameters : List Parameter) (variadic : Bool)
    (convention : Option String) (module : Option String) :
    view.typeFrom reader meaning
        (mapper.written memo module (.function result parameters variadic convention)) =
      .function (Rust.abi convention)
        (parameters.map fun parameter =>
          view.typeFrom reader meaning (mapper.written memo module parameter.2)) variadic
        (if result.isVoid then .unit
          else view.typeFrom reader meaning (mapper.written memo module result)) := by
  rw [written, typeFrom, typesFrom_eq_map, writtenAll_eq_map, List.map_map]
  congr 1
  split
  · rfl
  · rfl

theorem typeFrom_congr (faithful : view.Faithful mapper memo) {first second : ItemPlace → RustType}
    (settled : mapper.Settled memo type)
    (agree : ∀ name, mapper.scope.table.Consults type.names name →
      first (mapper.placeOf name) = second (mapper.placeOf name)) :
    view.typeFrom reader first (mapper.written memo (some reader) type) =
      view.typeFrom reader second (mapper.written memo (some reader) type) := by
  induction type using CType.induction with
  | named t =>
    rw [written]
    cases settled.nameForm with
    | own name own written => rw [written, typeFrom, typeFrom, faithful.pathFrom_own own,
        faithful.pathFrom_own own]
    | ownPointer name own written => rw [written, typeFrom, typeFrom, typeFrom, typeFrom,
        faithful.pathFrom_own own, faithful.pathFrom_own own]
    | item symbol reference entry written =>
      rw [written, faithful.typeFrom_pathTo entry, faithful.typeFrom_pathTo entry]
      split
      · next isAlias =>
        cases found : mapper.scope.table.typedef? t.qualifiedName with
        | none =>
          rw [faithful.alias?_item entry found] at isAlias
          cases isAlias
        | some underlying =>
          exact agree _ ⟨t, List.mem_singleton_self t, reference, rfl, underlying, found⟩
      · rfl
  | pointer target qualifiers ih =>
    rw [Settled] at settled
    rw [written, typeFrom_pointing, typeFrom_pointing, ih settled agree]
  | array element extent ih =>
    rw [Settled] at settled
    rw [written, typeFrom, typeFrom, ih settled.1 agree]
  | function result parameters variadic convention ih ihs =>
    rw [Settled, allSettled_iff] at settled
    obtain ⟨each, returned⟩ := settled
    have results : result.isVoid = false →
        view.typeFrom reader first (mapper.written memo (some reader) result) =
          view.typeFrom reader second (mapper.written memo (some reader) result) := by
      intro value
      refine ih (returned.resolve_left (by simp [value])) fun name consults => ?_
      exact agree name (consults.append_left _)
    have others : ∀ parameter ∈ parameters,
        view.typeFrom reader first (mapper.written memo (some reader) parameter.2) =
          view.typeFrom reader second (mapper.written memo (some reader) parameter.2) := by
      intro parameter member
      refine ihs parameter member (each parameter member) fun name consults => ?_
      exact agree name (consults.of_parameter member)
    rw [typeFrom_function, typeFrom_function, List.map_congr_left others]
    congr 1
    split
    · rfl
    · next value => exact results (by simpa using value)

theorem respects (faithful : view.Faithful mapper memo) :
    view.definitions.Respects (RefersFrom mapper) := by
  intro place type found first second agree
  obtain ⟨name, underlying, typedef, settled, rfl, rfl⟩ := faithful.source place type found
  refine faithful.typeFrom_congr settled fun next consults => agree _ ?_
  exact ⟨name, next, ⟨underlying, typedef, consults⟩, rfl, rfl⟩

/-! ### Types without aliases -/

variable (faithful : view.Faithful mapper memo) (acyclic : mapper.scope.table.Acyclic)

include faithful

theorem unalias_plain (plain : mapper.scope.table.underlying? t = none)
    (settled : mapper.Settled memo (.named t)) :
    view.unalias reader (mapper.written memo (some reader) (.named t)) =
      mapper.written memo (some view.module) (.named t) := by
  rw [unalias, written, written]
  cases settled.nameForm with
  | own name own written => rw [written, written, typeFrom, faithful.pathFrom_own own]
  | ownPointer name own written =>
    rw [written, written, typeFrom, typeFrom, faithful.pathFrom_own own]
  | item symbol reference entry written =>
    have other : mapper.scope.table.typedef? t.qualifiedName = none := by
      cases found : mapper.scope.table.typedef? t.qualifiedName with
      | none => rfl
      | some underlying =>
        have typedef := faithful.untagged t reference (by rw [found]; rfl)
        rw [qualifiedName_of_typedef typedef] at found
        cases plain.symm.trans (underlying?_eq_some.mpr ⟨typedef, found⟩)
    rw [written, written, faithful.typeFrom_pathTo entry, faithful.alias?_item entry other]
    rfl

include acyclic

theorem unalias_typedef (found : mapper.scope.table.underlying? t = some underlying)
    (settled : mapper.Settled memo (.named t)) :
    view.unalias reader (mapper.written memo (some reader) (.named t)) =
      view.unalias (mapper.placeOf t.spelling).1
        (mapper.written memo (some (mapper.placeOf t.spelling).1) underlying) := by
  obtain ⟨typedef, found'⟩ := underlying?_eq_some.mp found
  obtain ⟨symbol, other, entry, -⟩ := typedef?_eq_some.mp found'
  have key : t.qualifiedName = t.spelling := qualifiedName_of_typedef typedef
  have reference : t.IsReference := by simp [TypeName.IsReference, typedef]
  have isAlias := (faithful.listed t underlying found settled).2
  have written' : mapper.writtenName (some reader) t = mapper.pathTo t.spelling (some reader) := by
    rw [declared_written (some reader) (key ▸ entry) reference, key]
  rw [unalias, written, written', faithful.typeFrom_pathTo entry, isAlias]
  exact Definitions.meaning_eq (faithful.founded acyclic) faithful.respects isAlias

theorem settled_expand (settled : mapper.Settled memo type) :
    mapper.Settled memo (mapper.scope.table.expand type) := by
  induction type using acyclic.type_induction with
  | typedef t underlying found ih =>
    rw [expand_typedef acyclic found, settled_qualified]
    exact ih (faithful.listed t underlying found settled).1
  | plain t plain =>
    rw [expand_plain plain]
    exact settled
  | pointer target qualifiers ih =>
    rw [expand_pointer, Settled]
    rw [Settled] at settled
    exact ih settled
  | array element extent ih =>
    rw [expand_array, Settled]
    rw [Settled] at settled
    exact ⟨ih settled.1, settled.2⟩
  | function result parameters variadic convention ih ihs =>
    rw [expand_function, Settled, allSettled_iff]
    rw [Settled, allSettled_iff] at settled
    obtain ⟨each, returned⟩ := settled
    constructor
    · intro parameter member
      obtain ⟨source, listed, rfl⟩ := List.mem_map.mp member
      exact settled_asParameter (ihs source listed (each source listed))
    · rcases returned with void | settled
      · obtain ⟨t, rfl, plain⟩ := exists_plain_of_isVoid mapper.scope.table void
        rw [expand_plain plain]
        exact .inl void
      · exact .inr (ih settled)

/-- An array is one under all names, and nothing is written as no value at all. -/
theorem unalias_shape (settled : mapper.Settled memo type) (reader : String) :
    (view.unalias reader (mapper.written memo (some reader) type)).isArray =
        (mapper.scope.table.expand type).isArray ∧
      (view.unalias reader (mapper.written memo (some reader) type)).isUnit = false := by
  induction type using acyclic.type_induction generalizing reader with
  | typedef t underlying found ih =>
    rw [faithful.unalias_typedef acyclic found settled, expand_typedef acyclic found,
      CType.isArray_qualified]
    exact ih (faithful.listed t underlying found settled).1 _
  | plain t plain =>
    rw [faithful.unalias_plain plain settled, expand_plain plain, written]
    exact ⟨isArray_writtenName _ t, isUnit_writtenName _ t⟩
  | pointer target qualifiers ih =>
    rw [Settled] at settled
    obtain ⟨arrays, units⟩ := ih settled reader
    rw [unalias] at arrays units ⊢
    rw [written, typeFrom_pointing, pointing_eq acyclic, expand_pointer]
    split
    · next function =>
      refine ⟨arrays.trans ?_, units⟩
      cases expanded : mapper.scope.table.expand target with
      | array element extent =>
        rw [expanded] at function
        cases function
      | _ => rfl
    · exact ⟨rfl, rfl⟩
  | array element extent ih =>
    rw [expand_array]
    exact ⟨rfl, rfl⟩
  | function result parameters variadic convention ih ihs =>
    rw [expand_function]
    exact ⟨rfl, rfl⟩

/-- A parameter without its aliases is what C passes, unless it is an array. -/
theorem unalias_parameter_iff
    (ih : mapper.Settled memo type → ∀ reader : String,
      (view.unalias reader (mapper.written memo (some reader) type)).mutable =
          (mapper.written memo (some view.module) (mapper.scope.table.expand type)).mutable ↔
        mapper.scope.table.Overt type)
    (settled : mapper.Settled memo type) (reader : String) :
    (view.unalias reader (mapper.written memo (some reader) type)).mutable =
        (mapper.written memo (some view.module)
          (mapper.scope.table.expand type).asParameter).mutable ↔
      mapper.scope.table.Overt type ∧ (mapper.scope.table.expand type).isArray = false := by
  cases isArray : (mapper.scope.table.expand type).isArray with
  | false =>
    rw [written_asParameter isArray, ih settled reader]
    exact (and_iff_left rfl).symm
  | true =>
    constructor
    · intro same
      have arrays := congrArg RustType.isArray same
      rw [RustType.isArray_mutable, RustType.isArray_mutable,
        (faithful.unalias_shape acyclic settled reader).1, isArray_written_asParameter isArray,
        isArray] at arrays
      cases arrays
    · rintro ⟨-, noArray⟩
      cases noArray

/-- A result without its aliases is what C gives back, unless it is void by another name. -/
theorem unalias_result_iff
    (ih : mapper.Settled memo type → ∀ reader : String,
      (view.unalias reader (mapper.written memo (some reader) type)).mutable =
          (mapper.written memo (some view.module) (mapper.scope.table.expand type)).mutable ↔
        mapper.scope.table.Overt type)
    (settled : type.isVoid = true ∨ mapper.Settled memo type) (reader : String) :
    (if type.isVoid then .unit
        else view.unalias reader (mapper.written memo (some reader) type)).mutable =
        (if (mapper.scope.table.expand type).isVoid then .unit
          else mapper.written memo (some view.module) (mapper.scope.table.expand type)).mutable ↔
      mapper.scope.table.Overt type ∧
        ((mapper.scope.table.expand type).isVoid = true → type.isVoid = true) := by
  by_cases void : type.isVoid = true
  · obtain ⟨t, rfl, plain⟩ := exists_plain_of_isVoid mapper.scope.table void
    rw [expand_plain plain, if_pos void, if_pos void]
    exact iff_of_true rfl ⟨.plain plain, fun _ => void⟩
  · have value := settled.resolve_left void
    rw [if_neg void]
    by_cases hidden : (mapper.scope.table.expand type).isVoid = true
    · rw [if_pos hidden]
      constructor
      · intro same
        have units := congrArg RustType.isUnit same
        rw [RustType.isUnit_mutable, (faithful.unalias_shape acyclic value reader).2] at units
        cases units
      · rintro ⟨-, shown⟩
        exact absurd (shown hidden) void
    · rw [if_neg hidden, ih value reader]
      exact (and_iff_left fun impossible => absurd impossible hidden).symm

/-- A type that is written with aliases is, up to what pointers may change, the one that is written
for the C type without its typedefs, just if no typedef hides an array that is a parameter or a void
result. -/
theorem unalias_mutable_iff (settled : mapper.Settled memo type) (reader : String) :
    (view.unalias reader (mapper.written memo (some reader) type)).mutable =
        (mapper.written memo (some view.module) (mapper.scope.table.expand type)).mutable ↔
      mapper.scope.table.Overt type := by
  induction type using acyclic.type_induction generalizing reader with
  | typedef t underlying found ih =>
    rw [faithful.unalias_typedef acyclic found settled, expand_typedef acyclic found,
      written_qualified, Overt.typedef_iff found]
    exact ih (faithful.listed t underlying found settled).1 _
  | plain t plain =>
    rw [faithful.unalias_plain plain settled, expand_plain plain]
    exact iff_of_true rfl (.plain plain)
  | pointer target qualifiers ih =>
    rw [Settled] at settled
    have inner := ih settled reader
    rw [unalias] at inner ⊢
    rw [written, typeFrom_pointing, expand_pointer, written, pointing_eq acyclic,
      pointing_eq acyclic, isFunction_expand_expand acyclic, Overt.pointer_iff, ← inner]
    split
    · rfl
    · simp only [RustType.mutable, RustType.pointer.injEq, true_and]
  | array element extent ih =>
    rw [Settled] at settled
    have inner := ih settled.1 reader
    rw [unalias] at inner ⊢
    rw [expand_array, written, written, typeFrom, Overt.array_iff, ← inner]
    simp only [RustType.mutable, RustType.array.injEq, and_true]
  | function result parameters variadic convention ih ihs =>
    rw [Settled, allSettled_iff] at settled
    obtain ⟨each, returned⟩ := settled
    have results := faithful.unalias_result_iff acyclic ih returned reader
    have others : (∀ parameter ∈ parameters,
        (view.unalias reader (mapper.written memo (some reader) parameter.2)).mutable =
          (mapper.written memo (some view.module)
            (mapper.scope.table.expand parameter.2).asParameter).mutable) ↔
        ∀ parameter ∈ parameters, mapper.scope.table.Overt parameter.2 ∧
          (mapper.scope.table.expand parameter.2).isArray = false :=
      forall₂_congr fun parameter member =>
        faithful.unalias_parameter_iff acyclic (ihs parameter member) (each parameter member) reader
    rw [Overt.function_iff, ← results, ← others]
    rw [unalias, typeFrom_function, expand_function, written, writtenAll_eq_map, List.map_map]
    simp only [RustType.mutable, RustType.mutableAll_eq_map, List.map_map, RustType.function.injEq,
      true_and, List.map_inj_left]
    rfl

end Viewpoint.Faithful

end CBindings
