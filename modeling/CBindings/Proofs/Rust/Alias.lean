import CBindings.Proofs.Rust.Written

/-! Rust types with the names of type aliases replaced by what they stand for. -/

namespace CBindings

abbrev ItemPlace := String × String

/-- What is known where a type is looked at: the aliases of all modules with their right sides, the
names of Rust's own types, and the module from which items are named. -/
structure Viewpoint where
  aliases : List (ItemPlace × RustType)
  ownTypes : List String
  module : String

namespace Viewpoint

variable (view : Viewpoint)

def alias? (place : ItemPlace) : Option RustType :=
  (view.aliases.find? (·.1 = place)).map Prod.snd

theorem mem_of_alias? {place : ItemPlace} {type : RustType} (found : view.alias? place = some type) :
    (place, type) ∈ view.aliases := by
  obtain ⟨pair, first, rfl⟩ := Option.map_eq_some_iff.mp found
  have same : pair.1 = place := by simpa using List.find?_some first
  rw [← same]
  exact List.mem_of_find?_eq_some first

theorem exists_alias?_of_mem {place : ItemPlace} {type : RustType}
    (member : (place, type) ∈ view.aliases) : ∃ found, view.alias? place = some found := by
  unfold alias?
  cases first : view.aliases.find? (·.1 = place) with
  | none =>
    have different := List.find?_eq_none.mp first (place, type) member
    simp at different
  | some pair => exact ⟨pair.2, rfl⟩

def pathFrom (reader : String) (meaning : ItemPlace → RustType) (owner : Option String)
    (name : String) : RustType :=
  let place : ItemPlace := (owner.getD reader, name)
  if (view.alias? place).isSome then meaning place
  else if owner = none ∧ name ∈ view.ownTypes then .path none name
  else .path (if place.1 = view.module then none else some place.1) name

mutual

def typeFrom (reader : String) (meaning : ItemPlace → RustType) : RustType → RustType
  | .unit => .unit
  | .path owner name => view.pathFrom reader meaning owner name
  | .pointer toConst target => .pointer toConst (typeFrom reader meaning target)
  | .array element length => .array (typeFrom reader meaning element) length
  | .function abi parameters variadic result =>
    .function abi (typesFrom reader meaning parameters) variadic (typeFrom reader meaning result)

def typesFrom (reader : String) (meaning : ItemPlace → RustType) : List RustType → List RustType
  | [] => []
  | type :: rest => typeFrom reader meaning type :: typesFrom reader meaning rest

end

theorem typesFrom_eq_map (reader : String) (meaning : ItemPlace → RustType) (types : List RustType) :
    view.typesFrom reader meaning types = types.map (view.typeFrom reader meaning) := by
  induction types with
  | nil => rfl
  | cons type rest ih => rw [typesFrom, ih, List.map_cons]

def definitions : Definitions ItemPlace RustType RustType where
  names := view.aliases.map Prod.fst
  find := view.alias?
  listed _ _ found := List.mem_map_of_mem (f := Prod.fst) (view.mem_of_alias? found)
  build place type meaning := view.typeFrom place.1 meaning type
  leave place := .path (some place.1) place.2

def unalias (reader : String) (type : RustType) : RustType :=
  view.typeFrom reader view.definitions.meaning type

end Viewpoint

namespace Rust

def ownTypes (target : Target) : List String :=
  [TypeMapper.voidType, "bool", "f32", "f64"] ++
    [8, 16, 32, 64, target.longWidth, target.pointerWidth, target.wcharWidth].flatMap fun bits =>
      [TypeMapper.integerText bits true, TypeMapper.integerText bits false]

theorem integerText_mem_ownTypes {target : Target} {bits : Nat}
    (known : bits ∈ [8, 16, 32, 64, target.longWidth, target.pointerWidth, target.wcharWidth])
    (signed : Bool) : TypeMapper.integerText bits signed ∈ ownTypes target := by
  refine List.mem_append_right _ (List.mem_flatMap.mpr ⟨bits, known, ?_⟩)
  cases signed with
  | true => exact List.mem_cons_self
  | false => exact List.mem_cons_of_mem _ List.mem_cons_self

end Rust

namespace Target

variable {target : Target} {name : String} {bits : Nat} {signed : Bool}

theorem primitiveWidth_known (width : target.primitiveWidth name = some (bits, signed)) :
    bits ∈ [8, 16, 32, 64, target.longWidth, target.pointerWidth, target.wcharWidth] := by
  unfold primitiveWidth at width
  split at width
  · next found =>
    have fixed : ∀ pair ∈ Primitive.fixedWidths, pair.2.1 ∈ [8, 16, 32, 64] := by decide
    cases width
    exact List.mem_append_left _ (fixed _ (mem_of_lookup found))
  · split at width <;> cases width <;> simp

theorem typedefWidth_known (width : target.typedefWidth name = some (bits, signed)) :
    bits ∈ [8, 16, 32, 64, target.longWidth, target.pointerWidth, target.wcharWidth] := by
  unfold typedefWidth at width
  split at width
  · next found =>
    have fixed : ∀ pair ∈ exactTypedefs, pair.2.1 ∈ [8, 16, 32, 64] := by decide
    cases width
    exact List.mem_append_left _ (fixed _ (mem_of_lookup found))
  · split at width
    · cases width
      simp
    · split at width <;> cases width
      simp

end Target

namespace TypeMapper

variable {mapper : TypeMapper} {memo : MappingMemo} {t : TypeName}

theorem primitive_own {name : String} (ok : (mapper.primitive name).problems = []) :
    (mapper.primitive name).text ∈ Rust.ownTypes mapper.scope.target := by
  revert ok
  unfold primitive
  split
  · simp [Rust.ownTypes]
  · simp [Rust.ownTypes]
  · simp [Rust.ownTypes]
  · simp [Rust.ownTypes]
  · simp [Rust.ownTypes]
  · split
    · next bits signed width =>
      intro ok
      exact Rust.integerText_mem_ownTypes (Target.primitiveWidth_known width) signed
    · intro ok
      cases ok

/-- A name without problems is one of Rust's own types, a pointer to one, or the path to an item. -/
inductive NameForm (mapper : TypeMapper) (t : TypeName) : Prop where
  | own (name : String) (member : name ∈ Rust.ownTypes mapper.scope.target)
      (written : ∀ module, mapper.writtenName module t = .path none name)
  | ownPointer (name : String) (member : name ∈ Rust.ownTypes mapper.scope.target)
      (written : ∀ module, mapper.writtenName module t = .pointer false (.path none name))
  | item (symbol : Symbol) (reference : t.IsReference)
      (entry : mapper.scope.table.get? t.qualifiedName = some symbol)
      (written : ∀ module, mapper.writtenName module t = mapper.pathTo t.qualifiedName module)

theorem fixed_nameForm (ok : (mapper.fixed none t).problems = []) : mapper.NameForm t := by
  by_cases reference : t.IsReference
  · cases entry : mapper.scope.table.get? t.qualifiedName with
    | some symbol =>
      exact .item symbol reference entry fun module => declared_written module entry reference
    | none =>
      rw [fixed_reference reference, entry] at ok
      have written (module : Option String) := writtenName_undeclared module entry reference
      obtain ⟨typedef, known⟩ := undeclared_isOk ok
      by_cases list : t.name = some "va_list"
      · refine .ownPointer voidType List.mem_cons_self fun module => ?_
        rw [written, writtenUndeclared, if_pos ⟨typedef, list⟩]
      · obtain ⟨bits, signed, width, text⟩ := known.resolve_left fun both => list both.1
        have member := Rust.integerText_mem_ownTypes (Target.typedefWidth_known width) signed
        refine .own _ member fun module => ?_
        rw [written, writtenUndeclared, if_neg (fun both => list both.2), text]
  · unfold fixed at ok
    split at ok
    · next primitive =>
      refine .own _ (primitive_own ok) fun module => ?_
      unfold writtenName
      rw [primitive]
    · cases ok
    · next primitive union => exact absurd ⟨primitive, union⟩ reference

theorem Settled.nameForm (settled : mapper.Settled memo (.named t)) : mapper.NameForm t := by
  obtain ⟨ok, -⟩ := settled
  unfold mapName at ok
  rcases named_cases mapper t with ⟨consults, -⟩ | fixed
  · obtain ⟨other, member, reference, -, underlying, found⟩ := consults
    cases List.mem_singleton.mp member
    obtain ⟨symbol, name, entry, -⟩ := SymbolTable.typedef?_eq_some.mp found
    exact .item symbol reference entry fun module => declared_written module entry reference
  · rw [fixed] at ok
    exact fixed_nameForm ok

end TypeMapper

end CBindings
