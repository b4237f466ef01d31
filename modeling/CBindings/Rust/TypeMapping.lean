import CBindings.Constant.Evaluation
import CBindings.Rust.Name

/-! Rust types for C types, and what stands in their way. -/

namespace CBindings

structure Mapping where
  text : String
  problems : List String := []
  deriving DecidableEq, Repr

namespace Mapping

def isOk (m : Mapping) : Bool := m.problems.isEmpty

end Mapping

/-- What types are mapped with: the declarations, and the output module that holds each name. -/
structure TypeMapper where
  scope : ConstantScope
  moduleOf : String → Option String

/-- Problems of typedefs and values of constants that are known already. -/
structure MappingMemo where
  typedefs : OrderedMap String (List String) := ∅
  constants : ConstantMemo := {}

abbrev MappingM := StateM MappingMemo

namespace MappingM

def constants {α : Type} (x : Remembering α) : MappingM α := fun memo =>
  let (a, constants) := x.run memo.constants
  (a, { memo with constants := constants })

end MappingM

namespace TypeMapper

def voidType : String := "::core::ffi::c_void"

def failed (problem : String) : Mapping := ⟨voidType, [problem]⟩

def integerText (bits : Nat) (signed : Bool) : String := IntType.name ⟨bits, signed⟩

/-- The name of an item, with the way to its module if that is another one. -/
def reference (mapper : TypeMapper) (qualifiedName : String) (module : Option String) : String :=
  let name := Rust.declaredName qualifiedName
  match mapper.moduleOf qualifiedName with
  | none => name
  | some owner => if some owner = module then name else "super::" ++ owner ++ "::" ++ name

def primitive (mapper : TypeMapper) (name : String) : Mapping :=
  match name with
  | "void" => ⟨voidType, []⟩
  | "_Bool" => ⟨"bool", []⟩
  | "float" => ⟨"f32", []⟩
  | "double" | "long double" => ⟨"f64", []⟩
  | name =>
    match mapper.scope.target.primitiveWidth name with
    | some (bits, signed) => ⟨integerText bits signed, []⟩
    | none => failed ("unknown primitive " ++ Text.quoted name)

def unsupportedUnion (t : TypeName) : Mapping :=
  failed ("union " ++ t.spelling ++ " is not supported")

def undeclared (mapper : TypeMapper) (t : TypeName) : Mapping :=
  if t.kind = .typedef then
    if t.name = some "va_list" then ⟨"*mut " ++ voidType, []⟩
    else
      match mapper.scope.target.typedefWidth t.spelling with
      | some (bits, signed) => ⟨integerText bits signed, []⟩
      | none => failed ("unresolved type " ++ t.qualifiedName)
  else failed ("unresolved type " ++ t.qualifiedName)

/-- A type by name. A typedef passes its own problems on, which `inherited` gives. -/
def named (mapper : TypeMapper) (inherited : String → MappingM (List String))
    (module : Option String) (t : TypeName) : MappingM Mapping := do
  match t.kind with
  | .primitive => return mapper.primitive t.spelling
  | .union => return unsupportedUnion t
  | _ =>
    match (mapper.scope.table.get? t.qualifiedName).map Symbol.item with
    | some (.union ..) => return unsupportedUnion t
    | some (.typedef ..) =>
      let problems ← inherited t.qualifiedName
      if problems.isEmpty then return ⟨mapper.reference t.qualifiedName module, []⟩
      else return ⟨voidType, problems.map (· ++ " via " ++ t.qualifiedName)⟩
    | some _ => return ⟨mapper.reference t.qualifiedName module, []⟩
    | none => return mapper.undeclared t

set_option linter.unusedVariables false in
def isFunctionTypedef (table : SymbolTable) (seen : List String) (t : TypeName) : Bool :=
  if t.kind ≠ .typedef then false
  else if new : t.spelling ∈ seen then false
  else
    match found : table.typedef? t.spelling with
    | some (.function ..) => true
    | some (.named underlying) => isFunctionTypedef table (t.spelling :: seen) underlying
    | _ => false
termination_by unseen table.names seen
decreasing_by exact unseen_cons_lt (SymbolTable.mem_names_of_typedef? found) new

def isConst : CType → Bool
  | .named t => t.isConst
  | .pointer _ qualifiers => qualifiers.contains "const"
  | _ => false

def sized (element : Mapping) (extent : Extent) (length : Option Int) : Mapping :=
  let text (length : String) : String := "[" ++ element.text ++ "; " ++ length ++ "]"
  match extent, length with
  | .flexible, _ => ⟨text "0", element.problems⟩
  | _, some n => ⟨text (toString n), element.problems⟩
  | .count n, none => ⟨text (toString n), element.problems⟩
  | .text expression, none =>
    ⟨text "0", element.problems ++
      ["array size " ++ Text.quoted expression ++ " could not be evaluated"]⟩

def signature (convention : Option String) (parameters : List Mapping) (variadic : Bool)
    (result : Option Mapping) : Mapping where
  text :=
    "Option<unsafe extern \"" ++ Rust.abi convention ++ "\" fn(" ++
      ", ".intercalate (parameters.map Mapping.text ++ if variadic then ["..."] else []) ++ ")" ++
      (match result with
        | some result => " -> " ++ result.text
        | none => "") ++ ">"
  problems := parameters.flatMap Mapping.problems ++ (result.map Mapping.problems).getD []

mutual

def mapWith (mapper : TypeMapper) (inherited : String → MappingM (List String))
    (module : Option String) : CType → MappingM Mapping
  | .named t => mapper.named inherited module t
  | .pointer (.function result parameters variadic convention) _ =>
    mapper.mapWith inherited module (.function result parameters variadic convention)
  | .pointer target _ =>
    match target with
    | .named t =>
      if isFunctionTypedef mapper.scope.table [] t then mapper.named inherited module t
      else do
        let inner ← mapper.named inherited module t
        return ⟨(if t.isConst then "*const " else "*mut ") ++ inner.text, inner.problems⟩
    | target => do
      let inner ← mapper.mapWith inherited module target
      return ⟨(if isConst target then "*const " else "*mut ") ++ inner.text, inner.problems⟩
  | .array element extent => do
    let element ← mapper.mapWith inherited module element
    return sized element extent (← .constants (mapper.scope.evaluateExtent extent))
  | .function result parameters variadic convention => do
    let parameters ← mapper.mapParameters inherited module parameters
    if result.isVoid then return signature convention parameters variadic none
    else
      let result ← mapper.mapWith inherited module result
      return signature convention parameters variadic (some result)

def mapParameters (mapper : TypeMapper) (inherited : String → MappingM (List String))
    (module : Option String) : List (Option String × CType) → MappingM (List Mapping)
  | [] => return []
  | (_, type) :: rest => do
    let first ← mapper.mapWith inherited module type
    return first :: (← mapper.mapParameters inherited module rest)

end

set_option linter.unusedVariables false in
def typedefProblems (mapper : TypeMapper) (pending : List String) (name : String) :
    MappingM (List String) := do
  match (← get).typedefs.get? name with
  | some problems => return problems
  | none =>
    match found : mapper.scope.table.typedef? name with
    | none => return []
    | some underlying =>
      if new : name ∈ pending then return []
      else
        let mapped ← mapper.mapWith (fun n => mapper.typedefProblems (name :: pending) n) none
          underlying
        modify fun memo => { memo with typedefs := memo.typedefs.insert name mapped.problems }
        return mapped.problems
termination_by unseen mapper.scope.table.names pending
decreasing_by exact unseen_cons_lt (SymbolTable.mem_names_of_typedef? found) new

def map (mapper : TypeMapper) (module : Option String) (t : CType) : MappingM Mapping :=
  mapper.mapWith (mapper.typedefProblems []) module t

def mapField (mapper : TypeMapper) (module : Option String) (f : Field) : MappingM Mapping := do
  let mapped ← mapper.map module f.type
  match f.width with
  | none => return mapped
  | some width =>
    return { mapped with problems := mapped.problems ++
      ["bitfield " ++ f.name ++ ": " ++ toString width ++ " is not supported"] }

def mapResult (mapper : TypeMapper) (module : Option String) (t : CType) : MappingM Mapping :=
  if t.isVoid then return ⟨"", []⟩ else mapper.map module t

def mapParameterList (mapper : TypeMapper) (module : Option String) (parameters : List Parameter)
    (variadic : Bool) : MappingM Mapping := do
  let mapped ← parameters.zipIdx.mapM fun ((name, type), index) => do
    let mapped ← mapper.map module type
    return { mapped with text := Rust.parameterName name index ++ ": " ++ mapped.text }
  return ⟨", ".intercalate (mapped.map Mapping.text ++ if variadic then ["..."] else []),
    mapped.flatMap Mapping.problems⟩

end TypeMapper

end CBindings
