import CBindings.Json.Printer
import CBindings.Output.Emission

/-! Modules as JSON: declarations as C has them and, while a run emits them, their Rust side. -/

namespace CBindings.JsonView

structure View where
  context : Option EmissionContext
  module : OutputModule

def mapped (m : Mapping) : List (String × Json) :=
  if m.isOk then [("rust_type", .string m.text)] else [("problems", .strings m.problems)]

def inRun (view : View) (x : EmissionContext → Emission (List (String × Json))) :
    Emission (List (String × Json)) :=
  match view.context with
  | some context => x context
  | none => return []

def rustSide (view : View) (t : CType) : Emission (List (String × Json)) :=
  inRun view fun context => return mapped (← .mapping (context.mapper.map view.module.name t))

def qualifierPart (qualifiers : List String) : List (String × Json) :=
  if qualifiers.isEmpty then [] else [("qualifiers", .strings qualifiers)]

def namePart (name : Option String) : List (String × Json) :=
  match name.filter (!·.isEmpty) with
  | some name => [("name", .string name)]
  | none => []

def conventionPart (convention : Option String) : List (String × Json) :=
  match convention.filter (!·.isEmpty) with
  | some convention => [("calling_convention", .string convention)]
  | none => []

def extentPart : Extent → List (String × Json)
  | .flexible => []
  | .count n => [("size", .int n)]
  | .text expression => [("size", .string expression)]

mutual

def type (view : View) : CType → Emission Json
  | .named t =>
    return .object ([("kind", .string "ctype"), ("name", .ofOption .string t.name),
      ("ref", .string t.kind.word)] ++ qualifierPart t.qualifiers)
  | .pointer target qualifiers => do
    let target ← type view target
    return .object ([("kind", .string "pointer"), ("pointee", target)] ++
      qualifierPart qualifiers)
  | .array element extent => do
    let element ← type view element
    return .object ([("kind", .string "array"), ("element_type", element)] ++ extentPart extent)
  | .function result parameters variadic convention => do
    let result ← type view result
    let parameters ← slots view parameters
    return .object ([("kind", .string "function_pointer"), ("return_type", result),
      ("parameters", .array parameters), ("is_variadic", .bool variadic)] ++
      conventionPart convention)

def slots (view : View) : List (Option String × CType) → Emission (List Json)
  | [] => return []
  | (name, t) :: rest => do
    let written ← type view t
    let rust ← rustSide view t
    return .object (namePart name ++ ("type", written) :: rust) :: (← slots view rest)

end

def field (view : View) (f : Field) : Emission Json := do
  let rust ← inRun view fun context =>
    return mapped (← .mapping (context.mapper.mapField view.module.name f))
  let written ← type view f.type
  let width := match f.width with
    | some width => [("bit_width", .int width)]
    | none => []
  return .object (namePart (some f.name) ++ ("type", written) :: rust ++ width)

def record (view : View) (kind : String) (name : Option String) (fields : Option (List Field))
    (isTypedef : Bool) : Emission (List (String × Json)) := do
  let list ← (fields.getD []).mapM (field view)
  return [("kind", .string kind), ("name", .ofOption .string name),
    ("opaque", .bool fields.isNone), ("fields", .array list)] ++
    if isTypedef then [("is_typedef", .bool true)] else []

def enumValues (view : View) (symbol : Symbol) : Emission (List (String × Option Int)) :=
  match view.context with
  | some context => context.enumerators symbol
  | none =>
    return symbol.item.enumerators.filterMap fun e =>
      match e.value with
      | .number n => some (e.name, some n)
      | _ => none

def enumerator (values : List (String × Option Int)) (e : Enumerator) : Json :=
  .object ([("name", .string e.name),
      ("value", .ofOption .int (ConstantScope.valueOf values e.name))] ++
    match e.value with
    | .text expression => [("expression", .string expression)]
    | _ => [])

def enum (view : View) (symbol : Symbol) (name : Option String) (isTypedef : Bool) :
    Emission (List (String × Json)) := do
  let values ← enumValues view symbol
  let emitted := symbol.item.enumerators.filter fun e =>
    match view.context with
    | some context => context.table.emitsEnumerator symbol e.name
    | none => true
  return [("kind", .string "enum"), ("name", .ofOption .string name),
    ("values", .array (emitted.map (enumerator values)))] ++
    if isTypedef then [("is_typedef", .bool true)] else []

def named (entry : Json) (name : Option String) (index : Nat) : Json :=
  entry.withMember "rust_name" (.string (Rust.parameterName name index))

def function (view : View) (name : String) (result : CType) (parameters : List Parameter)
    (variadic : Bool) (convention : Option String) : Emission (List (String × Json)) := do
  let written ← type view result
  let list ← slots view parameters
  let rust ← inRun view fun context => do
    let m ← .mapping (context.mapper.mapResult view.module.name result)
    if m.isOk then
      return [("rust_return_type", if m.text.isEmpty then .null else .string m.text)]
    else return [("problems", .strings m.problems)]
  let list := if view.context.isNone then list
    else (list.zip parameters).zipIdx.map fun ((entry, parameter), index) =>
      named entry parameter.1 index
  return [("kind", .string "function"), ("name", .string name), ("return_type", written),
    ("parameters", .array list), ("is_variadic", .bool variadic)] ++
    conventionPart convention ++ rust

def typed (view : View) (kind name key : String) (t : CType) :
    Emission (List (String × Json)) := do
  let written ← type view t
  let rust ← rustSide view t
  return [("kind", .string kind), ("name", .string name), (key, written)] ++ rust

def constantValue : ConstantValue → Json
  | .integer value => .int value.value
  | .float x => .real x
  | .text body => .string body

def constant (view : View) (name : String) (tokens : List String) :
    Emission (List (String × Json)) := do
  let value ← inRun view fun context => do
    match ← context.constant name with
    | some value => return [("value", constantValue value), ("notation", .string value.style)]
    | none => return []
  return [("kind", .string "constant"), ("name", .string name), ("tokens", .strings tokens)] ++
    value

def declaration (view : View) (symbol : Symbol) : Emission Json := do
  let parts ← match symbol.item with
    | .struct name fields isTypedef => record view "struct" name fields isTypedef
    | .union name fields => record view "union" name fields false
    | .enum name _ isTypedef => enum view symbol name isTypedef
    | .function name result parameters variadic convention =>
      function view name result parameters variadic convention
    | .typedef name t => typed view "typedef" name "underlying_type" t
    | .object name t => typed view "variable" name "type" t
    | .constant name tokens => constant view name tokens
  let rustName := match view.context, symbol.item.qualifiedName with
    | some _, some key => [("rust_name", .string (Rust.declaredName key))]
    | _, _ => []
  let place := match symbol.declaration.location with
    | some location =>
      [("location", .object [("file", .string location.header), ("line", .int location.line)])]
    | none => []
  return .object (parts ++ rustName ++ place)

def module (context : Option EmissionContext) (m : OutputModule) : Emission Json := do
  let declarations ← m.symbols.mapM (declaration ⟨context, m⟩)
  return .object [("module", .string m.name), ("header", .string m.header),
    ("declarations", .array declarations)]

def crateName : CrateName → Json
  | .named text => .string text
  | .null => .null
  | .nothing => .array []

def index (context : EmissionContext) (extension : String) (modules : List OutputModule) : Json :=
  .object [
    ("crate", crateName context.crateName),
    ("namespace", .string context.policy.name),
    ("arch", .string context.scope.target.name),
    ("modules", .array (modules.map fun m => .object [
      ("name", .string m.name),
      ("header", .string m.header),
      ("file", .string (m.name ++ extension)),
      ("reexported", .bool context.policy.reexports)]))]

end CBindings.JsonView
