import CBindings.Decimal.Shortest
import CBindings.Output.Emission
import CBindings.Text.Numeral

/-! Rust items for declarations. What has no Rust form becomes a comment and is reported. -/

namespace CBindings.Rust

def indent (line : String) : String := "    " ++ line

def stub (what : String) (problems : List String) : String :=
  "// unsupported: " ++ what ++ ": " ++ "; ".intercalate problems

inductive Piece where
  | function (abi line : String)
  | lines (lines : List String)
  deriving DecidableEq, Repr

def enumItem (name : String) (lines : List String) : List String :=
  ["#[repr(transparent)]", "#[derive(Copy, Clone, Debug, PartialEq, Eq, Hash)]",
    "pub struct " ++ name ++ "(pub i32);"] ++
    if lines.isEmpty then [] else ["impl " ++ name ++ " \x7b"] ++ lines ++ ["\x7d"]

section

variable (context : EmissionContext) (module : OutputModule)

def reportType (symbol : String) (problems : List String) : Emission Unit :=
  .report
    { kind := Diagnostic.unsupportedType
      message := symbol ++ ": " ++ "; ".intercalate problems
      header := some module.header
      symbol := some symbol }

def reportConstant (name text : String) : Emission Unit :=
  .report
    { kind := Diagnostic.unevaluatedConstant
      message := name ++ " = " ++ text ++ " could not be evaluated"
      header := some module.header
      symbol := some name }

def fieldLine (owner : String) (f : Field) : Emission String := do
  let mapped ← .mapping (context.mapper.mapField module.name f)
  if mapped.isOk then return indent ("pub " ++ identifier f.name ++ ": " ++ mapped.text ++ ",")
  else
    reportType module (owner ++ "." ++ f.name) mapped.problems
    return indent (stub ("field " ++ f.name) mapped.problems)

def structLines (qualifiedName : Option String) (fields : Option (List Field)) :
    Emission (List String) := do
  let name := declaredName (qualifiedName.getD "")
  match fields with
  | none => return ["#[repr(transparent)]", "pub struct " ++ name ++ "(::core::ffi::c_void);"]
  | some fields =>
    let lines ← fields.mapM (fieldLine context module (qualifiedName.getD "None"))
    return ["#[repr(C)]", "#[derive(Copy, Clone)]", "pub struct " ++ name ++ " \x7b"] ++ lines ++
      ["\x7d"]

def enumeratorLine (constant : Int → String) (e : Enumerator) (value : Option Int) :
    Emission String := do
  match value with
  | some n => return constant n
  | none =>
    let text := e.value.render
    reportConstant module e.name text
    return stub ("enumerator " ++ e.name) ["cannot evaluate " ++ text]

def freeLines (symbol : Symbol) : Emission (List String) := do
  let values ← context.enumerators symbol
  let emitted := (symbol.item.enumerators.zip values).filter fun pair =>
    context.table.emitsEnumerator symbol pair.1.name
  emitted.mapM fun (e, _, value) =>
    enumeratorLine module
      (fun n => "pub const " ++ identifier e.name ++ ": i32 = " ++ toString n ++ ";") e value

def enumLines (symbol : Symbol) : Emission (List String) := do
  let name := declaredName (symbol.item.qualifiedName.getD "")
  let values ← context.enumerators symbol
  let lines ← (symbol.item.enumerators.zip values).mapM fun (e, _, value) => do
    let line ← enumeratorLine module
      (fun n => "pub const " ++ identifier e.name ++ ": Self = Self(" ++ toString n ++ ");") e value
    return indent line
  return enumItem name lines

def functionPiece (name : String) (result : CType) (parameters : List Parameter) (variadic : Bool)
    (convention : Option String) : Emission Piece := do
  let list ← .mapping (context.mapper.mapParameterList module.name parameters variadic)
  let result ← .mapping (context.mapper.mapResult module.name result)
  let problems := list.problems ++ result.problems
  if problems.isEmpty then
    let arrow := if result.text.isEmpty then "" else " -> " ++ result.text
    return .function (abi convention)
      ("pub fn " ++ identifier name ++ "(" ++ list.text ++ ")" ++ arrow ++ ";")
  else
    reportType module name problems
    return .lines [stub ("fn " ++ name) problems]

def typedLines (what name : String) (type : CType) (lines : String → List String) :
    Emission (List String) := do
  let mapped ← .mapping (context.mapper.map module.name type)
  if mapped.isOk then return lines mapped.text
  else
    reportType module name mapped.problems
    return [stub (what ++ " " ++ name) mapped.problems]

/-- The Rust literal of a constant. Numbers that are not finite have none. -/
def literal? : ConstantValue → Option String
  | .text body => some ("\"" ++ body ++ "\"")
  | .float (.finite negative significand exponent) =>
    some (Double.finite negative significand exponent).render
  | .float _ => none
  | .integer value =>
    if value.style = .hex ∧ 0 ≤ value.value then some ("0x" ++ Text.upperHex value.value.toNat)
    else some (toString value.value)

def constantLines (name : String) (tokens : List String) : Emission (List String) := do
  match ((← context.constant name).bind fun value => (literal? value).map (value, ·)) with
  | some (value, literal) =>
    return ["pub const " ++ identifier name ++ ": " ++ value.rustType ++ " = " ++ literal ++ ";"]
  | none =>
    let text := " ".intercalate tokens
    reportConstant module name text
    return ["// unsupported: #define " ++ name ++ " " ++ text]

def piece (symbol : Symbol) : Emission Piece := do
  match symbol.item with
  | .struct _ fields _ => .lines <$> structLines context module symbol.item.qualifiedName fields
  | .union name _ =>
    return .lines ["// unsupported: union " ++ name.getD "None" ++ " is not translated"]
  | .enum none _ _ => .lines <$> freeLines context module symbol
  | .enum (some _) _ _ => .lines <$> enumLines context module symbol
  | .function name result parameters variadic convention =>
    functionPiece context module name result parameters variadic convention
  | .typedef name type =>
    .lines <$> typedLines context module "type" name type fun text =>
      ["pub type " ++ identifier name ++ " = " ++ text ++ ";"]
  | .object name type =>
    .lines <$> typedLines context module "static" name type fun text =>
      ["extern \"C\" \x7b", indent ("pub static mut " ++ identifier name ++ ": " ++ text ++ ";"),
       "\x7d"]
  | .constant name tokens => .lines <$> constantLines context module name tokens

end

end CBindings.Rust
