import CBindings.Text.Blank

/-! Names of Rust items for C names. -/

namespace CBindings.Rust

def keywords : List String :=
  ["abstract", "as", "async", "await", "become", "box", "break", "const", "continue", "do", "dyn",
   "else", "enum", "false", "final", "fn", "for", "gen", "if", "impl", "in", "let", "loop",
   "macro", "match", "mod", "move", "mut", "override", "priv", "pub", "ref", "return", "static",
   "struct", "trait", "true", "try", "type", "typeof", "unsafe", "unsized", "use", "virtual",
   "where", "while", "yield"]

def reservedPathWords : List String := ["self", "Self", "super", "crate", "extern"]

def identifier (name : String) : String :=
  if reservedPathWords.contains name then "_" ++ name
  else if keywords.contains name then "r#" ++ name
  else name

/-- The name of the item for a declaration: tags are flattened, other names are escaped. -/
def declaredName (qualifiedName : String) : String :=
  let text := qualifiedName.toList
  let kind := String.ofList (text.takeWhile (· != ' '))
  match text.dropWhile (· != ' ') with
  | _ :: c :: rest =>
    if ["struct", "enum", "union"].contains kind then kind ++ "_" ++ String.ofList (c :: rest)
    else identifier qualifiedName
  | _ => identifier qualifiedName

def abi (convention : Option String) : String :=
  match convention with
  | some "stdcall" => "system"
  | some "fastcall" => "fastcall"
  | some "vectorcall" => "vectorcall"
  | some "thiscall" => "thiscall"
  | _ => "C"

def parameterName (name : Option String) (index : Nat) : String :=
  match name.filter (!·.isEmpty) with
  | some name => identifier name
  | none => "__arg" ++ toString index

end CBindings.Rust
