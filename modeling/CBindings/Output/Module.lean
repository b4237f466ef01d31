import CBindings.Rust.Name
import CBindings.SymbolTable.Basic
import CBindings.Text.Lowercase
import CBindings.Text.Word

/-! Output modules, one for each header that has something to emit. -/

namespace CBindings

/-- The declarations that one header contributes to the output. -/
structure OutputModule where
  name : String
  header : String
  symbols : List Symbol
  deriving DecidableEq, Repr

namespace OutputModule

open Text

def reservedNames : List String :=
  ["lib", "mod", "main", "build"] ++ Rust.keywords ++ Rust.reservedPathWords

def isNameChar (c : Char) : Bool := ('a' ≤ c && c ≤ 'z') || isAsciiDigit c || c = '_'

def stem (header : List Char) : List Char :=
  let slashed := header.map fun c => if c = '\\' then '/' else c
  let last := (splitOn '/' slashed).getLast?.getD []
  lower (last.takeWhile (· != '.'))

def baseName (header : String) : String :=
  let cleaned := (stem header.toList).map fun c => if isNameChar c then c else '_'
  let named := if cleaned.isEmpty then "header".toList else cleaned
  let started := if (named.head?.any isAsciiDigit) then '_' :: named else named
  let base := String.ofList started
  if reservedNames.contains base then base ++ "_h" else base

def candidates (base : String) (taken : List String) : List String :=
  base :: (List.range taken.length).map fun k => base ++ "_" ++ toString (k + 2)

def nameFor (header : String) (taken : List String) : String :=
  let base := baseName header
  ((candidates base taken).find? fun name => !taken.contains name).getD base

def namesFor (taken : List String) : List String → List String
  | [] => []
  | header :: rest =>
    let name := nameFor header taken
    name :: namesFor (name :: taken) rest

def ofTable (table : SymbolTable) : List OutputModule :=
  let headers := table.headers.filter fun header => !(table.winners header).isEmpty
  (headers.zip (namesFor [] headers)).map fun (header, name) =>
    ⟨name, header, table.winners header⟩

def owner? (modules : List OutputModule) (table : SymbolTable) (qualifiedName : String) :
    Option String :=
  (table.ownerOf? qualifiedName).bind fun header =>
    (modules.find? (·.header = header)).map OutputModule.name

end OutputModule

end CBindings
