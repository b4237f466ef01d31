import CBindings.Declaration.Basic
import CBindings.Diagnostic
import CBindings.OrderedMap
import CBindings.Target

/-! The declarations of all headers under their names, and which of them are emitted. -/

namespace CBindings

/-- What happens when a name is declared again with another meaning. -/
inductive DuplicatePolicy where
  | first
  | last
  | error
  deriving DecidableEq, Repr

namespace DuplicatePolicy

def name : DuplicatePolicy → String
  | first => "first"
  | last => "last"
  | error => "error"

def all : List DuplicatePolicy := [first, last, error]

def ofName? (text : String) : Option DuplicatePolicy := all.find? (·.name = text)

def unknownMessage (shown : String) : String :=
  "Unknown duplicate policy: " ++ shown ++ ". Available: " ++ ", ".intercalate (all.map name)

end DuplicatePolicy

/-- A declaration in a table. The serial number tells it from equal ones. -/
structure Symbol where
  serial : Nat
  declaration : Declaration
  deriving DecidableEq, Repr

namespace Symbol

def item (s : Symbol) : Item := s.declaration.item

def header (s : Symbol) : String := s.declaration.header

def agrees (a b : Symbol) : Bool := a.item = b.item

end Symbol

structure Duplicate where
  name : String
  kept : Symbol
  discarded : Symbol
  deriving DecidableEq, Repr

inductive TableError where
  | isFinal
  | duplicate (name previous header : String)
  deriving DecidableEq, Repr

def TableError.message : TableError → String
  | .isFinal => "symbol table is finalized"
  | .duplicate name previous header =>
    "duplicate symbol " ++ Text.quoted name ++ ": first in " ++ previous ++ ", again in " ++ header

/-- Declarations by qualified name, and what each header contributed. The enumerators of an
anonymous enum are free constants: `free` tells which enum owns each, and their names clash with
those of other declarations. `enumerators` finds the enum of any enumerator. -/
structure SymbolTable where
  policy : DuplicatePolicy := .first
  isFinal : Bool := false
  inserted : Nat := 0
  entries : OrderedMap String Symbol := ∅
  contributed : OrderedMap String (List Symbol) := ∅
  anonymous : List Symbol := []
  enumerators : OrderedMap String (Symbol × Enumerator) := ∅
  free : OrderedMap String Symbol := ∅
  duplicates : List Duplicate := []
  diagnostics : List Diagnostic := []

namespace SymbolTable

def get? (table : SymbolTable) (name : String) : Option Symbol := table.entries.get? name

def names (table : SymbolTable) : List String := table.entries.keys

def headers (table : SymbolTable) : List String := table.contributed.keys

def contributedBy (table : SymbolTable) (header : String) : List Symbol :=
  (table.contributed.get? header).getD []

def ownerOf? (table : SymbolTable) (name : String) : Option String :=
  (table.get? name).map Symbol.header

def enumerator? (table : SymbolTable) (name : String) : Option (Symbol × Enumerator) :=
  table.enumerators.get? name

def ownsFree (table : SymbolTable) (symbol : Symbol) (name : String) : Bool :=
  (table.free.get? name).any (·.serial = symbol.serial)

/-- Whether an enumerator is emitted: always in an enum with a name, else if the enum owns it. -/
def emitsEnumerator (table : SymbolTable) (symbol : Symbol) (name : String) : Bool :=
  symbol.item.isNamed || table.ownsFree symbol name

def isEmitted (table : SymbolTable) (symbol : Symbol) : Bool :=
  match symbol.item.qualifiedName, symbol.item with
  | some key, _ => (table.get? key).any (·.serial = symbol.serial)
  | none, .enum _ values _ => values.any fun value => table.ownsFree symbol value.name
  | none, _ => false

def winners (table : SymbolTable) (header : String) : List Symbol :=
  (table.contributedBy header).filter table.isEmitted

def emitted (table : SymbolTable) : List Symbol := table.headers.flatMap table.winners

def isTypeName (table : SymbolTable) (name : String) : Bool :=
  (match (table.get? name).map Symbol.item with
    | some (.typedef ..) => true
    | _ => false) || Target.wellKnown.contains name

end SymbolTable

end CBindings
