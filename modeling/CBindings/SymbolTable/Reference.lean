import CBindings.SymbolTable.Basic

/-! Types that emitted declarations use and nothing declares. -/

namespace CBindings

/-- A type name without a declaration, and the declaration that uses it. -/
structure UnresolvedReference where
  name : String
  user : String
  header : String
  deriving DecidableEq, Repr

namespace UnresolvedReference

def pair (reference : UnresolvedReference) : String × String := (reference.name, reference.user)

def render (reference : UnresolvedReference) : String :=
  reference.user ++ " references unknown type " ++ Text.quoted reference.name

def diagnostic (reference : UnresolvedReference) : Diagnostic where
  kind := Diagnostic.unresolvedReference
  message := reference.name ++ " is used by " ++ reference.user ++ " but never declared"
  header := some reference.header
  symbol := some reference.name

end UnresolvedReference

namespace SymbolTable

def isUnresolved (table : SymbolTable) (reference : TypeName) : Bool :=
  let isPrimitive := reference.kind = .primitive || reference.name.any Primitive.names.contains
  let isWellKnown := reference.kind = .typedef && reference.name.any Target.wellKnown.contains
  !isPrimitive && !isWellKnown && !table.entries.contains reference.qualifiedName

def userName (item : Item) : String :=
  (item.qualifiedName.filter (!·.isEmpty)).getD item.render

def referencesOf (table : SymbolTable) (symbol : Symbol) : List UnresolvedReference :=
  ((symbol.item.types.flatMap CType.names).filter table.isUnresolved).map fun reference =>
    ⟨reference.qualifiedName, userName symbol.item, symbol.header⟩

def unresolvedReferences (table : SymbolTable) : List UnresolvedReference :=
  (table.emitted.flatMap table.referencesOf).eraseDupsBy fun later earlier =>
    later.pair == earlier.pair

end SymbolTable

end CBindings
