import CBindings.Text.Quoted

/-! How the modules of a crate are exposed at its root. -/

namespace CBindings

/-- Every module's items stand in one namespace, or each module keeps its own. -/
inductive NamespacePolicy where
  | flat
  | qualified
  deriving DecidableEq, Repr

namespace NamespacePolicy

def name : NamespacePolicy → String
  | flat => "flat"
  | qualified => "qualified"

def reexports : NamespacePolicy → Bool
  | flat => true
  | qualified => false

def all : List NamespacePolicy := [flat, qualified]

def ofName? (text : String) : Option NamespacePolicy :=
  if text.isEmpty then some flat else all.find? (·.name = text)

def unknownMessage (text : String) : String :=
  "Unknown namespace policy: " ++ Text.quoted text ++ ". Available: " ++
    ", ".intercalate (all.map name)

end NamespacePolicy

end CBindings
