import CBindings.OrderedMap
import CBindings.Output.Writer
import CBindings.Text.Blank

/-! Writers that can be asked for by name. -/

namespace CBindings

structure Registration (α : Type) where
  writer : α
  description : String

structure Registry (α : Type) where
  entries : OrderedMap String (Registration α) := ∅
  default? : Option String := none

inductive RegistryError where
  | taken (name : String)
  | unknown (name : String) (available : List String)
  | empty
  deriving DecidableEq, Repr

def RegistryError.message : RegistryError → String
  | .taken name => "Writer already registered: " ++ Text.quoted name
  | .unknown name available =>
    "Unknown writer: " ++ Text.quoted name ++ ". Available: " ++
      (if available.isEmpty then "(none)" else ", ".intercalate available)
  | .empty => "No writers available"

namespace Registry

variable {α : Type}

def names (registry : Registry α) : List String := registry.entries.keys

def contains (registry : Registry α) (name : String) : Bool := registry.entries.contains name

def firstLine (text : String) : String :=
  String.ofList ((Text.strip text.toList).takeWhile (· != '\n'))

def register (registry : Registry α) (name : String) (writer : α) (isDefault : Bool)
    (description : String) : Except RegistryError (Registry α) :=
  if registry.contains name then .error (.taken name)
  else .ok
    { entries := registry.entries.insert name ⟨writer, description⟩
      default? := if isDefault || registry.default?.isNone then some name else registry.default? }

def defaultName (registry : Registry α) : Except RegistryError String :=
  match registry.default? with
  | some name => .ok name
  | none => .error .empty

def find (registry : Registry α) (name : Option String) : Except RegistryError α := do
  let name ← match name.filter (!·.isEmpty) with
    | some name => pure name
    | none => registry.defaultName
  match registry.entries.get? name with
  | some entry => pure entry.writer
  | none => .error (.unknown name registry.names)

def info (registry : Registry α) : List (String × String × Bool) :=
  registry.entries.entries.map fun (name, entry) =>
    (name, entry.description, registry.default? = some name)

def map {β : Type} (f : α → β) (registry : Registry α) : Registry β where
  entries := .ofList (registry.entries.entries.map fun (name, entry) =>
    (name, ⟨f entry.writer, entry.description⟩))
  default? := registry.default?

end Registry

def builtinWriters : Registry Writer where
  entries := .ofList
    [("rust", ⟨.rust, Writer.rust.formatDescription⟩),
     ("json", ⟨.json (some 2),
       "Writes each output module as JSON, C and Rust views side by side."⟩)]
  default? := some "rust"

end CBindings
