import CBindings.OrderedMap
import CBindings.Token.Lexer

/-! Macros and the table that holds them. -/

namespace CBindings

/-- A macro. Without parameters it is object-like; a variadic one takes any number of arguments
after its parameters. `source` is the header that defines it, none for a predefined macro. -/
structure Macro where
  name : String
  body : List Token
  parameters : Option (List String) := none
  variadic : Bool := false
  source : Option String := none
  line : Option Nat := none
  deriving DecidableEq, Repr

namespace Macro

def isObjectLike (m : Macro) : Bool := m.parameters.isNone

def bodyText (m : Macro) : List String := m.body.map Token.text

end Macro

/-- The macros in force, each under its own name. Predefined ones can be neither replaced nor
removed. -/
structure MacroTable where
  macros : OrderedMap String Macro := ∅
  predefined : List String := []
  named_by_key : ∀ pair ∈ macros.entries, pair.2.name = pair.1 := by simp

namespace MacroTable

theorem named_by_key_insert {macros : OrderedMap String Macro} (m : Macro)
    (named : ∀ pair ∈ macros.entries, pair.2.name = pair.1) :
    ∀ pair ∈ (macros.insert m.name m).entries, pair.2.name = pair.1 := by
  intro pair member
  rcases OrderedMap.mem_insert member with old | rfl
  · exact named pair old
  · rfl

def ofPredefined (texts : OrderedMap String String) : MacroTable where
  macros := .ofList (texts.entries.map fun (name, text) =>
    (name, ⟨name, tokenize text, none, false, none, none⟩))
  predefined := texts.keys
  named_by_key := by
    intro pair member
    have listed := OrderedMap.mem_ofList member
    simp only [List.mem_map] at listed
    obtain ⟨_, _, rfl⟩ := listed
    rfl

def isPredefined (table : MacroTable) (name : String) : Bool := table.predefined.contains name

def define (table : MacroTable) (m : Macro) : MacroTable :=
  if table.isPredefined m.name then table
  else
    { table with
      macros := table.macros.insert m.name m
      named_by_key := named_by_key_insert m table.named_by_key }

def undefine (table : MacroTable) (name : String) : MacroTable :=
  if table.isPredefined name then table
  else
    { table with
      macros := table.macros.erase name
      named_by_key := fun pair member => table.named_by_key pair (OrderedMap.mem_erase member) }

def lookup (table : MacroTable) (name : String) : Option Macro := table.macros.get? name

theorem name_of_lookup {table : MacroTable} {name : String} {m : Macro}
    (found : table.lookup name = some m) : m.name = name :=
  table.named_by_key (name, m) (OrderedMap.mem_of_get? found)

def isDefined (table : MacroTable) (name : String) : Bool := table.macros.contains name

def size (table : MacroTable) : Nat := table.macros.size

def named (table : MacroTable) (token : Token) : Option Macro :=
  if token.kind = .ident then table.lookup token.text else none

end MacroTable

end CBindings
