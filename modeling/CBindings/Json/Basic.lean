import CBindings.Decimal.Double
import CBindings.OrderedMap

/-! Values of the JSON format. -/

namespace CBindings

inductive TextUnit where
  | char (c : Char)
  | half (index : Fin 2048)
  deriving DecidableEq, Repr

abbrev JsonText := List TextUnit

namespace JsonText

def ofString (s : String) : JsonText := s.toList.map .char

def toString? (text : JsonText) : Option String := do
  let chars ← text.mapM fun
    | .char c => some c
    | .half _ => none
  return String.ofList chars

end JsonText

inductive Json where
  | null
  | bool (b : Bool)
  | int (n : Int)
  | real (x : Double)
  | text (units : JsonText)
  | array (items : List Json)
  | keyed (members : List (JsonText × Json))
  deriving Repr

instance : Inhabited Json := ⟨.null⟩

namespace Json

def string (s : String) : Json := .text (JsonText.ofString s)

def object (members : List (String × Json)) : Json :=
  .keyed (members.map fun (key, value) => (JsonText.ofString key, value))

def string? : Json → Option String
  | text units => units.toString?
  | _ => none

def isNull : Json → Bool
  | null => true
  | _ => false

def get? (key : String) : Json → Option Json
  | keyed members => members.lookup (JsonText.ofString key)
  | _ => none

def withMember (json : Json) (key : String) (value : Json) : Json :=
  match json with
  | keyed members => keyed (members ++ [(JsonText.ofString key, value)])
  | other => other

def ofOption {α : Type} (f : α → Json) : Option α → Json
  | some a => f a
  | none => null

def strings (items : List String) : Json := .array (items.map string)

end Json

end CBindings
