import CBindings.Decimal.Shortest
import CBindings.Json.Basic
import CBindings.Text.Quoted

/-! Writing JSON: ASCII only, on one line or indented. -/

namespace CBindings

namespace Json

open Text

def unitEscape (unit : Nat) : List Char := '\\' :: 'u' :: hexDigits 4 unit

def escaped (c : Char) : List Char :=
  if c = '"' then ['\\', '"']
  else if c = '\\' then ['\\', '\\']
  else if c = '\n' then ['\\', 'n']
  else if c = '\r' then ['\\', 'r']
  else if c = '\t' then ['\\', 't']
  else if c.toNat = 12 then ['\\', 'f']
  else if c.toNat = 8 then ['\\', 'b']
  else if 32 ≤ c.toNat ∧ c.toNat < 127 then [c]
  else if c.toNat < 0x10000 then unitEscape c.toNat
  else
    unitEscape (0xD800 + (c.toNat - 0x10000) / 0x400) ++
      unitEscape (0xDC00 + (c.toNat - 0x10000) % 0x400)

def escapedUnit : TextUnit → List Char
  | .char c => escaped c
  | .half index => unitEscape (0xD800 + index)

def quotedText (units : JsonText) : List Char := '"' :: units.flatMap escapedUnit ++ ['"']

def number : Double → String
  | .infinite negative => if negative then "-Infinity" else "Infinity"
  | .undefined => "NaN"
  | x => x.render

def lineBreak (indent : Option Nat) (level : Nat) : List Char :=
  match indent with
  | none => []
  | some width => '\n' :: List.replicate (width * level) ' '

def separator (indent : Option Nat) (level : Nat) : List Char :=
  match indent with
  | none => [',', ' ']
  | some _ => ',' :: lineBreak indent level

mutual

def write (indent : Option Nat) (level : Nat) (value : Json) (after : List Char) : List Char :=
  match value with
  | null => "null".toList ++ after
  | bool b => (if b then "true" else "false").toList ++ after
  | int n => (toString n).toList ++ after
  | real x => (number x).toList ++ after
  | text units => quotedText units ++ after
  | array [] => '[' :: ']' :: after
  | array (item :: rest) =>
    '[' :: (lineBreak indent (level + 1) ++ write indent (level + 1) item
      (writeItems indent level rest after))
  | keyed [] => '{' :: '}' :: after
  | keyed ((key, item) :: rest) =>
    '{' :: (lineBreak indent (level + 1) ++ quotedText key ++ ':' :: ' ' ::
      write indent (level + 1) item (writeMembers indent level rest after))

def writeItems (indent : Option Nat) (level : Nat) (items : List Json) (after : List Char) :
    List Char :=
  match items with
  | [] => lineBreak indent level ++ ']' :: after
  | item :: rest =>
    separator indent (level + 1) ++ write indent (level + 1) item
      (writeItems indent level rest after)

def writeMembers (indent : Option Nat) (level : Nat) (members : List (JsonText × Json))
    (after : List Char) : List Char :=
  match members with
  | [] => lineBreak indent level ++ '}' :: after
  | (key, item) :: rest =>
    separator indent (level + 1) ++ quotedText key ++ ':' :: ' ' ::
      write indent (level + 1) item (writeMembers indent level rest after)

end

def render (value : Json) (indent : Option Nat := none) : String :=
  String.ofList (write indent 0 value [])

end Json

end CBindings
