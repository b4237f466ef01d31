import CBindings.Decimal.Shortest
import CBindings.Json.Basic
import CBindings.Text.Quoted

/-! The text by which a message shows a JSON value. -/

namespace CBindings

namespace Json

open Text

def quotedUnit (quote : Char) : TextUnit → List Char
  | .char c => quotedChar quote c
  | .half index => '\\' :: 'u' :: hexDigits 4 (0xD800 + index)

def quotedUnits (units : JsonText) : List Char :=
  let chars := units.filterMap fun
    | .char c => some c
    | .half _ => none
  let quote := quoteFor chars
  quote :: units.flatMap (quotedUnit quote) ++ [quote]

mutual

def shown (value : Json) (after : List Char) : List Char :=
  match value with
  | null => "None".toList ++ after
  | bool b => (if b then "True" else "False").toList ++ after
  | int n => (toString n).toList ++ after
  | real x => x.render.toList ++ after
  | text units => quotedUnits units ++ after
  | array [] => '[' :: ']' :: after
  | array (item :: rest) => '[' :: shown item (shownItems rest after)
  | keyed [] => '{' :: '}' :: after
  | keyed ((key, item) :: rest) =>
    '{' :: (quotedUnits key ++ ':' :: ' ' :: shown item (shownMembers rest after))

def shownItems (items : List Json) (after : List Char) : List Char :=
  match items with
  | [] => ']' :: after
  | item :: rest => ',' :: ' ' :: shown item (shownItems rest after)

def shownMembers (members : List (JsonText × Json)) (after : List Char) : List Char :=
  match members with
  | [] => '}' :: after
  | (key, item) :: rest =>
    ',' :: ' ' :: (quotedUnits key ++ ':' :: ' ' :: shown item (shownMembers rest after))

end

def display : Json → JsonText
  | text units => units
  | value => (shown value []).map .char

end Json

end CBindings
