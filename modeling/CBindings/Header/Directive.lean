import CBindings.Macro.Expansion
import CBindings.Text.Blank

/-! Preprocessing directives as text. -/

namespace CBindings

/-- A directive: its name, which may be empty, and the rest of its line without blanks around it. -/
structure Directive where
  name : String
  rest : List Char
  deriving DecidableEq, Repr

namespace Directive

open Text

def nameAt? : List Char → Option (List Char × List Char)
  | [] => none
  | c :: rest =>
    if isNameStart c then some (c :: rest.takeWhile isWord, rest.dropWhile isWord) else none

/-- The directive on a line, if a number sign is the first character of the line but for blanks. -/
def ofLine? (line : List Char) : Option Directive :=
  match stripLeft line with
  | '#' :: rest =>
    match nameAt? (stripLeft rest) with
    | some (name, rest) => some ⟨String.ofList name, strip rest⟩
    | none => some ⟨"", strip rest⟩
  | _ => none

/-- What `#define` says: a name, the parameters if there are any, and the text of the body. -/
structure Definition where
  name : String
  parameters : Option (List String)
  variadic : Bool
  body : String
  deriving DecidableEq, Repr

def parametersOf (text : List Char) : List String × Bool :=
  let names := ((splitOn ',' text).map strip).filter (· ≠ [])
  match names.getLast? with
  | none => ([], false)
  | some last =>
    if "...".toList.isSuffixOf last then (names.dropLast.map String.ofList, true)
    else (names.map String.ofList, false)

def definition? (rest : List Char) : Option Definition :=
  match nameAt? rest with
  | none => none
  | some (name, after) =>
    let plain : Definition := ⟨String.ofList name, none, false, String.ofList after⟩
    match after with
    | '(' :: inner =>
      match inner.dropWhile (· != ')') with
      | _ :: body =>
        let parameters := parametersOf (inner.takeWhile (· != ')'))
        some ⟨String.ofList name, some parameters.1, parameters.2, String.ofList body⟩
      | [] => some plain
    | _ => some plain

def firstWord (text : List Char) : String :=
  String.ofList ((stripLeft text).takeWhile (!isBlank ·))

/-- The header an `#include` names, and whether the name stands in quotes. -/
structure Target where
  name : String
  isQuoted : Bool
  deriving DecidableEq, Repr

def until? (delimiter : Char) (text : List Char) : Option (List Char) :=
  if text.contains delimiter then some (text.takeWhile (· != delimiter)) else none

def targetOfTokens? : List Token → Option Target
  | [] => none
  | first :: rest =>
    if first.kind = .string && "\"".isPrefixOf first.text then
      some ⟨String.ofList (first.text.toList.drop 1).dropLast, true⟩
    else if first.isPunct "<" then
      let texts := rest.map Token.text
      if texts.contains ">" then some ⟨String.join (texts.takeWhile (· != ">")), false⟩ else none
    else none

def writtenTarget? : List Char → Option (Option Target)
  | '<' :: rest => some ((until? '>' rest).map fun name => ⟨String.ofList (strip name), false⟩)
  | '"' :: rest => some ((until? '"' rest).map fun name => ⟨String.ofList name, true⟩)
  | _ => none

end Directive

end CBindings
