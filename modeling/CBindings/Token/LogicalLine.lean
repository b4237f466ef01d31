import CBindings.Text.Blank

/-! Logical lines: physical lines joined where a backslash ends them, with comments taken out. -/

namespace CBindings

/-- A line of text and the number of the first physical line it came from. -/
structure NumberedLine where
  number : Nat
  text : List Char
  deriving DecidableEq, Repr

namespace LogicalLine

open Text

def continued? (line : List Char) : Option (List Char) :=
  match (stripRight line).reverse with
  | '\\' :: rest => some rest.reverse
  | _ => none

def spliceAfter (pending : Option NumberedLine) (number : Nat) :
    List (List Char) → List NumberedLine
  | [] => pending.toList
  | line :: rest =>
    let start := pending.getD ⟨number, []⟩
    match continued? line with
    | some part => spliceAfter (some ⟨start.number, start.text ++ part⟩) (number + 1) rest
    | none => ⟨start.number, start.text ++ line⟩ :: spliceAfter none (number + 1) rest

def splice (source : List Char) : List NumberedLine := spliceAfter none 1 (lines source)

/-- Where a character stands: in code, inside quotes, or inside a block comment. -/
inductive Place where
  | code
  | quoted (quote : Char)
  | comment
  deriving DecidableEq, Repr

def uncomment : Place → List Char → List Char × Bool
  | .comment, [] => ([], true)
  | _, [] => ([], false)
  | .comment, '*' :: '/' :: rest =>
    let after := uncomment .code rest
    (' ' :: after.1, after.2)
  | .comment, _ :: rest => uncomment .comment rest
  | .quoted quote, '\\' :: c :: rest =>
    let after := uncomment (.quoted quote) rest
    ('\\' :: c :: after.1, after.2)
  | .quoted quote, c :: rest =>
    let after := uncomment (if c = quote then .code else .quoted quote) rest
    (c :: after.1, after.2)
  | .code, '/' :: '/' :: _ => ([], false)
  | .code, '/' :: '*' :: rest => uncomment .comment rest
  | .code, c :: rest =>
    let after := uncomment (if c = '"' ∨ c = '\'' then .quoted c else .code) rest
    (c :: after.1, after.2)

def stripAfter : Option NumberedLine → List NumberedLine → List NumberedLine
  | pending, [] => pending.toList
  | none, line :: rest =>
    let left := uncomment .code line.text
    if left.2 then stripAfter (some ⟨line.number, left.1⟩) rest
    else ⟨line.number, left.1⟩ :: stripAfter none rest
  | some start, line :: rest =>
    let left := uncomment .comment line.text
    if left.2 then stripAfter (some ⟨start.number, start.text ++ left.1⟩) rest
    else ⟨start.number, start.text ++ left.1⟩ :: stripAfter none rest

def stripComments (source : List NumberedLine) : List NumberedLine := stripAfter none source

end LogicalLine

def logicalLines (source : String) : List NumberedLine :=
  LogicalLine.stripComments (LogicalLine.splice source.toList)

end CBindings
