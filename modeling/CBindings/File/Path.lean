import CBindings.Text.Blank

/-! File paths. Repeated slashes and single dots are dropped; double dots are kept. -/

namespace CBindings

/-- A path: its root, which is empty for a relative path, and its parts. -/
structure Path where
  root : String
  parts : List String
  deriving DecidableEq, Repr

namespace Path

def partsOf (text : List Char) : List String :=
  ((Text.splitOn '/' text).filter fun part => part ≠ [] ∧ part ≠ ['.']).map String.ofList

def rootOf : List Char → String
  | '/' :: '/' :: '/' :: _ => "/"
  | '/' :: '/' :: _ => "//"
  | '/' :: _ => "/"
  | _ => ""

def parse (text : String) : Path := ⟨rootOf text.toList, partsOf text.toList⟩

def render (p : Path) : String :=
  if p.root.isEmpty && p.parts.isEmpty then "." else p.root ++ "/".intercalate p.parts

def isAbsolute (p : Path) : Bool := !p.root.isEmpty

def join (p q : Path) : Path := if q.isAbsolute then q else ⟨p.root, p.parts ++ q.parts⟩

def child (p : Path) (part : String) : Path := ⟨p.root, p.parts ++ [part]⟩

def name (p : Path) : String := p.parts.getLast?.getD ""

def parent (p : Path) : Path := ⟨p.root, p.parts.dropLast⟩

def relativeTo? (p directory : Path) : Option Path :=
  if p.root = directory.root && directory.parts.isPrefixOf p.parts then
    some ⟨"", p.parts.drop directory.parts.length⟩
  else none

end Path

end CBindings
