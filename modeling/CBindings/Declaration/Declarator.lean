import CBindings.CType.Basic

/-! Declarators: the part of a declaration that stands around the declared name. -/

namespace CBindings

/-- What may follow a declared name: the bound of an array, or the parameters of a function. -/
inductive Suffix where
  | array (extent : Extent)
  | function (parameters : List Parameter) (variadic : Bool)
  deriving DecidableEq, Repr

/-- What stands around a name or around a declarator in parentheses: the pointers before it with
their qualifiers, a calling convention, and what follows it. -/
structure Wrapping where
  pointers : List (List String) := []
  convention : Option String := none
  suffixes : List Suffix := []
  deriving DecidableEq, Repr

inductive Declarator where
  | plain (name : Option String) (wrapping : Wrapping)
  | nested (inner : Declarator) (wrapping : Wrapping)
  deriving DecidableEq, Repr

namespace Suffix

def apply (convention : Option String) : Suffix → CType → CType
  | array extent, type => .array type extent
  | function parameters variadic, type => .function type parameters variadic convention

end Suffix

namespace Declarator

def identifier : Declarator → Option String
  | plain name _ => name
  | nested inner _ => inner.identifier

def convention : Declarator → Option String
  | plain _ wrapping => wrapping.convention
  | nested inner wrapping => wrapping.convention <|> inner.convention

def wrap (convention : Option String) (wrapping : Wrapping) (base : CType) : CType :=
  wrapping.suffixes.foldr (Suffix.apply convention)
    (wrapping.pointers.foldl (fun type qualifiers => .pointer type qualifiers) base)

/-- The type of the declared name. A declarator works from the outside in: its pointers first, its
suffixes from the last to the first, and then the declarator inside its parentheses. -/
def apply : Declarator → CType → CType
  | plain name wrapping, base => wrap (plain name wrapping).convention wrapping base
  | nested inner wrapping, base =>
    inner.apply (wrap (nested inner wrapping).convention wrapping base)

def isFunction : Declarator → Bool
  | plain _ wrapping =>
    match wrapping.suffixes with
    | .function _ _ :: _ => true
    | _ => false
  | nested _ _ => false

end Declarator

end CBindings
