import CBindings.Declaration.Basic
import CBindings.Declaration.Declarator

/-! Declarations as they are written, before tags without a name have been given one. -/

namespace CBindings

mutual

/-- The type that specifiers spell. A tag definition tells whether `typedef` stands before it. -/
inductive Specified where
  | name (kind : NameKind) (name : String)
  | opaqueTag (isUnion : Bool) (name : String) (line : Nat)
  | record (isUnion : Bool) (name : Option String) (line : Nat) (afterTypedef : Bool)
      (members : List Member)
  | enum (name : Option String) (line : Nat) (afterTypedef : Bool) (values : List Enumerator)

inductive Member where
  | mk (qualifiers : List String) (base : Specified)
      (declarators : List (Declarator × Option Int))

end

namespace Specified

def kind : Specified → NameKind
  | name kind _ => kind
  | opaqueTag isUnion _ _ => if isUnion then .union else .struct
  | record isUnion _ _ _ _ => if isUnion then .union else .struct
  | enum .. => .enum

def writtenName : Specified → Option String
  | name _ n => some n
  | opaqueTag _ n _ => some n
  | record _ n _ _ _ => n
  | enum n _ _ _ => n

def isUnnamed (base : Specified) : Bool := base.writtenName.isNone

def typeName (base : Specified) (qualifiers : List String) : TypeName :=
  ⟨base.kind, base.writtenName, qualifiers⟩

end Specified

/-- A whole statement: storage words, the type, and declarators. -/
structure DeclarationSyntax where
  isTypedef : Bool
  isStatic : Bool
  qualifiers : List String
  base : Specified
  declarators : List Declarator

end CBindings
