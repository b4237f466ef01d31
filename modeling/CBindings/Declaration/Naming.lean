import CBindings.Declaration.Syntax

/-! From written declarations to declarations: tags without a name are named after the first
declared name or after the tag around them. -/

namespace CBindings

/-- What stands before a line of a field list: fields, unnamed tags, and anonymous members. -/
structure Tally where
  fields : Nat := 0
  unnamed : Nat := 0
  anonymous : Nat := 0
  deriving DecidableEq, Repr

namespace Specified

def nameOr (base : Specified) (given : Option String) : Option String := base.writtenName <|> given

def typeNameOr (base : Specified) (given : Option String) (qualifiers : List String) : CType :=
  .named ⟨base.kind, base.nameOr given, qualifiers⟩

end Specified

namespace Member

def base : Member → Specified
  | mk _ base _ => base

def qualifiers : Member → List String
  | mk qualifiers _ _ => qualifiers

def declarators : Member → List (Declarator × Option Int)
  | mk _ _ declarators => declarators

/-- The name for an unnamed tag inside another one. Tags inside one that has no name get none. -/
def givenName (owner : Option String) (tally : Tally) : Option String :=
  owner.map (· ++ "__anon" ++ toString (tally.unnamed + 1))

def type (owner : Option String) (tally : Tally) (line : Member) : CType :=
  line.base.typeNameOr (givenName owner tally) line.qualifiers

def fields (owner : Option String) (tally : Tally) (line : Member) : List Field :=
  let type := line.type owner tally
  if line.declarators.isEmpty then [⟨"__anon" ++ toString (tally.anonymous + 1), type, none⟩]
  else
    line.declarators.zipIdx.map fun ((declarator, width), index) =>
      ⟨declarator.identifier.getD ("__pad" ++ toString (tally.fields + index)),
        declarator.apply type, width⟩

def count (tally : Tally) (line : Member) : Tally where
  fields := tally.fields + Nat.max 1 line.declarators.length
  unnamed := if line.base.isUnnamed then tally.unnamed + 1 else tally.unnamed
  anonymous := if line.declarators.isEmpty then tally.anonymous + 1 else tally.anonymous

def allFields (owner : Option String) (tally : Tally) : List Member → List Field
  | [] => []
  | line :: rest => line.fields owner tally ++ allFields owner (line.count tally) rest

end Member

namespace Specified

/-- The declaration of a tag. Of the tags without a name only enums are declared. -/
def tag (header : String) (given : Option String) (base : Specified) : List Declaration :=
  let known := base.nameOr given
  match base with
  | .name .. => []
  | .opaqueTag isUnion _ line =>
    [⟨if isUnion then .union known none else .struct known none false, some ⟨header, line⟩⟩]
  | .record isUnion _ line afterTypedef members =>
    let fields := some (Member.allFields known {} members)
    if known.isNone then []
    else [⟨if isUnion then .union known fields else .struct known fields afterTypedef,
      some ⟨header, line⟩⟩]
  | .enum _ line afterTypedef values => [⟨.enum known values afterTypedef, some ⟨header, line⟩⟩]

mutual

def tags (header : String) (given : Option String) : Specified → List Declaration
  | .record isUnion known line afterTypedef members =>
    memberTags header (known <|> given) {} members ++
      tag header given (.record isUnion known line afterTypedef members)
  | .name kind known => tag header given (.name kind known)
  | .opaqueTag isUnion known line => tag header given (.opaqueTag isUnion known line)
  | .enum known line afterTypedef values => tag header given (.enum known line afterTypedef values)

def memberTags (header : String) (owner : Option String) (tally : Tally) :
    List Member → List Declaration
  | [] => []
  | .mk qualifiers base declarators :: rest =>
    tags header (Member.givenName owner tally) base ++
      memberTags header owner (Member.count tally (.mk qualifiers base declarators)) rest

end

end Specified

namespace DeclarationSyntax

/-- The name for an unnamed tag: that of a type definition, or one made from another name. -/
def givenName (source : DeclarationSyntax) : Option String :=
  (source.declarators.head?.bind Declarator.identifier).map fun name =>
    if source.isTypedef then name else "__anon_" ++ name

/-- What a declarator declares. Static functions and objects are of no use outside. -/
def declared (source : DeclarationSyntax) (declarator : Declarator) : Option Item :=
  declarator.identifier.bind fun name =>
    let type := declarator.apply (source.base.typeNameOr source.givenName source.qualifiers)
    if source.isTypedef then some (.typedef name type)
    else if source.isStatic then none
    else
      match declarator.isFunction, type with
      | true, .function result parameters variadic convention =>
        some (.function name result parameters variadic convention)
      | _, _ => some (.object name type)

def declarations (header : String) (line : Nat) (source : DeclarationSyntax) : List Declaration :=
  source.base.tags header source.givenName ++
    (source.declarators.filterMap source.declared).map (⟨·, some ⟨header, line⟩⟩)

end DeclarationSyntax

end CBindings
