import CBindings.Declaration.Declarator
import CBindings.Declaration.Reader
import CBindings.Declaration.Statement
import CBindings.Proofs.Token.Lexeme
import Mathlib.Algebra.Group.Int.Defs

/-! Types written as C declarations, around the declared name and from the inside out. A pointer to
an array or a function stands in parentheses. -/

namespace CBindings

open Lexeme

/-- A word that means nothing special in a declaration. -/
structure PlainWord (text : String) : Prop where
  keyword : text ∉ Primitive.keywords
  storage : text ∉ DeclarationReader.storageWords
  qualifier : text ∉ DeclarationReader.qualifierWords
  tag : DeclarationReader.tagKind? text = none
  convention : DeclarationReader.isConvention text = false
  decoration : Statement.isDecoration text = false
  ignored : text ∉ Statement.ignoredWords
  wide : text ≠ "__wchar_t"

theorem plainWord_iff {text : String} :
    PlainWord text ↔ text ∉ Primitive.keywords ∧ text ∉ DeclarationReader.storageWords ∧
      text ∉ DeclarationReader.qualifierWords ∧ DeclarationReader.tagKind? text = none ∧
      DeclarationReader.isConvention text = false ∧ Statement.isDecoration text = false ∧
      text ∉ Statement.ignoredWords ∧ text ≠ "__wchar_t" := by
  constructor
  · rintro ⟨h1, h2, h3, h4, h5, h6, h7, h8⟩
    exact ⟨h1, h2, h3, h4, h5, h6, h7, h8⟩
  · rintro ⟨h1, h2, h3, h4, h5, h6, h7, h8⟩
    exact ⟨h1, h2, h3, h4, h5, h6, h7, h8⟩

instance (text : String) : Decidable (PlainWord text) := decidable_of_iff' _ plainWord_iff

namespace TypeName

def primitiveWords (name : String) : List String :=
  (Text.splitOn ' ' name.toList).map String.ofList

def words (t : TypeName) : List String :=
  match t.kind with
  | .primitive => primitiveWords t.spelling
  | .enum => ["enum", t.spelling]
  | _ => [t.spelling]

def lexemes (t : TypeName) : List Lexeme := (t.qualifiers ++ t.words).map word

/-- A primitive type under its canonical name, a typedef, or an enum by its tag. -/
def Writable (t : TypeName) : Prop :=
  (∀ q ∈ t.qualifiers, q ∈ DeclarationReader.qualifierWords) ∧
    ∃ name, t.name = some name ∧
      match t.kind with
      | .primitive => name ∈ Primitive.names
      | .typedef | .enum => PlainWord name
      | .struct | .union => False

def specifierWords (t : TypeName) : List String :=
  match t.kind with
  | .primitive => primitiveWords t.spelling
  | .typedef => [t.spelling]
  | .struct | .union | .enum => [t.kind.word, t.spelling]

def Nameable (t : TypeName) : Prop :=
  (∀ q ∈ t.qualifiers, q ∈ DeclarationReader.qualifierWords) ∧
    ∃ name, t.name = some name ∧
      match t.kind with
      | .primitive => name ∈ Primitive.names
      | .typedef | .struct | .union | .enum => PlainWord name

theorem Writable.nameable {t : TypeName} (writable : t.Writable) :
    t.Nameable ∧ t.words = t.specifierWords := by
  obtain ⟨kind, name, qualifiers⟩ := t
  obtain ⟨qualified, name, rfl, plain⟩ := writable
  refine ⟨⟨qualified, name, rfl, ?_⟩, ?_⟩
  · cases kind with
    | primitive | typedef | enum => exact plain
    | struct | union => exact plain.elim
  · cases kind with
    | primitive | typedef | enum => rfl
    | struct | union => exact plain.elim

end TypeName

namespace Extent

def lexemes : Extent → List Lexeme
  | .flexible => []
  | .count n => [⟨.number, toString n⟩]
  | .text expression => [word expression]

/-- No bound, or a number that fits the widest signed type. -/
def Writable : Extent → Prop
  | .flexible => True
  | .count n => 0 ≤ n ∧ n < 2 ^ 63
  | .text _ => False

end Extent

def listItems (items : List (List Lexeme)) (variadic : Bool) : List (List Lexeme) :=
  items ++ if variadic then [[mark "..."]] else []

def parameterList (explicit : Bool) (items : List (List Lexeme)) (variadic : Bool) :
    List Lexeme :=
  match listItems items variadic with
  | [] => if explicit then [word "void"] else []
  | items => [mark ","].intercalate items

namespace CType

def hasSuffix : CType → Bool
  | array .. | function .. => true
  | named .. | pointer .. => false

mutual

def write (explicit : Bool) : CType → List Lexeme → List Lexeme
  | named t, inner => t.lexemes ++ inner
  | pointer target qualifiers, inner =>
    let starred := mark "*" :: qualifiers.map word ++ inner
    write explicit target
      (if target.hasSuffix then mark "(" :: starred ++ [mark ")"] else starred)
  | array element extent, inner =>
    write explicit element (inner ++ mark "[" :: extent.lexemes ++ [mark "]"])
  | function result parameters variadic _, inner =>
    write explicit result (inner ++ mark "(" ::
      parameterList explicit (writeEach explicit parameters) variadic ++ [mark ")"])

def writeEach (explicit : Bool) : List (Option String × CType) → List (List Lexeme)
  | [] => []
  | (name, type) :: rest =>
    write explicit type (name.toList.map word) :: writeEach explicit rest

end

mutual

/-- The types that declarations are written of here. Functions have no calling convention, and
parameters are no arrays and no functions. A single parameter without a name is not plain `void`. -/
def Writable : CType → Prop
  | named t => t.Writable
  | pointer target qualifiers =>
    (∀ q ∈ qualifiers, q ∈ DeclarationReader.qualifierWords) ∧ target.Writable
  | array element extent => extent.Writable ∧ element.Writable
  | function result parameters variadic convention =>
    convention = none ∧ result.Writable ∧ EachWritable parameters ∧
      (parameters = [(none, named ⟨.primitive, some "void", []⟩)] → variadic = true)

def EachWritable : List (Option String × CType) → Prop
  | [] => True
  | (name, type) :: rest =>
    (∀ n ∈ name, PlainWord n) ∧ type.hasSuffix = false ∧ type.Writable ∧ EachWritable rest

end

theorem writeEach_eq (explicit : Bool) (parameters : List Parameter) :
    writeEach explicit parameters =
      parameters.map fun p => p.2.write explicit (p.1.toList.map word) := by
  induction parameters with
  | nil => rfl
  | cons p rest ih => rw [writeEach, ih, List.map_cons]

theorem eachWritable_iff {parameters : List Parameter} :
    EachWritable parameters ↔ ∀ p ∈ parameters,
      (∀ n ∈ p.1, PlainWord n) ∧ p.2.hasSuffix = false ∧ p.2.Writable := by
  induction parameters with
  | nil => simp [EachWritable]
  | cons p rest ih => rw [EachWritable, ih, List.forall_mem_cons, and_assoc, and_assoc]

end CType

def typedefLexemes (explicit : Bool) (name : String) (type : CType) : List Lexeme :=
  word "typedef" :: type.write explicit [word name] ++ [mark ";"]

end CBindings
