import CBindings.Proofs.Declaration.Single
import CBindings.Token.Lexer
import Mathlib

/-! Type definitions undo the syntax of declarators: the definition that is written for a type and a
name is read as exactly this type under this name. -/

namespace CBindings

open Lexeme DeclarationReader

namespace DeclarationReader

theorem extent_read {e : Extent} (writable : e.Writable) {tokens : List Token}
    (written : tokens.map Token.lexeme = e.lexemes) : extent tokens = e := by
  cases e with
  | flexible =>
    rw [show tokens = [] by simpa [Extent.lexemes] using written]
    rfl
  | count n =>
    obtain ⟨size, rfl⟩ := Int.eq_ofNat_of_zero_le writable.1
    obtain ⟨token, rfl, spelled⟩ := List.map_eq_singleton_iff.mp written
    have spelled : token.lexeme = ⟨.number, size.repr⟩ := spelled
    obtain ⟨number, text⟩ : token.kind = .number ∧ token.text = size.repr := by
      simpa [Token.lexeme] using spelled
    have small : size < 2 ^ 63 := by exact_mod_cast writable.2
    obtain ⟨value, read, same⟩ := Literal.integer_repr small
    simp [extent, number, text, read, same]
  | text => exact writable.elim

end DeclarationReader

theorem Extent.Writable.spelledBy {extent : Extent} (writable : extent.Writable) :
    extent.SpelledBy extent.lexemes :=
  ⟨writable.grouped true, fun _ written => extent_read writable written⟩

namespace CType

theorem asParameter_of_hasSuffix {type : CType} (noSuffix : type.hasSuffix = false) :
    type.asParameter = type := by
  cases type with
  | named | pointer => rfl
  | array | function => cases noSuffix

theorem asRead_of_writable (type : CType) (writable : type.Writable) :
    type.convention = none ∧ type.enclosing = none ∧ type.asRead none = type := by
  induction type using CType.induction with
  | named t => exact ⟨rfl, rfl, rfl⟩
  | pointer target qualifiers ih =>
    obtain ⟨bare, enclosing, same⟩ := ih writable.2
    refine ⟨rfl, ?_, ?_⟩
    · rw [CType.enclosing, bare, enclosing, ite_self]
    · rw [asRead, enclosing]
      simp [same]
  | array element extent ih =>
    obtain ⟨-, enclosing, same⟩ := ih writable.2
    exact ⟨rfl, enclosing, by rw [asRead, same]⟩
  | function result parameters variadic convention ih ihEach =>
    obtain ⟨rfl, plain, each, -⟩ := writable
    obtain ⟨-, enclosing, same⟩ := ih plain
    have sameEach : readEach parameters = parameters := by
      rw [readEach_eq]
      refine (List.map_congr_left fun p member => ?_).trans (List.map_id parameters)
      obtain ⟨-, noSuffix, plain⟩ := eachWritable_iff.mp each p member
      obtain ⟨bare, enclosing, same⟩ := ihEach p member plain
      have heard : p.2.heard = p.2 := by
        rw [CType.heard, bare, enclosing]
        exact same
      rw [heard, asParameter_of_hasSuffix noSuffix]
      rfl
    exact ⟨rfl, enclosing, by rw [asRead, same, sameEach]⟩

theorem heard_of_writable {type : CType} (writable : type.Writable) : type.heard = type := by
  obtain ⟨bare, enclosing, same⟩ := asRead_of_writable type writable
  rw [heard, bare, enclosing]
  exact same

theorem base_writable {type : CType} (writable : type.Writable) : type.base.Writable := by
  induction type using CType.induction with
  | named t => exact writable
  | pointer target qualifiers ih => exact ih writable.2
  | array element extent ih => exact ih writable.2
  | function result parameters variadic convention ih _ => exact ih writable.2.1

theorem eq_void_of_declaredAs {p : Parameter} (writable : p.2.Writable)
    (noSuffix : p.2.hasSuffix = false) (declared : DeclaredAs p [word "void"]) :
    p = (none, .named ⟨.primitive, some "void", []⟩) := by
  have void : DeclaredAs (none, .named ⟨.primitive, some "void", []⟩) [word "void"] :=
    ⟨by simp, [], rfl, ⟨by simp, "void", rfl, show "void" ∈ Primitive.names by decide⟩, by decide⟩
  have read := (spelledItem p.2.spells declared).reads [⟨.ident, "void", 0⟩] rfl
  rw [heard_of_writable writable, asParameter_of_hasSuffix noSuffix,
    (spelledItem (spells _) void).reads [⟨.ident, "void", 0⟩] rfl] at read
  exact (Except.ok.inj read).symm

theorem write_written (explicit : Bool) (type : CType) (writable : type.Writable)
    (inner : List Lexeme) : type.WrittenAs inner (type.write explicit inner) := by
  induction type using CType.induction generalizing inner with
  | named t =>
    obtain ⟨nameable, same⟩ := TypeName.Writable.nameable writable
    exact ⟨nameable, by rw [write, TypeName.lexemes, same]⟩
  | pointer target qualifiers ih =>
    have written := ih writable.2
    rw [write]
    cases suffixed : target.hasSuffix with
    | true =>
      have announces : Announces target.convention [] :=
        (asRead_of_writable target writable.2).1 ▸ announces_none
      exact writtenAs_enclosed suffixed writable.1 announces (written _)
    | false => exact writtenAs_pointer suffixed writable.1 (written _)
  | array element extent ih =>
    have written := ih writable.2
    rw [write, List.append_assoc]
    exact ⟨extent.lexemes, Extent.Writable.spelledBy writable.1, written _⟩
  | function result parameters variadic convention ih ihEach =>
    obtain ⟨-, plain, each, notVoid⟩ := writable
    have written := ih plain
    have declared : ∀ p ∈ parameters, DeclaredAs p (p.2.write explicit (p.1.toList.map word)) := by
      intro p member
      obtain ⟨name, -, plain⟩ := eachWritable_iff.mp each p member
      exact ⟨name, [], (asRead_of_writable p.2 plain).1 ▸ announces_none,
        ihEach p member plain _⟩
    rw [write, List.append_assoc]
    refine ⟨explicit, writeEach explicit parameters, ?_, fun alone => ?_, written _⟩
    · rw [eachWrittenAs_iff, writeEach_eq, List.forall₂_map_right_iff, List.forall₂_same]
      exact declared
    · rw [writeEach_eq, List.map_eq_singleton_iff] at alone
      obtain ⟨p, rfl, isVoid⟩ := alone
      obtain ⟨-, noSuffix, plain⟩ := eachWritable_iff.mp each p List.mem_cons_self
      have declaredVoid := declared p List.mem_cons_self
      rw [isVoid] at declaredVoid
      exact notVoid (by rw [eq_void_of_declaredAs plain noSuffix declaredVoid])

/-- What is written of a type is grouped when what it is written around is. -/
theorem write_grouped (explicit : Bool) (type : CType) (writable : type.Writable) (commas : Bool)
    {inner : List Lexeme} (grouped : Grouped commas inner) :
    Grouped commas (type.write explicit inner) :=
  type.grouped_of_written (type.write_written explicit writable inner) commas grouped

end CType

theorem isForeign_eq_false {keyword : Token} {tokens : List Token} {commas : Bool}
    (isTypedef : keyword.lexeme = word "typedef")
    (grouped : Grouped commas (tokens.map Token.lexeme)) (position : Nat) :
    Statement.isForeign ⟨keyword :: tokens, position⟩ = false := by
  have whole : Grouped commas ((keyword :: tokens).map Token.lexeme) := by
    rw [List.map_cons, isTypedef]
    exact .atom (keyword_isAtom (by decide) commas) grouped
  refine Statement.isForeign_of_grouped (fun token first => ?_) whole position
  obtain rfl : keyword = token := by simpa using first
  rw [show keyword.text = "typedef" from congrArg Lexeme.text isTypedef]
  decide

namespace DeclarationReader

theorem read_typedef {explicit : Bool} {name : String} {type : CType} (writable : type.Writable)
    (plain : PlainWord name) {tokens : List Token} {keyword : Token}
    (isTypedef : keyword.lexeme = word "typedef")
    (written : tokens.map Token.lexeme = type.write explicit [word name]) (line : Nat) :
    ∃ base, type.base.name = some base ∧
      (type.surround (.plain (some name) {})).identifier = some name ∧
      (type.surround (.plain (some name) {})).apply (.named type.base) = type ∧
      read line (keyword :: tokens) = .ok ⟨true, false, type.base.qualifiers,
        .name type.base.kind base, [type.surround (.plain (some name) {})]⟩ := by
  have bare := (CType.asRead_of_writable type writable).1
  have declared : CType.DeclaredAs (some name, type) (type.write explicit [word name]) :=
    ⟨fun n same => Option.some.inj same ▸ plain, [], bare ▸ announces_none,
      type.write_written explicit writable _⟩
  have whole : (keyword :: tokens).map Token.lexeme =
      ["typedef"].map word ++ type.write explicit [word name] := by
    rw [List.map_cons, isTypedef, written]
    rfl
  obtain ⟨base, refers, read⟩ := read_single declared (by decide) whole line
  have apply := type.apply_surround_plain (some name)
  rw [bare] at read apply
  obtain ⟨-, own, isOwn, known⟩ := CType.base_writable writable
  have noTag : type.base.kind ≠ .struct ∧ type.base.kind ≠ .union := by
    constructor <;> intro isTag <;> simp [isTag] at known
  rw [refers.eq_name noTag isOwn] at read
  exact ⟨own, isOwn, CType.identifier_surround type _,
    apply.trans (CType.heard_of_writable writable), read⟩

end DeclarationReader

theorem declarations_typedef {base name : String} {t : TypeName} {declarator : Declarator}
    {type : CType} (isBase : t.name = some base) (named : declarator.identifier = some name)
    (apply : declarator.apply (.named t) = type) (header : String) (line : Nat) :
    DeclarationSyntax.declarations header line
        ⟨true, false, t.qualifiers, .name t.kind base, [declarator]⟩ =
      [⟨.typedef name type, some ⟨header, line⟩⟩] := by
  have root (given : Option String) :
      (Specified.name t.kind base).typeNameOr given t.qualifiers = .named t := by
    cases t
    cases isBase
    rfl
  simp only [DeclarationSyntax.declarations, Specified.tags, Specified.tag, List.nil_append,
    List.filterMap_cons, List.filterMap_nil, DeclarationSyntax.declared, named, Option.bind_some,
    root, apply, if_true, List.map_cons, List.map_nil]

/-- From the definition that is written for a type and a name exactly this type comes back under
this name, with nothing to report. -/
theorem declarationsOf_typedefLexemes (explicit : Bool) (header name : String) (type : CType)
    (writable : type.Writable) (plain : PlainWord name) (tokens : List Token)
    (written : tokens.map Token.lexeme = typedefLexemes explicit name type) :
    declarationsOf tokens header =
      ([⟨.typedef name type, some ⟨header, (tokens.head?.map Token.line).getD 0⟩⟩], []) := by
  rw [typedefLexemes, List.cons_append] at written
  obtain ⟨keyword, tail, rfl, isTypedef, written⟩ := List.map_eq_cons_iff.mp written
  obtain ⟨body, back, rfl, bodyWritten, written⟩ := List.map_eq_append_iff.mp written
  obtain ⟨semicolon, rfl, ends⟩ := List.map_eq_singleton_iff.mp written
  have named : Grouped true [word name] := .atom (plain.isAtom true) .nil
  have grouped : Grouped true (body.map Token.lexeme) :=
    bodyWritten ▸ CType.write_grouped explicit type writable true named
  have statement := Statement.split_clean isTypedef (keyword_isAtom (by decide) true) (by decide)
    grouped ends
  obtain ⟨base, isBase, identifier, apply, read⟩ :=
    DeclarationReader.read_typedef writable plain isTypedef bodyWritten keyword.line
  have line : Statement.line ⟨keyword :: body, 0⟩ = keyword.line := rfl
  rw [declarationsOf, ← List.cons_append, statement]
  simp only [List.mergeSort_nil, interleave, List.takeWhile_nil, List.dropWhile_nil,
    List.filterMap_nil, List.nil_append, List.append_nil, Statement.declarations,
    isForeign_eq_false isTypedef grouped, line, read, declarations_typedef isBase identifier
    apply]
  rfl

/-- A table of functions: a pointer to an array of constant pointers to functions, one parameter of
which points to an array. -/
def handlerTable : CType :=
  .pointer (.array (.pointer (.function (.named ⟨.primitive, some "void", []⟩)
    [(some "count", .named ⟨.primitive, some "unsigned long long", []⟩),
      (none, .pointer (.array (.named ⟨.typedef, some "WCHAR", ["const"]⟩) (.count 260)) [])]
    true none) ["const"]) (.count 16)) []

theorem handlerTable_writable : handlerTable.Writable := by
  have plain : PlainWord "count" ∧ PlainWord "WCHAR" := by decide +kernel
  have void : TypeName.Writable ⟨.primitive, some "void", []⟩ :=
    ⟨by simp, "void", rfl, show "void" ∈ Primitive.names by decide⟩
  have count : TypeName.Writable ⟨.primitive, some "unsigned long long", []⟩ :=
    ⟨by simp, "unsigned long long", rfl, show "unsigned long long" ∈ Primitive.names by decide⟩
  have wide : TypeName.Writable ⟨.typedef, some "WCHAR", ["const"]⟩ :=
    ⟨by decide, "WCHAR", rfl, plain.2⟩
  simp [handlerTable, CType.Writable, CType.EachWritable, CType.hasSuffix, Extent.Writable,
    qualifierWords, void, count, wide, plain.1]

def handlerTableTokens : List Token :=
  tokenize ("typedef void (*const (*TABLE)[16])" ++
    "(unsigned long long count, const WCHAR (*)[260], ...);") 7

def handlerTableName : String := "TABLE"

theorem handlerTable_round_trip :
    handlerTable.Writable ∧ PlainWord handlerTableName ∧
      handlerTableTokens.map Token.lexeme = typedefLexemes true handlerTableName handlerTable ∧
      declarationsOf handlerTableTokens "h.h" =
        ([⟨.typedef handlerTableName handlerTable, some ⟨"h.h", 7⟩⟩], []) := by
  have plain : PlainWord handlerTableName := by decide +kernel
  have written : handlerTableTokens.map Token.lexeme =
      typedefLexemes true handlerTableName handlerTable := by
    cbv
  have line : (handlerTableTokens.head?.map Token.line).getD 0 = 7 := by cbv
  have read := declarationsOf_typedefLexemes true "h.h" handlerTableName handlerTable
    handlerTable_writable plain handlerTableTokens written
  rw [line] at read
  exact ⟨handlerTable_writable, plain, written, read⟩

end CBindings
