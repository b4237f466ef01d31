import CBindings.Proofs.CType.Expansion
import CBindings.Proofs.Declaration.Inversion
import CBindings.Token.Lexer
import Mathlib

/-! Which declarators declare functions. The type of a name is that of a function when parameters are
what stands next to the name; it is listed as a function when no parentheses stand between. -/

namespace CBindings

open Lexeme

namespace Item

/-- The name and the type that an item declares. Tags and constants declare none. -/
def declared? : Item → Option (String × CType)
  | function name result parameters variadic convention =>
    some (name, .function result parameters variadic convention)
  | typedef name type | object name type => some (name, type)
  | struct .. | union .. | enum .. | constant .. => none

def isFunction : Item → Bool
  | function .. => true
  | _ => false

def isObject : Item → Bool
  | object .. => true
  | _ => false

end Item

/-- What stands next to a declared name. -/
inductive Neighbour where
  | suffix (suffix : Suffix)
  | pointer
  deriving DecidableEq, Repr

def Neighbour.isParameterList : Neighbour → Bool
  | suffix (.function _ _) => true
  | _ => false

/-- What follows a name comes before the pointers in front of it. -/
def Wrapping.nearest? (wrapping : Wrapping) : Option Neighbour :=
  match wrapping.suffixes with
  | suffix :: _ => some (.suffix suffix)
  | [] => if wrapping.pointers.isEmpty then none else some .pointer

namespace Declarator

/-- What stands next to the name, also beyond the parentheses around it. -/
def nearest? : Declarator → Option Neighbour
  | plain _ wrapping => wrapping.nearest?
  | nested inner wrapping => inner.nearest? <|> wrapping.nearest?

def isNested : Declarator → Bool
  | plain .. => false
  | nested .. => true

theorem isFunction_wrap (convention : Option String) (wrapping : Wrapping) (base : CType) :
    (wrap convention wrapping base).isFunction =
      wrapping.nearest?.elim base.isFunction Neighbour.isParameterList := by
  obtain ⟨pointers, own, suffixes⟩ := wrapping
  cases suffixes with
  | cons suffix others => cases suffix <;> rfl
  | nil =>
    -- the last pointer is the outermost one
    cases pointers using List.reverseRecOn with
    | nil => rfl
    | append_singleton others last => simp [wrap, Wrapping.nearest?, CType.isFunction,
        Neighbour.isParameterList]

/-- A declarator makes a function of its base when parameters stand next to its name. -/
theorem isFunction_apply (d : Declarator) (base : CType) :
    (d.apply base).isFunction = d.nearest?.elim base.isFunction Neighbour.isParameterList := by
  induction d generalizing base with
  | plain name wrapping => exact isFunction_wrap _ wrapping base
  | nested inner wrapping ih =>
    rw [apply, ih, isFunction_wrap, nearest?]
    cases inner.nearest? <;> rfl

theorem isFunction_eq (d : Declarator) :
    d.isFunction = (!d.isNested && d.nearest?.any Neighbour.isParameterList) := by
  cases d with
  | nested inner wrapping => rfl
  | plain name wrapping =>
    obtain ⟨pointers, own, suffixes⟩ := wrapping
    cases suffixes with
    | cons suffix others => cases suffix <;> rfl
    | nil => cases pointers <;> rfl

/-- A name is listed as a function when its type is one and no parentheses stand around it. -/
theorem isFunction_iff (d : Declarator) (t : TypeName) :
    d.isFunction = true ↔ (d.apply (.named t)).isFunction = true ∧ d.isNested = false := by
  rw [isFunction_eq, isFunction_apply]
  cases d.nearest? <;> simp [CType.isFunction, and_comm]

end Declarator

namespace DeclarationReader

variable {line : Nat} {tokens : List Token}

theorem identifier_of_declarators {list : List Declarator}
    (read : declarators line tokens = .ok list) : ∀ d ∈ list, d.identifier.isSome = true := by
  induction size : tokens.length using Nat.strong_induction_on generalizing tokens list with
  | _ size ih =>
    obtain ⟨first, others, -, rfl, named, done | ⟨rest, fewer, -, more⟩⟩ := declarators_eq_ok read
    · simpa [done] using named
    · exact List.forall_mem_cons.mpr ⟨named, ih rest.length (size ▸ fewer) more rfl⟩

theorem identifier_of_read {source : DeclarationSyntax}
    (read : DeclarationReader.read line tokens = .ok source) :
    ∀ d ∈ source.declarators, d.identifier.isSome = true := by
  obtain ⟨draft, base, list, -, -, rfl | declared, rfl⟩ := read_eq_ok read
  · exact List.forall_mem_nil _
  · exact identifier_of_declarators declared

end DeclarationReader

namespace DeclarationSyntax

/-- The type that a declarator of a statement gives its name. -/
def typeOf (source : DeclarationSyntax) (d : Declarator) : CType :=
  d.apply (source.base.typeNameOr source.givenName source.qualifiers)

/-- What is listed for a declarator: its name with its type, as a function where the name stands
outside parentheses and has the type of a function, and else as an object. -/
structure Lists (source : DeclarationSyntax) (d : Declarator) (item : Item) : Prop where
  declared : ∃ name, d.identifier = some name ∧ item.declared? = some (name, source.typeOf d)
  isFunction_iff : item.isFunction = true ↔
    (source.typeOf d).isFunction = true ∧ d.isNested = false
  isObject_iff : item.isObject = true ↔ item.isFunction = false

theorem isFunction_typeOf (source : DeclarationSyntax) (d : Declarator) :
    (source.typeOf d).isFunction = d.nearest?.any Neighbour.isParameterList := by
  rw [typeOf, Declarator.isFunction_apply]
  cases d.nearest? <;> rfl

theorem declared_lists {source : DeclarationSyntax} {d : Declarator}
    (named : d.identifier.isSome = true) (noTypedef : source.isTypedef = false)
    (noStatic : source.isStatic = false) :
    ∃ item, source.declared d = some item ∧ source.Lists d item := by
  obtain ⟨name, named⟩ := Option.isSome_iff_exists.mp named
  have agree : d.isFunction = true ↔ (source.typeOf d).isFunction = true ∧ d.isNested = false :=
    d.isFunction_iff _
  rw [declared, named, Option.bind_some, ← typeOf, noTypedef, noStatic]
  have object (other : d.isFunction = false ∨ (source.typeOf d).isFunction = false) :
      source.Lists d (.object name (source.typeOf d)) := by
    refine ⟨⟨name, named, rfl⟩, ?_, by simp [Item.isObject, Item.isFunction]⟩
    rw [← agree]
    rcases other with other | other
    · simp [other, Item.isFunction]
    · simpa [other, Item.isFunction] using agree
  cases isFunction : d.isFunction with
  | false => exact ⟨_, rfl, object (.inl isFunction)⟩
  | true =>
    cases type : source.typeOf d with
    | function result parameters variadic convention =>
      refine ⟨_, rfl, ⟨name, named, by rw [type]; rfl⟩, ?_, by simp [Item.isObject,
        Item.isFunction]⟩
      simpa [Item.isFunction, isFunction] using agree
    | named | pointer | array => exact ⟨_, rfl, type ▸ object (.inr (by rw [type]; rfl))⟩

theorem filterMap_declared {source : DeclarationSyntax} (noTypedef : source.isTypedef = false)
    (noStatic : source.isStatic = false) {list : List Declarator}
    (named : ∀ d ∈ list, d.identifier.isSome = true) :
    List.Forall₂ source.Lists list (list.filterMap source.declared) := by
  induction list with
  | nil => exact .nil
  | cons d others ih =>
    rw [List.forall_mem_cons] at named
    obtain ⟨item, declared, lists⟩ := declared_lists named.1 noTypedef noStatic
    rw [List.filterMap_cons_some declared]
    exact .cons lists (ih named.2)

end DeclarationSyntax

/-- A statement that can be read and is no type definition and not static lists each of its
declarators, in order, after the tags it defines. A declarator is listed as a function when its name
has the type of a function and stands outside parentheses, and else as an object; its name has the
type of a function when parameters are what stands next to it. -/
theorem declarations_kinds (header : String) {statement : Statement} {source : DeclarationSyntax}
    (native : statement.isForeign = false)
    (read : DeclarationReader.read statement.line statement.tokens = .ok source)
    (noTypedef : source.isTypedef = false) (noStatic : source.isStatic = false) :
    ∃ items, (statement.declarations header).1 =
        source.base.tags header source.givenName ++
          items.map (⟨·, some ⟨header, statement.line⟩⟩) ∧
      List.Forall₂ source.Lists source.declarators items ∧
      ∀ d ∈ source.declarators, (source.typeOf d).isFunction =
        d.nearest?.any Neighbour.isParameterList := by
  refine ⟨source.declarators.filterMap source.declared, ?_, ?_, ?_⟩
  · rw [Statement.declarations, if_neg (by simp [native]), read]
    rfl
  · exact DeclarationSyntax.filterMap_declared noTypedef noStatic
      (DeclarationReader.identifier_of_read read)
  · exact fun d _ => source.isFunction_typeOf d

def handler : CType :=
  .pointer (.function (.named ⟨.primitive, some "void", []⟩)
    [(none, .named ⟨.primitive, some "int", []⟩)] false none) []

def signal : CType :=
  .function handler [(some "sig", .named ⟨.primitive, some "int", []⟩), (some "func", handler)] false
    none

def signalTokens : List Token := tokenize "void (*signal(int sig, void (*func)(int)))(int);" 1

def handlerLexemes (inner : List Lexeme) : List Lexeme :=
  [word "void", mark "(", mark "*"] ++ inner ++ [mark ")", mark "(", word "int", mark ")"]

def signalLexemes : List Lexeme :=
  handlerLexemes ([word "signal", mark "(", word "int", word "sig", mark ","] ++
    handlerLexemes [word "func"] ++ [mark ")"])

theorem nameable_int : TypeName.Nameable ⟨.primitive, some "int", []⟩ :=
  ⟨by simp, "int", rfl, show "int" ∈ Primitive.names by decide⟩

theorem handler_written (inner : List Lexeme) : handler.WrittenAs inner (handlerLexemes inner) := by
  have void : TypeName.Nameable ⟨.primitive, some "void", []⟩ :=
    ⟨by simp, "void", rfl, show "void" ∈ Primitive.names by decide⟩
  refine CType.writtenAs_enclosed rfl (by simp) (by exact announces_none) ?_
  refine ⟨false, [[word "int"]], ⟨_, [], rfl, ⟨by simp, [], rfl, nameable_int, rfl⟩, rfl⟩, by decide,
    void, ?_⟩
  have words : TypeName.specifierWords ⟨.primitive, some "void", []⟩ = ["void"] := by decide
  simp [handlerLexemes, parameterList, listItems, words]

theorem signal_declared : CType.DeclaredAs (some "signal", signal) signalLexemes := by
  have plain : PlainWord "signal" ∧ PlainWord "sig" ∧ PlainWord "func" := by decide +kernel
  refine ⟨by simpa using plain.1, [], rfl, false,
    [[word "int", word "sig"], handlerLexemes [word "func"]], ?_, by decide, handler_written _⟩
  exact ⟨_, _, rfl, ⟨by simpa using plain.2.1, [], rfl, nameable_int, rfl⟩,
    _, _, rfl, ⟨by simpa using plain.2.2, [], rfl, handler_written _⟩, rfl⟩

theorem signalTokens_written : signalTokens.map Token.lexeme = signalLexemes ++ [mark ";"] := by
  cbv

theorem signal_native :
    ∀ token ∈ signalTokens.head?, token.text ∉ Statement.foreignWords := by
  have first : signalTokens.head? = some ⟨.ident, "void", 1⟩ := by cbv
  rw [first]
  decide

/-- A function that returns a handler is listed as an object with the type of a function. -/
theorem signal_listed :
    CType.DeclaredAs (some "signal", signal) signalLexemes ∧
      signalTokens.map Token.lexeme = signalLexemes ++ [mark ";"] ∧ signal.isFunction = true ∧
      (declarationsOf signalTokens "h.h").1 = [⟨.object "signal" signal, some ⟨"h.h", 1⟩⟩] := by
  have written : signalTokens.map Token.lexeme =
      ([] : List String).map word ++ signalLexemes ++ [mark ";"] := signalTokens_written
  obtain ⟨base, refers, same⟩ := declarationsOf_single signal_declared (by simp) signal_native
    written "h.h"
  refine ⟨signal_declared, signalTokens_written, rfl, ?_⟩
  have line : (signalTokens.head?.map Token.line).getD 0 = 1 := by cbv
  rw [same, line, refers.eq_name (by decide) rfl]
  rfl

def signalStatement : Statement := ⟨signalTokens.dropLast, 0⟩

def signalSource : DeclarationSyntax :=
  ⟨false, false, [], .name .primitive "void", [signal.surround (.plain (some "signal") {})]⟩

theorem signal_read :
    DeclarationReader.read signalStatement.line signalStatement.tokens = .ok signalSource := by
  have written : signalStatement.tokens.map Token.lexeme =
      ([] : List String).map word ++ signalLexemes := by cbv
  obtain ⟨base, refers, read⟩ :=
    DeclarationReader.read_single signal_declared (by simp) written signalStatement.line
  rw [refers.eq_name (by decide) rfl] at read
  exact read

theorem declarations_kinds_signal :
    signalStatement.isForeign = false ∧
      DeclarationReader.read signalStatement.line signalStatement.tokens = .ok signalSource ∧
      signalSource.isTypedef = false ∧ signalSource.isStatic = false ∧
      ∃ items, (signalStatement.declarations "h.h").1 =
          signalSource.base.tags "h.h" signalSource.givenName ++
            items.map (⟨·, some ⟨"h.h", signalStatement.line⟩⟩) ∧
        List.Forall₂ signalSource.Lists signalSource.declarators items ∧
        ∀ d ∈ signalSource.declarators, (signalSource.typeOf d).isFunction =
          d.nearest?.any Neighbour.isParameterList := by
  have native : signalStatement.isForeign = false := by cbv
  exact ⟨native, signal_read, rfl, rfl, declarations_kinds "h.h" native signal_read rfl rfl⟩

end CBindings
