import CBindings.Proofs.Declaration.Kind
import CBindings.Proofs.Declaration.Single

/-! Calling conventions of declared types. A convention that is found in the parentheses around a
declarator is taken for every function of the declarator that has none further out, so that types
are read as they are written where the functions of one declarator agree. -/

namespace CBindings

open Lexeme

namespace CType

mutual

/-- The type with parameters that are arrays or functions as pointers, at any depth. -/
def adjusted : CType → CType
  | named t => named t
  | pointer target qualifiers => pointer target.adjusted qualifiers
  | array element extent => array element.adjusted extent
  | function result parameters variadic convention =>
    function result.adjusted (adjustedEach parameters) variadic convention

def adjustedEach : List (Option String × CType) → List (Option String × CType)
  | [] => []
  | (name, type) :: rest => (name, type.adjusted.asParameter) :: adjustedEach rest

end

theorem adjustedEach_eq (parameters : List Parameter) :
    adjustedEach parameters = parameters.map fun p => (p.1, p.2.adjusted.asParameter) := by
  induction parameters with
  | nil => rfl
  | cons p rest ih => rw [adjustedEach, ih, List.map_cons]

mutual

/-- All functions that are written with one declarator have this convention. The functions of a
parameter are written with its own declarator. A function in an array has no place for one. -/
def Agrees : CType → Option String → Prop
  | named _, _ => True
  | pointer target _, common => target.Agrees common
  | array element _, common => element.convention = none ∧ element.Agrees common
  | function result parameters _ convention, common =>
    convention = common ∧ result.Agrees common ∧ EachAgrees parameters

def EachAgrees : List (Option String × CType) → Prop
  | [] => True
  | (_, type) :: rest => (∃ common, type.Agrees common) ∧ EachAgrees rest

end

theorem eachAgrees_iff {parameters : List Parameter} :
    EachAgrees parameters ↔ ∀ p ∈ parameters, ∃ common, p.2.Agrees common := by
  induction parameters with
  | nil => simp [EachAgrees]
  | cons p rest ih => rw [EachAgrees, ih, List.forall_mem_cons]

def Common (common found : Option String) : Prop := found = none ∨ found = common

theorem Common.swap {common first second : Option String} (left : Common common first)
    (right : Common common second) : (first <|> second) = (second <|> first) := by
  rcases left with rfl | rfl <;> rcases right with rfl | rfl <;> simp

theorem Common.or {common first second : Option String} (left : Common common first)
    (right : Common common second) : Common common (first <|> second) := by
  rcases left with rfl | rfl
  · simpa using right
  · rcases right with rfl | rfl <;> exact .inr (by simp)

theorem Common.or_eq {common first : Option String} (left : Common common first) :
    (common <|> first) = common := by
  rcases left with rfl | rfl <;> simp

theorem Agrees.convention {type : CType} {common : Option String} (agrees : type.Agrees common) :
    Common common type.convention := by
  cases type with
  | function => exact .inr agrees.1
  | named | pointer | array => exact .inl rfl

theorem Agrees.enclosing {type : CType} {common : Option String} (agrees : type.Agrees common) :
    Common common type.enclosing := by
  induction type using CType.induction with
  | named => exact .inl rfl
  | pointer target qualifiers ih =>
    have agrees : target.Agrees common := agrees
    rw [CType.enclosing]
    split
    · exact agrees.convention
    · exact ih agrees
  | array element extent ih => exact ih agrees.2
  | function result parameters variadic convention ih _ => exact ih agrees.2.1

theorem convention_of_hasSuffix {type : CType} (noSuffix : type.hasSuffix = false) :
    type.convention = none := by
  cases type with
  | named | pointer | array => rfl
  | function => cases noSuffix

/-- With one convention for all functions, this is what every function is read with. -/
theorem asRead_of_agrees (type : CType) {common : Option String} (agrees : type.Agrees common)
    {inner : Option String} (inside : Common common inner) :
    type.asRead ((type.convention <|> type.enclosing) <|> inner) = type.adjusted := by
  induction type using CType.induction generalizing common inner with
  | named t => rfl
  | pointer target qualifiers ih =>
    have agrees : target.Agrees common := agrees
    have next := ih agrees inside
    cases suffixed : target.hasSuffix with
    | true =>
      have order : (target.enclosing <|> (target.convention <|> inner)) =
          ((target.convention <|> target.enclosing) <|> inner) := by
        rw [agrees.convention.swap agrees.enclosing]
        simp [Option.or_assoc]
      rw [adjusted, ← next, ← order, CType.enclosing, asRead, if_pos suffixed, if_pos suffixed]
      rfl
    | false =>
      rw [convention_of_hasSuffix suffixed] at next
      simpa [asRead, adjusted, CType.enclosing, CType.convention, suffixed] using next
  | array element extent ih =>
    have next := ih agrees.2 inside
    rw [agrees.1] at next
    simpa [asRead, adjusted, CType.enclosing, CType.convention] using next
  | function result parameters variadic convention ih ihEach =>
    obtain ⟨rfl, agrees, each⟩ := agrees
    have same : ((convention <|> result.enclosing) <|> inner) = convention := by
      rw [agrees.enclosing.or_eq, inside.or_eq]
    have next : result.asRead ((result.convention <|> result.enclosing) <|> convention) =
        result.adjusted := ih agrees (.inr rfl)
    have found : ((result.convention <|> result.enclosing) <|> convention) = convention := by
      have outside := agrees.convention.or agrees.enclosing
      rw [outside.swap (.inr rfl), outside.or_eq]
    have heardEach : readEach parameters = adjustedEach parameters := by
      rw [readEach_eq, adjustedEach_eq]
      refine List.map_congr_left fun p isParameter => ?_
      obtain ⟨own, agrees⟩ := eachAgrees_iff.mp each p isParameter
      have read := ihEach p isParameter agrees (.inl rfl)
      have heard : p.2.heard = p.2.adjusted := by simpa [CType.heard] using read
      rw [heard]
    rw [found] at next
    rw [adjusted, ← next, ← heardEach, CType.convention, CType.enclosing, same]
    rfl

/-- A type is read as it is written where the functions of one declarator agree. -/
theorem heard_of_agrees (type : CType) {common : Option String} (agrees : type.Agrees common) :
    type.heard = type.adjusted := by
  have read := asRead_of_agrees type agrees (.inl rfl)
  simpa [heard] using read

end CType

namespace DeclarationSyntax

variable {header name : String} {line : Nat} {t : TypeName} {base : Specified} {d : Declarator}
  {type : CType}

theorem typeNameOr_of_refers (refers : DeclarationReader.Refers t base) (given : Option String) :
    base.typeNameOr given t.qualifiers = .named t := by
  obtain ⟨kind, known, qualifiers⟩ := t
  obtain ⟨name, rfl, rfl | ⟨rfl | rfl, line, rfl⟩⟩ := refers <;> rfl

theorem declared?_of_mem_tags (refers : DeclarationReader.Refers t base) (given : Option String)
    {tag : Declaration} (member : tag ∈ base.tags header given) : tag.item.declared? = none := by
  obtain ⟨name, -, rfl | ⟨-, line, rfl⟩⟩ := refers
  · cases member
  · rw [Specified.tags, Specified.tag] at member
    obtain rfl := List.mem_singleton.mp member
    dsimp only
    split <;> rfl

theorem declared_single (refers : DeclarationReader.Refers t base)
    (named : d.identifier = some name) (apply : d.apply (.named t) = type) (isTypedef : Bool) :
    (declarations header line ⟨isTypedef, false, t.qualifiers, base, [d]⟩).filterMap
      (fun listed => listed.item.declared?) = [(name, type)] := by
  let source : DeclarationSyntax := ⟨isTypedef, false, t.qualifiers, base, [d]⟩
  have typeOf : source.typeOf d = type := by
    rw [typeOf, typeNameOr_of_refers refers, apply]
  obtain ⟨item, declares, declared⟩ :
      ∃ item, source.declared d = some item ∧ item.declared? = some (name, type) := by
    cases isTypedef with
    | true =>
      refine ⟨.typedef name (source.typeOf d), ?_, by rw [typeOf]; rfl⟩
      simp [declared, named, source, DeclarationSyntax.typeOf]
    | false =>
      have isNamed : d.identifier.isSome = true := by simp [named]
      obtain ⟨item, declares, lists⟩ : ∃ item, source.declared d = some item ∧
          source.Lists d item := declared_lists isNamed rfl rfl
      obtain ⟨own, ownName, declared⟩ := lists.declared
      obtain rfl : name = own := Option.some.inj (named.symm.trans ownName)
      exact ⟨item, declares, typeOf ▸ declared⟩
  have tags : (base.tags header source.givenName).filterMap (fun listed => listed.item.declared?) =
      [] := by
    rw [List.filterMap_eq_nil_iff]
    exact fun tag member => declared?_of_mem_tags refers _ member
  change (base.tags header source.givenName ++ ([d].filterMap source.declared).map _).filterMap _ = _
  rw [List.filterMap_append, tags, List.filterMap_cons_some declares]
  simp [declared]

end DeclarationSyntax

/-- A name that is declared with a type, alone in its statement, is listed with the type as it is
heard. -/
theorem declared_heard {type : CType} {name : String} {out : List Lexeme}
    (declared : CType.DeclaredAs (some name, type) out) {words : List String}
    (known : ∀ text ∈ words, text ∈ DeclarationReader.leadingWords) {tokens : List Token}
    (native : ∀ token ∈ tokens.head?, token.text ∉ Statement.foreignWords)
    (written : tokens.map Token.lexeme = words.map word ++ out ++ [mark ";"]) (header : String) :
    (declarationsOf tokens header).1.filterMap (fun listed => listed.item.declared?) =
      [(name, type.heard)] := by
  obtain ⟨base, refers, same⟩ := declarationsOf_single declared known native written header
  rw [same]
  exact DeclarationSyntax.declared_single refers (CType.identifier_surround type _)
    (type.apply_surround_plain (some name)) _

/-- A name that is declared with a type, alone in its statement, gets this type but for calling
conventions: each function is read with the convention that is found from its parentheses inwards.
The type is read as it is written where the functions of each declarator have one convention. -/
theorem conventions_heard (header : String) {type : CType} {name : String} {out : List Lexeme}
    (declared : CType.DeclaredAs (some name, type) out) {words : List String}
    (known : ∀ text ∈ words, text ∈ DeclarationReader.leadingWords) {tokens : List Token}
    (native : ∀ token ∈ tokens.head?, token.text ∉ Statement.foreignWords)
    (written : tokens.map Token.lexeme = words.map word ++ out ++ [mark ";"]) :
    (declarationsOf tokens header).1.filterMap (fun listed => listed.item.declared?) =
        [(name, type.heard)] ∧
      ((∃ common, type.Agrees common) → type.heard = type.adjusted) :=
  ⟨declared_heard declared known native written header, fun ⟨_, agrees⟩ =>
    type.heard_of_agrees agrees⟩

def selector : CType :=
  .pointer (.function (.pointer (.function (.named ⟨.primitive, some "int", []⟩)
    [(none, .named ⟨.primitive, some "char", []⟩)] false (some "stdcall")) [])
    [(none, .named ⟨.primitive, some "int", []⟩)] false none) []

def selectorTokens : List Token := tokenize "typedef int (__stdcall *(*SELECT)(int))(char);" 1

def selectorLexemes : List Lexeme :=
  [word "int", mark "(", word "__stdcall", mark "*", mark "(", mark "*", word "SELECT", mark ")",
    mark "(", word "int", mark ")", mark ")", mark "(", word "char", mark ")"]

theorem selector_declared : CType.DeclaredAs (some "SELECT", selector) selectorLexemes := by
  have plain : PlainWord "SELECT" := by decide +kernel
  have int : TypeName.Nameable ⟨.primitive, some "int", []⟩ :=
    ⟨by simp, "int", rfl, show "int" ∈ Primitive.names by decide⟩
  have char : TypeName.Nameable ⟨.primitive, some "char", []⟩ :=
    ⟨by simp, "char", rfl, show "char" ∈ Primitive.names by decide⟩
  refine ⟨by simpa using plain, [], rfl, ?_⟩
  refine CType.writtenAs_enclosed rfl (by simp) (by exact announces_none) ?_
  refine ⟨false, [[word "int"]], ⟨_, [], rfl, ⟨by simp, [], rfl, int, rfl⟩, rfl⟩, by decide, ?_⟩
  refine CType.writtenAs_enclosed rfl (by simp) (by exact announces_keyword "__stdcall" rfl) ?_
  exact ⟨false, [[word "char"]], ⟨_, [], rfl, ⟨by simp, [], rfl, char, rfl⟩, rfl⟩, by decide, int,
    rfl⟩

theorem selectorTokens_written : selectorTokens.map Token.lexeme =
    ["typedef"].map word ++ selectorLexemes ++ [mark ";"] := by
  cbv

theorem selectorTokens_native :
    ∀ token ∈ selectorTokens.head?, token.text ∉ Statement.foreignWords := by
  have first : selectorTokens.head? = some ⟨.ident, "typedef", 1⟩ := by cbv
  rw [first]
  decide

/-- Both functions are read with the convention of one of them. -/
theorem conventions_mixed :
    CType.DeclaredAs (some "SELECT", selector) selectorLexemes ∧
      selectorTokens.map Token.lexeme = ["typedef"].map word ++ selectorLexemes ++ [mark ";"] ∧
      selector.adjusted = selector ∧
      (declarationsOf selectorTokens "h.h").1.filterMap (fun listed => listed.item.declared?) ≠
        [("SELECT", selector)] := by
  refine ⟨selector_declared, selectorTokens_written, by decide, ?_⟩
  rw [declared_heard selector_declared (by decide) selectorTokens_native selectorTokens_written]
  decide

theorem conventions_heard_selector :
    CType.DeclaredAs (some "SELECT", selector) selectorLexemes ∧
      (∀ text ∈ ["typedef"], text ∈ DeclarationReader.leadingWords) ∧
      (∀ token ∈ selectorTokens.head?, token.text ∉ Statement.foreignWords) ∧
      selectorTokens.map Token.lexeme = ["typedef"].map word ++ selectorLexemes ++ [mark ";"] ∧
      (declarationsOf selectorTokens "h.h").1.filterMap (fun listed => listed.item.declared?) =
        [("SELECT", selector.heard)] ∧
      ((∃ common, selector.Agrees common) → selector.heard = selector.adjusted) := by
  exact ⟨selector_declared, by decide, selectorTokens_native, selectorTokens_written,
    conventions_heard "h.h" selector_declared (by decide) selectorTokens_native
      selectorTokens_written⟩

end CBindings
