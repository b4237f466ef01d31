import CBindings.Proofs.Declaration.Reading

/-! Types whose functions have calling conventions. The convention of a function is announced right
before the declared name, or first in the parentheses around a pointer to the function. -/

namespace CBindings

open Lexeme DeclarationReader

def Announces (convention : Option String) (announced : List Lexeme) : Prop :=
  match convention with
  | none => announced = []
  | some own => ∃ keyword, conventions.lookup keyword = some own ∧ announced = [word keyword]

theorem announces_none : Announces none [] := rfl

theorem announces_keyword {own : String} (keyword : String)
    (known : conventions.lookup keyword = some own) : Announces (some own) [word keyword] :=
  ⟨keyword, known, rfl⟩

namespace CType

def convention : CType → Option String
  | function _ _ _ convention => convention
  | named _ | pointer .. | array .. => none

mutual

/-- `type.WrittenAs inner out` when `out` declares that what is declared by `inner` has this type.
A list of no parameters may be empty or `void`. -/
def WrittenAs : CType → List Lexeme → List Lexeme → Prop
  | named t, inner, out =>
    t.Nameable ∧ out = (t.qualifiers ++ t.specifierWords).map word ++ inner
  | pointer target qualifiers, inner, out =>
    (∀ q ∈ qualifiers, q ∈ qualifierWords) ∧
      if target.hasSuffix then
        ∃ announced, Announces target.convention announced ∧
          WrittenAs target
            (mark "(" :: (announced ++ (mark "*" :: qualifiers.map word ++ inner)) ++ [mark ")"]) out
      else WrittenAs target (mark "*" :: qualifiers.map word ++ inner) out
  | array element extent, inner, out =>
    ∃ bound, extent.SpelledBy bound ∧
      WrittenAs element (inner ++ (mark "[" :: bound ++ [mark "]"])) out
  | function result parameters variadic _, inner, out =>
    ∃ explicit items, EachWrittenAs parameters items ∧
      (items = [[word "void"]] → variadic = true) ∧
      WrittenAs result
        (inner ++ (mark "(" :: parameterList explicit items variadic ++ [mark ")"])) out

def EachWrittenAs : List (Option String × CType) → List (List Lexeme) → Prop
  | [], items => items = []
  | (name, type) :: rest, items =>
    ∃ item others, items = item :: others ∧
      ((∀ n ∈ name, PlainWord n) ∧ ∃ announced, Announces type.convention announced ∧
        WrittenAs type (announced ++ name.toList.map word) item) ∧
      EachWrittenAs rest others

end

def DeclaredAs (p : Parameter) (item : List Lexeme) : Prop :=
  (∀ n ∈ p.1, PlainWord n) ∧ ∃ announced, Announces p.2.convention announced ∧
    p.2.WrittenAs (announced ++ p.1.toList.map word) item

theorem eachWrittenAs_iff {parameters : List Parameter} {items : List (List Lexeme)} :
    EachWrittenAs parameters items ↔ List.Forall₂ DeclaredAs parameters items := by
  induction parameters generalizing items with
  | nil => simp [EachWrittenAs]
  | cons p rest ih =>
    rw [EachWrittenAs, List.forall₂_cons_left_iff]
    simp only [ih, DeclaredAs]
    constructor
    · rintro ⟨item, others, rfl, declared, written⟩
      exact ⟨item, others, declared, written, rfl⟩
    · rintro ⟨item, others, declared, written, rfl⟩
      exact ⟨item, others, rfl, declared, written⟩

theorem writtenAs_pointer {target : CType} (bare : target.hasSuffix = false)
    {qualifiers : List String} (known : ∀ q ∈ qualifiers, q ∈ qualifierWords)
    {inner out : List Lexeme}
    (written : target.WrittenAs (mark "*" :: qualifiers.map word ++ inner) out) :
    (pointer target qualifiers).WrittenAs inner out := by
  refine ⟨known, ?_⟩
  rw [bare]
  exact written

theorem writtenAs_enclosed {target : CType} (suffixed : target.hasSuffix = true)
    {qualifiers : List String} (known : ∀ q ∈ qualifiers, q ∈ qualifierWords)
    {announced : List Lexeme} (announces : Announces target.convention announced)
    {inner out : List Lexeme}
    (written : target.WrittenAs
      (mark "(" :: (announced ++ (mark "*" :: qualifiers.map word ++ inner)) ++ [mark ")"]) out) :
    (pointer target qualifiers).WrittenAs inner out := by
  refine ⟨known, ?_⟩
  rw [suffixed]
  exact ⟨announced, announces, written⟩

def enclosing : CType → Option String
  | named _ => none
  | pointer target _ => if target.hasSuffix then target.convention else target.enclosing
  | array element _ => element.enclosing
  | function result _ _ _ => result.enclosing

mutual

/-- The type as it is read: every function has the convention that is found from its parentheses
inwards. `given` is what is found inside. -/
def asRead : CType → Option String → CType
  | named t, _ => named t
  | pointer target qualifiers, given =>
    pointer (asRead target (if target.hasSuffix then target.enclosing <|> given else given))
      qualifiers
  | array element extent, given => array (asRead element given) extent
  | function result parameters variadic _, given =>
    function (asRead result given) (readEach parameters) variadic given

def readEach : List (Option String × CType) → List (Option String × CType)
  | [] => []
  | (name, type) :: rest =>
    (name, (asRead type (type.convention <|> type.enclosing)).asParameter) :: readEach rest

end

/-- The type that is read for a name which is declared with this type. -/
def heard (type : CType) : CType := type.asRead (type.convention <|> type.enclosing)

theorem readEach_eq (parameters : List Parameter) :
    readEach parameters = parameters.map fun p => (p.1, p.2.heard.asParameter) := by
  induction parameters with
  | nil => rfl
  | cons p rest ih => rw [readEach, ih, List.map_cons, heard]

end CType

namespace Declarator

def addPointer (qualifiers : List String) : Declarator → Declarator
  | plain name wrapping => plain name { wrapping with pointers := qualifiers :: wrapping.pointers }
  | nested inner wrapping =>
    nested inner { wrapping with pointers := qualifiers :: wrapping.pointers }

def addSuffix (suffix : Suffix) : Declarator → Declarator
  | plain name wrapping => plain name { wrapping with suffixes := wrapping.suffixes ++ [suffix] }
  | nested inner wrapping =>
    nested inner { wrapping with suffixes := wrapping.suffixes ++ [suffix] }

def announce (convention : Option String) : Declarator → Declarator
  | plain name wrapping =>
    plain name { wrapping with convention := wrapping.convention <|> convention }
  | nested inner wrapping =>
    nested inner { wrapping with convention := wrapping.convention <|> convention }

def pointers : Declarator → List (List String)
  | plain _ wrapping | nested _ wrapping => wrapping.pointers

section

variable (d : Declarator)

@[simp] theorem identifier_addPointer (qualifiers : List String) :
    (d.addPointer qualifiers).identifier = d.identifier := by
  cases d <;> rfl

@[simp] theorem identifier_addSuffix (suffix : Suffix) :
    (d.addSuffix suffix).identifier = d.identifier := by
  cases d <;> rfl

@[simp] theorem identifier_announce (convention : Option String) :
    (d.announce convention).identifier = d.identifier := by
  cases d <;> rfl

@[simp] theorem pointers_addSuffix (suffix : Suffix) :
    (d.addSuffix suffix).pointers = d.pointers := by
  cases d <;> rfl

theorem announce_none : d.announce none = d := by
  cases d <;> simp [announce]

theorem announce_addPointer (qualifiers : List String) (convention : Option String) :
    (d.addPointer qualifiers).announce convention =
      (d.announce convention).addPointer qualifiers := by
  cases d <;> rfl

theorem announce_addSuffix (suffix : Suffix) (convention : Option String) :
    (d.addSuffix suffix).announce convention = (d.announce convention).addSuffix suffix := by
  cases d <;> rfl

@[simp] theorem convention_addPointer (qualifiers : List String) :
    (d.addPointer qualifiers).convention = d.convention := by
  cases d <;> rfl

@[simp] theorem convention_addSuffix (suffix : Suffix) :
    (d.addSuffix suffix).convention = d.convention := by
  cases d <;> rfl

@[simp] theorem pointers_announce (convention : Option String) :
    (d.announce convention).pointers = d.pointers := by
  cases d <;> rfl

theorem apply_addPointer (qualifiers : List String) (type : CType) :
    (d.addPointer qualifiers).apply type = d.apply (.pointer type qualifiers) := by
  cases d <;> rfl

theorem apply_addSuffix {d : Declarator} (bare : d.pointers = []) (suffix : Suffix) (type : CType) :
    (d.addSuffix suffix).apply type = d.apply (suffix.apply d.convention type) := by
  cases d <;>
  · rename_i wrapping
    have bare : wrapping.pointers = [] := bare
    simp [addSuffix, apply, wrap, convention, bare]

end

end Declarator

namespace CType

def base : CType → TypeName
  | named t => t
  | pointer target _ => target.base
  | array element _ => element.base
  | function result _ _ _ => result.base

def surround : CType → Declarator → Declarator
  | named _, d => d
  | pointer target qualifiers, d =>
    target.surround
      (if target.hasSuffix then .nested ((d.addPointer qualifiers).announce target.convention) {}
        else d.addPointer qualifiers)
  | array element extent, d => element.surround (d.addSuffix (.array extent))
  | function result parameters variadic _, d =>
    result.surround (d.addSuffix (.function (readEach parameters) variadic))

theorem identifier_surround (type : CType) (d : Declarator) :
    (type.surround d).identifier = d.identifier := by
  induction type using CType.induction generalizing d with
  | named t => rfl
  | pointer target qualifiers ih =>
    rw [surround, ih]
    split <;> simp [Declarator.identifier]
  | array element extent ih => simp [surround, ih]
  | function result parameters variadic convention ih _ => simp [surround, ih]

/-- What a declarator makes of the base of a type: the type as it is read. -/
theorem apply_surround (type : CType) (d : Declarator)
    (bare : type.hasSuffix = true → d.pointers = []) :
    (type.surround d).apply (.named type.base) =
      (d.announce type.enclosing).apply (type.asRead (d.announce type.enclosing).convention) := by
  induction type using CType.induction generalizing d with
  | named t => rw [surround, base, enclosing, Declarator.announce_none, asRead]
  | pointer target qualifiers ih =>
    rw [surround, base, enclosing, asRead]
    by_cases suffixed : target.hasSuffix
    · rw [if_pos suffixed, if_pos suffixed, if_pos suffixed, ih _ fun _ => rfl]
      -- the parentheses themselves add nothing to the type
      change ((d.addPointer qualifiers).announce target.convention).apply (target.asRead
        (target.enclosing <|> ((d.addPointer qualifiers).announce target.convention).convention)) = _
      rw [Declarator.announce_addPointer, Declarator.apply_addPointer,
        Declarator.convention_addPointer]
    · rw [if_neg suffixed, if_neg suffixed, if_neg suffixed, ih _ fun has => absurd has suffixed,
        Declarator.announce_addPointer, Declarator.apply_addPointer,
        Declarator.convention_addPointer]
  | array element extent ih =>
    have bare := bare rfl
    rw [surround, base, enclosing, asRead, ih _ fun _ => by simpa using bare,
      Declarator.announce_addSuffix, Declarator.apply_addSuffix (by simpa using bare),
      Declarator.convention_addSuffix]
    rfl
  | function result parameters variadic convention ih _ =>
    have bare := bare rfl
    rw [surround, base, enclosing, asRead, ih _ fun _ => by simpa using bare,
      Declarator.announce_addSuffix, Declarator.apply_addSuffix (by simpa using bare),
      Declarator.convention_addSuffix]
    rfl

theorem apply_surround_plain (type : CType) (name : Option String) :
    (type.surround (.plain name { convention := type.convention })).apply (.named type.base) =
      type.heard := by
  rw [apply_surround type _ fun _ => rfl]
  rfl

end CType

/-! ### What is written is read -/

theorem SpelledSuffixes.snoc {list : List Suffix} {lexemes more : List Lexeme}
    (spelled : SpelledSuffixes list lexemes) {suffix : Suffix} (next : suffix.SpelledBy more) :
    SpelledSuffixes (list ++ [suffix]) (lexemes ++ more) := by
  induction spelled with
  | nil => simpa using SpelledSuffixes.cons next .nil
  | cons first _ ih =>
    rw [List.cons_append, List.append_assoc]
    exact .cons first ih

theorem Opening.announce {pointers : List (List String)} {own : Option String}
    {lexemes : List Lexeme} (opening : Opening pointers own lexemes) {convention : Option String}
    {announced : List Lexeme} (announces : Announces convention announced) :
    Opening pointers (own <|> convention) (announced ++ lexemes) := by
  cases convention with
  | none =>
    obtain rfl : announced = [] := announces
    simpa using opening
  | some named =>
    obtain ⟨keyword, known, rfl⟩ := announces
    exact .keyword known opening

namespace Declarator.Spelled

variable {d : Declarator} {lexemes : List Lexeme}

theorem addPointer (spelled : d.Spelled lexemes) {qualifiers : List String}
    (known : ∀ q ∈ qualifiers, q ∈ qualifierWords) :
    (d.addPointer qualifiers).Spelled (mark "*" :: qualifiers.map word ++ lexemes) := by
  cases spelled with
  | plain opening named after =>
    rw [← List.append_assoc]
    exact .plain (.pointer known opening) named after
  | nested opening inside starts after =>
    rw [← List.append_assoc]
    exact .nested (.pointer known opening) inside starts after

theorem announce (spelled : d.Spelled lexemes) {convention : Option String}
    {announced : List Lexeme} (announces : Announces convention announced) :
    (d.announce convention).Spelled (announced ++ lexemes) := by
  cases spelled with
  | plain opening named after =>
    rw [← List.append_assoc]
    exact .plain (opening.announce announces) named after
  | nested opening inside starts after =>
    rw [← List.append_assoc]
    exact .nested (opening.announce announces) inside starts after

theorem addSuffix (spelled : d.Spelled lexemes) {suffix : Suffix} {more : List Lexeme}
    (next : suffix.SpelledBy more) : (d.addSuffix suffix).Spelled (lexemes ++ more) := by
  cases spelled with
  | plain opening named after =>
    rw [List.append_assoc, List.append_assoc]
    exact .plain opening named (after.snoc next)
  | nested opening inside starts after =>
    rw [List.append_assoc, List.append_assoc]
    exact .nested opening inside starts (after.snoc next)

theorem enclose (spelled : d.Spelled lexemes)
    (starts : ∃ first ∈ lexemes.head?, first.startsDeclarator = true) :
    (Declarator.nested d {}).Spelled (mark "(" :: lexemes ++ [mark ")"]) := by
  have whole : (Declarator.nested d ⟨[], none, []⟩).Spelled
      ([] ++ (mark "(" :: lexemes ++ [mark ")"] ++ [])) := .nested .nil spelled starts .nil
  simpa using whole

end Declarator.Spelled

theorem announces_grouped {convention : Option String} {announced : List Lexeme}
    (announces : Announces convention announced) (commas : Bool) : Grouped commas announced := by
  cases convention with
  | none =>
    obtain rfl : announced = [] := announces
    exact .nil
  | some own =>
    obtain ⟨keyword, known, rfl⟩ := announces
    have listed : keyword ∈ conventions.map Prod.fst := List.mem_map_of_mem (mem_of_lookup known)
    exact .atom (keyword_isAtom (List.mem_append_right _ listed) commas) .nil

/-- A declarator in parentheses starts with what announces a convention, or else with its star. -/
theorem announces_starts {convention : Option String} {announced : List Lexeme}
    (announces : Announces convention announced) (rest : List Lexeme) :
    ∃ first ∈ (announced ++ mark "*" :: rest).head?, first.startsDeclarator = true := by
  cases convention with
  | none =>
    obtain rfl : announced = [] := announces
    exact ⟨mark "*", rfl, by decide⟩
  | some own =>
    obtain ⟨keyword, known, rfl⟩ := announces
    refine ⟨word keyword, rfl, ?_⟩
    simp [Lexeme.startsDeclarator, word, (EndsType.of_convention known).2]

/-- The first word of a type announces no convention and is no storage word. -/
theorem TypeName.Nameable.starts {t : TypeName} (nameable : t.Nameable) :
    ∃ text others, t.qualifiers ++ t.specifierWords = text :: others ∧
      isConvention text = false ∧ text ∉ storageWords := by
  have known : ∀ text ∈ qualifierWords ++ Primitive.keywords ++ ["struct", "union", "enum"],
      isConvention text = false ∧ text ∉ storageWords := by decide
  obtain ⟨kind, name, qualifiers⟩ := t
  obtain ⟨qualified, name, rfl, plain⟩ := nameable
  cases qualifiers with
  | cons q others =>
    exact ⟨q, _, rfl, known q (by simp [qualified q List.mem_cons_self])⟩
  | nil =>
    rw [List.nil_append]
    cases kind with
    | primitive =>
      obtain ⟨some, -⟩ := canonical_primitiveWords name plain
      obtain ⟨text, others, same⟩ := List.exists_cons_of_ne_nil some
      have keyword := primitiveWords_keywords name plain text (by simp [same])
      exact ⟨text, others, same, known text (by simp [keyword])⟩
    | typedef => exact ⟨name, [], rfl, plain.convention, plain.storage⟩
    | struct | union | enum => exact ⟨_, _, rfl, known _ (by simp [NameKind.word])⟩

namespace CType

theorem declaredAs_of_mem {parameters : List Parameter} {items : List (List Lexeme)}
    (written : List.Forall₂ DeclaredAs parameters items) {item : List Lexeme}
    (member : item ∈ items) : ∃ p ∈ parameters, DeclaredAs p item := by
  induction written with
  | nil => cases member
  | @cons p first parameters items declared _ ih =>
    rcases List.mem_cons.mp member with rfl | later
    · exact ⟨p, List.mem_cons_self, declared⟩
    · obtain ⟨p, isParameter, declared⟩ := ih later
      exact ⟨p, List.mem_cons_of_mem _ isParameter, declared⟩

theorem declared_grouped {name : Option String} (plain : ∀ n ∈ name, PlainWord n)
    {convention : Option String} {announced : List Lexeme}
    (announces : Announces convention announced) (commas : Bool) :
    Grouped commas (announced ++ name.toList.map word) := by
  refine (announces_grouped announces commas).append (.of_atoms ?_)
  simp only [List.forall_mem_map, Option.mem_toList]
  exact fun n isName => (plain n isName).isAtom commas

/-- What is written of a type is grouped when what it is written around is. -/
theorem grouped_of_written (type : CType) {inner out : List Lexeme}
    (written : type.WrittenAs inner out) (commas : Bool) (grouped : Grouped commas inner) :
    Grouped commas out := by
  induction type using CType.induction generalizing commas inner out with
  | named t =>
    obtain ⟨nameable, rfl⟩ := written
    exact (nameable.grouped commas).append grouped
  | pointer target qualifiers ih =>
    obtain ⟨known, written⟩ := written
    have starred (commas : Bool) (grouped : Grouped commas inner) :
        Grouped commas (mark "*" :: qualifiers.map word ++ inner) :=
      .atom (mark_isAtom (by decide) (by simp))
        ((Grouped.of_atoms (qualifiers_isAtom known commas)).append grouped)
    split at written
    · obtain ⟨announced, announces, written⟩ := written
      exact ih written commas
        (.inParens ((announces_grouped announces true).append (starred true grouped.allow)))
    · exact ih written commas (starred commas grouped)
  | array element extent ih =>
    obtain ⟨bound, spelled, written⟩ := written
    exact ih written commas (grouped.append (.inBrackets spelled.grouped))
  | function result parameters variadic convention ih ihEach =>
    obtain ⟨explicit, items, each, -, written⟩ := written
    refine ih written commas (grouped.append (.inParens ?_))
    refine parameterList_grouped (fun item member => ?_) explicit variadic
    obtain ⟨p, isParameter, plain, announced, announces, written⟩ :=
      declaredAs_of_mem (eachWrittenAs_iff.mp each) member
    exact ihEach p isParameter written false (declared_grouped plain announces false)

/-- What is written of a type is its base and what spells its declarator. -/
def Spells (type : CType) : Prop :=
  ∀ {inner out : List Lexeme} {d : Declarator}, type.WrittenAs inner out → d.Spelled inner →
    type.base.Nameable ∧ ∃ back,
      out = (type.base.qualifiers ++ type.base.specifierWords).map word ++ back ∧
        (type.surround d).Spelled back

theorem spelledItem {p : Parameter} {item : List Lexeme} (spells : p.2.Spells)
    (declared : DeclaredAs p item) : SpelledItem (p.1, p.2.heard.asParameter) item := by
  obtain ⟨plain, announced, announces, written⟩ := declared
  have start : (Declarator.plain p.1 {}).Spelled (p.1.toList.map word) := by
    simpa using Declarator.Spelled.plain .nil plain .nil
  obtain ⟨nameable, back, rfl, spelled⟩ := spells written (start.announce announces)
  refine ⟨grouped_of_written p.2 written false (declared_grouped plain announces false), ?_,
    fun tokens spelledTokens => ?_⟩
  · obtain ⟨text, others, same, noConvention, -⟩ := nameable.starts
    exact ⟨text, others.map word ++ back, by rw [same]; rfl, noConvention⟩
  · rw [parameter_read nameable spelled spelledTokens, identifier_surround,
      Declarator.identifier_announce]
    exact congrArg (fun type => Except.ok (p.1, CType.asParameter type))
      (apply_surround_plain p.2 p.1)

theorem spelledItems {parameters : List Parameter} (spells : ∀ p ∈ parameters, p.2.Spells)
    {items : List (List Lexeme)} (written : List.Forall₂ DeclaredAs parameters items) :
    List.Forall₂ SpelledItem (readEach parameters) items := by
  induction written with
  | nil => exact .nil
  | cons declared _ ih =>
    rw [List.forall_mem_cons] at spells
    exact .cons (spelledItem spells.1 declared) (ih spells.2)

theorem spells (type : CType) : type.Spells := by
  induction type using CType.induction with
  | named t =>
    intro inner out d written spelled
    obtain ⟨nameable, rfl⟩ := written
    exact ⟨nameable, inner, rfl, spelled⟩
  | pointer target qualifiers ih =>
    intro inner out d written spelled
    obtain ⟨known, written⟩ := written
    rw [surround]
    split at written
    · next suffixed =>
      obtain ⟨announced, announces, written⟩ := written
      rw [if_pos suffixed]
      exact ih written (.enclose ((spelled.addPointer known).announce announces)
        (announces_starts announces _))
    · next noSuffix =>
      rw [if_neg noSuffix]
      exact ih written (spelled.addPointer known)
  | array element extent ih =>
    intro inner out d written spelled
    obtain ⟨bound, spelledBound, written⟩ := written
    exact ih written (spelled.addSuffix ⟨bound, spelledBound, rfl⟩)
  | function result parameters variadic convention ih ihEach =>
    intro inner out d written spelled
    obtain ⟨explicit, items, each, notVoid, written⟩ := written
    have items := spelledItems ihEach (eachWrittenAs_iff.mp each)
    exact ih written (spelled.addSuffix ⟨_, .of_items items notVoid explicit, rfl⟩)

end CType

end CBindings
