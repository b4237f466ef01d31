import CBindings.Proofs.Declaration.Nesting
import CBindings.Proofs.Declaration.Writing
import CBindings.Proofs.Integer.Decimal

/-! Brackets that close where they should. What is cut at a bracket, a comma or a semicolon is cut
only outside such groups. -/

namespace CBindings

open Lexeme

def bracketPairs : List (String × String) := [("(", ")"), ("[", "]")]

def cuttingMarks : List String := ["(", ")", "[", "]", "\x7b", "\x7d", ";", "::"]

theorem bracketPairs_nesting : ∀ pair ∈ bracketPairs, pair ∈ nestingPairs := by decide

/-- A token that is no bracket and no separator of statements, and no comma unless `commas` allows
it. Words are none of the decorations that are left out. -/
def Lexeme.IsAtom (commas : Bool) (x : Lexeme) : Prop :=
  x.kind = .ident ∧ Statement.isDecoration x.text = false ∧ x.text ∉ Statement.ignoredWords ∨
    x.kind ≠ .ident ∧ x.text ∉ cuttingMarks ∧
      (commas = false → x.text ≠ ",")

/-- Tokens in which all brackets are closed in order. Commas may stand inside brackets. -/
inductive Grouped : Bool → List Lexeme → Prop where
  | nil {commas : Bool} : Grouped commas []
  | atom {commas : Bool} {x : Lexeme} {rest : List Lexeme} (plain : x.IsAtom commas)
      (others : Grouped commas rest) : Grouped commas (x :: rest)
  | group {commas : Bool} {pair : String × String} {inner rest : List Lexeme}
      (known : pair ∈ bracketPairs) (inside : Grouped true inner) (others : Grouped commas rest) :
      Grouped commas (mark pair.1 :: inner ++ mark pair.2 :: rest)

namespace Grouped

variable {commas : Bool} {first second : List Lexeme}

theorem append (left : Grouped commas first) (right : Grouped commas second) :
    Grouped commas (first ++ second) := by
  induction left with
  | nil => exact right
  | atom plain _ ih => exact .atom plain (ih right)
  | group known inside _ _ ih =>
    simpa only [List.cons_append, List.append_assoc] using Grouped.group known inside (ih right)

theorem inParens (inside : Grouped true first) :
    Grouped commas (mark "(" :: first ++ [mark ")"]) :=
  .group (show ("(", ")") ∈ bracketPairs by decide) inside .nil

theorem inBrackets (inside : Grouped true first) :
    Grouped commas (mark "[" :: first ++ [mark "]"]) :=
  .group (show ("[", "]") ∈ bracketPairs by decide) inside .nil

theorem allow (grouped : Grouped commas first) : Grouped true first := by
  induction grouped with
  | nil => exact .nil
  | atom plain _ ih =>
    refine .atom (plain.imp_right fun other => ⟨other.1, other.2.1, ?_⟩) ih
    intro impossible
    cases impossible
  | group known inside _ _ ih => exact .group known inside ih

theorem of_atoms (atoms : ∀ x ∈ first, x.IsAtom commas) : Grouped commas first := by
  induction first with
  | nil => exact .nil
  | cons x rest ih =>
    rw [List.forall_mem_cons] at atoms
    exact .atom atoms.1 (ih atoms.2)

/-- What holds of the brackets and of every other token holds of all tokens. -/
theorem forall_mem {holds : Lexeme → Prop} (grouped : Grouped commas first)
    (atoms : ∀ commas x, IsAtom commas x → holds x)
    (marks : ∀ pair ∈ bracketPairs, holds (mark pair.1) ∧ holds (mark pair.2)) :
    ∀ x ∈ first, holds x := by
  induction grouped with
  | nil => exact List.forall_mem_nil _
  | atom plain _ ih => exact List.forall_mem_cons.mpr ⟨atoms _ _ plain, ih⟩
  | group known _ _ ihInside ih =>
    simp only [List.cons_append, List.forall_mem_cons, List.forall_mem_append]
    exact ⟨(marks _ known).1, ihInside, (marks _ known).2, ih⟩

/-- Induction along the groups of anything that is spelled with grouped tokens. -/
theorem induct_map {α : Type} {spelled : α → Lexeme} {motive : Bool → List α → Prop}
    (nil : ∀ commas, motive commas [])
    (atom : ∀ commas x rest, (spelled x).IsAtom commas → motive commas rest →
      motive commas (x :: rest))
    (group : ∀ commas pair opening inner closing rest, pair ∈ bracketPairs →
      spelled opening = mark pair.1 → spelled closing = mark pair.2 → motive true inner →
      motive commas rest → motive commas (opening :: inner ++ closing :: rest))
    {xs : List α} (grouped : Grouped commas (xs.map spelled)) : motive commas xs := by
  generalize same : xs.map spelled = written at grouped
  induction grouped generalizing xs with
  | nil =>
    rw [List.map_eq_nil_iff] at same
    exact same ▸ nil _
  | atom plain _ ih =>
    obtain ⟨x, rest, rfl, rfl, others⟩ := List.map_eq_cons_iff.mp same
    exact atom _ x rest plain (ih others)
  | group known _ _ ihInside ih =>
    rw [List.cons_append] at same
    obtain ⟨opening, tail, rfl, opens, same⟩ := List.map_eq_cons_iff.mp same
    obtain ⟨inner, tail, rfl, inside, same⟩ := List.map_eq_append_iff.mp same
    obtain ⟨closing, rest, rfl, closes, others⟩ := List.map_eq_cons_iff.mp same
    exact group _ _ opening inner closing rest known opens closes (ihInside inside) (ih others)

end Grouped

namespace Token

variable {token : Token} {commas : Bool}

theorem isPunct_eq_false_of_isAtom (plain : token.lexeme.IsAtom commas) {text : String}
    (cutting : text ∈ cuttingMarks) :
    token.isPunct text = false := by
  rcases plain with ⟨ident, -⟩ | ⟨-, other, -⟩
  · have ident : token.kind = .ident := ident
    simp [isPunct, ident]
  · have other : token.text ≠ text := by
      rintro rfl
      exact other cutting
    simp [isPunct, other]

/-- Only brackets open and close, and only where they are no part of a name or a string. -/
theorem isBracket_of_isAtom (plain : token.lexeme.IsAtom commas) : token.isBracket = false := by
  rcases plain with ⟨ident, -⟩ | ⟨-, other, -⟩
  · have ident : token.kind = .ident := ident
    simp [isBracket, isStructural, ident]
  · have other : token.text ∉ cuttingMarks := other
    simp only [cuttingMarks, List.mem_cons, List.not_mem_nil, or_false, not_or] at other
    simp [isBracket, opensBracket, closesBracket, other]

end Token

section

variable {tokens : List Token} {commas : Bool}

theorem Grouped.nested (grouped : Grouped commas (tokens.map Token.lexeme)) : Nested tokens := by
  refine grouped.induct_map (motive := fun _ tokens => Nested tokens) (fun _ => .nil) ?_ ?_
  · intro commas token others plain ih
    exact .plain (Token.isBracket_of_isAtom plain) ih
  · intro commas pair opening inner closing others known opens closes ihInner ih
    exact .group (bracketPairs_nesting pair known) (by simp [Token.isPunct_of_lexeme opens])
      (by simp [Token.isPunct_of_lexeme closes]) ihInner ih

def prependPart (tokens : List Token) : List (List Token) → List (List Token)
  | [] => [tokens]
  | part :: parts => (tokens ++ part) :: parts

theorem prependPart_append (first second : List Token) (parts : List (List Token)) :
    prependPart (first ++ second) parts = prependPart first (prependPart second parts) := by
  cases parts <;> simp [prependPart]

theorem splitTopLevelFrom_ne_nil (separator : String) (depth : Int) (tokens : List Token) :
    splitTopLevelFrom separator depth tokens ≠ [] := by
  cases tokens with
  | nil => simp [splitTopLevelFrom]
  | cons token rest => grind [splitTopLevelFrom]

theorem prependPart_nil {parts : List (List Token)} (some : parts ≠ []) :
    prependPart [] parts = parts := by
  cases parts with
  | nil => exact absurd rfl some
  | cons part parts => rfl

theorem splitTopLevelFrom_cons {depth : Int} {token : Token} (rest : List Token)
    (stays : token.isStructural = true → token.text = "," → depth ≠ 0) :
    splitTopLevelFrom "," depth (token :: rest) =
      prependPart [token] (splitTopLevelFrom ","
        (if token.isStructural && token.opensBracket then depth + 1
          else if token.isStructural && token.closesBracket then depth - 1 else depth) rest) := by
  simp only [splitTopLevelFrom, prependPart, List.singleton_append]
  grind

theorem splitTopLevelFrom_grouped (grouped : Grouped commas (tokens.map Token.lexeme))
    (depth : Int) (outside : 0 ≤ depth) (deep : commas = true → 0 < depth) (rest : List Token) :
    splitTopLevelFrom "," depth (tokens ++ rest) =
      prependPart tokens (splitTopLevelFrom "," depth rest) := by
  revert depth rest
  refine grouped.induct_map (motive := fun commas tokens => ∀ depth : Int, 0 ≤ depth →
    (commas = true → 0 < depth) → ∀ rest, splitTopLevelFrom "," depth (tokens ++ rest) =
      prependPart tokens (splitTopLevelFrom "," depth rest)) ?_ ?_ ?_
  · intro _ depth _ _ rest
    exact (prependPart_nil (splitTopLevelFrom_ne_nil "," depth rest)).symm
  · intro commas token others plain ih depth outside deep rest
    obtain ⟨opens, closes⟩ := Token.not_bracket (Token.isBracket_of_isAtom plain)
    have stays : token.isStructural = true → token.text = "," → depth ≠ 0 := by
      intro structural comma
      rcases plain with ⟨ident, -⟩ | ⟨-, -, other⟩
      · have ident : token.kind = .ident := ident
        simp [Token.isStructural, ident] at structural
      · cases commas with
        | false => exact absurd comma (other rfl)
        | true => exact Int.ne_of_gt (deep rfl)
    rw [List.cons_append, splitTopLevelFrom_cons _ stays, opens, closes, if_neg (by simp),
      if_neg (by simp), ih depth outside deep, ← prependPart_append, List.singleton_append]
  · intro commas pair opening inner closing others known opens closes ihInner ih depth outside deep
      rest
    have noComma : ∀ pair ∈ bracketPairs, pair.1 ≠ "," ∧ pair.2 ≠ "," := by decide
    have openingText : opening.text = pair.1 := congrArg Lexeme.text opens
    have closingText : closing.text = pair.2 := congrArg Lexeme.text closes
    have nesting := bracketPairs_nesting pair known
    have opensPair : opening.isPunct pair.1 = true := by simp [Token.isPunct_of_lexeme opens]
    have closesPair : closing.isPunct pair.2 = true := by simp [Token.isPunct_of_lexeme closes]
    obtain ⟨closesFirst, closesThen⟩ := Token.closes_nesting nesting closesPair
    have shape : opening :: inner ++ closing :: others ++ rest =
        opening :: (inner ++ closing :: (others ++ rest)) := by simp
    rw [shape, splitTopLevelFrom_cons _ fun _ same =>
        absurd (openingText ▸ same) (noComma pair known).1,
      if_pos (Token.opens_nesting nesting opensPair),
      ihInner (depth + 1) (by omega) (fun _ => by omega),
      splitTopLevelFrom_cons _ fun _ same => absurd (closingText ▸ same) (noComma pair known).2,
      closesFirst, if_neg (by simp), if_pos closesThen, Int.add_sub_cancel, ih depth outside deep,
      ← prependPart_append, ← prependPart_append, ← prependPart_append]
    simp

theorem splitTopLevel_intercalate {items : List (List Lexeme)} (some : items ≠ [])
    (grouped : ∀ item ∈ items, Grouped false item)
    (written : tokens.map Token.lexeme = [mark ","].intercalate items) :
    (splitTopLevel tokens ",").map (·.map Token.lexeme) = items := by
  unfold splitTopLevel
  induction items generalizing tokens with
  | nil => exact absurd rfl some
  | cons item others ih =>
    rw [List.forall_mem_cons] at grouped
    cases others with
    | nil =>
      have single : tokens.map Token.lexeme = item := by simpa using written
      have cut := splitTopLevelFrom_grouped (single ▸ grouped.1) 0 (by simp) (by simp) []
      rw [List.append_nil] at cut
      simp [cut, splitTopLevelFrom, prependPart, single]
    | cons next others =>
      rw [List.intercalate_cons_cons] at written
      rw [List.append_assoc] at written
      obtain ⟨first, tail, rfl, firstWritten, tailWritten⟩ := List.map_eq_append_iff.mp written
      rw [List.singleton_append] at tailWritten
      obtain ⟨comma, tail, rfl, isComma, written⟩ := List.map_eq_cons_iff.mp tailWritten
      have isComma : comma.kind = .punct ∧ comma.text = "," := by
        simpa [Token.lexeme, mark] using isComma
      have cutHere : splitTopLevelFrom "," 0 (comma :: tail) =
          [] :: splitTopLevelFrom "," 0 tail := by
        simp [splitTopLevelFrom, Token.isStructural, Token.opensBracket, Token.closesBracket,
          isComma.1, isComma.2]
      rw [splitTopLevelFrom_grouped (firstWritten ▸ grouped.1) 0 (by simp) (by simp), cutHere]
      simp [prependPart, firstWritten, ih (by simp) grouped.2 written]

end

namespace Statement

variable {commas : Bool} {items current : List Placed}

theorem cleanFrom_eq_self
    (plain : ∀ item ∈ items, item.2.kind = .ident →
      isDecoration item.2.text = false ∧ item.2.text ∉ ignoredWords) :
    cleanFrom items = items := by
  induction items with
  | nil => simp [cleanFrom]
  | cons item rest ih =>
    rw [List.forall_mem_cons] at plain
    have keep := ih plain.2
    unfold cleanFrom
    by_cases ident : item.2.kind = .ident
    · simp [ident, plain.1 ident, keep]
    · simp [ident, keep]

theorem splitFrom_grouped (grouped : Grouped commas (items.map (·.2.lexeme))) :
    Nested (items.map Prod.snd) ∧ ∀ (current : List Placed), current ≠ [] → ∀ rest,
      splitFrom current 0 (items ++ rest) = splitFrom (current ++ items) 0 rest := by
  refine grouped.induct_map
    (motive := fun _ items => Nested (items.map Prod.snd) ∧ ∀ (current : List Placed),
      current ≠ [] → ∀ rest,
        splitFrom current 0 (items ++ rest) = splitFrom (current ++ items) 0 rest) ?_ ?_ ?_
  · exact fun _ => ⟨.nil, fun current _ rest => by simp⟩
  · intro commas item others plain ⟨nested, ih⟩
    have noBracket := Token.isBracket_of_isAtom plain
    obtain ⟨opens, closes⟩ := Token.not_bracket noBracket
    have stays {text : String} (cutting : text ∈ cuttingMarks) : item.2.isPunct text = false :=
      Token.isPunct_eq_false_of_isAtom plain cutting
    have noBrace : item.2.isPunct "\x7b" = false := stays (by decide)
    refine ⟨.plain noBracket nested, fun current isOpen rest => ?_⟩
    rw [List.cons_append, splitFrom_keep (.inr ⟨by simp [isOpen], stays (by decide),
      stays (by decide), by simp [noBrace]⟩), opens, closes, if_neg (by simp), if_neg (by simp),
      ih _ (by simp), List.append_assoc, List.singleton_append]
  · intro commas pair opening inner closing others known opens closes ⟨inside, _⟩ ⟨nested, ih⟩
    have nesting := bracketPairs_nesting pair known
    have opensPair : opening.2.isPunct pair.1 = true := by simp [Token.isPunct_of_lexeme opens]
    have closesPair : closing.2.isPunct pair.2 = true := by simp [Token.isPunct_of_lexeme closes]
    have noBrace : ∀ pair ∈ bracketPairs, pair.1 ≠ "\x7b" := by decide
    have noBrace : opening.2.isPunct "\x7b" = false := by
      simpa [Token.isPunct_of_lexeme opens] using noBrace pair known
    refine ⟨?_, fun current isOpen rest => ?_⟩
    · rw [List.map_append, List.map_cons, List.map_cons]
      exact .group nesting opensPair closesPair inside nested
    · have shape : opening :: inner ++ closing :: others ++ rest =
          opening :: (inner ++ closing :: (others ++ rest)) := by simp
      rw [shape, splitFrom_group nesting opensPair closesPair inside (by simp [noBrace]),
        ih _ (by simp)]
      simp

/-- A word, groups after it and a semicolon are one statement, without the semicolon. -/
theorem split_word {tokens : List Token} {first last : Token} {text : String}
    (starts : first.lexeme = word text) (plain : (word text).IsAtom commas)
    (noLinkage : text ≠ "extern" ∨ ∀ second ∈ tokens.head?, second.kind ≠ .string)
    (grouped : Grouped commas (tokens.map Token.lexeme)) (ends : last.lexeme = mark ";") :
    split (clean (first :: tokens ++ [last])) = [⟨first :: tokens, 0⟩] := by
  obtain ⟨body, place, placed, rfl⟩ : ∃ (body : List Placed) (place : Nat),
      (first :: tokens ++ [last]).zipIdx.map Prod.swap =
        (0, first) :: (body ++ [(place, last)]) ∧ tokens = body.map Prod.snd := by
    refine ⟨(tokens.zipIdx 1).map Prod.swap, 1 + tokens.length, ?_, ?_⟩
    · simp [List.zipIdx_append]
    · simp [Function.comp_def]
  rw [List.map_map] at grouped
  have kept : cleanFrom ((0, first) :: (body ++ [(place, last)])) =
      (0, first) :: (body ++ [(place, last)]) := by
    have words : ∀ commas x, Lexeme.IsAtom commas x → x.kind = .ident →
        isDecoration x.text = false ∧ x.text ∉ ignoredWords :=
      fun _ x atom ident => atom.elim And.right fun other => absurd ident other.1
    have inside := grouped.forall_mem words (fun pair _ => by simp [mark])
    refine cleanFrom_eq_self ?_
    simp only [List.forall_mem_cons, List.forall_mem_append, List.forall_mem_map] at inside ⊢
    refine ⟨fun ident => ?_, inside, fun ident => ?_, by simp⟩
    · exact words commas first.lexeme (starts ▸ plain) ident
    · rw [show last.kind = .punct from congrArg Lexeme.kind ends] at ident
      cases ident
  have atom : first.lexeme.IsAtom commas := starts ▸ plain
  have stays {mine : String} (cutting : mine ∈ cuttingMarks) : first.isPunct mine = false :=
    Token.isPunct_eq_false_of_isAtom atom cutting
  obtain ⟨opens, closes⟩ := Token.not_bracket (Token.isBracket_of_isAtom atom)
  have lastKind : last.kind ≠ .string := by
    rw [show last.kind = .punct from congrArg Lexeme.kind ends]
    decide
  have noLinkage : startsLinkage (0, first) (body ++ [(place, last)]) = false := by
    have same : first.text = text := congrArg Lexeme.text starts
    rcases noLinkage with other | noString
    · simp [startsLinkage, Token.isIdent, same, other]
    · cases body with
      | nil => simp [startsLinkage, lastKind]
      | cons second body => simp [startsLinkage, noString second.2 (by simp)]
  have cleaned : clean (first :: body.map Prod.snd ++ [last]) =
      (0, first) :: (body ++ [(place, last)]) := (congrArg cleanFrom placed).trans kept
  have semicolon : last.isPunct ";" = true := by simp [Token.isPunct_of_lexeme ends]
  have noBrace : first.isPunct "\x7b" = false := stays (by decide)
  rw [cleaned, split, splitFrom_keep (.inr ⟨by simp [noLinkage], stays (by decide),
      stays (by decide), by simp [noBrace]⟩), opens, closes, if_neg (by simp), if_neg (by simp),
    (splitFrom_grouped grouped).2 _ (by simp), splitFrom_end (.inl semicolon)]
  simp [splitFrom, ofItems]

theorem split_clean {tokens : List Token} {first last : Token} {text : String}
    (starts : first.lexeme = word text) (plain : (word text).IsAtom commas)
    (noLinkage : text ≠ "extern") (grouped : Grouped commas (tokens.map Token.lexeme))
    (ends : last.lexeme = mark ";") :
    split (clean (first :: tokens ++ [last])) = [⟨first :: tokens, 0⟩] :=
  split_word starts plain (.inl noLinkage) grouped ends

end Statement

/-! ### Written types -/

theorem PlainWord.isAtom {text : String} (plain : PlainWord text) (commas : Bool) :
    (word text).IsAtom commas :=
  .inl ⟨rfl, plain.decoration, plain.ignored⟩

/-- The keywords of types, conventions and declarations are no decorations. -/
theorem keyword_isAtom {text : String}
    (known : text ∈ Primitive.keywords ++ DeclarationReader.qualifierWords ++
      DeclarationReader.storageWords ++ ["struct", "union", "enum"] ++
      DeclarationReader.conventions.map Prod.fst)
    (commas : Bool) : (word text).IsAtom commas := by
  have plain : ∀ text ∈ Primitive.keywords ++ DeclarationReader.qualifierWords ++
      DeclarationReader.storageWords ++ ["struct", "union", "enum"] ++
      DeclarationReader.conventions.map Prod.fst,
      Statement.isDecoration text = false ∧ text ∉ Statement.ignoredWords := by
    decide +kernel
  exact .inl ⟨rfl, plain text known⟩

theorem primitiveWords_keywords :
    ∀ name ∈ Primitive.names, ∀ text ∈ TypeName.primitiveWords name, text ∈ Primitive.keywords := by
  decide

theorem mark_isAtom {text : String} (other : text ∉ cuttingMarks) {commas : Bool}
    (comma : commas = false → text ≠ ",") : (mark text).IsAtom commas :=
  .inr ⟨by simp [mark], other, comma⟩

theorem qualifiers_isAtom {qualifiers : List String}
    (known : ∀ q ∈ qualifiers, q ∈ DeclarationReader.qualifierWords) (commas : Bool) :
    ∀ x ∈ qualifiers.map word, x.IsAtom commas := by
  simp only [List.forall_mem_map]
  intro q member
  exact keyword_isAtom (by simp [known q member]) commas

theorem TypeName.Nameable.grouped {t : TypeName} (nameable : t.Nameable) (commas : Bool) :
    Grouped commas ((t.qualifiers ++ t.specifierWords).map word) := by
  obtain ⟨kind, known, qualifiers⟩ := t
  obtain ⟨qualified, name, rfl, plain⟩ := nameable
  refine .of_atoms ?_
  simp only [List.map_append, List.forall_mem_append]
  refine ⟨qualifiers_isAtom qualified commas, ?_⟩
  rw [List.forall_mem_map]
  cases kind with
  | primitive =>
    intro text member
    exact keyword_isAtom (by simp [primitiveWords_keywords name plain text member]) commas
  | typedef => exact List.forall_mem_singleton.mpr (plain.isAtom commas)
  | struct | union | enum =>
    exact List.forall_mem_cons.mpr ⟨keyword_isAtom (by simp [NameKind.word]) commas,
      List.forall_mem_singleton.mpr (plain.isAtom commas)⟩

theorem repr_not_mark (n : Nat) : ∀ text ∈ "," :: cuttingMarks, n.repr ≠ text := by
  intro text known same
  have other : ∀ text ∈ "," :: cuttingMarks, text.toList.any (!Text.isAsciiDigit ·) = true := by
    decide
  obtain ⟨c, member, noDigit⟩ := List.any_eq_true.mp (other text known)
  rw [← same, Nat.toList_repr] at member
  rw [Text.mem_toDigits member] at noDigit
  cases noDigit

theorem Extent.Writable.grouped {extent : Extent} (writable : extent.Writable) (commas : Bool) :
    Grouped commas extent.lexemes := by
  cases extent with
  | flexible => exact .nil
  | count n =>
    obtain ⟨size, rfl⟩ := Int.eq_ofNat_of_zero_le writable.1
    refine .of_atoms ?_
    simp only [Extent.lexemes, List.forall_mem_singleton]
    exact .inr ⟨by simp, fun cutting => repr_not_mark size _ (List.mem_cons_of_mem _ cutting) rfl,
      fun _ => repr_not_mark size _ (by simp)⟩
  | text => exact writable.elim

namespace CType

theorem listItems_grouped {items : List (List Lexeme)} (each : ∀ item ∈ items, Grouped false item)
    (variadic : Bool) : ∀ item ∈ listItems items variadic, Grouped false item := by
  rw [listItems, List.forall_mem_append]
  refine ⟨each, ?_⟩
  cases variadic with
  | false => simp
  | true =>
    simp only [if_true, List.forall_mem_singleton]
    exact .atom (mark_isAtom (by decide) (by simp)) .nil

theorem intercalate_grouped {items : List (List Lexeme)}
    (each : ∀ item ∈ items, Grouped false item) :
    Grouped true ([mark ","].intercalate items) := by
  have comma : Grouped true [mark ","] := .atom (mark_isAtom (by decide) (by simp)) .nil
  induction items with
  | nil => simpa using Grouped.nil
  | cons item others ih =>
    rw [List.forall_mem_cons] at each
    cases others with
    | nil => simpa using each.1.allow
    | cons next others =>
      rw [List.intercalate_cons_cons]
      exact (each.1.allow.append comma).append (ih each.2)

theorem parameterList_grouped {items : List (List Lexeme)}
    (each : ∀ item ∈ items, Grouped false item) (explicit variadic : Bool) :
    Grouped true (parameterList explicit items variadic) := by
  unfold parameterList
  split
  · cases explicit with
    | false => exact .nil
    | true => exact .atom (keyword_isAtom (by decide) true) .nil
  · exact intercalate_grouped (listItems_grouped each variadic)

end CType

end CBindings
