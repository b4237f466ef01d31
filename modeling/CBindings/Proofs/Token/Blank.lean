import CBindings.Proofs.Token.Spelling
import CBindings.Text.Blank
import Mathlib.Data.List.Find

/-! Blanks behind a text. They leave its tokens as they are; those that the lexer does not skip
become tokens of their own. -/

namespace CBindings

namespace Text

def Blanks (text : List Char) : Prop := ∀ c ∈ text, isBlank c = true

theorem Blanks.tail {c : Char} {rest : List Char} (blanks : Blanks (c :: rest)) : Blanks rest :=
  fun d member => blanks d (List.mem_cons_of_mem c member)

theorem isBlank_range {c : Char} (blank : isBlank c = true) : c.toNat ≤ 32 ∨ 128 ≤ c.toNat := by
  simp only [isBlank, Bool.or_eq_true, Bool.and_eq_true, decide_eq_true_eq, beq_iff_eq] at blank
  omega

theorem lexeme_range {c : Char}
    (inside : Lexer.isNumberChar c = true ∨ Lexer.isIdentChar c = true) :
    32 < c.toNat ∧ c.toNat < 128 := by
  simp only [Lexer.isNumberChar, Lexer.isIdentChar, Lexer.isIdentStart, isAsciiLetter,
    isAsciiDigit, Bool.or_eq_true, Bool.and_eq_true, decide_eq_true_eq, beq_iff_eq, Char.le_def,
    UInt32.le_iff_toNat_le, Char.ext_iff, ← UInt32.toNat_inj, Char.toNat_val,
    Char.reduceToNat] at inside
  omega

def trailing (text : List Char) : List Char := (text.reverse.takeWhile isBlank).reverse

theorem blanks_trailing (text : List Char) : Blanks (trailing text) := by
  intro c member
  exact List.mem_takeWhile_imp (List.mem_reverse.mp member)

theorem stripRight_append_trailing (text : List Char) :
    stripRight text ++ trailing text = text := by
  unfold stripRight trailing
  rw [← List.reverse_append, List.takeWhile_append_dropWhile, List.reverse_reverse]

end Text

namespace Lexer

open Text

variable {c d quote : Char} {text front rest blanks : List Char}

section

variable (blank : isBlank c = true)
include blank

theorem not_isNumberChar : isNumberChar c = false := by
  cases inside : isNumberChar c with
  | false => rfl
  | true =>
    have visible := lexeme_range (.inl inside)
    have range := isBlank_range blank
    omega

theorem not_isIdentChar : isIdentChar c = false := by
  cases inside : isIdentChar c with
  | false => rfl
  | true =>
    have visible := lexeme_range (.inr inside)
    have range := isBlank_range blank
    omega

theorem not_isIdentStart : isIdentStart c = false :=
  (Bool.or_eq_false_iff.mp (not_isIdentChar blank)).1

theorem not_isAsciiDigit : isAsciiDigit c = false :=
  (Bool.or_eq_false_iff.mp (not_isIdentChar blank)).2

theorem ne_of_isBlank (visible : 32 < d.toNat ∧ d.toNat < 128) : c ≠ d := by
  rintro rfl
  have range := isBlank_range blank
  omega

end

theorem split_before_blanks (isBlanks : Blanks blanks) (visible : isBlank d = false)
    (same : front ++ d :: rest = text ++ blanks) :
    ∃ more, text = front ++ d :: more ∧ rest = more ++ blanks := by
  rcases List.append_eq_append_iff.mp same with ⟨between, whole, parts⟩ | ⟨between, -, parts⟩
  · cases between with
    | nil =>
      have first : d ∈ blanks := by
        rw [← List.nil_append blanks, ← parts]
        exact List.mem_cons_self
      rw [isBlanks d first] at visible
      cases visible
    | cons e more =>
      obtain ⟨rfl, same⟩ := List.cons.inj parts
      exact ⟨more, whole, same⟩
  · have inside : d ∈ blanks := by
      rw [parts]
      exact List.mem_append_right between List.mem_cons_self
    rw [isBlanks d inside] at visible
    cases visible

/-! ### Quoted literals -/

theorem quotedBody?_blanks (visible : isBlank quote = false) (isBlanks : Blanks blanks) :
    quotedBody? quote blanks = none := by
  fun_induction quotedBody? quote blanks with
  | case1 => rfl
  | case2 rest =>
    rw [isBlanks quote List.mem_cons_self] at visible
    cases visible
  | case3 => rfl
  | case4 => rfl
  | case5 => rfl
  | case6 other escaped rest plain inside ih => rw [ih isBlanks.tail.tail, Option.map_none]
  | case7 c rest other plain inside ih => rw [ih isBlanks.tail, Option.map_none]

theorem quotedBody?_append_blanks (visible : isBlank quote = false) (isBlanks : Blanks blanks)
    (text : List Char) : quotedBody? quote (text ++ blanks) =
      (quotedBody? quote text).map fun cut => (cut.1, cut.2 ++ blanks) := by
  fun_induction quotedBody? quote text with
  | case1 => exact quotedBody?_blanks visible isBlanks
  | case2 rest =>
    rw [List.cons_append, quotedBody?.eq_def]
    simp
  | case3 rest other =>
    rw [List.cons_append, quotedBody?.eq_def]
    simp [other]
  | case4 other plain =>
    rw [List.cons_append, List.nil_append, quotedBody?.eq_def]
    cases blanks with
    | nil => simp [other]
    | cons escaped rest =>
      have none := quotedBody?_blanks visible isBlanks.tail
      simp [other, none]
  | case5 rest other plain =>
    rw [List.cons_append, List.cons_append, quotedBody?.eq_def]
    simp [other]
  | case6 other escaped rest plain inside ih =>
    rw [List.cons_append, List.cons_append, quotedBody?.eq_def]
    simp [*, Function.comp_def]
  | case7 c rest other plain inside ih =>
    rw [List.cons_append, quotedBody?.eq_def]
    simp [*, Function.comp_def]

theorem quoted?_append_blanks (isQuote : quote = '"' ∨ quote = '\'') (isBlanks : Blanks blanks)
    (text : List Char) : quoted? quote (text ++ blanks) =
      (quoted? quote text).map fun cut => (cut.1, cut.2 ++ blanks) := by
  have visible : isBlank quote = false := by
    rcases isQuote with rfl | rfl <;> decide
  have opened {front : List Char} (encoding : front ∈ encodings) (rest : List Char) :
      quoted? quote (front ++ quote :: (rest ++ blanks)) =
        (quoted? quote (front ++ quote :: rest)).map fun cut => (cut.1, cut.2 ++ blanks) := by
    rw [quoted?_encoded isQuote encoding, quoted?_encoded isQuote encoding,
      quotedBody?_append_blanks visible isBlanks, Option.map_map, Option.map_map]
    rfl
  by_cases opens : ∃ front ∈ encodings, ∃ rest, text = front ++ quote :: rest
  · obtain ⟨front, encoding, rest, rfl⟩ := opens
    rw [List.append_assoc, List.cons_append]
    exact opened encoding rest
  · have closed : quoted? quote text = none := by
      apply quoted?_eq_none
      intro front encoding rest same
      exact opens ⟨front, encoding, rest, same⟩
    have still : quoted? quote (text ++ blanks) = none := by
      apply quoted?_eq_none
      intro front encoding rest same
      obtain ⟨more, whole, -⟩ := split_before_blanks isBlanks visible same.symm
      exact opens ⟨front, encoding, more, whole⟩
    rw [closed, still, Option.map_none]

/-! ### Numbers and names -/

theorem numberTail_blanks (isBlanks : Blanks blanks) : numberTail blanks = ([], blanks) := by
  cases blanks with
  | nil => rfl
  | cons c rest =>
    have blank : isBlank c = true := isBlanks c List.mem_cons_self
    have outside := not_isNumberChar blank
    have unmarked : isExponentMark c = false := by
      simp only [isExponentMark, Bool.or_eq_false_iff, beq_eq_false_iff_ne]
      exact ⟨⟨⟨ne_of_isBlank blank (by decide), ne_of_isBlank blank (by decide)⟩,
        ne_of_isBlank blank (by decide)⟩, ne_of_isBlank blank (by decide)⟩
    cases rest with
    | nil => simp [numberTail, outside]
    | cons => simp [numberTail, outside, unmarked]

theorem unmarked_blanks (isBlanks : Blanks (d :: rest)) :
    (isExponentMark c && (d == '+' || d == '-')) = false := by
  have blank : isBlank d = true := isBlanks d List.mem_cons_self
  have noSign : (d == '+' || d == '-') = false := by
    simp only [Bool.or_eq_false_iff, beq_eq_false_iff_ne]
    exact ⟨ne_of_isBlank blank (by decide), ne_of_isBlank blank (by decide)⟩
  rw [noSign, Bool.and_false]

theorem numberTail_append_blanks (isBlanks : Blanks blanks) (text : List Char) :
    numberTail (text ++ blanks) = ((numberTail text).1, (numberTail text).2 ++ blanks) := by
  fun_induction numberTail text with
  | case1 => exact numberTail_blanks isBlanks
  | case2 c inside =>
    cases blanks with
    | nil => simp [numberTail, inside]
    | cons d rest =>
      have unmarked : ¬(isExponentMark c && (d == '+' || d == '-')) = true := by
        simp [unmarked_blanks isBlanks]
      rw [List.cons_append, List.nil_append, numberTail_inside unmarked inside,
        numberTail_blanks isBlanks]
  | case3 c outside =>
    cases blanks with
    | nil => simp [numberTail, outside]
    | cons d rest => simp [numberTail, outside, unmarked_blanks isBlanks]
  | case4 c sign rest marked cut ih =>
    rw [List.cons_append, List.cons_append, numberTail_marked marked, ih]
  | case5 c sign rest unmarked inside cut ih =>
    rw [List.cons_append, List.cons_append, numberTail_inside unmarked inside,
      ← List.cons_append, ih]
  | case6 c sign rest unmarked outside =>
    rw [List.cons_append, List.cons_append, numberTail, if_neg unmarked, if_neg outside]

theorem number?_append_blanks (isBlanks : Blanks blanks) (text : List Char) :
    number? (text ++ blanks) = (number? text).map fun cut => (cut.1, cut.2 ++ blanks) := by
  by_cases starts : ∃ front d rest, isAsciiDigit d = true ∧ (front = [] ∨ front = ['.']) ∧
      text = front ++ d :: rest
  · obtain ⟨front, d, rest, digit, point, rfl⟩ := starts
    rw [List.append_assoc, List.cons_append, number?_starts digit point,
      number?_starts digit point, numberTail_append_blanks isBlanks]
    rfl
  · have closed : number? text = none := by
      cases read : number? text with
      | none => rfl
      | some cut =>
        obtain ⟨d, front, rest, digit, point, whole, -⟩ := number?_eq_some read
        exact absurd ⟨front, d, rest, digit, point, whole⟩ starts
    have still : number? (text ++ blanks) = none := by
      cases read : number? (text ++ blanks) with
      | none => rfl
      | some cut =>
        obtain ⟨d, front, rest, digit, point, whole, -⟩ := number?_eq_some read
        have visible : isBlank d = false := by
          cases blank : isBlank d with
          | false => rfl
          | true => cases digit.symm.trans (not_isAsciiDigit blank)
        obtain ⟨more, whole, -⟩ := split_before_blanks isBlanks visible whole.symm
        exact absurd ⟨front, d, more, digit, point, whole⟩ starts
    rw [closed, still, Option.map_none]

theorem ident?_append_blanks (isBlanks : Blanks blanks) (c : Char) (rest : List Char) :
    ident? (c :: (rest ++ blanks)) =
      (ident? (c :: rest)).map fun cut => (cut.1, cut.2 ++ blanks) := by
  have outside : ∀ d ∈ blanks, isIdentChar d = false := fun d member =>
    not_isIdentChar (isBlanks d member)
  have taken : (rest ++ blanks).takeWhile isIdentChar = rest.takeWhile isIdentChar := by
    induction rest with
    | nil =>
      cases blanks with
      | nil => rfl
      | cons d more => simp [outside d List.mem_cons_self]
    | cons d rest ih => simp only [List.cons_append, List.takeWhile_cons, ih]
  have left : (rest ++ blanks).dropWhile isIdentChar = rest.dropWhile isIdentChar ++ blanks := by
    have whole := List.takeWhile_append_dropWhile (p := isIdentChar) (l := rest ++ blanks)
    rw [taken] at whole
    apply (List.append_right_inj (rest.takeWhile isIdentChar)).mp
    rw [whole, ← List.append_assoc, List.takeWhile_append_dropWhile]
  simp only [ident?, taken, left]
  split <;> rfl

/-! ### Punctuators -/

theorem prefix_append_blanks (isBlanks : Blanks blanks) {p : List Char}
    (visible : ∀ d ∈ p, isBlank d = false) : p <+: text ++ blanks ↔ p <+: text := by
  constructor
  · intro front
    induction p generalizing text with
    | nil => exact List.nil_prefix
    | cons d p ih =>
      obtain ⟨rest, same⟩ := front
      obtain ⟨more, rfl, -⟩ : ∃ more, text = [] ++ d :: more ∧ p ++ rest = more ++ blanks :=
        split_before_blanks isBlanks (visible d List.mem_cons_self) same
      have tail : p <+: more ++ blanks := ⟨rest, (List.cons.inj same).2⟩
      exact List.cons_prefix_cons.mpr
        ⟨rfl, ih (fun e member => visible e (List.mem_cons_of_mem d member)) tail⟩
  · exact fun front => front.trans (List.prefix_append text blanks)

theorem visible_of_mem_longPunctuators :
    ∀ p ∈ longPunctuators, ∀ d ∈ p.toList, isBlank d = false := by
  have all : ∀ p ∈ longPunctuators, p.toList.all (!isBlank ·) = true := by decide
  exact fun p member d inside => by simpa using List.all_eq_true.mp (all p member) d inside

theorem punctuator_append_blanks (isBlanks : Blanks blanks) (c : Char) (rest : List Char) :
    punctuator c (rest ++ blanks) = ((punctuator c rest).1, (punctuator c rest).2 ++ blanks) := by
  have visible := visible_of_mem_longPunctuators
  have same : longPunctuators.find? (fun p => p.toList.isPrefixOf (c :: (rest ++ blanks))) =
      longPunctuators.find? fun p => p.toList.isPrefixOf (c :: rest) := by
    apply List.find?_congr
    intro p member
    rw [Bool.eq_iff_iff, List.isPrefixOf_iff_prefix, List.isPrefixOf_iff_prefix,
      ← List.cons_append, prefix_append_blanks isBlanks (visible p member)]
  unfold punctuator
  rw [same]
  cases found : longPunctuators.find? fun p => p.toList.isPrefixOf (c :: rest) with
  | none => rfl
  | some p =>
    have front : p.toList <+: c :: rest := by simpa using List.find?_some found
    have short : p.length - 1 ≤ rest.length := by
      have length := front.length_le
      rw [String.length_toList, List.length_cons] at length
      omega
    simp only [List.take_append_of_le_length short, List.drop_append_of_le_length short]

/-! ### Tokens -/

theorem token_append_blanks (isBlanks : Blanks blanks) (c : Char) (rest : List Char) :
    token c (rest ++ blanks) =
      ((token c rest).1, (token c rest).2.1, (token c rest).2.2 ++ blanks) := by
  have string := quoted?_append_blanks (.inl rfl) isBlanks (c :: rest)
  have char := quoted?_append_blanks (.inr rfl) isBlanks (c :: rest)
  have number := number?_append_blanks isBlanks (c :: rest)
  have ident := ident?_append_blanks isBlanks c rest
  have punct := punctuator_append_blanks isBlanks c rest
  rw [List.cons_append] at string char number
  unfold token
  rw [string, char, number, ident, punct]
  cases quoted? '"' (c :: rest) with
  | some => rfl
  | none =>
    cases quoted? '\'' (c :: rest) with
    | some => rfl
    | none =>
      cases number? (c :: rest) with
      | some => rfl
      | none => cases ident? (c :: rest) <;> rfl

theorem tokensOf_append_blanks (isBlanks : Blanks blanks) (line : Nat) (text : List Char) :
    tokensOf line (text ++ blanks) = tokensOf line text ++ tokensOf line blanks := by
  fun_induction tokensOf line text with
  | case1 => rfl
  | case2 c rest space ih => rw [List.cons_append, tokensOf, if_pos space, ih]
  | case3 c rest visible cut ih =>
    rw [List.cons_append, tokensOf, if_neg visible, token_append_blanks isBlanks]
    simp only [cut, ih, List.cons_append]

theorem token_blank (blank : isBlank c = true) (rest : List Char) :
    token c rest = (.punct, [c], rest) := by
  have quotes (quote : Char) (visible : 32 < quote.toNat ∧ quote.toNat < 128) :
      quoted? quote (c :: rest) = none :=
    quoted?_other (ne_of_isBlank blank visible) (not_isIdentStart blank) rest
  have number : number? (c :: rest) = none :=
    number?_eq_none (not_isAsciiDigit blank) fun point =>
      absurd point (ne_of_isBlank blank (by decide))
  have ident : ident? (c :: rest) = none := by
    simp [ident?, not_isIdentStart blank]
  have alone : longPunctuators.find? (fun p => p.toList.isPrefixOf (c :: rest)) = none := by
    rw [List.find?_eq_none]
    intro p member front
    have front : p.toList <+: c :: rest := by simpa using front
    have some_char : ∀ p ∈ longPunctuators, p.toList ≠ [] := by decide
    obtain ⟨d, tail, spelled⟩ := List.exists_cons_of_ne_nil (some_char p member)
    rw [spelled, List.cons_prefix_cons] at front
    have visible := visible_of_mem_longPunctuators p member d (spelled ▸ List.mem_cons_self)
    rw [front.1, blank] at visible
    cases visible
  rw [token_punct (quotes '"' (by decide)) (quotes '\'' (by decide)) number ident, punctuator,
    alone]

/-- The tokens that blanks become where the lexer does not skip them. -/
def strays (line : Nat) (blanks : List Char) : List Token :=
  (blanks.filter (!isSpace ·)).map fun c => ⟨.punct, String.ofList [c], line⟩

theorem tokensOf_blanks (isBlanks : Blanks blanks) (line : Nat) :
    tokensOf line blanks = strays line blanks := by
  induction blanks with
  | nil => rw [tokensOf, strays, List.filter_nil, List.map_nil]
  | cons c rest ih =>
    have blank : isBlank c = true := isBlanks c List.mem_cons_self
    have later := ih isBlanks.tail
    unfold strays at later ⊢
    rw [tokensOf]
    cases space : isSpace c with
    | true => simp [space, later]
    | false => simp [space, later, token_blank blank]

end Lexer

end CBindings
