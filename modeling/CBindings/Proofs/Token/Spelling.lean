import CBindings.Proofs.Token.Lexeme
import CBindings.Token.Lexer
import Mathlib.Data.List.TakeWhile

/-! Tokens spelled with blanks between them are cut from their text again. -/

namespace CBindings

namespace Lexer

open Text

variable {quote : Char} {text body lexeme after : List Char}

def Gap (after : List Char) : Prop := ∀ c ∈ after.head?, c = ' '

/-! ### Quoted literals -/

theorem quotedBody?_append (read : quotedBody? quote text = some (body, after))
    (after' : List Char) : quotedBody? quote (body ++ after') = some (body, after') := by
  fun_induction quotedBody? quote text generalizing body with
  | case1 => cases read
  | case2 rest =>
    cases read
    rw [List.singleton_append, quotedBody?.eq_def]
    simp
  | case3 => cases read
  | case4 => cases read
  | case5 => cases read
  | case6 other escaped rest plain inside ih =>
    obtain ⟨cut, found, same⟩ := Option.map_eq_some_iff.mp read
    cases same
    have inner := ih found
    simp [quotedBody?, *]
  | case7 c rest other plain inside ih =>
    obtain ⟨cut, found, same⟩ := Option.map_eq_some_iff.mp read
    cases same
    have inner := ih found
    rw [List.cons_append, quotedBody?.eq_def]
    simp only [other, plain, inside, if_false, inner, Option.map_some]

def encodings : List (List Char) := [[], ['u'], ['U'], ['L'], ['u', '8']]

theorem quoted?_encoded (isQuote : quote = '"' ∨ quote = '\'') {front : List Char}
    (encoding : front ∈ encodings) (rest : List Char) :
    quoted? quote (front ++ quote :: rest) =
      (quotedBody? quote rest).map fun cut => (front ++ quote :: cut.1, cut.2) := by
  simp only [encodings, List.mem_cons, List.not_mem_nil, or_false] at encoding
  rcases isQuote with rfl | rfl <;> rcases encoding with rfl | rfl | rfl | rfl | rfl <;>
    simp [quoted?]

theorem quoted?_eq_some (read : quoted? quote text = some (lexeme, after)) :
    ∃ front ∈ encodings, ∃ rest body, text = front ++ quote :: rest ∧
      quotedBody? quote rest = some (body, after) ∧ lexeme = front ++ quote :: body := by
  unfold quoted? at read
  split at read
  · next c rest =>
    split at read
    · next same =>
      obtain ⟨⟨body, _⟩, found, cut⟩ := Option.map_eq_some_iff.mp read
      cases same
      cases cut
      exact ⟨['u', '8'], by decide, rest, body, rfl, found, rfl⟩
    · cases read
  · next first rest _ =>
    split at read
    · next same =>
      obtain ⟨⟨body, _⟩, found, cut⟩ := Option.map_eq_some_iff.mp read
      cases same
      cases cut
      exact ⟨[], by decide, rest, body, rfl, found, rfl⟩
    · split at read
      · next prefixed =>
        split at read
        · cases read
        · next c rest _ =>
          split at read
          · next same =>
            obtain ⟨⟨body, _⟩, found, cut⟩ := Option.map_eq_some_iff.mp read
            cases same
            cases cut
            refine ⟨[first], ?_, rest, body, rfl, found, rfl⟩
            rcases prefixed with rfl | rfl | rfl <;> decide
          · cases read
      · cases read
  · cases read

theorem quoted?_eq_none
    (closed : ∀ front ∈ encodings, ∀ rest, text ≠ front ++ quote :: rest) :
    quoted? quote text = none := by
  cases read : quoted? quote text with
  | none => rfl
  | some cut =>
    obtain ⟨front, encoding, rest, body, opens, -⟩ := quoted?_eq_some read
    exact absurd opens (closed front encoding rest)

theorem quoted?_append (isQuote : quote = '"' ∨ quote = '\'')
    (read : quoted? quote text = some (lexeme, after)) (after' : List Char) :
    quoted? quote (lexeme ++ after') = some (lexeme, after') := by
  obtain ⟨front, encoding, rest, body, -, found, rfl⟩ := quoted?_eq_some read
  rw [List.append_assoc, List.cons_append, quoted?_encoded isQuote encoding,
    quotedBody?_append found after']
  rfl

theorem encoded_apart {front front' : List Char} (encoding : front ∈ encodings)
    (encoding' : front' ∈ encodings) (rest rest' : List Char) :
    front ++ '\'' :: rest ≠ front' ++ '"' :: rest' := by
  simp only [encodings, List.mem_cons, List.not_mem_nil, or_false] at encoding encoding'
  rcases encoding with rfl | rfl | rfl | rfl | rfl <;>
    rcases encoding' with rfl | rfl | rfl | rfl | rfl <;> simp

theorem quoted?_other {c : Char} (other : c ≠ quote) (plain : isIdentStart c = false)
    (rest : List Char) : quoted? quote (c :: rest) = none := by
  apply quoted?_eq_none
  intro front encoding inside same
  simp only [encodings, List.mem_cons, List.not_mem_nil, or_false] at encoding
  rcases encoding with rfl | rfl | rfl | rfl | rfl <;> cases same
  · exact other rfl
  all_goals exact absurd plain (by decide)

theorem no_quote (isQuote : quote = '"' ∨ quote = '\'') {front name rest : List Char}
    (solid : ' ' ∉ front) (inside : ∀ c ∈ name, isIdentChar c = true) (gap : Gap after) :
    name ++ after ≠ front ++ quote :: rest := by
  have visible : quote ≠ ' ' ∧ isIdentChar quote = false := by
    rcases isQuote with rfl | rfl <;> decide
  induction front generalizing name with
  | nil =>
    cases name with
    | nil =>
      rintro rfl
      exact visible.1 (gap quote rfl)
    | cons c name =>
      intro same
      cases same
      exact absurd (inside quote List.mem_cons_self) (by simp [visible.2])
  | cons first front ih =>
    rw [List.mem_cons, not_or] at solid
    cases name with
    | nil =>
      rintro rfl
      exact solid.1 (gap first rfl).symm
    | cons c name =>
      intro same
      exact ih solid.2 (fun c member => inside c (List.mem_cons_of_mem _ member))
        (List.cons.inj same).2

theorem quoted?_name (isQuote : quote = '"' ∨ quote = '\'') {name : List Char}
    (inside : ∀ c ∈ name, isIdentChar c = true) (gap : Gap after) :
    quoted? quote (name ++ after) = none := by
  apply quoted?_eq_none
  intro front encoding rest
  apply no_quote isQuote _ inside gap
  revert front
  decide

/-! ### Numbers and names -/

theorem numberTail_gap (gap : Gap after) : numberTail after = ([], after) := by
  cases after with
  | nil => rfl
  | cons c rest =>
    cases gap c rfl
    cases rest <;> rfl

theorem numberTail_append (text : List Char) :
    (numberTail text).1 ++ (numberTail text).2 = text := by
  fun_induction numberTail text with
  | case1 => rfl
  | case2 => rfl
  | case3 => rfl
  | case4 c sign rest _ cut ih => simpa [cut] using ih
  | case5 c sign rest _ _ cut ih => simpa [cut] using ih
  | case6 => rfl

theorem numberTail_marked {c sign : Char} {rest : List Char}
    (marked : (isExponentMark c && (sign == '+' || sign == '-')) = true) :
    numberTail (c :: sign :: rest) = (c :: sign :: (numberTail rest).1, (numberTail rest).2) := by
  rw [numberTail, if_pos marked]

theorem numberTail_inside {c sign : Char} {rest : List Char}
    (unmarked : ¬(isExponentMark c && (sign == '+' || sign == '-')) = true)
    (inside : isNumberChar c = true) : numberTail (c :: sign :: rest) =
      (c :: (numberTail (sign :: rest)).1, (numberTail (sign :: rest)).2) := by
  rw [numberTail, if_neg unmarked, if_pos inside]

theorem numberTail_last {c : Char} (inside : isNumberChar c = true) (gap : Gap after) :
    numberTail (c :: after) = ([c], after) := by
  have stops := numberTail_gap gap
  cases after with
  | nil => simp [numberTail, inside]
  | cons next rest =>
    cases gap next rfl
    rw [numberTail_inside (by simp) inside, stops]

theorem numberTail_again (text : List Char) (gap : Gap after) :
    numberTail ((numberTail text).1 ++ after) = ((numberTail text).1, after) := by
  fun_induction numberTail text with
  | case1 => exact numberTail_gap gap
  | case2 c inside => exact numberTail_last inside gap
  | case3 => exact numberTail_gap gap
  | case4 c sign rest marked cut ih =>
    rw [List.cons_append, List.cons_append, numberTail_marked marked, ih]
  | case5 c sign rest unmarked inside cut ih =>
    have whole : cut.1 ++ cut.2 = sign :: rest := numberTail_append (sign :: rest)
    cases tail : cut.1 with
    | nil => exact numberTail_last inside gap
    | cons first others =>
      rw [tail] at ih whole
      obtain rfl : first = sign := (List.cons.inj whole).1
      rw [List.cons_append, List.cons_append, numberTail_inside unmarked inside,
        ← List.cons_append, ih]
  | case6 => exact numberTail_gap gap

theorem number?_eq_some (read : number? text = some (lexeme, after)) :
    ∃ c front rest, isAsciiDigit c = true ∧ (front = [] ∨ front = ['.']) ∧
      text = front ++ c :: rest ∧ lexeme = front ++ c :: (numberTail rest).1 := by
  unfold number? at read
  split at read
  · next c rest =>
    split at read
    · next digit =>
      cases read
      exact ⟨c, ['.'], rest, digit, .inr rfl, rfl, rfl⟩
    · cases read
  · next c rest _ =>
    split at read
    · next digit =>
      cases read
      exact ⟨c, [], rest, digit, .inl rfl, rfl, rfl⟩
    · cases read
  · cases read

theorem number?_starts {c : Char} {front rest : List Char} (digit : isAsciiDigit c = true)
    (point : front = [] ∨ front = ['.']) : number? (front ++ c :: rest) =
      some (front ++ c :: (numberTail rest).1, (numberTail rest).2) := by
  rcases point with rfl | rfl
  · unfold number?
    split
    · next same =>
      cases same
      exact absurd digit (by decide)
    · next same =>
      cases same
      simp [digit]
    · next same => cases same
  · simp [number?, digit]

theorem number?_again (read : number? text = some (lexeme, after)) {after' : List Char}
    (gap : Gap after') : number? (lexeme ++ after') = some (lexeme, after') := by
  obtain ⟨c, front, rest, digit, point, -, rfl⟩ := number?_eq_some read
  rw [List.append_assoc, List.cons_append, number?_starts digit point, numberTail_again rest gap]

theorem ident?_again {c : Char} {rest : List Char} (starts : isIdentStart c = true)
    (inside : ∀ d ∈ rest, isIdentChar d = true) (gap : Gap after) :
    ident? (c :: rest ++ after) = some (c :: rest, after) := by
  have stops : after.takeWhile isIdentChar = [] ∧ after.dropWhile isIdentChar = after := by
    cases after with
    | nil => exact ⟨rfl, rfl⟩
    | cons next others =>
      cases gap next rfl
      exact ⟨rfl, rfl⟩
  rw [List.cons_append, ident?, if_pos starts, List.takeWhile_append_of_pos inside,
    List.dropWhile_append_of_pos inside, stops.1, stops.2, List.append_nil]

/-! ### Punctuators -/

theorem punctuator_alone (c : Char) (gap : Gap after) : punctuator c after = ([c], after) := by
  have none : longPunctuators.find? (fun p => p.toList.isPrefixOf (c :: after)) = none := by
    rw [List.find?_eq_none]
    intro p member
    have second : ∃ a b tail, p.toList = a :: b :: tail ∧ b ≠ ' ' := by
      simp only [longPunctuators, List.mem_cons, List.not_mem_nil, or_false] at member
      rcases member with rfl | rfl | rfl | rfl | rfl | rfl | rfl | rfl | rfl | rfl | rfl | rfl |
        rfl | rfl | rfl | rfl | rfl | rfl | rfl | rfl | rfl | rfl | rfl | rfl
      all_goals exact ⟨_, _, _, rfl, by decide⟩
    obtain ⟨a, b, tail, spelled, visible⟩ := second
    rw [spelled]
    cases after with
    | nil => simp
    | cons next rest =>
      cases gap next rfl
      simp [visible]
  rw [punctuator, none]

theorem punctuator_long {p : String} (member : p ∈ longPunctuators) (gap : Gap after) :
    ∃ c rest, p.toList = c :: rest ∧ punctuator c (rest ++ after) = (c :: rest, after) := by
  have blank : after = [] ∨ ∃ rest, after = ' ' :: rest := by
    cases after with
    | nil => exact .inl rfl
    | cons next rest => exact .inr ⟨rest, by rw [gap next rfl]⟩
  simp only [longPunctuators, List.mem_cons, List.not_mem_nil, or_false] at member
  rcases member with rfl | rfl | rfl | rfl | rfl | rfl | rfl | rfl | rfl | rfl | rfl | rfl |
    rfl | rfl | rfl | rfl | rfl | rfl | rfl | rfl | rfl | rfl | rfl | rfl
  all_goals
    refine ⟨_, _, rfl, ?_⟩
    rcases blank with rfl | ⟨rest, rfl⟩ <;> rfl

theorem punctuator_again (c : Char) (rest : List Char) (gap : Gap after) : ∃ tail,
    (punctuator c rest).1 = c :: tail ∧ punctuator c (tail ++ after) = (c :: tail, after) := by
  cases found : longPunctuators.find? (fun p => p.toList.isPrefixOf (c :: rest)) with
  | none =>
    refine ⟨[], ?_, punctuator_alone c gap⟩
    rw [punctuator, found]
  | some p =>
    obtain ⟨c', tail, spelled, again⟩ := punctuator_long (List.mem_of_find?_eq_some found) gap
    have front : p.toList <+: c :: rest := by simpa using List.find?_some found
    rw [spelled, List.cons_prefix_cons] at front
    obtain ⟨rfl, front⟩ := front
    have length : p.length - 1 = tail.length := by
      rw [← String.length_toList, spelled, List.length_cons, Nat.add_sub_cancel]
    refine ⟨tail, ?_, again⟩
    rw [punctuator, found]
    simp only [length, ← List.prefix_iff_eq_take.mp front]

/-! ### Tokens -/

section

variable {c : Char} {rest : List Char} {cut : Cut}

theorem token_string (string : quoted? '"' (c :: rest) = some cut) :
    token c rest = (.string, cut) := by
  rw [token, string]

theorem token_char (noString : quoted? '"' (c :: rest) = none)
    (char : quoted? '\'' (c :: rest) = some cut) : token c rest = (.char, cut) := by
  rw [token, noString, char]

theorem token_number (noString : quoted? '"' (c :: rest) = none)
    (noChar : quoted? '\'' (c :: rest) = none) (number : number? (c :: rest) = some cut) :
    token c rest = (.number, cut) := by
  rw [token, noString, noChar, number]

theorem token_ident (noString : quoted? '"' (c :: rest) = none)
    (noChar : quoted? '\'' (c :: rest) = none) (noNumber : number? (c :: rest) = none)
    (ident : ident? (c :: rest) = some cut) : token c rest = (.ident, cut) := by
  rw [token, noString, noChar, noNumber, ident]

theorem token_punct (noString : quoted? '"' (c :: rest) = none)
    (noChar : quoted? '\'' (c :: rest) = none) (noNumber : number? (c :: rest) = none)
    (noIdent : ident? (c :: rest) = none) : token c rest = (.punct, punctuator c rest) := by
  rw [token, noString, noChar, noNumber, noIdent]

end

theorem shared_head {α : Type} {c d : α} {front rest x : List α}
    (same : c :: rest = front ++ d :: x) (y : List α) : ∃ tail, front ++ d :: y = c :: tail := by
  cases front with
  | nil =>
    cases same
    exact ⟨y, rfl⟩
  | cons first others =>
    cases same
    exact ⟨others ++ d :: y, rfl⟩

theorem digit_plain {c : Char} (digit : isAsciiDigit c = true) : isIdentStart c = false := by
  have small : c.toNat < 58 := by
    simp only [isAsciiDigit, Bool.and_eq_true, decide_eq_true_eq] at digit
    exact Nat.lt_succ_of_le (UInt32.le_iff_toNat_le.mp digit.2)
  have all : ∀ n < 58, isAsciiDigit (Char.ofNat n) = true →
      isIdentStart (Char.ofNat n) = false := by decide
  have known := all c.toNat small
  rw [Char.ofNat_toNat] at known
  exact known digit

theorem not_digit_of_identStart {c : Char} (starts : isIdentStart c = true) :
    isAsciiDigit c = false := by
  cases digit : isAsciiDigit c with
  | false => rfl
  | true => cases starts.symm.trans (digit_plain digit)

theorem number?_eq_none {c : Char} {rest : List Char} (noDigit : isAsciiDigit c = false)
    (noPoint : c = '.' → ∀ d ∈ rest.head?, isAsciiDigit d = false) :
    number? (c :: rest) = none := by
  cases number : number? (c :: rest) with
  | none => rfl
  | some cut =>
    obtain ⟨d, front, x, digit, point, same, -⟩ := number?_eq_some number
    rcases point with rfl | rfl
    · cases same
      rw [digit] at noDigit
      cases noDigit
    · cases same
      have other := noPoint rfl d rfl
      rw [digit] at other
      cases other

section

variable {c : Char} {rest after' : List Char} {cut : Cut}

theorem string_again (string : quoted? '"' (c :: rest) = some cut) (after' : List Char) :
    ∃ tail, cut.1 = c :: tail ∧ token c (tail ++ after') = (.string, cut.1, after') := by
  have again := quoted?_append (.inl rfl) string after'
  obtain ⟨front, -, x, body, spelled, -, same⟩ := quoted?_eq_some string
  obtain ⟨tail, head⟩ := shared_head spelled body
  rw [← same] at head
  rw [head] at again ⊢
  exact ⟨tail, rfl, token_string again⟩

theorem char_again (char : quoted? '\'' (c :: rest) = some cut) (after' : List Char) :
    ∃ tail, cut.1 = c :: tail ∧ token c (tail ++ after') = (.char, cut.1, after') := by
  have again := quoted?_append (.inr rfl) char after'
  obtain ⟨front, encoding, x, body, spelled, -, same⟩ := quoted?_eq_some char
  have noString : quoted? '"' (cut.1 ++ after') = none := by
    apply quoted?_eq_none
    intro front' encoding' rest'
    rw [same, List.append_assoc]
    exact encoded_apart encoding encoding' _ _
  obtain ⟨tail, head⟩ := shared_head spelled body
  rw [← same] at head
  rw [head] at again noString ⊢
  exact ⟨tail, rfl, token_char noString again⟩

theorem number_again (number : number? (c :: rest) = some cut) (gap : Gap after') :
    ∃ tail, cut.1 = c :: tail ∧ token c (tail ++ after') = (.number, cut.1, after') := by
  have again := number?_again number gap
  obtain ⟨d, front, x, digit, point, spelled, same⟩ := number?_eq_some number
  obtain ⟨tail, head⟩ := shared_head spelled (numberTail x).1
  rw [← same] at head
  rw [head] at again ⊢
  have plain : isIdentStart c = false ∧ c ≠ '"' ∧ c ≠ '\'' := by
    rcases point with rfl | rfl
    · cases spelled
      refine ⟨digit_plain digit, ?_, ?_⟩
      all_goals
        rintro rfl
        exact absurd digit (by decide)
    · cases spelled
      decide
  have unquoted : ∀ quote, c ≠ quote → quoted? quote (c :: tail ++ after') = none :=
    fun quote other => quoted?_other other plain.1 _
  exact ⟨tail, rfl, token_number (unquoted _ plain.2.1) (unquoted _ plain.2.2) again⟩

theorem ident_again (ident : ident? (c :: rest) = some cut) (gap : Gap after') :
    ∃ tail, cut.1 = c :: tail ∧ token c (tail ++ after') = (.ident, cut.1, after') := by
  have starts : isIdentStart c = true := by
    by_contra plain
    simp [ident?, plain] at ident
  simp only [ident?, starts, if_true, Option.some.injEq] at ident
  have inside : ∀ d ∈ rest.takeWhile isIdentChar, isIdentChar d = true :=
    fun d member => List.mem_takeWhile_imp member
  have name : ∀ d ∈ c :: rest.takeWhile isIdentChar, isIdentChar d = true := by
    rw [List.forall_mem_cons]
    exact ⟨by simp [isIdentChar, starts], inside⟩
  have noNumber : number? (c :: rest.takeWhile isIdentChar ++ after') = none := by
    apply number?_eq_none (not_digit_of_identStart starts)
    rintro rfl
    exact absurd starts (by decide)
  rw [← ident]
  exact ⟨_, rfl, token_ident (quoted?_name (.inl rfl) name gap) (quoted?_name (.inr rfl) name gap)
    noNumber (ident?_again starts inside gap)⟩

theorem punctuator_append (c : Char) (rest : List Char) :
    (punctuator c rest).1 ++ (punctuator c rest).2 = c :: rest := by
  unfold punctuator
  split
  · simp
  · rfl

theorem punct_again (noNumber : number? (c :: rest) = none) (noIdent : ident? (c :: rest) = none)
    (closed : (punctuator c rest).1 ≠ ['"'] ∧ (punctuator c rest).1 ≠ ['\'']) (gap : Gap after') :
    ∃ tail, (punctuator c rest).1 = c :: tail ∧
      token c (tail ++ after') = (.punct, (punctuator c rest).1, after') := by
  obtain ⟨tail, cut, again⟩ := punctuator_again c rest gap
  have whole := punctuator_append c rest
  have plain : isIdentStart c = false := by
    cases starts : isIdentStart c with
    | false => rfl
    | true => simp [ident?, starts] at noIdent
  have unquoted : ∀ quote, c ≠ quote → quoted? quote (c :: (tail ++ after')) = none :=
    fun quote other => quoted?_other other plain _
  have noString : c ≠ '"' := by
    rintro rfl
    exact closed.1 rfl
  have noChar : c ≠ '\'' := by
    rintro rfl
    exact closed.2 rfl
  have noDigit : ∀ front d x, front = [] ∨ front = ['.'] → c :: rest = front ++ d :: x →
      isAsciiDigit d = false := by
    intro front d x point spelled
    cases digit : isAsciiDigit d with
    | false => rfl
    | true =>
      rw [spelled, number?_starts digit point] at noNumber
      cases noNumber
  have noNumber' : number? (c :: (tail ++ after')) = none := by
    apply number?_eq_none (noDigit [] c rest (.inl rfl) rfl)
    rintro rfl d first
    cases tail with
    | nil =>
      cases gap d first
      decide
    | cons t others =>
      cases first
      rw [cut] at whole
      exact noDigit ['.'] _ _ (.inr rfl) whole.symm
  have noIdent' : ident? (c :: (tail ++ after')) = none := by
    simp [ident?, plain]
  refine ⟨tail, cut, ?_⟩
  rw [token_punct (unquoted _ noString) (unquoted _ noChar) noNumber' noIdent', again, cut]

end

/-- A lexeme is cut again, with the same kind, before a blank. Only a quote that opens nothing may
open a literal there. -/
theorem token_again {c : Char} {rest : List Char} {kind : TokenKind}
    (read : token c rest = (kind, lexeme, after)) (closed : lexeme ≠ ['"'] ∧ lexeme ≠ ['\''])
    {after' : List Char} (gap : Gap after') :
    ∃ tail, lexeme = c :: tail ∧ token c (tail ++ after') = (kind, lexeme, after') := by
  cases string : quoted? '"' (c :: rest) with
  | some cut =>
    rw [token_string string] at read
    cases read
    exact string_again string after'
  | none =>
    cases char : quoted? '\'' (c :: rest) with
    | some cut =>
      rw [token_char string char] at read
      cases read
      exact char_again char after'
    | none =>
      cases number : number? (c :: rest) with
      | some cut =>
        rw [token_number string char number] at read
        cases read
        exact number_again number gap
      | none =>
        cases ident : ident? (c :: rest) with
        | some cut =>
          rw [token_ident string char number ident] at read
          cases read
          exact ident_again ident gap
        | none =>
          rw [token_punct string char number ident] at read
          have cut : punctuator c rest = (lexeme, after) := (Prod.mk.inj read).2
          have again := punct_again number ident (cut ▸ closed) gap
          rw [cut] at again
          rw [← (Prod.mk.inj read).1]
          exact again

/-! ### Texts -/

theorem tokensOf_lexeme {c : Char} {rest : List Char} {kind : TokenKind} (line : Nat)
    (visible : isSpace c = false) (read : token c rest = (kind, lexeme, after)) :
    tokensOf line (c :: rest) = ⟨kind, String.ofList lexeme, line⟩ :: tokensOf line after := by
  rw [tokensOf, if_neg (by simp [visible]), read]

theorem exists_cut_of_mem {line : Nat} {text : List Char} {t : Token}
    (member : t ∈ tokensOf line text) :
    ∃ c rest after, isSpace c = false ∧ token c rest = (t.kind, t.text.toList, after) := by
  fun_induction tokensOf line text with
  | case1 => cases member
  | case2 c rest space ih => exact ih member
  | case3 c rest visible cut ih =>
    rcases List.mem_cons.mp member with rfl | later
    · exact ⟨c, rest, cut.2.2, by simpa using visible, by simp [cut]⟩
    · exact ih later

end Lexer

/-- The token is cut from some text, and is no quote that opens nothing. -/
def Token.IsLexeme (t : Token) : Prop :=
  (∃ line text, t ∈ Lexer.tokensOf line text) ∧ t.text ≠ "\"" ∧ t.text ≠ "'"

namespace Lexer

variable {t : Token} {after : List Char}

theorem tokensOf_append (isLexeme : t.IsLexeme) (line : Nat) (gap : Gap after) :
    tokensOf line (t.text.toList ++ after) = { t with line := line } :: tokensOf line after := by
  obtain ⟨⟨_, _, member⟩, noString, noChar⟩ := isLexeme
  obtain ⟨c, rest, _, visible, read⟩ := exists_cut_of_mem member
  have closed : t.text.toList ≠ ['"'] ∧ t.text.toList ≠ ['\''] := by
    constructor
    · exact fun same => noString (String.toList_injective same)
    · exact fun same => noChar (String.toList_injective same)
  obtain ⟨tail, spelled, again⟩ := token_again read closed gap
  rw [spelled, List.cons_append, tokensOf_lexeme line visible again, String.ofList_toList]

end Lexer

/-- Lexemes spelled with blanks between them are cut from their text again. -/
theorem tokenize_spell {tokens : List Token} (lexemes : ∀ t ∈ tokens, t.IsLexeme) :
    tokenize (spell tokens) = tokens.map fun t => { t with line := 0 } := by
  rw [tokenize]
  induction tokens with
  | nil =>
    have empty : (spell []).toList = [] := rfl
    rw [empty, Lexer.tokensOf, List.map_nil]
  | cons first rest ih =>
    rw [List.forall_mem_cons] at lexemes
    cases rest with
    | nil =>
      have ended : Lexer.Gap [] := by simp [Lexer.Gap]
      have cut := Lexer.tokensOf_append lexemes.1 0 ended
      have alone : (spell [first]).toList = first.text.toList ++ [] := by simp [spell]
      rw [alone, cut, Lexer.tokensOf, List.map_singleton]
    | cons second others =>
      have blank : Lexer.Gap (' ' :: (spell (second :: others)).toList) := by
        rintro _ ⟨⟩
        rfl
      have spelled : (spell (first :: second :: others)).toList =
          first.text.toList ++ ' ' :: (spell (second :: others)).toList := by
        simp [spell, String.intercalate_cons_cons]
      have space : Lexer.tokensOf 0 (' ' :: (spell (second :: others)).toList) =
          Lexer.tokensOf 0 (spell (second :: others)).toList := by
        rw [Lexer.tokensOf, if_pos (by decide)]
      rw [spelled, Lexer.tokensOf_append lexemes.1 0 blank, space, ih lexemes.2]
      rfl

end CBindings
