import CBindings.Proofs.Constant.Kind
import CBindings.Proofs.Token.Spelling
import CBindings.Rust.Item

/-! A string constant means the same in Rust: what C reads in its literals one by one is what Rust
reads in the one literal that is written. -/

namespace CBindings

/-! ### String literals in C and in Rust -/

/-- How a language reads what follows a backslash: a character, and the text after its escape. -/
structure EscapeRule where
  read? : List Char → Option (Char × List Char)
  shorter : ∀ {text found}, read? text = some found → found.2.length < text.length

namespace EscapeRule

set_option linter.unusedVariables false in
def contents? (rule : EscapeRule) (text : List Char) : Option (List Char) :=
  match text with
  | [] => none
  | c :: rest =>
    if c = '"' then if rest.isEmpty then some [] else none
    else if c = '\\' then
      match found : rule.read? rest with
      | none => none
      | some cut => (rule.contents? cut.2).map (cut.1 :: ·)
    else (rule.contents? rest).map (c :: ·)
termination_by text.length
decreasing_by
  · exact Nat.lt_succ_of_lt (rule.shorter found)
  · exact Nat.lt_succ_self _

def value? (rule : EscapeRule) : List Char → Option (List Char)
  | '"' :: rest => rule.contents? rest
  | _ => none

variable {rule : EscapeRule} {c d : Char} {rest after : List Char}

theorem contents?_quote (rule : EscapeRule) : rule.contents? ['"'] = some [] := by
  simp [contents?]

theorem contents?_plain (noQuote : c ≠ '"') (noEscape : c ≠ '\\') :
    rule.contents? (c :: rest) = (rule.contents? rest).map (c :: ·) := by
  rw [contents?, if_neg noQuote, if_neg noEscape]

theorem contents?_escape (read : rule.read? rest = some (d, after)) :
    rule.contents? ('\\' :: rest) = (rule.contents? after).map (d :: ·) := by
  rw [contents?, if_neg (by decide), if_pos rfl]
  split
  · next none => cases none.symm.trans read
  · next found =>
    cases found.symm.trans read
    rfl

end EscapeRule

namespace CEscape

open Literal

def simple : List (Char × Char) :=
  [('n', '\n'), ('t', '\t'), ('r', '\r'), ('a', '\x07'), ('b', '\x08'), ('f', '\x0c'),
   ('v', '\x0b'), ('\\', '\\'), ('\'', '\''), ('"', '"'), ('?', '?')]

def isOctalDigit (c : Char) : Bool := '0' ≤ c && c ≤ '7'

def ofByte? (n : Nat) : Option Char := if n < 256 then some (Char.ofNat n) else none

def read? : List Char → Option (Char × List Char)
  | [] => none
  | c :: rest =>
    if isOctalDigit c then
      let more := (rest.take 2).takeWhile isOctalDigit
      (ofByte? (valueOf .octal (c :: more))).map (·, rest.drop more.length)
    else if c = 'x' then
      if rest.takeWhile isHexDigit = [] then none
      else (ofByte? (valueOf .hex (rest.takeWhile isHexDigit))).map (·, rest.dropWhile isHexDigit)
    else (simple.lookup c).map (·, rest)

theorem read?_length {text : List Char} {found : Char × List Char}
    (read : read? text = some found) : found.2.length < text.length := by
  unfold read? at read
  split at read
  · cases read
  · next c rest =>
    split at read
    · obtain ⟨d, -, rfl⟩ := Option.map_eq_some_iff.mp read
      exact Nat.lt_succ_of_le (List.drop_sublist _ _).length_le
    · split at read
      · split at read
        · cases read
        · obtain ⟨d, -, rfl⟩ := Option.map_eq_some_iff.mp read
          exact Nat.lt_succ_of_le (List.dropWhile_sublist _).length_le
      · obtain ⟨d, -, rfl⟩ := Option.map_eq_some_iff.mp read
        exact Nat.lt_succ_self _

def rule : EscapeRule := ⟨read?, read?_length⟩

end CEscape

namespace RustEscape

def simple : List (Char × Char) :=
  [('n', '\n'), ('r', '\r'), ('t', '\t'), ('0', '\x00'), ('\\', '\\'), ('"', '"'), ('\'', '\'')]

def read? : List Char → Option (Char × List Char)
  | [] => none
  | c :: rest => (simple.lookup c).map (·, rest)

theorem read?_length {text : List Char} {found : Char × List Char}
    (read : read? text = some found) : found.2.length < text.length := by
  cases text with
  | nil => cases read
  | cons c rest =>
    obtain ⟨d, -, rfl⟩ := Option.map_eq_some_iff.mp read
    exact Nat.lt_succ_self _

def rule : EscapeRule := ⟨read?, read?_length⟩

end RustEscape

/-! ### Bodies with portable escapes -/

namespace Constant

variable {c : Char} {text inside body rest after : List Char} {tokens literals core : List Token}
  {token : Token} {bodies : List (List Char)}

theorem read_letter (letter : c ∈ ['n', 'r', 't', '\\', '"', '\'']) : ∃ d, ∀ rest,
    CEscape.rule.read? (c :: rest) = some (d, rest) ∧
      RustEscape.rule.read? (c :: rest) = some (d, rest) := by
  simp only [List.mem_cons, List.not_mem_nil, or_false] at letter
  rcases letter with rfl | rfl | rfl | rfl | rfl | rfl <;> exact ⟨_, fun _ => ⟨rfl, rfl⟩⟩

/-- In C a zero is an escape of its own only where no octal digit follows. -/
theorem read_null (ends : ∀ c ∈ rest.head?, ¬ ('0' ≤ c ∧ c ≤ '7')) :
    CEscape.rule.read? ('0' :: rest) = some ('\x00', rest) := by
  have alone : (rest.take 2).takeWhile CEscape.isOctalDigit = [] := by
    cases rest with
    | nil => rfl
    | cons next rest =>
      have other : CEscape.isOctalDigit next = false := by
        simpa [CEscape.isOctalDigit] using ends next rfl
      simp [other]
  show CEscape.read? ('0' :: rest) = _
  rw [CEscape.read?, if_pos (by decide), alone]
  rfl

-- Where a digit follows, C and Rust differ.
example : CEscape.rule.value? "\"\\012\"".toList = some ['\n'] ∧
    RustEscape.rule.value? "\"\\012\"".toList = some ['\x00', '1', '2'] := by decide +kernel

def MeansInRust (body meaning : List Char) : Prop :=
  ∀ after, RustEscape.rule.contents? (body ++ after) =
    (RustEscape.rule.contents? after).map (meaning ++ ·)

/-- What a body means in both languages: in C only with the quote behind it, since an octal escape
takes the digits that follow. -/
structure Means (body meaning : List Char) : Prop where
  c : CEscape.rule.contents? (body ++ ['"']) = some meaning
  rust : MeansInRust body meaning

theorem Means.nil : Means [] [] where
  c := EscapeRule.contents?_quote _
  rust after := by simp

theorem Means.plain {meaning : List Char} (noQuote : c ≠ '"') (noEscape : c ≠ '\\')
    (means : Means body meaning) : Means (c :: body) (c :: meaning) where
  c := by rw [List.cons_append, EscapeRule.contents?_plain noQuote noEscape, means.c]; rfl
  rust after := by
    rw [List.cons_append, EscapeRule.contents?_plain noQuote noEscape, means.rust, Option.map_map]
    rfl

theorem Means.escape {meaning : List Char} {d : Char}
    (readC : CEscape.rule.read? (c :: (body ++ ['"'])) = some (d, body ++ ['"']))
    (readRust : ∀ after, RustEscape.rule.read? (c :: after) = some (d, after))
    (means : Means body meaning) : Means ('\\' :: c :: body) (d :: meaning) where
  c := by
    rw [List.cons_append, List.cons_append, EscapeRule.contents?_escape readC, means.c]
    rfl
  rust after := by
    rw [List.cons_append, List.cons_append, EscapeRule.contents?_escape (readRust _), means.rust,
      Option.map_map]
    rfl

/-- The escapes that C reads in a quoted literal end where Rust ends them. -/
theorem means_of_quoted (read : Lexer.quotedBody? '"' text = some (inside, after)) :
    ∃ body, inside = body ++ ['"'] ∧ (Portable body → ∃ meaning, Means body meaning) := by
  fun_induction Lexer.quotedBody? '"' text generalizing inside with
  | case1 => cases read
  | case2 rest =>
    cases read
    exact ⟨[], rfl, fun _ => ⟨[], .nil⟩⟩
  | case3 => cases read
  | case4 => cases read
  | case5 => cases read
  | case6 escaped rest sameLine _ _ ih =>
    obtain ⟨cut, found, same⟩ := Option.map_eq_some_iff.mp read
    cases same
    obtain ⟨body, closed, means⟩ := ih found
    refine ⟨'\\' :: escaped :: body, by rw [closed]; rfl, fun portable => ?_⟩
    cases portable with
    | plain noEscape => exact absurd rfl noEscape
    | newline => exact absurd rfl sameLine
    | letter letter portable =>
      obtain ⟨d, reads⟩ := read_letter letter
      obtain ⟨meaning, means⟩ := means portable
      exact ⟨_, means.escape (reads _).1 fun after => (reads after).2⟩
    | null ends portable =>
      obtain ⟨meaning, means⟩ := means portable
      refine ⟨_, means.escape (read_null ?_) fun after => rfl⟩
      cases body with
      | nil => simp
      | cons next body => exact ends
  | case7 c rest noQuote _ noEscape ih =>
    obtain ⟨cut, found, same⟩ := Option.map_eq_some_iff.mp read
    cases same
    obtain ⟨body, closed, means⟩ := ih found
    refine ⟨c :: body, by rw [closed]; rfl, fun portable => ?_⟩
    obtain ⟨meaning, means⟩ := means ((portable_plain_iff noEscape).mp portable)
    exact ⟨_, means.plain noQuote noEscape⟩

/-! ### Adjacent literals -/

theorem quoted_of_string {c : Char} {cut : Lexer.Cut} (read : Lexer.token c rest = (.string, cut)) :
    Lexer.quoted? '"' (c :: rest) = some cut := by
  unfold Lexer.token at read
  split at read
  · next quoted => exact quoted.trans (congrArg some (Prod.mk.inj read).2)
  · split at read
    · cases read
    · split at read
      · cases read
      · split at read <;> cases read

theorem means_of_token {line : Nat} {source : String} (cut : token ∈ tokenize source line)
    (string : IsString token body) :
    ∃ meaning, CEscape.rule.value? token.text.toList = some meaning ∧ Means body meaning := by
  obtain ⟨c, rest, after, -, read⟩ := Lexer.exists_cut_of_mem cut
  obtain ⟨inside, text, rfl⟩ := string.written
  rw [string.kind] at read
  obtain ⟨front, encoding, behind, found, -, quoted, spelled⟩ :=
    Lexer.quoted?_eq_some (quoted_of_string read)
  have bare : inside = found := by
    rw [text] at spelled
    simp only [Lexer.encodings, List.mem_cons, List.not_mem_nil, or_false] at encoding
    rcases encoding with rfl | rfl | rfl | rfl | rfl <;> cases spelled
    rfl
  subst bare
  obtain ⟨body, closed, means⟩ := means_of_quoted quoted
  have portable := string.portable
  rw [closed, List.dropLast_concat] at portable ⊢
  obtain ⟨meaning, means⟩ := means portable
  refine ⟨meaning, ?_, means⟩
  rw [text, closed]
  exact means.c

theorem MeansInRust.append {body' meaning meaning' : List Char} (first : MeansInRust body meaning)
    (second : MeansInRust body' meaning') : MeansInRust (body ++ body') (meaning ++ meaning') := by
  intro after
  rw [List.append_assoc, first, second, Option.map_map]
  congr 1
  funext chars
  exact (List.append_assoc _ _ _).symm

theorem means_of_strings (strings : List.Forall₂ IsString literals bodies)
    (cut : ∀ token ∈ literals, ∃ source line, token ∈ tokenize source line) :
    ∃ meanings, List.Forall₂ (fun token meaning =>
        CEscape.rule.value? token.text.toList = some meaning) literals meanings ∧
      MeansInRust bodies.flatten meanings.flatten := by
  induction strings with
  | nil => exact ⟨[], .nil, Means.nil.rust⟩
  | cons string strings ih =>
    rw [List.forall_mem_cons] at cut
    obtain ⟨⟨source, line, cut⟩, others⟩ := cut
    obtain ⟨meaning, value, means⟩ := means_of_token cut string
    obtain ⟨meanings, values, rest⟩ := ih others
    exact ⟨meaning :: meanings, .cons value values, means.rust.append rest⟩

/-- The string literals among the tokens are those that the parentheses enclose. -/
theorem Enclosed.filter_string (enclosed : Enclosed core tokens) :
    tokens.filter (·.kind = .string) = core.filter (·.kind = .string) := by
  induction enclosed with
  | bare => rfl
  | group opens closes enclosed ih =>
    have opening := (Token.kind_of_isPunct opens).1
    have closing := (Token.kind_of_isPunct closes).1
    simp [opening, closing, ih]

end Constant

namespace ConstantScope

open Constant

variable {scope : ConstantScope} {memo : ConstantMemo} {tokens : List Token} {text : String}

theorem strings_of_text (evaluated : (scope.evaluate tokens memo).1 = some (.text text)) :
    ∃ literals bodies, Enclosed literals tokens ∧ List.Forall₂ IsString literals bodies ∧
      text = String.ofList bodies.flatten := by
  have literal : literal? tokens = some (some (.text text)) := by
    rw [evaluate_eq] at evaluated
    split at evaluated
    · next found => rw [found, evaluated]
    · obtain ⟨value, -, other⟩ := Option.map_eq_some_iff.mp evaluated
      cases other
  obtain ⟨literals, bodies, -, enclosed, strings, spelled⟩ | ⟨⟨-, enclosed⟩, rfl⟩ :=
    literal?_eq_text.mp literal
  · exact ⟨literals, bodies, enclosed, strings, spelled⟩
  · exact ⟨[], [], enclosed, .nil, rfl⟩

/-- A string constant keeps its meaning. Where tokens of any texts are evaluated to a text, every
string literal among them has a value in C, and the literal that is written for the text has in Rust
the values of them all, one after another. -/
theorem text_keeps_meaning (scope : ConstantScope) (memo : ConstantMemo) (tokens : List Token)
    (text : String) (cut : ∀ token ∈ tokens, ∃ source line, token ∈ tokenize source line)
    (evaluated : (scope.evaluate tokens memo).1 = some (.text text)) :
    ∃ literal meanings, Rust.literal? (.text text) = some literal ∧
      List.Forall₂ (fun token meaning => CEscape.rule.value? token.text.toList = some meaning)
        (tokens.filter (·.kind = .string)) meanings ∧
      RustEscape.rule.value? literal.toList = some meanings.flatten := by
  obtain ⟨literals, bodies, enclosed, strings, rfl⟩ := strings_of_text evaluated
  have kinds : ∀ token ∈ literals, token.kind = .string := (strings_iff.mp strings).1
  have among : tokens.filter (·.kind = .string) = literals := by
    rw [enclosed.filter_string, List.filter_eq_self]
    simpa using kinds
  have cutLiterals : ∀ token ∈ literals, ∃ source line, token ∈ tokenize source line := by
    intro token member
    rw [← among] at member
    exact cut token (List.mem_of_mem_filter member)
  obtain ⟨meanings, values, means⟩ := means_of_strings strings cutLiterals
  refine ⟨_, meanings, rfl, among ▸ values, ?_⟩
  have written : ("\"" ++ String.ofList bodies.flatten ++ "\"").toList =
      '"' :: (bodies.flatten ++ ['"']) := by simp
  rw [written]
  exact (means ['"']).trans (by simp [EscapeRule.contents?_quote])

def splitNull : List Token := tokenize "(\"a\\0\" \"12\\n\")"

theorem text_keeps_meaning_splitNull :
    let target : Target := { name := "x86", pointerWidth := 32, longWidth := 32, predefined := ∅ }
    ((⟨{}, target⟩ : ConstantScope).evaluate splitNull {}).1 = some (.text "a\\012\\n") ∧
      ∃ literal meanings, Rust.literal? (.text "a\\012\\n") = some literal ∧
        List.Forall₂ (fun token meaning => CEscape.rule.value? token.text.toList = some meaning)
          (splitNull.filter (·.kind = .string)) meanings ∧
        RustEscape.rule.value? literal.toList = some meanings.flatten := by
  intro target
  have literal : literal? splitNull = some (some (.text "a\\012\\n")) := by decide +kernel
  have evaluated : ((⟨{}, target⟩ : ConstantScope).evaluate splitNull {}).1 =
      some (.text "a\\012\\n") := by rw [evaluate_eq, literal]
  exact ⟨evaluated,
    text_keeps_meaning _ _ splitNull _ (fun token member => ⟨_, _, member⟩) evaluated⟩

end ConstantScope

end CBindings
