import CBindings.Text.Word
import CBindings.Token.Basic
import CBindings.Token.LogicalLine

/-! Cutting text into tokens: at every place the first class of lexeme that fits, at full length. -/

namespace CBindings.Lexer

open Text

abbrev Cut := List Char × List Char

def isSpace (c : Char) : Bool :=
  c == ' ' || c == '\t' || c == '\r' || c == '\n' || c == '\x0b' || c == '\x0c'

def isIdentStart (c : Char) : Bool := isAsciiLetter c || c == '_' || c == '$'

def isIdentChar (c : Char) : Bool := isIdentStart c || isAsciiDigit c

def isNumberChar (c : Char) : Bool := isAsciiLetter c || isAsciiDigit c || c == '_' || c == '.'

def isExponentMark (c : Char) : Bool := c == 'e' || c == 'E' || c == 'p' || c == 'P'

def quotedBody? (quote : Char) : List Char → Option Cut
  | [] => none
  | c :: rest =>
    if c = quote then some ([c], rest)
    else if c = '\n' then none
    else if c = '\\' then
      match rest with
      | [] => none
      | escaped :: after =>
        if escaped = '\n' then none
        else (quotedBody? quote after).map fun cut => (c :: escaped :: cut.1, cut.2)
    else (quotedBody? quote rest).map fun cut => (c :: cut.1, cut.2)

def quoted? (quote : Char) : List Char → Option Cut
  | 'u' :: '8' :: c :: rest =>
    if c = quote then (quotedBody? quote rest).map fun cut => ('u' :: '8' :: c :: cut.1, cut.2)
    else none
  | first :: rest =>
    if first = quote then (quotedBody? quote rest).map fun cut => (first :: cut.1, cut.2)
    else if first = 'u' ∨ first = 'U' ∨ first = 'L' then
      match rest with
      | [] => none
      | c :: body =>
        if c = quote then (quotedBody? quote body).map fun cut => (first :: c :: cut.1, cut.2)
        else none
    else none
  | [] => none

def numberTail : List Char → Cut
  | [] => ([], [])
  | [c] => if isNumberChar c then ([c], []) else ([], [c])
  | c :: sign :: rest =>
    if isExponentMark c && (sign == '+' || sign == '-') then
      let cut := numberTail rest
      (c :: sign :: cut.1, cut.2)
    else if isNumberChar c then
      let cut := numberTail (sign :: rest)
      (c :: cut.1, cut.2)
    else ([], c :: sign :: rest)

def number? : List Char → Option Cut
  | '.' :: c :: rest =>
    if isAsciiDigit c then
      let cut := numberTail rest
      some ('.' :: c :: cut.1, cut.2)
    else none
  | c :: rest =>
    if isAsciiDigit c then
      let cut := numberTail rest
      some (c :: cut.1, cut.2)
    else none
  | [] => none

def ident? : List Char → Option Cut
  | [] => none
  | c :: rest =>
    if isIdentStart c then some (c :: rest.takeWhile isIdentChar, rest.dropWhile isIdentChar)
    else none

def longPunctuators : List String :=
  ["...", "<<=", ">>=", "->", "++", "--", "<<", ">>", "<=", ">=", "==", "!=", "&&", "||", "##",
   "+=", "-=", "*=", "/=", "%=", "&=", "|=", "^=", "::"]

def punctuator (c : Char) (rest : List Char) : Cut :=
  match longPunctuators.find? fun p => p.toList.isPrefixOf (c :: rest) with
  | some p => (c :: rest.take (p.length - 1), rest.drop (p.length - 1))
  | none => ([c], rest)

/-- The token at the start of a text that does not start with a space. -/
def token (c : Char) (rest : List Char) : TokenKind × Cut :=
  match quoted? '"' (c :: rest) with
  | some cut => (.string, cut)
  | none =>
    match quoted? '\'' (c :: rest) with
    | some cut => (.char, cut)
    | none =>
      match number? (c :: rest) with
      | some cut => (.number, cut)
      | none =>
        match ident? (c :: rest) with
        | some cut => (.ident, cut)
        | none => (.punct, punctuator c rest)

theorem quotedBody?_length {quote : Char} {text : List Char} {cut : Cut}
    (read : quotedBody? quote text = some cut) : cut.2.length < text.length := by
  fun_induction quotedBody? quote text generalizing cut with
  | case1 => simp at read
  | case2 => simp at read; simp [← read]
  | case3 => simp at read
  | case4 => simp at read
  | case5 => simp at read
  | case6 _ _ _ _ _ ih =>
    obtain ⟨inner, found, rfl⟩ := Option.map_eq_some_iff.mp read
    have := ih found
    simp only [List.length_cons]
    omega
  | case7 _ _ _ _ _ ih =>
    obtain ⟨inner, found, rfl⟩ := Option.map_eq_some_iff.mp read
    have := ih found
    simp only [List.length_cons]
    omega

theorem quoted?_length {quote : Char} {text : List Char} {cut : Cut}
    (read : quoted? quote text = some cut) : cut.2.length < text.length := by
  unfold quoted? at read
  split at read
  · split at read
    · obtain ⟨inner, found, rfl⟩ := Option.map_eq_some_iff.mp read
      have := quotedBody?_length found
      simp only [List.length_cons]
      omega
    · simp at read
  · split at read
    · obtain ⟨inner, found, rfl⟩ := Option.map_eq_some_iff.mp read
      have := quotedBody?_length found
      simp only [List.length_cons]
      omega
    · split at read
      · split at read
        · simp at read
        · split at read
          · obtain ⟨inner, found, rfl⟩ := Option.map_eq_some_iff.mp read
            have := quotedBody?_length found
            simp only [List.length_cons]
            omega
          · simp at read
      · simp at read
  · simp at read

theorem numberTail_length (text : List Char) : (numberTail text).2.length ≤ text.length := by
  fun_induction numberTail text with
  | case4 c sign rest _ cut ih => simp only [cut, List.length_cons]; omega
  | case5 c sign rest _ _ cut ih => simp only [cut, List.length_cons] at ih ⊢; omega
  | _ => simp

theorem number?_length {text : List Char} {cut : Cut} (read : number? text = some cut) :
    cut.2.length < text.length := by
  unfold number? at read
  split at read
  · next c rest =>
    split at read
    · have := numberTail_length rest
      simp only [Option.some.injEq] at read
      simp only [← read, List.length_cons]
      omega
    · simp at read
  · next c rest _ =>
    split at read
    · have := numberTail_length rest
      simp only [Option.some.injEq] at read
      simp only [← read, List.length_cons]
      omega
    · simp at read
  · simp at read

theorem ident?_length {text : List Char} {cut : Cut} (read : ident? text = some cut) :
    cut.2.length < text.length := by
  unfold ident? at read
  split at read
  · simp at read
  · next c rest =>
    split at read
    · have := (List.dropWhile_suffix isIdentChar (l := rest)).length_le
      simp only [Option.some.injEq] at read
      simp only [← read, List.length_cons]
      omega
    · simp at read

theorem punctuator_length (c : Char) (rest : List Char) :
    (punctuator c rest).2.length ≤ rest.length := by
  unfold punctuator
  split
  · simp
  · simp

theorem token_length (c : Char) (rest : List Char) :
    (token c rest).2.2.length < (c :: rest).length := by
  unfold token
  split
  · next read => exact quoted?_length read
  · split
    · next read => exact quoted?_length read
    · split
      · next read => exact number?_length read
      · split
        · next read => exact ident?_length read
        · exact Nat.lt_succ_of_le (punctuator_length c rest)

def tokensOf (line : Nat) : List Char → List Token
  | [] => []
  | c :: rest =>
    if isSpace c then tokensOf line rest
    else
      let cut := token c rest
      ⟨cut.1, String.ofList cut.2.1, line⟩ :: tokensOf line cut.2.2
termination_by text => text.length
decreasing_by
  · simp
  · exact token_length c rest

end CBindings.Lexer

namespace CBindings

def tokenize (text : String) (line : Nat := 0) : List Token := Lexer.tokensOf line text.toList

def tokensOfLines (source : String) : List Token :=
  (logicalLines source).flatMap fun line => Lexer.tokensOf line.number line.text

end CBindings
