import CBindings.Json.Basic
import CBindings.Text.Word

/-! Reading JSON: first its tokens, then their structure. -/

namespace CBindings

inductive JsonToken where
  | value (value : Json)
  | openArray
  | closeArray
  | openObject
  | closeObject
  | comma
  | colon

namespace Json

open Text

def isSpace (c : Char) : Bool := c = ' ' || c = '\t' || c = '\n' || c = '\r'

def hexValue? (c : Char) : Option Nat :=
  if isAsciiDigit c then some (c.toNat - '0'.toNat)
  else if 'a' ≤ c ∧ c ≤ 'f' then some (c.toNat - 'a'.toNat + 10)
  else if 'A' ≤ c ∧ c ≤ 'F' then some (c.toNat - 'A'.toNat + 10)
  else none

def hexUnit? (a b c d : Char) : Option Nat := do
  return (((← hexValue? a) * 16 + (← hexValue? b)) * 16 + (← hexValue? c)) * 16 + (← hexValue? d)

def shortEscape? (c : Char) : Option Nat :=
  match c with
  | '"' => some '"'.toNat
  | '\\' => some '\\'.toNat
  | '/' => some '/'.toNat
  | 'b' => some 8
  | 'f' => some 12
  | 'n' => some '\n'.toNat
  | 'r' => some '\r'.toNat
  | 't' => some '\t'.toNat
  | _ => none

inductive StringUnit where
  | plain (unit : TextUnit)
  | escape (number : Nat)

def stringUnits? : JsonText → Option (List StringUnit × JsonText)
  | [] => none
  | .char '"' :: rest => some ([], rest)
  | .char '\\' :: .char 'u' :: .char a :: .char b :: .char c :: .char d :: rest => do
    let number ← hexUnit? a b c d
    let (units, after) ← stringUnits? rest
    return (.escape number :: units, after)
  | .char '\\' :: .char c :: rest => do
    let number ← shortEscape? c
    let (units, after) ← stringUnits? rest
    return (.escape number :: units, after)
  | .half index :: rest => do
    let (units, after) ← stringUnits? rest
    return (.plain (.half index) :: units, after)
  | .char c :: rest =>
    if c.toNat < 32 ∨ c = '\\' then none
    else do
      let (units, after) ← stringUnits? rest
      return (.plain (.char c) :: units, after)

def isHighUnit (unit : Nat) : Bool := 0xD800 ≤ unit && unit < 0xDC00

def isLowUnit (unit : Nat) : Bool := 0xDC00 ≤ unit && unit < 0xE000

def ofUnit (unit : Nat) : TextUnit :=
  if isHighUnit unit || isLowUnit unit then .half (Fin.ofNat 2048 (unit - 0xD800))
  else .char (Char.ofNat unit)

def ofUnits : List StringUnit → JsonText
  | [] => []
  | .plain unit :: rest => unit :: ofUnits rest
  | .escape high :: .escape low :: rest =>
    if isHighUnit high && isLowUnit low then
      .char (Char.ofNat (0x10000 + (high - 0xD800) * 0x400 + (low - 0xDC00))) :: ofUnits rest
    else ofUnit high :: ofUnits (.escape low :: rest)
  | .escape unit :: rest => ofUnit unit :: ofUnits rest

theorem stringUnits?_length {text : JsonText} {read : List StringUnit × JsonText}
    (found : stringUnits? text = some read) : read.2.length < text.length := by
  fun_induction stringUnits? text generalizing read with
  | case1 => simp at found
  | case2 rest =>
    simp only [Option.some.injEq] at found
    simp [← found]
  | case3 a b c d rest ih =>
    simp only [Option.bind_eq_bind, Option.bind_eq_some_iff, Option.pure_def,
      Option.some.injEq] at found
    obtain ⟨unit, _, inner, read, rfl⟩ := found
    have := ih read
    simp only [List.length_cons]
    omega
  | case4 c rest _ ih =>
    simp only [Option.bind_eq_bind, Option.bind_eq_some_iff, Option.pure_def,
      Option.some.injEq] at found
    obtain ⟨unit, _, inner, read, rfl⟩ := found
    have := ih read
    simp only [List.length_cons]
    omega
  | case5 index rest ih =>
    simp only [Option.bind_eq_bind, Option.bind_eq_some_iff, Option.pure_def,
      Option.some.injEq] at found
    obtain ⟨inner, read, rfl⟩ := found
    have := ih read
    simp only [List.length_cons]
    omega
  | case6 => simp at found
  | case7 c rest _ _ _ _ ih =>
    simp only [Option.bind_eq_bind, Option.bind_eq_some_iff, Option.pure_def,
      Option.some.injEq] at found
    obtain ⟨inner, read, rfl⟩ := found
    have := ih read
    simp only [List.length_cons]
    omega

def digits? (text : List Char) : Option (List Char × List Char) :=
  if text.takeWhile isAsciiDigit = [] then none
  else some (text.takeWhile isAsciiDigit, text.dropWhile isAsciiDigit)

def whole? (text : List Char) : Option (List Char × List Char) :=
  match text with
  | '0' :: rest => some (['0'], rest)
  | text => digits? text

def fraction (text : List Char) : List Char × List Char :=
  match text with
  | '.' :: rest =>
    match digits? rest with
    | some (digits, after) => ('.' :: digits, after)
    | none => ([], text)
  | _ => ([], text)

def sign (text : List Char) : List Char × List Char :=
  match text with
  | '+' :: rest => (['+'], rest)
  | '-' :: rest => (['-'], rest)
  | _ => ([], text)

def power (text : List Char) : List Char × List Char :=
  match text with
  | mark :: rest =>
    if mark = 'e' ∨ mark = 'E' then
      match digits? (sign rest).2 with
      | some (digits, after) => (mark :: (sign rest).1 ++ digits, after)
      | none => ([], text)
    else ([], text)
  | [] => ([], text)

def unsigned? (negative : Bool) (text : List Char) : Option (Json × List Char) := do
  let (digits, rest) ← whole? text
  let (point, rest) := fraction rest
  let (exponent, rest) := power rest
  if point.isEmpty && exponent.isEmpty then
    let n : Int := Decimal.digitsValue digits
    return (.int (if negative then -n else n), rest)
  else
    let x := Double.ofDecimal (Decimal.ofText (digits ++ point ++ exponent))
    return (.real (if negative then x.negate else x), rest)

def words : List (List Char × Json) :=
  [("null".toList, .null), ("true".toList, .bool true), ("false".toList, .bool false),
   ("NaN".toList, .real .undefined), ("Infinity".toList, .real (.infinite false)),
   ("-Infinity".toList, .real (.infinite true))]

def word? (text : List Char) : Option (Json × List Char) :=
  words.findSome? fun (word, value) =>
    if word.isPrefixOf text then some (value, text.drop word.length) else none

def number? (text : List Char) : Option (Json × List Char) :=
  match text with
  | '-' :: rest => unsigned? true rest
  | text => unsigned? false text

def atom? (text : List Char) : Option (Json × List Char) :=
  match word? text with
  | some read => some read
  | none => number? text

def isAtomChar (c : Char) : Bool := c.isAlphanum || c = '+' || c = '-' || c = '.'

def atomSpan : JsonText → List Char × JsonText
  | [] => ([], [])
  | .half index :: rest => ([], .half index :: rest)
  | .char c :: rest =>
    if isAtomChar c then
      let (chars, after) := atomSpan rest
      (c :: chars, after)
    else ([], .char c :: rest)

def token? (c : Char) (rest : JsonText) : Option (JsonToken × JsonText) :=
  match c with
  | '[' => some (.openArray, rest)
  | ']' => some (.closeArray, rest)
  | '{' => some (.openObject, rest)
  | '}' => some (.closeObject, rest)
  | ',' => some (.comma, rest)
  | ':' => some (.colon, rest)
  | '"' => (stringUnits? rest).map fun (units, after) =>
      (.value (.text (ofUnits units)), after)
  | c => (atom? (c :: (atomSpan rest).1)).map fun (value, after) =>
      (.value value, after.map .char ++ (atomSpan rest).2)

theorem digits?_length {text : List Char} {read : List Char × List Char}
    (found : digits? text = some read) : read.2.length < text.length := by
  unfold digits? at found
  split at found
  · simp at found
  · next some_digits =>
    simp only [Option.some.injEq] at found
    subst found
    have whole := congrArg List.length
      (List.takeWhile_append_dropWhile (p := isAsciiDigit) (l := text))
    have := List.length_pos_iff.mpr some_digits
    simp only [List.length_append] at whole
    simp only
    omega

theorem whole?_length {text : List Char} {read : List Char × List Char}
    (found : whole? text = some read) : read.2.length < text.length := by
  unfold whole? at found
  split at found
  · simp only [Option.some.injEq] at found
    simp [← found]
  · exact digits?_length found

theorem fraction_length (text : List Char) : (fraction text).2.length ≤ text.length := by
  unfold fraction
  split
  · next rest =>
    split
    · next digits after found =>
      have : after.length < rest.length := digits?_length found
      simp only [List.length_cons]
      omega
    · exact Nat.le_refl _
  · exact Nat.le_refl _

theorem sign_length (text : List Char) : (sign text).2.length ≤ text.length := by
  unfold sign
  split <;> simp

theorem power_length (text : List Char) : (power text).2.length ≤ text.length := by
  unfold power
  split
  · next mark rest =>
    split
    · split
      · next digits after found =>
        have : after.length < (sign rest).2.length := digits?_length found
        have := sign_length rest
        simp only [List.length_cons]
        omega
      · exact Nat.le_refl _
    · exact Nat.le_refl _
  · exact Nat.le_refl _

theorem unsigned?_length {negative : Bool} {text : List Char} {read : Json × List Char}
    (found : unsigned? negative text = some read) : read.2.length < text.length := by
  simp only [unsigned?, Option.bind_eq_bind, Option.bind_eq_some_iff] at found
  obtain ⟨⟨digits, rest⟩, start, found⟩ := found
  have first : rest.length < text.length := whole?_length start
  have second := fraction_length rest
  have third := power_length (fraction rest).2
  have last : read.2 = (power (fraction rest).2).2 := by
    simp only at found
    split at found <;> simp only [Option.pure_def, Option.some.injEq] at found <;> rw [← found]
  rw [last]
  omega

theorem word?_length {text : List Char} {read : Json × List Char}
    (found : word? text = some read) : read.2.length < text.length := by
  obtain ⟨⟨word, value⟩, listed, found⟩ := List.exists_of_findSome?_eq_some found
  simp only at found
  split at found
  · next starts =>
    have shorter := (List.isPrefixOf_iff_prefix.mp starts).length_le
    simp only [Option.some.injEq] at found
    have nonempty : 0 < word.length := by
      simp only [words, List.mem_cons, Prod.mk.injEq, List.not_mem_nil, or_false] at listed
      rcases listed with h | h | h | h | h | h <;> rw [h.1] <;> decide
    rw [← found, List.length_drop]
    omega
  · simp at found

theorem atom?_length {text : List Char} {read : Json × List Char}
    (found : atom? text = some read) : read.2.length < text.length := by
  unfold atom? at found
  split at found
  · next first => exact word?_length (found ▸ first)
  · unfold number? at found
    split at found
    · have := unsigned?_length found
      simp only [List.length_cons]
      omega
    · exact unsigned?_length found

theorem atomSpan_length (text : JsonText) :
    (atomSpan text).1.length + (atomSpan text).2.length = text.length := by
  fun_induction atomSpan text with
  | case1 | case2 | case4 => simp
  | case3 c rest _ chars after spanned ih =>
    rw [spanned] at ih
    simp only [List.length_cons] at ih ⊢
    omega

theorem token?_length {c : Char} {rest : JsonText} {read : JsonToken × JsonText}
    (found : token? c rest = some read) : read.2.length ≤ rest.length := by
  unfold token? at found
  split at found
  · simp only [Option.some.injEq] at found
    simp [← found]
  · simp only [Option.some.injEq] at found
    simp [← found]
  · simp only [Option.some.injEq] at found
    simp [← found]
  · simp only [Option.some.injEq] at found
    simp [← found]
  · simp only [Option.some.injEq] at found
    simp [← found]
  · simp only [Option.some.injEq] at found
    simp [← found]
  · obtain ⟨⟨units, after⟩, string, rfl⟩ := Option.map_eq_some_iff.mp found
    exact Nat.le_of_lt (stringUnits?_length string)
  · obtain ⟨⟨value, after⟩, atom, rfl⟩ := Option.map_eq_some_iff.mp found
    have fewer : after.length < (atomSpan rest).1.length + 1 := atom?_length atom
    have whole := atomSpan_length rest
    simp only [List.length_append, List.length_map]
    omega

def tokens? : JsonText → Option (List JsonToken)
  | [] => some []
  | .half _ :: _ => none
  | .char c :: rest =>
    if isSpace c then tokens? rest
    else
      match _found : token? c rest with
      | none => none
      | some (token, after) => (tokens? after).map (token :: ·)
termination_by text => text.length
decreasing_by
  · simp
  · exact Nat.lt_succ_of_le (token?_length _found)

/-- A container that is open: what it holds so far, last first, and the key a value is for. -/
inductive Frame where
  | array (done : List Json)
  | object (done : List (JsonText × Json)) (key : JsonText)

inductive Phase where
  | value (stack : List Frame)
  | firstItem (stack : List Frame)
  | nextItem (done : List Json) (stack : List Frame)
  | firstKey (stack : List Frame)
  | key (done : List (JsonText × Json)) (stack : List Frame)
  | colon (done : List (JsonText × Json)) (key : JsonText) (stack : List Frame)
  | nextKey (done : List (JsonText × Json)) (stack : List Frame)
  | finished (value : Json)

def deliver (value : Json) : List Frame → Phase
  | [] => .finished value
  | .array done :: stack => .nextItem (value :: done) stack
  | .object done key :: stack => .nextKey ((key, value) :: done) stack

def startValue (stack : List Frame) : JsonToken → Option Phase
  | .value value => some (deliver value stack)
  | .openArray => some (.firstItem stack)
  | .openObject => some (.firstKey stack)
  | _ => none

def objectOf (done : List (JsonText × Json)) : Json :=
  .keyed (OrderedMap.ofList done.reverse).entries

def step : Phase → JsonToken → Option Phase
  | .value stack, token => startValue stack token
  | .firstItem stack, .closeArray => some (deliver (.array []) stack)
  | .firstItem stack, token => startValue (.array [] :: stack) token
  | .nextItem done stack, .comma => some (.value (.array done :: stack))
  | .nextItem done stack, .closeArray => some (deliver (.array done.reverse) stack)
  | .firstKey stack, .closeObject => some (deliver (.keyed []) stack)
  | .firstKey stack, .value (.text key) => some (.colon [] key stack)
  | .key done stack, .value (.text key) => some (.colon done key stack)
  | .colon done key stack, .colon => some (.value (.object done key :: stack))
  | .nextKey done stack, .comma => some (.key done stack)
  | .nextKey done stack, .closeObject => some (deliver (objectOf done) stack)
  | _, _ => none

def read? (text : JsonText) : Option Json := do
  match ← (← tokens? text).foldlM step (.value []) with
  | .finished value => some value
  | _ => none

end Json

end CBindings
