import CBindings.Expr.Error
import CBindings.Integer.Basic
import CBindings.Text.Numeral

/-! Reading number and character literals. -/

namespace CBindings.Literal

open Text

def isHexDigit (c : Char) : Bool :=
  isAsciiDigit c || ('a' ≤ c && c ≤ 'f') || ('A' ≤ c && c ≤ 'F')

def dropFinalLineFeed (text : List Char) : List Char :=
  if text.getLast? = some '\n' then text.dropLast else text

structure Digits where
  style : NumberStyle
  digits : List Char
  rest : List Char

def digits? (text : List Char) : Option Digits :=
  let plain : Option Digits :=
    match text.takeWhile isAsciiDigit with
    | [] => none
    | ['0'] => some ⟨.decimal, ['0'], text.dropWhile isAsciiDigit⟩
    | '0' :: more => some ⟨.octal, '0' :: more, text.dropWhile isAsciiDigit⟩
    | digits => some ⟨.decimal, digits, text.dropWhile isAsciiDigit⟩
  match text with
  | '0' :: mark :: rest =>
    if mark = 'x' ∨ mark = 'X' then
      match rest.takeWhile isHexDigit with
      | [] => plain
      | digits => some ⟨.hex, digits, rest.dropWhile isHexDigit⟩
    else if mark = 'b' ∨ mark = 'B' then
      match rest.takeWhile (fun c => c == '0' || c == '1') with
      | [] => plain
      | digits => some ⟨.binary, digits, rest.dropWhile (fun c => c == '0' || c == '1')⟩
    else plain
  | _ => plain

inductive Suffix where
  | plain (unsigned : Bool) (longs : Nat)
  | sized (unsigned : Bool) (bits : Nat)
  deriving DecidableEq, Repr

def sized? (unsigned : Bool) : List Char → Option Suffix
  | ['i', '8'] => some (.sized unsigned 8)
  | ['i', '1', '6'] => some (.sized unsigned 16)
  | ['i', '3', '2'] => some (.sized unsigned 32)
  | ['i', '6', '4'] => some (.sized unsigned 64)
  | _ => none

def suffix? (text : List Char) : Option Suffix :=
  if text.all fun c => c == 'u' || c == 'U' || c == 'l' || c == 'L' then
    some (.plain (text.any fun c => c == 'u' || c == 'U')
      (text.countP fun c => c == 'l' || c == 'L'))
  else
    match text with
    | 'u' :: rest => sized? true rest
    | 'U' :: rest => sized? true rest
    | rest => sized? false rest

def candidates (longWidth : Nat) (style : NumberStyle) : Suffix → List IntType
  | .sized unsigned bits => [⟨Nat.max bits 32, !unsigned⟩]
  | .plain unsigned longs =>
    let long : List IntType := [⟨longWidth, true⟩, ⟨longWidth, false⟩]
    let longest : List IntType := [.longLong, .ulongLong]
    let all : List IntType :=
      if 2 ≤ longs then longest
      else if longs = 1 then long ++ longest
      else [.int, .uint] ++ long ++ longest
    if unsigned then all.filter (!·.signed)
    else if style = .decimal then all.filter (·.signed)
    else all

def typed (types : List IntType) (style : NumberStyle) (value : Nat) : IntValue :=
  match types.find? (·.fits value) with
  | some type => ⟨value, type, style⟩
  | none =>
    let widest := types.getLast?.getD .ulongLong
    ⟨widest.wrap value, widest, style⟩

def base : NumberStyle → Nat
  | .hex => 16
  | .octal => 8
  | .binary => 2
  | _ => 10

def valueOf (style : NumberStyle) (digits : List Char) : Nat :=
  ofDigits (base style) (digits.filterMap (digitIn? (base style)))

/-- Reads an integer literal for a target whose `long` has `longWidth` bits. -/
def integer (text : String) (longWidth : Nat := 32) : Except ExpressionError IntValue :=
  match digits? (dropFinalLineFeed text.toList) with
  | none => .error (.notInteger text)
  | some read =>
    match suffix? read.rest with
    | none => .error (.notInteger text)
    | some suffix =>
      if read.style = .octal ∧ read.digits.any (fun c => c == '8' || c == '9') then
        .error (.invalidOctal text)
      else .ok (typed (candidates longWidth read.style suffix) read.style
        (valueOf read.style read.digits))

def dropSign : List Char → List Char
  | '+' :: rest => rest
  | '-' :: rest => rest
  | rest => rest

def exponent? : List Char → Option (List Char)
  | [] => none
  | mark :: rest =>
    if mark = 'e' ∨ mark = 'E' then
      let unsigned := dropSign rest
      if unsigned.takeWhile isAsciiDigit = [] then none else some (unsigned.dropWhile isAsciiDigit)
    else none

def isFloatSuffix (text : List Char) : Bool :=
  [[], ['f'], ['F'], ['l'], ['L']].contains text

def isFloat (text : String) : Bool :=
  let text := dropFinalLineFeed text.toList
  let whole := text.takeWhile isAsciiDigit
  match text.dropWhile isAsciiDigit with
  | '.' :: rest =>
    let after := rest.dropWhile isAsciiDigit
    (!whole.isEmpty || !(rest.takeWhile isAsciiDigit).isEmpty) &&
      (isFloatSuffix after || (exponent? after).any isFloatSuffix)
  | rest => !whole.isEmpty && (exponent? rest).any isFloatSuffix

def escapes : List (List Char × Nat) :=
  [(['n'], 10), (['t'], 9), (['r'], 13), (['0'], 0), (['a'], 7), (['b'], 8), (['f'], 12),
   (['v'], 11), (['\\'], 92), (['\''], 39), (['"'], 34), (['?'], 63)]

def escape (text : String) (body : List Char) : Except ExpressionError Int :=
  let numeric (base : Nat) (digits : List Char) : Except ExpressionError Int :=
    match numeral? base digits with
    | some value => .ok value
    | none => .error (.invalidEscape text)
  match body with
  | 'x' :: digits => numeric 16 digits
  | c :: rest =>
    if isDigit c then numeric 8 (c :: rest)
    else match escapes.lookup (c :: rest) with
      | some value => .ok value
      | none => .error (.unknownEscape text)
  | [] => .error (.unknownEscape text)

/-- Reads a character literal with or without a prefix: the text between its first quote and its
last character. -/
def character (text : String) : Except ExpressionError IntValue :=
  match text.toList.dropWhile (· != '\'') with
  | [] => .error .unquotedCharacter
  | _ :: rest =>
    match rest.dropLast with
    | [] => .error .emptyCharacter
    | '\\' :: body => (escape text body).map fun value => ⟨value, .int, .character⟩
    | [c] => .ok ⟨c.toNat, .int, .character⟩
    | _ => .error (.multipleCharacters text)

end CBindings.Literal
