import CBindings.Text.Blank
import CBindings.Text.Digit

/-! Whole numbers written in a given base. -/

namespace CBindings.Text

def isNumeralBlank (c : Char) : Bool := isBlank c && !(28 ≤ c.toNat && c.toNat ≤ 31)

def digitIn? (base : Nat) (c : Char) : Option Nat :=
  let value? :=
    if 'a' ≤ c && c ≤ 'z' then some (c.toNat - 'a'.toNat + 10)
    else if 'A' ≤ c && c ≤ 'Z' then some (c.toNat - 'A'.toNat + 10)
    else decimalDigit? c
  value?.filter (· < base)

def ofDigits (base : Nat) (digits : List Nat) : Nat :=
  digits.foldl (fun value digit => value * base + digit) 0

def digitGroups? (base : Nat) : List Char → Option (List Nat)
  | [] => none
  | [c] => (digitIn? base c).map ([·])
  | c :: '_' :: rest => do return (← digitIn? base c) :: (← digitGroups? base rest)
  | c :: rest => do return (← digitIn? base c) :: (← digitGroups? base rest)

def isBaseMark (base : Nat) (c : Char) : Bool :=
  (base == 16 && c.toLower == 'x') || (base == 8 && c.toLower == 'o')

def dropBaseMark (base : Nat) : List Char → List Char
  | zero :: mark :: rest =>
    if decimalDigit? zero = some 0 ∧ isBaseMark base mark then
      match rest with
      | '_' :: digits => digits
      | digits => digits
    else zero :: mark :: rest
  | text => text

def unsignedNumeral? (base : Nat) (text : List Char) : Option Nat :=
  (digitGroups? base (dropBaseMark base text)).map (ofDigits base)

def numeral? (base : Nat) (text : List Char) : Option Int :=
  let trimmed := ((text.dropWhile isNumeralBlank).reverse.dropWhile isNumeralBlank).reverse
  match trimmed with
  | '-' :: rest => (unsignedNumeral? base rest).map fun n => -(n : Int)
  | '+' :: rest => (unsignedNumeral? base rest).map Int.ofNat
  | rest => (unsignedNumeral? base rest).map Int.ofNat

def upperHex (n : Nat) : String := String.ofList ((Nat.toDigits 16 n).map Char.toUpper)

end CBindings.Text
