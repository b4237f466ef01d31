import CBindings.Text.Word

/-! Decimal numbers with an exponent. -/

namespace CBindings

structure Decimal where
  digits : Nat
  exponent : Int
  deriving DecidableEq, Repr

namespace Decimal

open Text

def digitsValue (text : List Char) : Nat :=
  text.foldl (fun value c => value * 10 + (c.toNat - '0'.toNat)) 0

def exponentOf (text : List Char) : Int :=
  match text with
  | mark :: rest =>
    if mark = 'e' ∨ mark = 'E' then
      match rest with
      | '-' :: digits => -(digitsValue (digits.takeWhile isAsciiDigit) : Int)
      | '+' :: digits => digitsValue (digits.takeWhile isAsciiDigit)
      | digits => digitsValue (digits.takeWhile isAsciiDigit)
    else 0
  | [] => 0

/-- The number that starts a text: digits, a point with more digits, and an exponent. -/
def ofText (text : List Char) : Decimal :=
  let whole := text.takeWhile isAsciiDigit
  match text.dropWhile isAsciiDigit with
  | '.' :: rest =>
    let fraction := rest.takeWhile isAsciiDigit
    ⟨digitsValue (whole ++ fraction),
      exponentOf (rest.dropWhile isAsciiDigit) - fraction.length⟩
  | rest => ⟨digitsValue whole, exponentOf rest⟩

end Decimal

end CBindings
