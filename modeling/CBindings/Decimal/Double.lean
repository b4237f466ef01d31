import CBindings.Decimal.Basic

/-! Binary floating point numbers of 64 bits, and the one nearest to a decimal number. -/

namespace CBindings

inductive Double where
  | finite (negative : Bool) (significand : Nat) (exponent : Int)
  | infinite (negative : Bool)
  | undefined
  deriving DecidableEq, Repr

namespace Double

def negate : Double → Double
  | finite negative significand exponent => finite (!negative) significand exponent
  | infinite negative => infinite (!negative)
  | undefined => undefined

def roundQuotient (n d : Nat) : Nat :=
  let q := n / d
  match compare (2 * (n % d)) d with
  | .lt => q
  | .gt => q + 1
  | .eq => if q % 2 = 0 then q else q + 1

def leastExponent : Int := -1074

def greatestExponent : Int := 971

def precision : Nat := 53

def scaled (n d : Nat) (exponent : Int) : Nat × Nat :=
  (n * Nat.pow 2 (-exponent).toNat, d * Nat.pow 2 exponent.toNat)

def exponentFor (n d : Nat) : Int :=
  let least := max leastExponent ((n.log2 : Int) - d.log2 - precision)
  let quotient := scaled n d least
  if quotient.1 / quotient.2 < Nat.pow 2 precision then least else least + 1

def ofQuotient (n d : Nat) : Double :=
  let exponent := exponentFor n d
  let quotient := scaled n d exponent
  let significand := roundQuotient quotient.1 quotient.2
  let carried := significand = Nat.pow 2 precision
  let significand := if carried then Nat.pow 2 (precision - 1) else significand
  let exponent := if carried then exponent + 1 else exponent
  if greatestExponent < exponent then infinite false else finite false significand exponent

def ofDecimal (d : Decimal) : Double :=
  let leading : Int := (Nat.toDigits 10 d.digits).length + d.exponent
  if d.digits = 0 ∨ leading < -330 then finite false 0 leastExponent
  else if 330 < leading then infinite false
  else ofQuotient (d.digits * Nat.pow 10 d.exponent.toNat) (Nat.pow 10 (-d.exponent).toNat)

end Double

end CBindings
