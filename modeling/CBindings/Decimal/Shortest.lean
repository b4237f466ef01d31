import CBindings.Decimal.Double

/-! The shortest decimal that reads back as a given number, and how numbers are written. -/

namespace CBindings

namespace Decimal

def trim : Nat → Decimal → Decimal
  | 0, d => d
  | steps + 1, d =>
    if d.digits ≠ 0 ∧ d.digits % 10 = 0 then trim steps ⟨d.digits / 10, d.exponent + 1⟩ else d

end Decimal

namespace Double

def exact (significand : Nat) (exponent : Int) : Decimal :=
  if 0 ≤ exponent then ⟨significand * Nat.pow 2 exponent.toNat, 0⟩
  else ⟨significand * Nat.pow 5 (-exponent).toNat, exponent⟩

def nearestWith (x : Double) (d : Decimal) (dropped : Nat) : Option Decimal :=
  let unit := Nat.pow 10 dropped
  let below : Decimal := ⟨d.digits / unit, d.exponent + dropped⟩
  let above : Decimal := ⟨d.digits / unit + 1, d.exponent + dropped⟩
  let readsBelow := ofDecimal below = x
  let readsAbove := ofDecimal above = x
  if readsBelow ∧ readsAbove then
    match compare (2 * (d.digits % unit)) unit with
    | .lt => some below
    | .gt => some above
    | .eq => some (if below.digits % 2 = 0 then below else above)
  else if readsBelow then some below
  else if readsAbove then some above
  else none

def shortest (significand : Nat) (exponent : Int) : Decimal :=
  let d := exact significand exponent
  let length := (Nat.toDigits 10 d.digits).length
  let found := (List.range length).findSome? fun kept =>
    nearestWith (finite false significand exponent) d (length - (kept + 1))
  Decimal.trim length (found.getD d)

def zeros (n : Nat) : List Char := List.replicate n '0'

def layout (d : Decimal) : List Char :=
  let digits := Nat.toDigits 10 d.digits
  let point : Int := digits.length + d.exponent
  if d.digits = 0 then "0.0".toList
  else if -4 < point ∧ point ≤ 16 then
    if point ≤ 0 then "0.".toList ++ zeros (-point).toNat ++ digits
    else if digits.length ≤ point.toNat then
      digits ++ zeros (point.toNat - digits.length) ++ ".0".toList
    else digits.take point.toNat ++ '.' :: digits.drop point.toNat
  else
    let power := point - 1
    let written := Nat.toDigits 10 power.natAbs
    digits.take 1 ++ (if digits.length = 1 then [] else '.' :: digits.drop 1) ++
      ['e', if power < 0 then '-' else '+'] ++ zeros (2 - written.length) ++ written

def render : Double → String
  | finite negative significand exponent =>
    (if negative then "-" else "") ++ String.ofList (layout (shortest significand exponent))
  | infinite negative => if negative then "-inf" else "inf"
  | undefined => "nan"

end Double

end CBindings
