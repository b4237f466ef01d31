import CBindings.Json.Basic

/-! Values without parts, and their order. -/

namespace CBindings

/-- What a value without parts counts as. A whole number is the same however it is written, and the
truth values count as 0 and 1. -/
inductive Scalar where
  | null
  | whole (n : Int)
  | real (x : Double)
  | text (units : JsonText)
  deriving DecidableEq, Repr

namespace Scalar

def signed (negative : Bool) (n : Nat) : Int := if negative then -n else n

def ofDouble : Double → Scalar
  | .finite negative significand exponent =>
    if 0 ≤ exponent then whole (signed negative (significand * Nat.pow 2 exponent.toNat))
    else if significand % Nat.pow 2 (-exponent).toNat = 0 then
      whole (signed negative (significand / Nat.pow 2 (-exponent).toNat))
    else real (.finite negative significand exponent)
  | x => real x

def quotient? : Scalar → Option (Int × Nat)
  | whole n => some (n, 1)
  | real (.finite negative significand exponent) =>
    some (signed negative (significand * Nat.pow 2 exponent.toNat),
      Nat.pow 2 (-exponent).toNat)
  | _ => none

def isNumber : Scalar → Bool
  | whole _ | real _ => true
  | _ => false

def isBelow (a b : Scalar) : Bool :=
  match a, b with
  | real .undefined, _ | _, real .undefined => false
  | real (.infinite negative), b => negative && b ≠ real (.infinite true)
  | a, real (.infinite negative) => !negative && a ≠ real (.infinite false)
  | a, b =>
    match a.quotient?, b.quotient? with
    | some (n, d), some (m, e) => n * e < m * d
    | _, _ => false

def codeOf : TextUnit → Nat
  | .char c => c.toNat
  | .half index => 0xD800 + index

def precedes? : Scalar → Scalar → Option Bool
  | text a, text b => some (decide (a.map codeOf < b.map codeOf))
  | a, b => if a.isNumber && b.isNumber then some (a.isBelow b) else none

end Scalar

namespace Json

def scalar? : Json → Option Scalar
  | null => some .null
  | bool b => some (.whole (if b then 1 else 0))
  | int n => some (.whole n)
  | real x => some (.ofDouble x)
  | text units => some (.text units)
  | array _ | keyed _ => none

mutual

/-- Whether two values are equal. Numbers and truth values go by what they count as, members by their
keys. -/
def equals : Json → Json → Bool
  | array items, other =>
    match other with
    | array others => equalItems items others
    | _ => false
  | keyed members, other =>
    match other with
    | keyed others => members.length = others.length && equalMembers members others
    | _ => false
  | value, other =>
    match value.scalar?, other.scalar? with
    | some a, some b => a = b
    | _, _ => false

def equalItems : List Json → List Json → Bool
  | [], others => others.isEmpty
  | item :: rest, others =>
    match others with
    | [] => false
    | other :: others => equals item other && equalItems rest others

def equalMembers : List (JsonText × Json) → List (JsonText × Json) → Bool
  | [], _ => true
  | (key, value) :: rest, others =>
    (match others.lookup key with
      | some other => equals value other
      | none => false) && equalMembers rest others

end

def kindName : Json → String
  | null => "NoneType"
  | bool _ => "bool"
  | int _ => "int"
  | real _ => "float"
  | text _ => "str"
  | array _ => "list"
  | keyed _ => "dict"

end Json

end CBindings
