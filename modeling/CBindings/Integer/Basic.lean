/-! C integer types by width and signedness, and values that carry their type. -/

namespace CBindings

structure IntType where
  bits : Nat
  signed : Bool
  deriving DecidableEq, Repr

namespace IntType

def int : IntType := ⟨32, true⟩
def uint : IntType := ⟨32, false⟩
def longLong : IntType := ⟨64, true⟩
def ulongLong : IntType := ⟨64, false⟩

def modulus (t : IntType) : Nat := Nat.pow 2 t.bits

def half (t : IntType) : Nat := Nat.pow 2 (t.bits - 1)

def min (t : IntType) : Int := if t.signed then -(t.half : Int) else 0

def max (t : IntType) : Int := if t.signed then (t.half : Int) - 1 else (t.modulus : Int) - 1

def fits (t : IntType) (value : Int) : Bool := t.min ≤ value && value ≤ t.max

def residue (t : IntType) (value : Int) : Nat := (value % (t.modulus : Int)).toNat

/-- The value modulo `2 ^ bits` in the range of the type. -/
def wrap (t : IntType) (value : Int) : Int :=
  let r : Int := t.residue value
  if t.signed && (t.half : Int) ≤ r then r - t.modulus else r

def name (t : IntType) : String := (if t.signed then "i" else "u") ++ toString t.bits

def ofName? (name : String) : Option IntType :=
  match name.toList with
  | 'i' :: digits => (String.ofList digits).toNat?.map (⟨·, true⟩)
  | 'u' :: digits => (String.ofList digits).toNat?.map (⟨·, false⟩)
  | _ => none

def promote (t : IntType) : IntType := if t.bits < 32 then int else t

/-- The type in which two integers meet: of equal signedness the wider, else the unsigned one
unless the signed one is wider. -/
def common (a b : IntType) : IntType :=
  let a := a.promote
  let b := b.promote
  if a.signed == b.signed then if b.bits ≤ a.bits then a else b
  else
    let unsigned := if a.signed then b else a
    let signed := if a.signed then a else b
    if signed.bits ≤ unsigned.bits then unsigned else signed

end IntType

/-- How a number was written. -/
inductive NumberStyle where
  | decimal
  | hex
  | octal
  | binary
  | character
  deriving DecidableEq, Repr

def NumberStyle.name : NumberStyle → String
  | decimal => "decimal"
  | hex => "hex"
  | octal => "octal"
  | binary => "binary"
  | character => "char"

structure IntValue where
  value : Int
  type : IntType
  style : NumberStyle := .decimal
  deriving DecidableEq, Repr

def IntValue.ofBool (b : Bool) : IntValue := ⟨if b then 1 else 0, .int, .decimal⟩

end CBindings
