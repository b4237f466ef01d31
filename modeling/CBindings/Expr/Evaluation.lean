import CBindings.Expr.Basic
import CBindings.Expr.Error

/-! The value of an expression by the integer rules of C. -/

namespace CBindings

namespace IntType

def combine (t : IntType) (f : Nat → Nat → Nat) (a b : Int) : Int :=
  t.wrap (f (t.residue a) (t.residue b))

def shiftLeft (t : IntType) (value : Int) (amount : Nat) : Int :=
  t.wrap (value * (Nat.pow 2 (Nat.min amount t.bits) : Nat))

end IntType

namespace UnaryOp

def apply (op : UnaryOp) (operand : IntValue) : IntValue :=
  let t := operand.type.promote
  match op with
  | not => .ofBool (operand.value = 0)
  | negate => ⟨t.wrap (-operand.value), t, .decimal⟩
  | complement => ⟨t.wrap (-operand.value - 1), t, .decimal⟩
  | plus => ⟨operand.value, t, operand.style⟩

end UnaryOp

namespace BinaryOp

def apply (op : BinaryOp) (left right : IntValue) : Except ExpressionError IntValue :=
  let t := IntType.common left.type right.type
  let a := t.wrap left.value
  let b := t.wrap right.value
  let shifted := left.type.promote
  let number (value : Int) : Except ExpressionError IntValue := .ok ⟨value, t, .decimal⟩
  match op with
  | or => .ok (.ofBool (left.value ≠ 0 || right.value ≠ 0))
  | and => .ok (.ofBool (left.value ≠ 0 && right.value ≠ 0))
  | shiftLeft =>
    if right.value < 0 then .error .negativeShift
    else .ok ⟨shifted.shiftLeft left.value right.value.toNat, shifted, .decimal⟩
  | shiftRight =>
    if right.value < 0 then .error .negativeShift
    else .ok ⟨shifted.wrap (left.value >>> right.value.toNat), shifted, .decimal⟩
  | add => number (t.wrap (a + b))
  | sub => number (t.wrap (a - b))
  | mul => number (t.wrap (a * b))
  | div => if b = 0 then .error .divisionByZero else number (t.wrap (a.tdiv b))
  | mod => if b = 0 then .error .divisionByZero else number (t.wrap (a - a.tdiv b * b))
  | bitAnd => number (t.combine (· &&& ·) a b)
  | bitOr => number (t.combine (· ||| ·) a b)
  | bitXor => number (t.combine (· ^^^ ·) a b)
  | eq => .ok (.ofBool (a = b))
  | ne => .ok (.ofBool (a ≠ b))
  | lt => .ok (.ofBool (a < b))
  | gt => .ok (.ofBool (b < a))
  | le => .ok (.ofBool (a ≤ b))
  | ge => .ok (.ofBool (b ≤ a))

def decided? (op : BinaryOp) (left : IntValue) : Option IntValue :=
  match op with
  | or => if left.value ≠ 0 then some (.ofBool true) else none
  | and => if left.value = 0 then some (.ofBool false) else none
  | _ => none

end BinaryOp

namespace Expr

def widened (value : IntValue) : IntValue :=
  { value with type := if value.type.signed then .longLong else .ulongLong }

/-- Evaluates in any setting that can fail. `names` and `casts` give meaning to names and to the
types of casts; `widen` makes every literal 64 bits wide. -/
def evaluateIn {m : Type → Type} [Monad m] [MonadExcept ExpressionError m]
    (names : String → m IntValue) (casts : String → m IntType) (widen : Bool) : Expr → m IntValue
  | .literal value => pure (if widen then widened value else value)
  | .name n => names n
  | .call n => throw (.call n)
  | .cast typeName operand => do
    let target ← casts typeName
    let value ← evaluateIn names casts widen operand
    pure ⟨target.wrap value.value, target, value.style⟩
  | .unary op operand => do
    let value ← evaluateIn names casts widen operand
    pure (op.apply value)
  | .conditional condition chosen otherwise => do
    let value ← evaluateIn names casts widen condition
    if value.value ≠ 0 then evaluateIn names casts widen chosen
    else evaluateIn names casts widen otherwise
  | .binary op left right => do
    let a ← evaluateIn names casts widen left
    match op.decided? a with
    | some value => pure value
    | none =>
      let b ← evaluateIn names casts widen right
      match op.apply a b with
      | .ok value => pure value
      | .error error => throw error

def evaluate (names : String → Except ExpressionError IntValue)
    (casts : String → Except ExpressionError IntType) (widen : Bool) (expr : Expr) :
    Except ExpressionError IntValue :=
  expr.evaluateIn names casts widen

def noCasts (typeName : String) : Except ExpressionError IntType :=
  .error (.castNotSupported typeName)

def noNames (name : String) : Except ExpressionError IntValue := .error (.unknownName name)

end Expr

end CBindings
