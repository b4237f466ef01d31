import CBindings.Integer.Basic

/-! Constant expressions. -/

namespace CBindings

inductive UnaryOp where
  | negate
  | plus
  | complement
  | not
  deriving DecidableEq, Repr

namespace UnaryOp

def text : UnaryOp → String
  | negate => "-"
  | plus => "+"
  | complement => "~"
  | not => "!"

def all : List UnaryOp := [negate, plus, complement, not]

def ofText? (text : String) : Option UnaryOp := all.find? (·.text = text)

end UnaryOp

inductive BinaryOp where
  | or
  | and
  | bitOr
  | bitXor
  | bitAnd
  | eq
  | ne
  | lt
  | gt
  | le
  | ge
  | shiftLeft
  | shiftRight
  | add
  | sub
  | mul
  | div
  | mod
  deriving DecidableEq, Repr

namespace BinaryOp

def text : BinaryOp → String
  | or => "||"
  | and => "&&"
  | bitOr => "|"
  | bitXor => "^"
  | bitAnd => "&"
  | eq => "=="
  | ne => "!="
  | lt => "<"
  | gt => ">"
  | le => "<="
  | ge => ">="
  | shiftLeft => "<<"
  | shiftRight => ">>"
  | add => "+"
  | sub => "-"
  | mul => "*"
  | div => "/"
  | mod => "%"

def all : List BinaryOp :=
  [or, and, bitOr, bitXor, bitAnd, eq, ne, lt, gt, le, ge, shiftLeft, shiftRight, add, sub, mul,
   div, mod]

def ofText? (text : String) : Option BinaryOp := all.find? (·.text = text)

def precedence : BinaryOp → Nat
  | or => 1
  | and => 2
  | bitOr => 3
  | bitXor => 4
  | bitAnd => 5
  | eq | ne => 6
  | lt | gt | le | ge => 7
  | shiftLeft | shiftRight => 8
  | add | sub => 9
  | mul | div | mod => 10

end BinaryOp

/-- An expression. A call is kept by name only, since it never has a value. -/
inductive Expr where
  | literal (value : IntValue)
  | name (name : String)
  | call (name : String)
  | cast (typeName : String) (operand : Expr)
  | unary (op : UnaryOp) (operand : Expr)
  | binary (op : BinaryOp) (left right : Expr)
  | conditional (condition chosen otherwise : Expr)
  deriving DecidableEq, Repr

end CBindings
