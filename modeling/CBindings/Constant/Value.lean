import CBindings.Decimal.Double
import CBindings.Integer.Literal
import CBindings.Token.Group

/-! Values of constants, and the constants that are no integers. -/

namespace CBindings

inductive ConstantValue where
  | integer (value : IntValue)
  | float (x : Double)
  | text (body : String)
  deriving DecidableEq, Repr

namespace ConstantValue

def rustType : ConstantValue → String
  | integer value => value.type.name
  | float _ => "f64"
  | text _ => "&str"

def style : ConstantValue → String
  | integer value => value.style.name
  | float _ => "float"
  | text _ => "string"

end ConstantValue

namespace Constant

def staysOpen (rest : List Token) : Bool :=
  match splitGroup? Token.opensParen Token.closesParen 0 rest with
  | some group => group.after.isEmpty
  | none => true

def stripParens (tokens : List Token) : List Token :=
  match tokens with
  | first :: second :: rest =>
    if first.opensParen && ((second :: rest).getLast?.any Token.closesParen) &&
        staysOpen (second :: rest) then
      stripParens (second :: rest).dropLast
    else first :: second :: rest
  | tokens => tokens
termination_by tokens.length
decreasing_by simp only [List.length_dropLast, List.length_cons]; omega

def portableEscapes : List (List Char) :=
  [['n'], ['r'], ['t'], ['0'], ['\\'], ['"'], ['\'']]

def escapesOf : List Char → List (List Char)
  | '\\' :: '0' :: rest => ('0' :: rest.takeWhile fun c => '0' ≤ c && c ≤ '7') :: escapesOf rest
  | '\\' :: c :: rest => if c = '\n' then escapesOf (c :: rest) else [c] :: escapesOf rest
  | _ :: rest => escapesOf rest
  | [] => []

def stringBody? (token : Token) : Option (List Char) :=
  match token.text.toList with
  | '"' :: rest =>
    let body := rest.dropLast
    if (escapesOf body).all portableEscapes.contains then some body else none
  | _ => none

def string? (tokens : List Token) : Option String :=
  let tokens := stripParens tokens
  if tokens.all (·.kind = .string) then
    (tokens.mapM stringBody?).map fun bodies => String.ofList bodies.flatten
  else none

def floatOf? (token : Token) : Option Double :=
  if token.kind = .number ∧ Literal.isFloat token.text then
    some (.ofDecimal (Decimal.ofText token.text.toList))
  else none

def float? (tokens : List Token) : Option Double :=
  match stripParens tokens with
  | [token] => floatOf? token
  | [sign, token] => if sign.isPunct "-" then (floatOf? token).map Double.negate else none
  | _ => none

end Constant

end CBindings
