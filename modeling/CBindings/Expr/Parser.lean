import CBindings.Expr.Basic
import CBindings.Integer.Literal
import CBindings.Token.Group
import CBindings.Token.Parsed

/-! Reading expressions from tokens by precedence climbing. -/

namespace CBindings

namespace Expr

/-- What a reader of expressions must know: the width of `long`, and which names are types. -/
structure Reading where
  longWidth : Nat := 32
  isTypeName : String → Bool := fun _ => false

def castKeywords : List String :=
  ["signed", "unsigned", "char", "short", "int", "long", "__int8", "__int16", "__int32", "__int64"]

def startsOperand (tokens : List Token) : Bool :=
  match tokens with
  | [] => false
  | token :: _ => token.kind != .punct || ["(", "-", "+", "~", "!"].contains token.text

def cast? (reading : Reading) (tokens : List Token) : Option (Parsed String tokens.length) :=
  let words := (tokens.takeWhile (·.kind = .ident)).map Token.text
  match after : tokens.dropWhile (·.kind = .ident) with
  | [] => none
  | token :: rest =>
    if words.isEmpty || !token.closesParen || !startsOperand rest then none
    else
      have shorter : rest.length < tokens.length := by
        have := (List.dropWhile_suffix (·.kind = .ident) (l := tokens)).length_le
        simp only [after, List.length_cons] at this
        omega
      if words.all castKeywords.contains then some ⟨" ".intercalate words, rest, shorter⟩
      else
        match words with
        | [word] => if reading.isTypeName word then some ⟨word, rest, shorter⟩ else none
        | _ => none

def expect (text : String) (tokens : List Token) :
    Except ExpressionError (Parsed Unit tokens.length) :=
  match tokens with
  | [] => .error .unexpectedEnd
  | token :: rest =>
    if token.isPunct text then .ok ⟨(), rest, by simp⟩ else .error (.expected text token.text)

def atom (reading : Reading) (token : Token) (rest : List Token) :
    Except ExpressionError (Parsed Expr (rest.length + 1)) :=
  match token.kind with
  | .number =>
    if Literal.isFloat token.text then .error (.floatLiteral token.text)
    else (Literal.integer token.text reading.longWidth).map fun value =>
      ⟨.literal value, rest, by simp⟩
  | .char => (Literal.character token.text).map fun value => ⟨.literal value, rest, by simp⟩
  | .ident =>
    match rest with
    | [] => .ok ⟨.name token.text, [], by simp⟩
    | next :: inner =>
      if next.opensParen then
        match found : splitGroup? Token.opensParen Token.closesParen 0 inner with
        | none => .error .unexpectedEnd
        | some group =>
          .ok ⟨.call token.text, group.after, by
            have := splitGroup?_length found
            simp only [List.length_cons]
            omega⟩
      else .ok ⟨.name token.text, next :: inner, by simp⟩
  | _ => .error (.unexpectedToken token.text)

mutual

def expression (reading : Reading) (least : Nat) (tokens : List Token) :
    Except ExpressionError (Parsed Expr tokens.length) := do
  let left ← operand reading tokens
  have := left.shorter
  let whole ← climb reading least left.value left.rest
  return ⟨whole.value, whole.rest, by have := whole.shorter; omega⟩
termination_by (tokens.length, 1)

def climb (reading : Reading) (least : Nat) (left : Expr) (tokens : List Token) :
    Except ExpressionError (Parsed Expr (tokens.length + 1)) :=
  match tokens with
  | [] => return ⟨left, [], by simp⟩
  | token :: rest =>
    if token.kind ≠ .punct then return ⟨left, token :: rest, by simp⟩
    else if token.text = "?" ∧ least = 0 then do
      let chosen ← expression reading 0 rest
      have := chosen.shorter
      let colon ← expect ":" chosen.rest
      have := colon.shorter
      let otherwise ← expression reading 0 colon.rest
      have := otherwise.shorter
      let whole ← climb reading least (.conditional left chosen.value otherwise.value)
        otherwise.rest
      return ⟨whole.value, whole.rest, by
        have := whole.shorter; simp only [List.length_cons]; omega⟩
    else
      match BinaryOp.ofText? token.text with
      | none => return ⟨left, token :: rest, by simp⟩
      | some op =>
        if op.precedence < least then return ⟨left, token :: rest, by simp⟩
        else do
          let right ← expression reading (op.precedence + 1) rest
          have := right.shorter
          let whole ← climb reading least (.binary op left right.value) right.rest
          return ⟨whole.value, whole.rest, by
            have := whole.shorter; simp only [List.length_cons]; omega⟩
termination_by (tokens.length, 0)

def operand (reading : Reading) (tokens : List Token) :
    Except ExpressionError (Parsed Expr tokens.length) :=
  match tokens with
  | [] => .error .unexpectedEnd
  | token :: rest =>
    match if token.kind = .punct then UnaryOp.ofText? token.text else none with
    | some op => do
      let inner ← operand reading rest
      return ⟨.unary op inner.value, inner.rest, Nat.lt_succ_of_lt inner.shorter⟩
    | none =>
      if token.opensParen then
        match cast? reading rest with
        | some found => do
          have := found.shorter
          let inner ← operand reading found.rest
          return ⟨.cast found.value inner.value, inner.rest, by
            have := inner.shorter; simp only [List.length_cons]; omega⟩
        | none => do
          let inner ← expression reading 0 rest
          have := inner.shorter
          let close ← expect ")" inner.rest
          return ⟨inner.value, close.rest, by
            have := close.shorter; simp only [List.length_cons]; omega⟩
      else atom reading token rest
termination_by (tokens.length, 0)

end

def parse (tokens : List Token) (reading : Reading := {}) : Except ExpressionError Expr :=
  if tokens.isEmpty then .error .empty
  else do
    let whole ← expression reading 0 tokens
    match whole.rest with
    | [] => return whole.value
    | token :: _ => .error (.unexpectedToken token.text)

end Expr

end CBindings
