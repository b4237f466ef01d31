import CBindings.Expr.Evaluation
import CBindings.Expr.Parser
import CBindings.Macro.Expansion

/-! Conditions of `#if` and `#elif`. -/

namespace CBindings

open Expansion

namespace Condition

def resolveDefined (table : MacroTable) : List Token → Except ExpressionError (List Token)
  | [] => .ok []
  | token :: rest =>
    let value (name : Token) : Token :=
      ⟨.number, if table.isDefined name.text then "1" else "0", token.line⟩
    if !token.isIdent "defined" then (resolveDefined table rest).map (token :: ·)
    else
      match rest with
      | [] => .error .malformedDefined
      | first :: rest =>
        if first.kind = .ident then (resolveDefined table rest).map (value first :: ·)
        else
          match rest with
          | name :: close :: rest =>
            if first.isPunct "(" && name.kind = .ident && close.isPunct ")" then
              (resolveDefined table rest).map (value name :: ·)
            else .error .malformedDefined
          | _ => .error .malformedDefined

def nameValue (name : String) : Except ExpressionError IntValue :=
  .ok ⟨if name = "true" then 1 else 0, .longLong, .decimal⟩

def truth (longWidth : Nat) (expanded : List Token) : Except ExpressionError Bool := do
  let expr ← Expr.parse expanded { longWidth := longWidth }
  let value ← expr.evaluate nameValue Expr.noCasts true
  return value.value ≠ 0

def value (table : MacroTable) (longWidth : Nat) (tokens : List Token) (header : Option String)
    (findings : Findings) : Except ExpressionError Bool × Findings :=
  match resolveDefined table tokens with
  | .error error => (.error error, findings)
  | .ok resolved =>
    let expanded := expand table resolved header findings
    ((resolveDefined table expanded.1).bind (truth longWidth), expanded.2)

def holds (table : MacroTable) (longWidth : Nat) (tokens : List Token) (header : Option String)
    (line : Option Nat) (findings : Findings) : Bool × Findings :=
  match value table longWidth tokens header findings with
  | (.ok truth, findings) => (truth, findings)
  | (.error error, findings) =>
    (false, findings.add
      { kind := Diagnostic.unsupportedExpression
        message := "cannot evaluate '#if " ++ spell tokens ++ "' (" ++ error.message ++
          "); treating as false"
        header := header
        line := line.map Int.ofNat })

end Condition

end CBindings
