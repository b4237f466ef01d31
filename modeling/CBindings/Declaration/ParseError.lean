import CBindings.Expr.Error

/-! Why a declaration cannot be read. -/

namespace CBindings

inductive ParseCause where
  | unexpectedEnd
  | expected (wanted found : String)
  | unexpected (text : String)
  | unexpectedInFields (text : String)
  | unexpectedInParameter (text : String)
  | unnamedDeclaration
  | unnamedField
  | expectedType (found : Option String)
  | specifiers (error : Primitive.SpecifierError)
  | incompleteTag (keyword : String)
  | badEnumerator (text : String)
  | earlyEllipsis
  | emptyParameter
  | expression (error : ExpressionError)
  deriving DecidableEq, Repr

structure ParseError where
  cause : ParseCause
  line : Option Nat
  deriving DecidableEq, Repr

open Text in
def ParseCause.message : ParseCause → String
  | unexpectedEnd => "unexpected end of declaration"
  | expected wanted found => "expected " ++ quoted wanted ++ ", got " ++ quoted found
  | unexpected text => "unexpected " ++ quoted text
  | unexpectedInFields text => "unexpected " ++ quoted text ++ " in field list"
  | unexpectedInParameter text => "unexpected " ++ quoted text ++ " in parameter"
  | unnamedDeclaration => "declaration has no name"
  | unnamedField => "field has no name"
  | expectedType found =>
    "expected a type, got " ++ (found.map quoted).getD "end of declaration"
  | specifiers error => error.message
  | incompleteTag keyword => keyword ++ " without a name or body"
  | badEnumerator text => "bad enumerator " ++ quoted text
  | earlyEllipsis => "'...' must be the last parameter"
  | emptyParameter => "empty parameter"
  | expression error => error.message

def ParseError.message (error : ParseError) : String :=
  match error.line with
  | some line => "line " ++ toString line ++ ": " ++ error.cause.message
  | none => error.cause.message

end CBindings
