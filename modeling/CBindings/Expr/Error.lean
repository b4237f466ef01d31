import CBindings.Primitive
import CBindings.Text.Quoted

/-! Why an expression has no value. -/

namespace CBindings

inductive ExpressionError where
  | notInteger (text : String)
  | invalidOctal (text : String)
  | unquotedCharacter
  | emptyCharacter
  | multipleCharacters (text : String)
  | invalidEscape (text : String)
  | unknownEscape (text : String)
  | empty
  | unexpectedEnd
  | unexpectedToken (text : String)
  | expected (wanted found : String)
  | floatLiteral (text : String)
  | call (name : String)
  | castNotSupported (typeName : String)
  | negativeShift
  | divisionByZero
  | malformedDefined
  | unknownName (name : String)
  | unknownCast (typeName : String)
  | ownEnum
  | noEnumeratorValue (name : String)
  | notIntegerConstant (name : String)
  | specifiers (error : Primitive.SpecifierError)
  | nonIntegerCast (typeName : String)
  | typedefCycle (name : String)
  | unknownTypeCast (typeName : String)
  deriving DecidableEq, Repr

namespace ExpressionError

open Text

def message : ExpressionError → String
  | notInteger text => "not an integer literal: " ++ quoted text
  | invalidOctal text => "invalid octal literal: " ++ quoted text
  | unquotedCharacter => "substring not found"
  | emptyCharacter => "empty character literal"
  | multipleCharacters text => "multi-character literal: " ++ text
  | invalidEscape text => "invalid escape in " ++ text
  | unknownEscape text => "unknown escape in " ++ text
  | empty => "empty expression"
  | unexpectedEnd => "unexpected end of expression"
  | unexpectedToken text => "unexpected token " ++ quoted text
  | expected wanted found => "expected " ++ quoted wanted ++ ", got " ++ quoted found
  | floatLiteral text => "floating-point literal " ++ quoted text
  | call name => "cannot evaluate call to " ++ quoted name
  | castNotSupported typeName => "cast to " ++ quoted typeName ++ " is not supported here"
  | negativeShift => "negative shift count"
  | divisionByZero => "division by zero"
  | malformedDefined => "malformed 'defined' operator"
  | unknownName name => "unknown name " ++ quoted name
  | unknownCast typeName => "unknown cast " ++ quoted typeName
  | ownEnum => "enumerator refers to its own enum"
  | noEnumeratorValue name => "enumerator " ++ quoted name ++ " has no value"
  | notIntegerConstant name => quoted name ++ " is not an integer constant"
  | specifiers error => error.message
  | nonIntegerCast typeName => "cast to non-integer type " ++ quoted typeName
  | typedefCycle name => "typedef cycle through " ++ quoted name
  | unknownTypeCast typeName => "cast to unknown type " ++ quoted typeName

end ExpressionError

end CBindings
