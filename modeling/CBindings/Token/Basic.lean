/-! Preprocessing tokens. -/

namespace CBindings

inductive TokenKind where
  | ident
  | number
  | string
  | char
  | punct
  deriving DecidableEq, Repr

def TokenKind.name : TokenKind → String
  | ident => "ident"
  | number => "number"
  | string => "string"
  | char => "char"
  | punct => "punct"

/-- A token with its exact spelling and its source line, 0 for a token made by the program. -/
structure Token where
  kind : TokenKind
  text : String
  line : Nat := 0
  deriving DecidableEq, Repr

namespace Token

def isPunct (token : Token) (text : String) : Bool := token.kind = .punct && token.text = text

def isIdent (token : Token) (text : String) : Bool := token.kind = .ident && token.text = text

def movedTo (token origin : Token) : Token := { token with line := origin.line }

end Token

def spell (tokens : List Token) : String := " ".intercalate (tokens.map Token.text)

end CBindings
