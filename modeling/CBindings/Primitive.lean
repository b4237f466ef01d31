/-! Primitive C types: the keywords that form them and the canonical name of each. -/

namespace CBindings.Primitive

def keywords : List String :=
  ["void", "char", "short", "int", "long", "signed", "unsigned", "float", "double", "_Bool",
   "bool", "__int8", "__int16", "__int32", "__int64", "__int3264"]

def fixedWidths : List (String × Nat × Bool) :=
  [("signed char", 8, true), ("unsigned char", 8, false),
   ("short", 16, true), ("unsigned short", 16, false),
   ("int", 32, true), ("unsigned int", 32, false),
   ("long long", 64, true), ("unsigned long long", 64, false),
   ("__int8", 8, true), ("unsigned __int8", 8, false),
   ("__int16", 16, true), ("unsigned __int16", 16, false),
   ("__int32", 32, true), ("unsigned __int32", 32, false),
   ("__int64", 64, true), ("unsigned __int64", 64, false)]

def names : List String :=
  fixedWidths.map Prod.fst ++
    ["void", "char", "long", "unsigned long", "__int3264", "unsigned __int3264", "_Bool", "float",
     "double", "long double"]

inductive SpecifierError where
  | conflictingSigns (words : List String)
  | invalid (words : List String)
  deriving DecidableEq, Repr

def SpecifierError.message : SpecifierError → String
  | .conflictingSigns words => "conflicting signedness: " ++ " ".intercalate words
  | .invalid words => "invalid type specifier: " ++ " ".intercalate words

def withSign (unsigned : Bool) (name : String) : String :=
  if unsigned then "unsigned " ++ name else name

/-- The canonical name of a list of keywords. Sign words and `int` are set aside, and what is left
names the type. -/
def canonical (words : List String) : Except SpecifierError String :=
  let unsigned := words.contains "unsigned"
  let signed := words.contains "signed"
  if unsigned && signed then .error (.conflictingSigns words)
  else
    match words.filter fun w => w ∉ ["signed", "unsigned", "int"] with
    | [] => .ok (withSign unsigned "int")
    | ["void"] => .ok "void"
    | ["_Bool"] => .ok "_Bool"
    | ["bool"] => .ok "_Bool"
    | ["float"] => .ok "float"
    | ["double"] => .ok "double"
    | ["double", "long"] => .ok "long double"
    | ["long", "double"] => .ok "long double"
    | ["char"] =>
      .ok (if unsigned then "unsigned char" else if signed then "signed char" else "char")
    | ["short"] => .ok (withSign unsigned "short")
    | ["long"] => .ok (withSign unsigned "long")
    | ["long", "long"] => .ok (withSign unsigned "long long")
    | [word] =>
      if "__int".isPrefixOf word then .ok (withSign unsigned word) else .error (.invalid words)
    | _ => .error (.invalid words)

end CBindings.Primitive
