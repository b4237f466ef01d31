import CBindings.CType.Basic
import CBindings.Text.Blank

/-! Declarations of C headers. -/

namespace CBindings

structure Location where
  header : String
  line : Nat
  deriving DecidableEq, Repr

structure Field where
  name : String
  type : CType
  width : Option Int := none
  deriving DecidableEq, Repr

inductive Assigned where
  | implicit
  | number (n : Int)
  | text (expression : String)
  deriving DecidableEq, Repr

structure Enumerator where
  name : String
  value : Assigned
  deriving DecidableEq, Repr

inductive Item where
  | struct (name : Option String) (fields : Option (List Field)) (isTypedef : Bool)
  | union (name : Option String) (fields : Option (List Field))
  | enum (name : Option String) (values : List Enumerator) (isTypedef : Bool)
  | function (name : String) (result : CType) (parameters : List Parameter) (variadic : Bool)
      (convention : Option String)
  | typedef (name : String) (type : CType)
  | object (name : String) (type : CType)
  | constant (name : String) (tokens : List String)
  deriving DecidableEq, Repr

/-- A declaration and where it was found. Two declarations agree if their items do. -/
structure Declaration where
  item : Item
  location : Option Location := none
  deriving DecidableEq, Repr

namespace Field

def render (f : Field) : String :=
  f.type.render ++ " " ++ f.name ++
    match f.width with
    | some width => " : " ++ toString width
    | none => ""

end Field

namespace Assigned

def render : Assigned → String
  | implicit => "None"
  | number n => toString n
  | text expression => expression

end Assigned

namespace Enumerator

def render (e : Enumerator) : String :=
  match e.value with
  | .implicit => e.name
  | value => e.name ++ " = " ++ value.render

end Enumerator

namespace Item

def kind : Item → String
  | struct .. => "struct"
  | union .. => "union"
  | enum .. => "enum"
  | function .. => "function"
  | typedef .. => "typedef"
  | object .. => "variable"
  | constant .. => "constant"

def tagName (kind : String) (name : Option String) : Option String :=
  (name.filter (!·.isEmpty)).map (kind ++ " " ++ ·)

def qualifiedName : Item → Option String
  | struct name _ _ => tagName "struct" name
  | union name _ => tagName "union" name
  | enum name _ _ => tagName "enum" name
  | function name .. => some name
  | typedef name _ => some name
  | object name _ => some name
  | constant name _ => some name

def tagText (kind : String) (name : Option String) : String :=
  kind ++ " " ++ (name.filter (!·.isEmpty)).getD "(anonymous)"

def render : Item → String
  | struct name _ _ => tagText "struct" name
  | union name _ => tagText "union" name
  | enum name _ _ => tagText "enum" name
  | function name result parameters variadic _ =>
    result.render ++ " " ++ name ++ "(" ++
      ", ".intercalate (parameters.map CType.renderParameter ++ if variadic then ["..."] else []) ++
      ")"
  | typedef name type => "typedef " ++ type.render ++ " " ++ name
  | object name type => type.render ++ " " ++ name
  | constant name tokens =>
    String.ofList (Text.stripRight ("#define " ++ name ++ " " ++ " ".intercalate tokens).toList)

def types : Item → List CType
  | struct _ fields _ => (fields.getD []).map Field.type
  | union _ fields => (fields.getD []).map Field.type
  | function _ result parameters _ _ => result :: parameters.map Prod.snd
  | typedef _ type => [type]
  | object _ type => [type]
  | enum .. | constant .. => []

def enumerators : Item → List Enumerator
  | enum _ values _ => values
  | _ => []

def isNamed : Item → Bool
  | struct name .. | union name .. | enum name .. => name.isSome
  | function .. | typedef .. | object .. | constant .. => true

def isOpaque : Item → Bool
  | struct _ none _ => true
  | union _ none => true
  | _ => false

def members : Item → List String
  | struct _ fields _ => (fields.getD []).map Field.render
  | union _ fields => (fields.getD []).map Field.render
  | enum _ values _ => values.map Enumerator.render
  | function _ _ parameters _ _ => parameters.map CType.renderParameter
  | typedef .. | object .. | constant .. => []

end Item

namespace Declaration

def qualifiedName (d : Declaration) : Option String := d.item.qualifiedName

def header? (d : Declaration) : Option String := d.location.map Location.header

def header (d : Declaration) : String :=
  (d.header?.filter (!·.isEmpty)).getD "<unknown>"

def line? (d : Declaration) : Option Nat := d.location.map Location.line

end Declaration

end CBindings
