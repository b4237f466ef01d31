import CBindings.Diagnostic
import CBindings.Json.Display
import CBindings.Json.Scalar

/-! Issues as a report holds them. -/

namespace CBindings

inductive ReportError where
  | notJson
  | notReport
  | missing (key : String)
  | noItems (kind : String)
  | noMembers (kind : String)
  | noScalar (kind : String)
  | unordered (kind previous : String)
  deriving DecidableEq, Repr

def ReportError.message : ReportError → String
  | .notJson => "not JSON"
  | .notReport => "not a headerbind run report"
  | .missing key => Text.quoted key
  | .noItems kind => Text.quoted kind ++ " object is not iterable"
  | .noMembers "list" => "list indices must be integers or slices, not str"
  | .noMembers "str" => "string indices must be integers, not 'str'"
  | .noMembers kind => Text.quoted kind ++ " object is not subscriptable"
  | .noScalar kind => "unhashable type: " ++ Text.quoted kind
  | .unordered kind previous =>
    "'<' not supported between instances of " ++ Text.quoted kind ++ " and " ++
      Text.quoted previous

/-- An issue in a report. A run puts a text into each part and a number into the line; a report from
elsewhere may have any values there. The null value stands for a part that is left out. -/
structure Issue where
  kind : Json
  message : Json
  header : Json := .null
  line : Json := .null
  symbol : Json := .null
  severity : Json := .string "warning"

namespace Json

def scalar (value : Json) : Except ReportError Scalar :=
  match value.scalar? with
  | some scalar => .ok scalar
  | none => .error (.noScalar value.kindName)

/-- The items of a list, the keys of an object, or the units of a text. -/
def items : Json → Except ReportError (List Json)
  | array items => .ok items
  | keyed members => .ok (members.map fun member => .text member.1)
  | text units => .ok (units.map fun unit => .text [unit])
  | value => .error (.noItems value.kindName)

def isGiven : Json → Bool
  | null => false
  | bool b => b
  | int n => n ≠ 0
  | real x => Scalar.ofDouble x ≠ .whole 0
  | text units => !units.isEmpty
  | array items => !items.isEmpty
  | keyed members => !members.isEmpty

end Json

namespace Issue

def ofDiagnostic (d : Diagnostic) : Issue where
  kind := .string d.kind
  message := .string d.message
  header := .ofOption .string d.header
  line := .ofOption .int d.line
  symbol := .ofOption .string d.symbol
  severity := .string d.severity

def toJson (issue : Issue) : Json :=
  let part (key : String) (value : Json) : List (String × Json) :=
    if value.isNull then [] else [(key, value)]
  .object ([("kind", issue.kind), ("severity", issue.severity), ("message", issue.message)] ++
    part "header" issue.header ++ part "line" issue.line ++ part "symbol" issue.symbol)

def ofJson (value : Json) : Except ReportError Issue :=
  let member (key : String) : Except ReportError Json :=
    match value.get? key with
    | some member => .ok member
    | none => .error (.missing key)
  match value with
  | .keyed _ => do
    return {
      kind := ← member "kind"
      message := ← member "message"
      header := (value.get? "header").getD .null
      line := (value.get? "line").getD .null
      symbol := (value.get? "symbol").getD .null
      severity := (value.get? "severity").getD (.string "warning") }
  | other => .error (.noMembers other.kindName)

/-- What identifies an issue in two reports: its kind, header, symbol and message. Lines may move
and do not count. -/
def key (issue : Issue) : List Json := [issue.kind, issue.header, issue.symbol, issue.message]

def scalarKey (issue : Issue) : Except ReportError (List Scalar) := issue.key.mapM Json.scalar

def hasSeverity (issue : Issue) (name : String) : Bool :=
  issue.severity.string? = some name

def hasKind (issue : Issue) (kind : Json) : Bool :=
  match issue.kind.scalar?, kind.scalar? with
  | some (.real .undefined), _ => false
  | some a, some b => a = b
  | _, _ => false

def equals (issue other : Issue) : Bool :=
  issue.kind.equals other.kind && issue.message.equals other.message &&
    issue.header.equals other.header && issue.line.equals other.line &&
    issue.symbol.equals other.symbol && issue.severity.equals other.severity

def place (issue : Issue) : JsonText :=
  let mark (s : String) : JsonText := .ofString s
  if !issue.header.isGiven then []
  else if issue.line.isNull then issue.header.display ++ mark ": "
  else issue.header.display ++ mark ":" ++ issue.line.display ++ mark ": "

def render (issue : Issue) : JsonText :=
  let mark (s : String) : JsonText := .ofString s
  issue.place ++ issue.severity.display ++ mark ": [" ++ issue.kind.display ++ mark "] " ++
    issue.message.display

abbrev Tally := OrderedMap Scalar (Json × Nat)

def tally (issues : List Issue) : Except ReportError Tally :=
  issues.foldlM (fun (counts : Tally) issue => do
    let key ← issue.kind.scalar
    let (kind, count) := (counts.get? key).getD (issue.kind, 0)
    return counts.insert key (kind, count + 1)) ∅

def countByKind (issues : List Issue) : Except ReportError (List (Json × Nat)) := do
  return (← tally issues).values

end Issue

end CBindings
