import CBindings.Json.Printer
import CBindings.Json.Reader
import CBindings.Report.Issue

/-! The record of a run: what was read, for which target, and every issue found. -/

namespace CBindings

/-- A report. That of a run has texts for its parts; one from elsewhere may have any values. -/
structure Report where
  entry : Json
  target : Json
  headers : List Json := []
  issues : List Issue := []

namespace Report

def schemaVersion : String := "1.0"

def ofRun (entry target : String) (headers : List String) (diagnostics : List Diagnostic) :
    Report where
  entry := .string entry
  target := .string target
  headers := headers.map Json.string
  issues := diagnostics.map Issue.ofDiagnostic

def errorCount (r : Report) : Nat := r.issues.countP (·.hasSeverity "error")

def warningCount (r : Report) : Nat := r.issues.countP (·.hasSeverity "warning")

def precedes (a b : Json) : Except ReportError Bool :=
  match a.scalar?, b.scalar? with
  | some x, some y =>
    match x.precedes? y with
    | some truth => .ok truth
    | none => .error (.unordered a.kindName b.kindName)
  | _, _ => .error (.unordered a.kindName b.kindName)

/-- Puts a pair among sorted ones, the greatest first: before all that are greater. -/
def place (pair : Json × Nat) : List (Json × Nat) → Except ReportError (List (Json × Nat))
  | [] => .ok [pair]
  | greatest :: rest => do
    if ← precedes pair.1 greatest.1 then return greatest :: (← place pair rest)
    else return pair :: greatest :: rest

def countsByKind (r : Report) : Except ReportError (List (Json × Nat)) := do
  let counts ← Issue.countByKind r.issues
  return (← counts.foldlM (fun sorted pair => place pair sorted) []).reverse

def ofKind (r : Report) (kind : Json) : List Issue := r.issues.filter (·.hasKind kind)

def unresolved (r : Report) : List Issue := r.ofKind (.string Diagnostic.unresolvedReference)

def keyText : Json → JsonText
  | .text units => units
  | value => .ofString value.render

def toJson (r : Report) : Except ReportError Json := do
  let counts ← r.countsByKind
  return .object [
    ("schema_version", .string schemaVersion),
    ("entry", r.entry),
    ("arch", r.target),
    ("headers", .array r.headers),
    ("summary", .object [
      ("total", .int r.issues.length),
      ("errors", .int r.errorCount),
      ("warnings", .int r.warningCount),
      ("by_kind", .keyed (counts.map fun (kind, n) => (keyText kind, .int n)))]),
    ("diagnostics", .array (r.issues.map Issue.toJson))]

def render (r : Report) (indent : Option Nat := some 2) : Except ReportError String := do
  return (← r.toJson).render indent

def ofJson (value : Json) : Except ReportError Report :=
  match value.get? "diagnostics" with
  | none => .error .notReport
  | some diagnostics => do
    let issues ← (← diagnostics.items).mapM Issue.ofJson
    let headers ← ((value.get? "headers").getD (.array [])).items
    return {
      entry := (value.get? "entry").getD (.string "")
      target := (value.get? "arch").getD (.string "")
      headers := headers
      issues := issues }

/-- Reads a report as `render` writes it. -/
def ofText (text : JsonText) : Except ReportError Report :=
  match Json.read? text with
  | none => .error .notJson
  | some value => ofJson value

def equals (r other : Report) : Bool :=
  r.entry.equals other.entry && r.target.equals other.target &&
    Json.equalItems r.headers other.headers &&
    r.issues.length = other.issues.length &&
    (r.issues.zip other.issues).all fun (issue, other) => issue.equals other

end Report

end CBindings
