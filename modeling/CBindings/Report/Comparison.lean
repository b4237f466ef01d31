import CBindings.Report.Basic

/-! What a later run found that an earlier one did not, and the other way round. -/

namespace CBindings

structure ReportDifference where
  added : List Issue
  resolved : List Issue

namespace Report

def unmatched {κ : Type} [DecidableEq κ] (keys : List κ) : List (κ × Issue) → List Issue
  | [] => []
  | (key, issue) :: rest =>
    if keys.contains key then unmatched (keys.erase key) rest else issue :: unmatched keys rest

def keyed (r : Report) : Except ReportError (List (List Scalar × Issue)) :=
  r.issues.mapM fun issue => return (← issue.scalarKey, issue)

/-- Issues are matched by key and number, so one that only moved is in neither list. -/
def compare (baseline target : Report) : Except ReportError ReportDifference := do
  let earlier ← baseline.keyed
  let later ← target.keyed
  return {
    added := unmatched (earlier.map Prod.fst) later
    resolved := unmatched (later.map Prod.fst) earlier }

end Report

namespace ReportDifference

def hasRegressions (difference : ReportDifference) : Bool := !difference.added.isEmpty

def toJson (difference : ReportDifference) : Json :=
  .object [
    ("schema_version", .string Report.schemaVersion),
    ("summary", .object [
      ("new", .int difference.added.length),
      ("resolved", .int difference.resolved.length)]),
    ("new", .array (difference.added.map Issue.toJson)),
    ("resolved", .array (difference.resolved.map Issue.toJson))]

def render (difference : ReportDifference) (indent : Option Nat := some 2) : String :=
  difference.toJson.render indent

end ReportDifference

end CBindings
