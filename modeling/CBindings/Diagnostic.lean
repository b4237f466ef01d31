/-! Issues found on the way that do not stop the work. -/

namespace CBindings

/-- An issue: its kind, its text, and where it was found as far as that is known. -/
structure Diagnostic where
  kind : String
  message : String
  header : Option String := none
  line : Option Int := none
  symbol : Option String := none
  severity : String := "warning"
  deriving DecidableEq, Repr

namespace Diagnostic

def headerReadFailure : String := "header_read_failure"
def macroCycle : String := "macro_cycle"
def includeCycle : String := "include_cycle"
def unsupportedDeclaration : String := "unsupported_declaration"
def duplicateSymbol : String := "duplicate_symbol"
def unresolvedReference : String := "unresolved_reference"
def unevaluatedConstant : String := "unevaluated_constant"
def malformedDeclaration : String := "malformed_declaration"
def unsupportedExpression : String := "unsupported_expression"
def unsupportedType : String := "unsupported_type"
def malformedDirective : String := "malformed_directive"
def preprocessorError : String := "preprocessor_error"

def countByKind (diagnostics : List Diagnostic) : List (String × Nat) :=
  (diagnostics.map kind).eraseDups.map fun k => (k, diagnostics.countP (·.kind = k))

end Diagnostic

end CBindings
