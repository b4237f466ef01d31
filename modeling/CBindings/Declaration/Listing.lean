import CBindings.Declaration.Naming
import CBindings.Declaration.Reader
import CBindings.Declaration.Statement
import CBindings.Diagnostic
import CBindings.Macro.Basic

/-! All declarations of a header, with its object-like macros as constants between them. -/

namespace CBindings

namespace Statement

def foreignWords : List String :=
  ["namespace", "template", "class", "using", "public", "private", "protected", "friend"]

def isForeign (statement : Statement) : Bool :=
  (statement.tokens.head?.any fun first =>
      first.kind = .ident && foreignWords.contains first.text) ||
    statement.tokens.any (·.isPunct "::")

def unionReport? (header : String) (d : Declaration) : Option Diagnostic :=
  match d.item with
  | .union name _ => some
      { kind := Diagnostic.unsupportedDeclaration
        message := "union " ++ name.getD "None" ++ " is not translated"
        header := some header
        line := d.line?.map Int.ofNat
        symbol := d.qualifiedName }
  | _ => none

def declarations (header : String) (statement : Statement) : List Declaration × List Diagnostic :=
  if statement.isForeign then
    ([], [{ kind := Diagnostic.unsupportedDeclaration
            message := "C++ construct skipped: " ++ spell (statement.tokens.take 4) ++ " ..."
            header := some header
            line := some statement.line }])
  else
    match DeclarationReader.read statement.line statement.tokens with
    | .error error =>
      ([], [{ kind := Diagnostic.malformedDeclaration
              message := "cannot parse '" ++ statement.preview ++ "': " ++ error.message
              header := some header
              line := some statement.line }])
    | .ok source =>
      let found := source.declarations header statement.line
      (found, found.filterMap (unionReport? header))

end Statement

def Macro.constant? (header : String) (m : Macro) : Option Declaration :=
  if m.isObjectLike && !m.body.isEmpty then
    some ⟨.constant m.name m.bodyText, some ⟨header, m.line.getD 0⟩⟩
  else none

def interleave (header : String) : List (Nat × Macro) → List Statement →
    List Declaration × List Diagnostic
  | defines, [] => (defines.filterMap fun define => define.2.constant? header, [])
  | defines, statement :: rest =>
    let isBefore (define : Nat × Macro) : Bool := define.1 ≤ statement.position
    let constants := (defines.takeWhile isBefore).filterMap fun define => define.2.constant? header
    let found := statement.declarations header
    let others := interleave header (defines.dropWhile isBefore) rest
    (constants ++ found.1 ++ others.1, found.2 ++ others.2)

/-- The declarations of a header in source order. Each macro comes with the number of tokens that
stand before its definition. -/
def declarationsOf (tokens : List Token) (header : String) (defines : List (Nat × Macro) := []) :
    List Declaration × List Diagnostic :=
  interleave header (defines.mergeSort fun a b => a.1 ≤ b.1)
    (Statement.split (Statement.clean tokens))

theorem interleave_nil (header : String) (statements : List Statement) :
    interleave header [] statements =
      (statements.flatMap fun statement => (statement.declarations header).1,
        statements.flatMap fun statement => (statement.declarations header).2) := by
  induction statements with
  | nil => rfl
  | cons statement rest ih => simp [interleave, ih]

theorem declarationsOf_eq_flatMap (tokens : List Token) (header : String) :
    let statements := Statement.split (Statement.clean tokens)
    declarationsOf tokens header =
      (statements.flatMap fun statement => (statement.declarations header).1,
        statements.flatMap fun statement => (statement.declarations header).2) := by
  rw [declarationsOf, List.mergeSort_nil, interleave_nil]

end CBindings
