import CBindings.Declaration.Listing
import CBindings.Header.IncludeGraph
import CBindings.Output.Registry
import CBindings.Report.Basic
import CBindings.Run.SearchPath
import CBindings.SymbolTable.Insertion
import CBindings.SymbolTable.Reference

/-! A whole run: from an entry header to the files of its bindings. -/

namespace CBindings

/-- What a run is asked for. Names are as they were given: they may be unknown or left out. -/
structure RunConfig where
  target : Option String := some Target.defaultName
  searchPaths : List Path := []
  /-- Used when there are no search paths. -/
  provided : List Path := []
  extraMacros : OrderedMap String String := ∅
  duplicates : Option String := some "first"
  namespacePolicy : Option String := some "flat"
  writer : Option String := some "rust"
  crateName : CrateName := .named "bindings"

inductive RunError where
  | writer (error : RegistryError)
  | namespacePolicy (name : String)
  | target (unknown : Target.Unknown)
  | duplicates (name : Option String)
  | entry (error : EntryError)
  | table (error : TableError)

def RunError.message : RunError → String
  | .writer error => error.message
  | .namespacePolicy name => NamespacePolicy.unknownMessage name
  | .target unknown => unknown.message
  | .duplicates name => DuplicatePolicy.unknownMessage ((name.map Text.quoted).getD "None")
  | .entry error => error.message
  | .table error => error.message

/-- What a run gives. -/
structure Run where
  entry : String
  target : String
  emitted : EmittedFiles
  headers : List String
  table : SymbolTable
  diagnostics : List Diagnostic

namespace Run

def report (run : Run) : Report := .ofRun run.entry run.target run.headers run.diagnostics

def countsByKind (run : Run) : List (String × Nat) :=
  (Diagnostic.countByKind run.diagnostics).mergeSort fun a b => a.1 ≤ b.1

structure Settings where
  writer : Writer
  policy : NamespacePolicy
  target : Target
  duplicates : DuplicatePolicy

def settings (config : RunConfig) (environment : String) : Except RunError Settings := do
  let writer ← (builtinWriters.find config.writer).mapError .writer
  let policyName := config.namespacePolicy.getD ""
  let policy ← match NamespacePolicy.ofName? policyName with
    | some policy => pure policy
    | none => throw (.namespacePolicy policyName)
  let (target, _) ← (Target.select config.target environment).mapError .target
  let duplicates ← match config.duplicates.bind DuplicatePolicy.ofName? with
    | some policy => pure policy
    | none => throw (.duplicates config.duplicates)
  return ⟨writer, policy, target.withMacros config.extraMacros, duplicates⟩

def collect (table : SymbolTable) : List Header → SymbolTable.Outcome Unit
  | [] => (table, .ok ())
  | header :: rest =>
    match table.addHeader header.name with
    | (table, .error error) => (table, .error error)
    | (table, .ok ()) =>
      match table.insertAll header.declarations with
      | (table, .error error) => (table, .error error)
      | (table, .ok _) => collect table rest

def reading (tree : FileTree) (searchPaths : List Path) (target : Target) : Reading where
  tree := tree
  searchPaths := searchPaths
  longWidth := target.longWidth
  parser := fun header => declarationsOf header.tokens header.name header.defines

def generate (tree : FileTree) (environment : String) (entry : Path) (config : RunConfig) :
    Except RunError Run := do
  let settings ← settings config environment
  let searchPaths := if config.searchPaths.isEmpty then config.provided else config.searchPaths
  let entry ← (SearchPath.locate tree entry searchPaths).mapError fun failure =>
    .entry (.refused failure)
  let macros := MacroTable.ofPredefined settings.target.predefined
  let walk ← (readHeaders (reading tree searchPaths settings.target) macros entry).mapError .entry
  let (table, collected) := collect { policy := settings.duplicates } walk.finished
  collected.mapError .table
  let table := table.finalize
  let unresolved := table.unresolvedReferences.map UnresolvedReference.diagnostic
  let emitted :=
    EmittedFiles.ofTable settings.writer settings.target settings.policy config.crateName table
  return {
    entry := entry.name
    target := settings.target.name
    emitted := emitted
    headers := walk.finished.map Header.name
    table := table
    diagnostics :=
      walk.findings.diagnostics ++ table.diagnostics ++ unresolved ++ emitted.diagnostics }

end Run

end CBindings
