import CBindings.Output.JsonView
import CBindings.Rust.Source

/-! Writers turn modules into files. -/

namespace CBindings

inductive Writer where
  | rust
  | json (indent : Option Nat)
  deriving DecidableEq, Repr

namespace Writer

def name : Writer → String
  | rust => "rust"
  | json _ => "json"

def extension : Writer → String
  | rust => ".rs"
  | json _ => ".json"

def aggregatorName : Writer → String
  | rust => "lib.rs"
  | json _ => "index.json"

def formatDescription : Writer → String
  | rust => "Rust #[repr(C)] declarations and extern blocks"
  | json _ => "JSON view of each output module with C and Rust types"

def moduleText (writer : Writer) (context : EmissionContext) (module : OutputModule) :
    Emission String :=
  match writer with
  | rust => Rust.moduleText context module
  | json indent => return (← JsonView.module (some context) module).render indent

def aggregatorText (writer : Writer) (context : EmissionContext) (modules : List OutputModule) :
    String :=
  match writer with
  | rust => Rust.crateText context modules
  | json indent => (JsonView.index context writer.extension modules).render indent

end Writer

/-- The files of a run by name, and what they were made from. -/
structure EmittedFiles where
  files : OrderedMap String String
  modules : List OutputModule
  aggregator : String
  diagnostics : List Diagnostic
  memo : MappingMemo

namespace EmittedFiles

def valueOf (emitted : EmittedFiles) (symbol : Symbol) : Option ConstantValue :=
  match symbol.item with
  | .constant name _ => (emitted.memo.constants.constants.get? name).join
  | _ => none

def evaluateConstants (context : EmissionContext) (symbols : List Symbol) : Emission Unit :=
  symbols.forM fun symbol =>
    match symbol.item with
    | .constant name _ => do
      let _ ← context.constant name
      return ()
    | _ => return ()

def fileName (writer : Writer) (module : OutputModule) : String := module.name ++ writer.extension

def writeModules (writer : Writer) (context : EmissionContext) (modules : List OutputModule) :
    Emission (List (String × String)) := do
  modules.forM fun module => evaluateConstants context module.symbols
  modules.mapM fun module => return (fileName writer module, ← writer.moduleText context module)

def ofTable (writer : Writer) (target : Target) (policy : NamespacePolicy) (crateName : CrateName)
    (table : SymbolTable) : EmittedFiles :=
  let modules := OutputModule.ofTable table
  let context : EmissionContext := ⟨.ofTable target table, policy, crateName⟩
  let (texts, state) := (writeModules writer context modules).run {}
  { files := .ofList (texts ++ [(writer.aggregatorName, writer.aggregatorText context modules)])
    modules := modules
    aggregator := writer.aggregatorName
    diagnostics := state.diagnostics
    memo := state.memo }

end EmittedFiles

end CBindings
