import CBindings.CommandLine.Options
import CBindings.File.Writing
import CBindings.Run.Basic

/-! What a command line leads to: files to write, and texts for the terminal. -/

namespace CBindings.CommandLine

abbrev Environment := List (String × String)

def valueOf (environment : Environment) (name : String) : String :=
  (environment.lookup name).getD ""

/-- Why a call ends without a response. An option that is set to nothing may be one that needs a
value, and files may not be writable. -/
inductive Failure where
  | definition (index : Nat)
  | target
  | duplicates
  | directory
  | run (error : RunError)
  | report (error : ReportError)
  | file (failure : FileFailure)

def Failure.message : Failure → String
  | .definition index =>
    "dictionary update sequence element #" ++ toString index ++ " has length 0; 2 is required"
  | .target => "unhashable type: 'list'"
  | .duplicates => DuplicatePolicy.unknownMessage "[]"
  | .directory => "expected str, bytes or os.PathLike object, not list"
  | .run error => error.message
  | .report error => error.message
  | .file failure => failure.message

structure Response where
  exitCode : Nat
  output : String := ""
  errors : String := ""
  directory : Option Path := none
  files : List (Path × String) := []

def Response.applyTo (response : Response) (tree : FileTree) : Except FileFailure FileTree := do
  let tree ← match response.directory with
    | some directory => tree.makeDirectories directory
    | none => pure tree
  tree.writeAll response.files

def manifest (crateName entry : String) : String :=
  "[package]\nname = \"" ++ crateName ++ "\"\nversion = \"0.1.0\"\nedition = \"2021\"\n" ++
    "description = \"Generated bindings for " ++ (if entry.isEmpty then "headers" else entry) ++
    "\"\n\n[lib]\npath = \"src/lib.rs\"\n\n[dependencies]\n"

def allGiven {α : Type} (error : Nat → Failure) (items : List (Option α)) :
    Except Failure (List α) :=
  items.zipIdx.mapM fun (item, index) =>
    match item with
    | some item => .ok item
    | none => .error (error index)

def crateName (options : Options) : CrateName := (options.crateName.map .named).getD .nothing

def config (options : Options) (environment : Environment) : Except Failure RunConfig := do
  let definitions ← allGiven .definition options.definitions
  let some target := options.target | throw .target
  let some duplicates := options.duplicates | throw .duplicates
  let searchPaths ← allGiven (fun _ => .directory) options.searchPaths
  return {
    target := some target
    searchPaths := searchPaths.map Path.parse
    provided := SearchPath.ofList (valueOf environment SearchPath.variableName)
    extraMacros := .ofList definitions
    duplicates := some duplicates
    namespacePolicy := options.namespacePolicy
    writer := options.writer
    crateName := crateName options }

def makesCrate (options : Options) : Bool := options.writer = some Writer.rust.name

def sourceDirectory (options : Options) (out : Path) : Path :=
  if makesCrate options then out.child "src" else out

def filesOf (options : Options) (out entry : Path) (run : Run) : List (Path × String) :=
  let files := run.emitted.files.entries.map fun (name, text) =>
    ((sourceDirectory options out).child name, text)
  if makesCrate options then
    files ++ [(out.child "Cargo.toml", manifest (crateName options).text entry.name)]
  else files

def summary (out : Path) (count : Nat) (run : Run) : String :=
  let counts := run.countsByKind.map fun (kind, n) => kind ++ "=" ++ toString n
  "Wrote " ++ toString count ++ " files to " ++ out.render ++ " (" ++
    toString run.headers.length ++ " headers; " ++
    (if counts.isEmpty then "no diagnostics" else ", ".intercalate counts) ++ ")\n"

def isShown : RunError → Bool
  | .entry (.refused _) => false
  | .entry _ | .table _ => true
  | _ => false

def respond (tree : FileTree) (environment : Environment) (options : Options) :
    Except Failure Response := do
  let config ← config options environment
  let entry := Path.parse (options.entry.getD "")
  match Run.generate tree "" entry config with
  | .error error =>
    if isShown error then return { exitCode := 1, errors := "ERROR: " ++ error.message ++ "\n" }
    else throw (.run error)
  | .ok run =>
    let some out := options.out.map Path.parse | throw .directory
    let files := filesOf options out entry run
    let report ← match options.report.filter (!·.isEmpty) with
      | some path => do pure [(Path.parse path, ← run.report.render.mapError .report)]
      | none => pure []
    return {
      exitCode := 0
      output := summary out files.length run
      directory := some (sourceDirectory options out)
      files := files ++ report }

end CBindings.CommandLine
