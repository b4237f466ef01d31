import CBindings.CommandLine.Response

/-! The command line: reads headers into a tree, makes their bindings and writes them out. -/

namespace CBindings.CommandLine

def usage : String :=
  "usage: cbindings [-h] [-I DIR] [--arch NAME] [--out DIR] [--duplicates POLICY] " ++
    "[--namespace POLICY] [-D NAME=VALUE] [--writer NAME] [--report FILE] [--crate-name NAME] " ++
    "[-v] ENTRY"

partial def load (place : Place) (tree : FileTree) : IO FileTree := do
  let path := (← IO.currentDir) / FileTree.renderPlace place
  try
    match (← path.metadata).type with
    | .dir =>
      let entries := (← path.readDir).toList
      let start := { tree with directories := place :: tree.directories }
      entries.foldlM (fun tree entry => do
        let isLink := (← entry.path.symlinkMetadata).type == .symlink
        if isLink && (← entry.path.isDir) then return tree
        else load (place ++ [entry.fileName]) tree) start
    | _ =>
      let bytes ← IO.FS.readBinFile path
      return { tree with files := (place, bytes) :: tree.files }
  catch _ => return tree

def loadFor (options : Options) (config : RunConfig) : IO FileTree := do
  let empty : FileTree := ⟨[], [], (Path.parse (← IO.currentDir).toString).parts⟩
  let entry := Path.parse (options.entry.getD "")
  let given := if config.searchPaths.isEmpty then config.provided else config.searchPaths
  let beside ← ((← IO.currentDir) / entry.render).pathExists
  let directories := if beside then entry.parent :: given else given
  directories.foldlM (fun tree directory => load (tree.resolve directory) tree) empty

def carryOut (response : Response) : IO UInt32 := do
  if let some directory := response.directory then IO.FS.createDirAll directory.render
  for (path, text) in response.files do
    IO.FS.writeFile path.render text
  IO.print response.output
  IO.eprint response.errors
  return response.exitCode.toUInt32

def fail (failure : Failure) : IO UInt32 := do
  IO.eprintln failure.message
  return 1

end CBindings.CommandLine

open CBindings CommandLine in
def main (words : List String) : IO UInt32 := do
  match Options.ofWords words with
  | .error .help =>
    IO.println usage
    return 0
  | .error .rejected =>
    IO.eprintln usage
    return 2
  | .ok options =>
    let searched := (← IO.getEnv SearchPath.variableName).getD ""
    let environment : Environment := [(SearchPath.variableName, searched)]
    match config options environment with
    | .error failure => fail failure
    | .ok config =>
      match respond (← loadFor options config) environment options with
      | .error failure => fail failure
      | .ok response => carryOut response
