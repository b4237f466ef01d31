import CBindings.File.Tree

/-! Where headers are looked for. -/

namespace CBindings.SearchPath

def variableName : String := "INCLUDE"

/-- The directories in a list separated by colons. Blank entries are left out. -/
def ofList (value : String) : List Path :=
  ((Text.splitOn ':' value.toList).filter fun entry => !(Text.strip entry).isEmpty).map fun entry =>
    Path.parse (String.ofList entry)

def locate (tree : FileTree) (entry : Path) (directories : List Path) : Except FileFailure Path := do
  if (← tree.ask FileTree.isFile entry) || entry.isAbsolute then return entry
  else return ((← tree.directoryWith entry directories).map (·.join entry)).getD entry

end CBindings.SearchPath
