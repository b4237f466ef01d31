import CBindings.File.Tree

/-! Making directories and writing files in a tree. -/

namespace CBindings.FileTree

def makeDirectory (tree : FileTree) (path : Path) : Except FileError FileTree := do
  let place ← tree.placeOf path
  if tree.isTaken place then .error .occupied
  else .ok { tree with directories := tree.directories ++ [place] }

def keepDirectory (tree : FileTree) (path : Path) : Except FileFailure FileTree :=
  match tree.makeDirectory path with
  | .ok tree => .ok tree
  | .error error =>
    if error ≠ .missing ∧ tree.isDirectory path then .ok tree else .error ⟨path, error⟩

def keepAll (tree : FileTree) (root : String) : List String → Except FileFailure FileTree
  | [] => tree.keepDirectory ⟨root, []⟩
  | part :: above =>
    let path : Path := ⟨root, (part :: above).reverse⟩
    match tree.makeDirectory path with
    | .error .missing => do (← tree.keepAll root above).keepDirectory path
    | _ => tree.keepDirectory path

def makeDirectories (tree : FileTree) (path : Path) : Except FileFailure FileTree :=
  tree.keepAll path.root path.parts.reverse

def put (tree : FileTree) (place : Place) (bytes : ByteArray) : FileTree :=
  { tree with files := tree.files.filter (·.1 ≠ place) ++ [(place, bytes)] }

def write (tree : FileTree) (path : Path) (bytes : ByteArray) : Except FileFailure FileTree :=
  match tree.placeOf path with
  | .error error => .error ⟨path, error⟩
  | .ok place =>
    if tree.isDirectoryAt place then .error ⟨path, .isDirectory⟩ else .ok (tree.put place bytes)

def writeAll (tree : FileTree) : List (Path × String) → Except FileFailure FileTree
  | [] => .ok tree
  | (path, text) :: rest => do (← tree.write path text.toUTF8).writeAll rest

def add (tree : FileTree) (path : Path) (bytes : ByteArray) : Except FileFailure FileTree := do
  (← tree.makeDirectories path.parent).write path bytes

def textsBelow (tree : FileTree) (place : Place) : List (String × String) :=
  let texts := tree.files.filterMap fun (q, bytes) =>
    if place.isPrefixOf q then
      some ("/".intercalate (q.drop place.length), Text.decodeText bytes)
    else none
  texts.mergeSort fun a b => a.1 ≤ b.1

end CBindings.FileTree
