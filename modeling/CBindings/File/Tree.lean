import CBindings.File.Path
import CBindings.Text.Lowercase
import CBindings.Text.Quoted
import CBindings.Text.Utf8

/-! A tree of files held as a value, and how paths are looked up in it. -/

namespace CBindings

abbrev Place := List String

/-- Files with their contents, empty directories, and the directory relative paths start from. -/
structure FileTree where
  files : List (Place × ByteArray)
  directories : List Place
  working : Place

inductive FileError where
  | missing
  | occupied
  | notDirectory
  | isDirectory
  | nameTooLong
  | nullCharacter
  deriving DecidableEq, Repr

/-- A path that could not be used. -/
structure FileFailure where
  path : Path
  error : FileError
  deriving DecidableEq, Repr

def FileFailure.message (failure : FileFailure) : String :=
  let numbered (reason : String) : String := reason ++ ": " ++ Text.quoted failure.path.render
  match failure.error with
  | .missing => numbered "[Errno 2] No such file or directory"
  | .occupied => numbered "[Errno 17] File exists"
  | .notDirectory => numbered "[Errno 20] Not a directory"
  | .isDirectory => numbered "[Errno 21] Is a directory"
  | .nameTooLong => numbered "[Errno 36] File name too long"
  | .nullCharacter => "embedded null byte"

namespace FileTree

def longestName : Nat := 255

def longestPath : Nat := 4095

def start (tree : FileTree) (path : Path) : Place := if path.isAbsolute then [] else tree.working

def file? (tree : FileTree) (place : Place) : Option ByteArray := tree.files.lookup place

def isDirectoryAt (tree : FileTree) (place : Place) : Bool :=
  place.isEmpty || place.isPrefixOf tree.working ||
    tree.directories.any (place.isPrefixOf ·) ||
    tree.files.any fun file => place.isPrefixOf file.1 && place.length < file.1.length

def isTaken (tree : FileTree) (place : Place) : Bool :=
  tree.isDirectoryAt place || (tree.file? place).isSome

/-- Goes from a directory along the parts of a path. Nothing need be at its end. -/
def walk (tree : FileTree) (place : Place) : List String → Except FileError Place
  | [] => .ok place
  | part :: parts =>
    if tree.isDirectoryAt place then
      if longestName < part.utf8ByteSize then .error .nameTooLong
      else tree.walk (if part = ".." then place.dropLast else place ++ [part]) parts
    else if (tree.file? place).isSome then .error .notDirectory
    else .error .missing

def placeOf (tree : FileTree) (path : Path) : Except FileError Place :=
  if path.render.toList.contains '\x00' then .error .nullCharacter
  else if longestPath < path.render.utf8ByteSize then .error .nameTooLong
  else tree.walk (tree.start path) path.parts

def contents (tree : FileTree) (path : Path) : Except FileError ByteArray := do
  let place ← tree.placeOf path
  match tree.file? place with
  | some bytes => .ok bytes
  | none => .error (if tree.isDirectoryAt place then .isDirectory else .missing)

def isFile (tree : FileTree) (path : Path) : Bool :=
  match tree.contents path with
  | .ok _ => true
  | .error _ => false

def isDirectory (tree : FileTree) (path : Path) : Bool :=
  match tree.placeOf path with
  | .ok place => tree.isDirectoryAt place
  | .error _ => false

def ask (tree : FileTree) (question : FileTree → Path → Bool) (path : Path) :
    Except FileFailure Bool :=
  match tree.placeOf path with
  | .error .nameTooLong => .error ⟨path, .nameTooLong⟩
  | _ => .ok (question tree path)

def directoryWith (tree : FileTree) (path : Path) : List Path → Except FileFailure (Option Path)
  | [] => .ok none
  | directory :: rest => do
    if ← tree.ask isFile (directory.join path) then return some directory
    else tree.directoryWith path rest

def read (tree : FileTree) (path : Path) : Except FileError String :=
  (tree.contents path).map Text.decodeText

def resolve (tree : FileTree) (path : Path) : Place :=
  path.parts.foldl (fun place part => if part = ".." then place.dropLast else place ++ [part])
    (tree.start path)

def renderPlace (place : Place) : String := "/" ++ "/".intercalate place

def listing (tree : FileTree) (path : Path) : List String :=
  match tree.placeOf path with
  | .error _ => []
  | .ok place =>
    let below := (tree.files.map Prod.fst ++ tree.directories ++ [tree.working]).filterMap fun q =>
      if place.isPrefixOf q then (q.drop place.length).head? else none
    below.eraseDups.mergeSort fun a b => !(b < a)

def findIgnoringCase (tree : FileTree) (directory : Path) (name : String) : Option String :=
  let wanted := Text.lower name.toList
  (tree.listing directory).reverse.find? fun entry => Text.lower entry.toList = wanted

end FileTree

end CBindings
