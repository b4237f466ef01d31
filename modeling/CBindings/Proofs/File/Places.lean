import CBindings.File.Tree
import Mathlib.Data.List.Forall2

/-! File trees with the same places and other contents: paths lead to the same places in both, and
only what is read differs. -/

namespace CBindings

/-- Both fail alike, or both succeed with results that are related. -/
inductive Concurs {ε α β : Type} (related : α → β → Prop) : Except ε α → Except ε β → Prop
  | ok {a : α} {b : β} (both : related a b) : Concurs related (.ok a) (.ok b)
  | error (e : ε) : Concurs related (.error e) (.error e)

namespace Concurs

variable {ε ε' α β γ δ : Type} {related : α → β → Prop} {next : γ → δ → Prop}

theorem bind {x : Except ε α} {y : Except ε β} {f : α → Except ε γ} {g : β → Except ε δ}
    (first : Concurs related x y) (second : ∀ a b, related a b → Concurs next (f a) (g b)) :
    Concurs next (x >>= f) (y >>= g) := by
  cases first with
  | ok both => exact second _ _ both
  | error e => exact .error e

theorem mapError {x : Except ε α} {y : Except ε β} (concurs : Concurs related x y) (f : ε → ε') :
    Concurs related (x.mapError f) (y.mapError f) := by
  cases concurs with
  | ok both => exact .ok both
  | error e => exact .error (f e)

end Concurs

namespace FileTree

/-- The same tree but for the contents of files, each of which is retold in the other tree. -/
structure Retold (told : String → String → Prop) (tree other : FileTree) : Prop where
  files : List.Forall₂ (fun file file' => file.1 = file'.1 ∧
    told (Text.decodeText file.2) (Text.decodeText file'.2)) tree.files other.files
  directories : tree.directories = other.directories
  working : tree.working = other.working

namespace Retold

variable {told : String → String → Prop} {tree other : FileTree}

theorem places (retold : tree.Retold told other) :
    tree.files.map Prod.fst = other.files.map Prod.fst := by
  have files := retold.files
  generalize tree.files = first at files
  generalize other.files = second at files
  induction files with
  | nil => rfl
  | cons both _ ih => rw [List.map_cons, List.map_cons, both.1, ih]

theorem start (retold : tree.Retold told other) : tree.start = other.start := by
  funext path
  rw [FileTree.start, FileTree.start, retold.working]

theorem isDirectoryAt (retold : tree.Retold told other) :
    tree.isDirectoryAt = other.isDirectoryAt := by
  funext place
  have above (files : List (Place × ByteArray)) :
      (files.any fun file => place.isPrefixOf file.1 && place.length < file.1.length) =
        (files.map Prod.fst).any fun file => place.isPrefixOf file && place.length < file.length := by
    rw [List.any_map]
    rfl
  rw [FileTree.isDirectoryAt, FileTree.isDirectoryAt, above, above, retold.places,
    retold.directories, retold.working]

/-- A place with a file is one in both trees, and the contents are related. -/
theorem file? (retold : tree.Retold told other) (place : Place) :
    Option.Rel (fun bytes bytes' => told (Text.decodeText bytes) (Text.decodeText bytes'))
      (tree.file? place) (other.file? place) := by
  have files := retold.files
  unfold FileTree.file?
  generalize tree.files = first at files
  generalize other.files = second at files
  induction files with
  | nil => exact .none
  | @cons file file' _ _ both _ ih =>
    obtain ⟨at', bytes⟩ := file
    obtain ⟨at'', bytes'⟩ := file'
    obtain ⟨rfl, same⟩ := both
    rw [List.lookup_cons, List.lookup_cons]
    cases place == at' with
    | true => exact .some same
    | false => exact ih

theorem isSome_file? (retold : tree.Retold told other) (place : Place) :
    (tree.file? place).isSome = (other.file? place).isSome := by
  have found := retold.file? place
  generalize tree.file? place = first at found ⊢
  generalize other.file? place = second at found ⊢
  cases found <;> rfl

theorem walk (retold : tree.Retold told other) (parts : List String) (place : Place) :
    tree.walk place parts = other.walk place parts := by
  induction parts generalizing place with
  | nil => rfl
  | cons part rest ih =>
    rw [FileTree.walk, FileTree.walk, retold.isDirectoryAt, retold.isSome_file?, ih]

theorem placeOf (retold : tree.Retold told other) : tree.placeOf = other.placeOf := by
  funext path
  rw [FileTree.placeOf, FileTree.placeOf, retold.start, retold.walk]

theorem contents (retold : tree.Retold told other) (path : Path) :
    Concurs (fun bytes bytes' => told (Text.decodeText bytes) (Text.decodeText bytes'))
      (tree.contents path) (other.contents path) := by
  unfold FileTree.contents
  rw [retold.placeOf, retold.isDirectoryAt]
  cases other.placeOf path with
  | error error => exact .error error
  | ok place =>
    have found := retold.file? place
    simp only [bind, Except.bind]
    generalize tree.file? place = first at found ⊢
    generalize other.file? place = second at found ⊢
    cases found with
    | none => exact .error _
    | some both => exact .ok both

theorem read (retold : tree.Retold told other) (path : Path) :
    Concurs told (tree.read path) (other.read path) := by
  have found := retold.contents path
  unfold FileTree.read
  generalize tree.contents path = first at found ⊢
  generalize other.contents path = second at found ⊢
  cases found with
  | ok both => exact .ok both
  | error error => exact .error error

theorem isFile (retold : tree.Retold told other) : tree.isFile = other.isFile := by
  funext path
  have found := retold.contents path
  unfold FileTree.isFile
  generalize tree.contents path = first at found ⊢
  generalize other.contents path = second at found ⊢
  cases found <;> rfl

theorem isDirectory (retold : tree.Retold told other) : tree.isDirectory = other.isDirectory := by
  funext path
  unfold FileTree.isDirectory
  rw [retold.placeOf, retold.isDirectoryAt]

theorem ask (retold : tree.Retold told other) {question : FileTree → Path → Bool}
    (same : question tree = question other) (path : Path) :
    tree.ask question path = other.ask question path := by
  unfold FileTree.ask
  rw [retold.placeOf, same]

theorem directoryWith (retold : tree.Retold told other) (path : Path) (directories : List Path) :
    tree.directoryWith path directories = other.directoryWith path directories := by
  induction directories with
  | nil => rfl
  | cons directory rest ih =>
    rw [FileTree.directoryWith, FileTree.directoryWith, retold.ask retold.isFile, ih]

theorem resolve (retold : tree.Retold told other) : tree.resolve = other.resolve := by
  funext path
  unfold FileTree.resolve
  rw [retold.start]

theorem findIgnoringCase (retold : tree.Retold told other) :
    tree.findIgnoringCase = other.findIgnoringCase := by
  funext directory name
  unfold FileTree.findIgnoringCase listing
  rw [retold.placeOf, retold.places, retold.directories, retold.working]

end Retold

end FileTree

end CBindings
