import CBindings.Header.IncludeGraph

/-! What the look-up of an included header finds, and when it cannot be made. -/

namespace CBindings

namespace FileTree

variable {tree : FileTree}

theorem walk_eq_resolve {parts : List String} {start place : Place}
    (walked : tree.walk start parts = .ok place) :
    parts.foldl (fun place part => if part = ".." then place.dropLast else place ++ [part]) start =
      place := by
  induction parts generalizing start with
  | nil =>
    cases walked
    rfl
  | cons part rest ih =>
    unfold walk at walked
    split at walked
    · split at walked
      · cases walked
      · exact ih walked
    · split at walked <;> cases walked

theorem placeOf_eq_resolve {path : Path} {place : Place} (placed : tree.placeOf path = .ok place) :
    tree.resolve path = place := by
  unfold placeOf at placed
  split at placed
  · cases placed
  · split at placed
    · cases placed
    · exact walk_eq_resolve placed

theorem contents_eq_ok {path : Path} {bytes : ByteArray} (found : tree.contents path = .ok bytes) :
    ∃ place, tree.placeOf path = .ok place ∧ tree.file? place = some bytes := by
  simp only [contents] at found
  cases placed : tree.placeOf path with
  | error error =>
    rw [placed] at found
    cases found
  | ok place =>
    rw [placed] at found
    cases present : tree.file? place with
    | none =>
      simp only [bind, Except.bind, present] at found
      cases found
    | some content =>
      simp only [bind, Except.bind, present] at found
      cases found
      exact ⟨place, rfl, present⟩

theorem resolve_mem_files {path : Path} {bytes : ByteArray}
    (found : tree.contents path = .ok bytes) : tree.resolve path ∈ tree.files.map Prod.fst := by
  obtain ⟨place, placed, present⟩ := contents_eq_ok found
  rw [placeOf_eq_resolve placed]
  exact List.mem_map_of_mem (mem_of_lookup present)

def IsReadable (tree : FileTree) (path : Path) : Prop := ∃ source, tree.read path = .ok source

theorem isReadable_of_isFile {path : Path} (file : tree.isFile path) : tree.IsReadable path := by
  unfold isFile at file
  split at file
  · next bytes found => exact ⟨Text.decodeText bytes, by simp [read, found]; rfl⟩
  · cases file

theorem resolve_mem_of_isReadable {path : Path} (readable : tree.IsReadable path) :
    tree.resolve path ∈ tree.files.map Prod.fst := by
  obtain ⟨source, found⟩ := readable
  cases content : tree.contents path with
  | error error =>
    rw [read, content] at found
    cases found
  | ok bytes => exact resolve_mem_files content

def TooLong (tree : FileTree) (path : Path) : Prop := tree.placeOf path = .error .nameTooLong

theorem ask_eq_error {question : FileTree → Path → Bool} {path : Path} {failure : FileFailure} :
    tree.ask question path = .error failure ↔
      tree.TooLong path ∧ failure = ⟨path, .nameTooLong⟩ := by
  unfold ask TooLong
  split
  · next long => simp [long, eq_comm]
  · next fine =>
    constructor
    · intro impossible
      cases impossible
    · rintro ⟨long, -⟩
      exact absurd long fine

theorem ask_eq_ok {question : FileTree → Path → Bool} {path : Path} {answer : Bool}
    (asked : tree.ask question path = .ok answer) : question tree path = answer := by
  unfold ask at asked
  split at asked <;> cases asked
  rfl

def Stuck (tree : FileTree) (name : Path) (directories : List Path) : Prop :=
  ∃ before directory after, directories = before ++ directory :: after ∧
    (∀ earlier ∈ before, tree.isFile (earlier.join name) = false) ∧
    tree.TooLong (directory.join name)

theorem directoryWith_cons (name directory : Path) (rest : List Path) :
    tree.directoryWith name (directory :: rest) =
      (tree.ask isFile (directory.join name)).bind fun found =>
        if found then .ok (some directory) else tree.directoryWith name rest := rfl

theorem directoryWith_file {name directory : Path} {directories : List Path}
    (found : tree.directoryWith name directories = .ok (some directory)) :
    tree.isFile (directory.join name) := by
  induction directories with
  | nil => cases found
  | cons first rest ih =>
    rw [directoryWith_cons] at found
    cases asked : tree.ask isFile (first.join name) with
    | error failure =>
      rw [asked] at found
      cases found
    | ok answer =>
      rw [asked] at found
      cases answer with
      | false => exact ih found
      | true =>
        cases found
        exact ask_eq_ok asked

theorem directoryWith_fails_iff {name : Path} {directories : List Path} :
    (∃ failure, tree.directoryWith name directories = .error failure) ↔
      tree.Stuck name directories := by
  induction directories with
  | nil =>
    constructor
    · rintro ⟨failure, impossible⟩
      cases impossible
    · rintro ⟨before, directory, after, impossible, -⟩
      simp at impossible
  | cons first rest ih =>
    rw [directoryWith_cons]
    cases asked : tree.ask isFile (first.join name) with
    | error failure =>
      obtain ⟨long, -⟩ := ask_eq_error.mp asked
      constructor
      · intro _
        exact ⟨[], first, rest, rfl, by simp, long⟩
      · intro _
        exact ⟨failure, rfl⟩
    | ok answer =>
      have file := ask_eq_ok asked
      have short : ¬ tree.TooLong (first.join name) := by
        intro long
        rw [ask_eq_error.mpr ⟨long, rfl⟩] at asked
        cases asked
      cases answer with
      | true =>
        constructor
        · rintro ⟨failure, impossible⟩
          cases impossible
        · rintro ⟨before, directory, after, split, missing, long⟩
          cases before with
          | nil =>
            cases split
            exact absurd long short
          | cons earlier before =>
            cases split
            rw [missing first List.mem_cons_self] at file
            cases file
      | false =>
        constructor
        · intro failed
          obtain ⟨before, directory, after, rfl, missing, long⟩ := ih.mp failed
          refine ⟨first :: before, directory, after, rfl, ?_, long⟩
          intro earlier member
          rcases List.mem_cons.mp member with rfl | member
          · exact file
          · exact missing earlier member
        · rintro ⟨before, directory, after, split, missing, long⟩
          cases before with
          | nil =>
            cases split
            exact absurd long short
          | cons earlier before =>
            cases split
            exact ih.mpr ⟨before, directory, after, rfl,
              fun other member => missing other (List.mem_cons_of_mem _ member), long⟩

end FileTree

namespace IncludeGraph

open FileTree

variable {reading : Reading}

theorem followIgnoringCase_file {tree : FileTree} {parts : List String} {current path : Path}
    (followed : followIgnoringCase tree current parts = some path) : tree.isFile path := by
  induction parts generalizing current with
  | nil =>
    unfold followIgnoringCase at followed
    split at followed
    · next file =>
      cases followed
      exact file
    · cases followed
  | cons part rest ih =>
    unfold followIgnoringCase at followed
    split at followed
    · exact ih followed
    · split at followed
      · exact ih followed
      · cases followed

theorem find_eq (reading : Reading) (target : Directive.Target) (includer : Path) :
    find reading target includer =
      (reading.tree.directoryWith (Path.parse target.name)
        (directories reading target includer)).bind fun
      | some directory =>
        let path := directory.join (Path.parse target.name)
        .ok (some (path, displayName path directory target.name))
      | none => .ok ((directories reading target includer).findSome? fun directory =>
          if (Path.parse target.name).isAbsolute then none
          else (followIgnoringCase reading.tree directory (Path.parse target.name).parts).map
            fun path => (path, displayName path directory target.name)) := by
  simp only [find]
  cases reading.tree.directoryWith (Path.parse target.name)
      (directories reading target includer) with
  | error failure => rfl
  | ok answer => cases answer <;> rfl

theorem find_readable {target : Directive.Target} {includer path : Path} {name : String}
    (found : find reading target includer = .ok (some (path, name))) :
    reading.tree.IsReadable path := by
  apply isReadable_of_isFile
  rw [find_eq] at found
  cases exact : reading.tree.directoryWith (Path.parse target.name)
      (directories reading target includer) with
  | error failure =>
    rw [exact] at found
    cases found
  | ok answer =>
    rw [exact] at found
    cases answer with
    | some directory =>
      cases found
      exact directoryWith_file exact
    | none =>
      have some := Except.ok.inj found
      obtain ⟨directory, -, followed⟩ := List.exists_of_findSome?_eq_some some
      split at followed
      · cases followed
      · obtain ⟨followedPath, step, pair⟩ := Option.map_eq_some_iff.mp followed
        cases pair
        exact followIgnoringCase_file step

theorem find_fails_iff {target : Directive.Target} {includer : Path} :
    (∃ failure, find reading target includer = .error failure) ↔
      reading.tree.Stuck (Path.parse target.name) (directories reading target includer) := by
  rw [← directoryWith_fails_iff, find_eq]
  cases reading.tree.directoryWith (Path.parse target.name)
      (directories reading target includer) with
  | error failure =>
    constructor
    · intro _
      exact ⟨failure, rfl⟩
    · intro _
      exact ⟨failure, rfl⟩
  | ok answer =>
    constructor
    · rintro ⟨failure, impossible⟩
      cases answer <;> cases impossible
    · rintro ⟨failure, impossible⟩
      cases impossible

end IncludeGraph

end CBindings
