import CBindings.Proofs.Header.Order

/-! Reading an entry header: when it returns at all, and what it returns. -/

namespace CBindings

open IncludeGraph

variable {reading : Reading} {table : MacroTable} {entry : Path}

/-- What is asked of the search paths and the entry header. -/
structure Usable (reading : Reading) (entry : Path) : Prop where
  searched : reading.searchPaths ≠ []
  directories : ∀ path ∈ reading.searchPaths, reading.tree.isDirectory path
  readable : reading.tree.IsReadable entry

/-- The first moment of a traversal: the entry header is open and nothing of it is read. -/
def firstMoment (reading : Reading) (table : MacroTable) (entry : Path) : Moment :=
  descend reading (reading.tree.resolve entry) ⟨entry, entry.name, false⟩ ⟨[], { table := table }⟩

/-- At this moment an inclusion is to be read whose look-up meets a path that is too long. -/
def Blocked (reading : Reading) (moment : Moment) : Prop :=
  ∃ frame outer line rest target, moment.stack = frame :: outer ∧ frame.lines = line :: rest ∧
    wanted? frame.scan moment.walk line = some target ∧
    reading.tree.Stuck (Path.parse target.name)
      (directories reading target frame.scan.header.path)

/-- What a traversal leaves that has come to its end. -/
structure Ordered (reading : Reading) (first : Moment) (entry : Path) (walk : Walk) : Prop where
  ends : Reaches reading first ⟨[], walk⟩
  once : (order reading walk).Nodup
  processed : ∀ place, place ∈ order reading walk ↔
    ∃ moment, Reaches reading first moment ∧ place ∈ moment.places
  last : ∃ header, walk.finished.getLast? = some header ∧ header.path = entry
  done : ∀ place ∈ order reading walk,
    ∃ visit, walk.visits.get? place = some visit ∧ visit.isDone = true
  edges : ∀ before header after, walk.finished = before ++ header :: after →
    ∀ count included, header.includes[count]? = some included →
      reading.tree.resolve included ∈ before.map (fun header => reading.tree.resolve header.path) ∨
      Cyclic reading first walk (reading.tree.resolve header.path) header.name count included

theorem advance_fails_iff {moment : Moment} :
    (∃ failure, advance reading moment = .error failure) ↔ Blocked reading moment := by
  obtain ⟨stack, walk⟩ := moment
  unfold advance Blocked
  cases stack with
  | nil =>
    constructor
    · rintro ⟨failure, impossible⟩
      cases impossible
    · rintro ⟨frame, outer, line, rest, target, impossible, -⟩
      cases impossible
  | cons frame outer =>
    cases lines : frame.lines with
    | nil =>
      constructor
      · rintro ⟨failure, impossible⟩
        simp only [lines] at impossible
        cases impossible
      · rintro ⟨other, outer', line, rest, target, same, more, -⟩
        cases same
        rw [lines] at more
        cases more
    | cons line rest =>
      simp only [lines]
      have reads : (∃ failure, readLine reading frame.scan walk line = .error failure) ↔ _ :=
        readLine_fails_iff
      constructor
      · rintro ⟨failure, failed⟩
        have stuck : ∃ failure, readLine reading frame.scan walk line = .error failure := by
          cases read : readLine reading frame.scan walk line with
          | error failure => exact ⟨failure, rfl⟩
          | ok progress =>
            rw [read] at failed
            cases failed
        obtain ⟨target, wanted, long⟩ := reads.mp stuck
        exact ⟨frame, outer, line, rest, target, rfl, lines, wanted, long⟩
      · rintro ⟨other, outer', line', rest', target, same, more, wanted, long⟩
        cases same
        rw [lines] at more
        cases more
        obtain ⟨failure, failed⟩ := reads.mpr ⟨target, wanted, long⟩
        exact ⟨failure, by rw [failed]; rfl⟩

theorem checkSearchPaths_eq_ok {tree : FileTree} {paths : List Path} :
    checkSearchPaths tree paths = .ok () ↔ ∀ path ∈ paths, tree.isDirectory path := by
  induction paths with
  | nil => exact ⟨fun _ => by simp, fun _ => rfl⟩
  | cons path rest ih =>
    have cons : checkSearchPaths tree (path :: rest) =
        ((tree.ask FileTree.isDirectory path).mapError .refused).bind fun found =>
          if found then checkSearchPaths tree rest else .error (.badSearchPath path) := rfl
    rw [cons, List.forall_mem_cons, ← ih]
    cases asked : tree.ask FileTree.isDirectory path with
    | error failure =>
      have long : tree.placeOf path = .error .nameTooLong := (FileTree.ask_eq_error.mp asked).1
      constructor
      · intro impossible
        cases impossible
      · rintro ⟨directory, -⟩
        simp [FileTree.isDirectory, long] at directory
    | ok answer =>
      rw [FileTree.ask_eq_ok asked]
      cases answer with
      | true => exact ⟨fun rest => ⟨rfl, rest⟩, fun both => both.2⟩
      | false =>
        constructor
        · intro impossible
          cases impossible
        · rintro ⟨impossible, -⟩
          cases impossible

/-- Reading headers is the recursion on the entry, or fails before it starts. -/
theorem readHeaders_cases (reading : Reading) (table : MacroTable) (entry : Path) :
    (Usable reading entry ∧ readHeaders reading table entry =
      (enter reading reading.tree.files.length (reading.tree.resolve entry)
        ⟨entry, entry.name, false⟩ { table := table }).mapError .refused) ∨
    (¬ Usable reading entry ∧ ∃ error, readHeaders reading table entry = .error error) := by
  simp only [readHeaders]
  by_cases searched : reading.searchPaths = []
  · exact .inr ⟨fun usable => usable.searched searched, by simp [searched]⟩
  · have present : reading.searchPaths.isEmpty = false := by simpa using searched
    simp only [present, Bool.false_eq_true, if_false]
    cases checked : checkSearchPaths reading.tree reading.searchPaths with
    | error error =>
      refine .inr ⟨fun usable => ?_, error, rfl⟩
      rw [checkSearchPaths_eq_ok.mpr usable.directories] at checked
      cases checked
    | ok passed =>
      cases read : reading.tree.read entry with
      | ok source =>
        exact .inl ⟨⟨searched, checkSearchPaths_eq_ok.mp checked, source, read⟩, rfl⟩
      | error error =>
        refine .inr ⟨fun usable => ?_, ?_⟩
        · obtain ⟨source, found⟩ := usable.readable
          rw [read] at found
          cases found
        · cases error <;> exact ⟨_, rfl⟩

theorem sound_firstMoment (table : MacroTable) (readable : reading.tree.IsReadable entry) :
    Sound reading (firstMoment reading table entry) entry (firstMoment reading table entry) := by
  obtain ⟨source, found⟩ := readable
  have opened : firstMoment reading table entry =
      ⟨[⟨reading.tree.resolve entry, ⟨entry, entry.name, false⟩, startOf ⟨entry, entry.name, false⟩,
          logicalLines source⟩],
        Walk.mark { table := table } (reading.tree.resolve entry) ⟨entry, entry.name, false⟩
          false⟩ := by
    simp only [firstMoment, descend, found]
  have known : ∀ place, (firstMoment reading table entry).walk.visits.get? place =
      if place = reading.tree.resolve entry then some ⟨entry, entry.name, false⟩ else none := by
    intro place
    rw [opened]
    simp only [Walk.mark, OrderedMap.get?_insert, OrderedMap.get?_empty]
  have places : (firstMoment reading table entry).places = [reading.tree.resolve entry] := by
    rw [opened]
    rfl
  have nothing : (firstMoment reading table entry).walk.finished = [] := by
    rw [opened]
    rfl
  have unordered : order reading (firstMoment reading table entry).walk = [] := by
    rw [order, nothing]
    rfl
  constructor
  · exact .refl
  · intro place visit met
    rw [known] at met
    split at met
    · next same =>
      cases met
      exact same.symm
    · cases met
  · intro place
    rw [known, places, List.mem_singleton]
    constructor
    · intro same
      exact ⟨_, if_pos same, rfl⟩
    · rintro ⟨visit, met, -⟩
      split at met
      · assumption
      · cases met
  · rw [places]
    exact List.nodup_singleton _
  · rw [opened]
    intro frame member
    rw [List.mem_singleton.mp member]
    exact ⟨rfl, rfl⟩
  · intro place
    rw [known, unordered]
    constructor
    · intro impossible
      cases impossible
    · rintro ⟨visit, met, done⟩
      split at met
      · cases met
        cases done
      · cases met
  · rw [unordered]
    exact List.nodup_nil
  · rw [unordered]
    intro place impossible
    cases impossible
  · rw [opened]
    exact .inl ⟨_, rfl, rfl⟩
  · intro before header after split
    rw [nothing] at split
    cases before <;> cases split
  · rw [opened]
    intro inner frame outer split count included made
    cases inner with
    | nil =>
      cases split
      cases made
    | cons top inner => cases inner <;> cases split

theorem follows_unique : Relator.RightUnique (Follows reading) := by
  intro moment first second leads leads'
  rw [Follows, leads'] at leads
  cases leads
  rfl

theorem reaches_end {first moment : Moment} {walk : Walk} (ends : Reaches reading first ⟨[], walk⟩)
    (reaches : Reaches reading first moment) : Reaches reading moment ⟨[], walk⟩ := by
  rcases Relation.ReflTransGen.total_of_right_unique follows_unique reaches ends with on | back
  · exact on
  · rcases Relation.ReflTransGen.cases_head back with rfl | ⟨next, impossible, -⟩
    · exact .refl
    · cases impossible

theorem ordered_of_ends {walk : Walk} (readable : reading.tree.IsReadable entry)
    (ends : Reaches reading (firstMoment reading table entry) ⟨[], walk⟩) :
    Ordered reading (firstMoment reading table entry) entry walk := by
  have start := sound_firstMoment table readable
  have sound := sound_of_reaches start ends
  have allDone : ∀ place visit, walk.visits.get? place = some visit → visit.isDone = true := by
    intro place visit met
    cases waiting : visit.isDone with
    | true => rfl
    | false => cases (sound.waiting place).mpr ⟨visit, met, waiting⟩
  refine ⟨ends, sound.once, ?_, ?_, ?_, sound.settled⟩
  · intro place
    refine ⟨sound.opened place, ?_⟩
    rintro ⟨moment, reaches, member⟩
    obtain ⟨visit, met, -⟩ := ((sound_of_reaches start reaches).waiting place).mp member
    have filed : Filed reading moment := by
      have opened : Filed reading (firstMoment reading table entry) := by
        have file := FileTree.resolve_mem_of_isReadable readable
        obtain ⟨source, found⟩ := readable
        simpa [Filed, Moment.places, firstMoment, descend, found] using file
      exact (extends_of_reaches reaches opened).1
    have kept := (extends_of_reaches (reaches_end ends reaches) filed).2.keys
    have still : place ∈ walk.visits.keys :=
      kept.subset (OrderedMap.mem_keys_iff.mpr ⟨visit, met⟩)
    obtain ⟨visitAfter, metAfter⟩ := OrderedMap.mem_keys_iff.mp still
    exact (sound.listed place).mpr ⟨visitAfter, metAfter, allDone place visitAfter metAfter⟩
  · rcases sound.bottom with ⟨frame, impossible, -⟩ | ⟨-, last⟩
    · cases impossible
    · exact last
  · intro place member
    exact (sound.listed place).mp member

theorem enter_runs_entry (table : MacroTable) (readable : reading.tree.IsReadable entry) :
    RunsTo reading (firstMoment reading table entry) (fun walk => ⟨[], walk⟩)
      (enter reading reading.tree.files.length (reading.tree.resolve entry)
        ⟨entry, entry.name, false⟩ { table := table }) := by
  have roomy : Roomy reading reading.tree.files.length { table := table } :=
    ⟨List.nil_subset _, Nat.le_add_right _ _⟩
  exact enter_runs reading _ ⟨entry, entry.name, false⟩ [] { table := table } roomy
    (List.nil_subset _) rfl readable

theorem not_blocked_of_ends {first moment : Moment} {walk : Walk}
    (ends : Reaches reading first ⟨[], walk⟩) (reaches : Reaches reading first moment) :
    ¬ Blocked reading moment := by
  intro blocked
  obtain ⟨failure, failed⟩ := advance_fails_iff.mpr blocked
  rcases Relation.ReflTransGen.cases_head (reaches_end ends reaches) with rfl | ⟨next, on, -⟩
  · cases failed
  · rw [Follows, failed] at on
    cases on

/-- Headers are read to the end, and in order, exactly if no look-up on the way meets a path that is
too long. -/
theorem readHeaders_in_order (reading : Reading) (table : MacroTable) (entry : Path) :
    match readHeaders reading table entry with
    | .ok walk => Usable reading entry ∧
        (∀ moment, Reaches reading (firstMoment reading table entry) moment →
          ¬ Blocked reading moment) ∧
        Ordered reading (firstMoment reading table entry) entry walk
    | .error _ => ¬ Usable reading entry ∨
        ∃ moment, Reaches reading (firstMoment reading table entry) moment ∧
          Blocked reading moment := by
  rcases readHeaders_cases reading table entry with ⟨usable, same⟩ | ⟨unusable, error, failed⟩
  · have runs := enter_runs_entry table usable.readable
    rw [same]
    generalize enter reading reading.tree.files.length (reading.tree.resolve entry)
      ⟨entry, entry.name, false⟩ { table := table } = entered at runs
    cases entered with
    | error failure =>
      obtain ⟨stuck, reaches, failed⟩ := runs
      exact .inr ⟨stuck, reaches, advance_fails_iff.mp ⟨failure, failed⟩⟩
    | ok walk =>
      exact ⟨usable, fun moment reaches => not_blocked_of_ends runs reaches,
        ordered_of_ends usable.readable runs⟩
  · rw [failed]
    exact .inl unusable

/-! ### A name that is too long -/

def overlongName : List Char := List.replicate 256 'q'

def overlongText : List Char := "#include \"".toList ++ overlongName ++ ['"']

/-- A tree with one header. It includes a header whose name no file can have. -/
def overlongReading : Reading where
  tree := ⟨[(["a.h"], (String.ofList overlongText).toUTF8)], [["inc"]], []⟩
  searchPaths := [⟨"", ["inc"]⟩]
  longWidth := 32
  parser := fun _ => ([], [])

theorem overlong_text_reads :
    overlongReading.tree.read ⟨"", ["a.h"]⟩ = .ok (String.ofList overlongText) := by
  have placed : overlongReading.tree.placeOf ⟨"", ["a.h"]⟩ = .ok ["a.h"] := by decide +kernel
  have decoded : Text.unifyLineEnds (Text.decode
      ((String.ofList overlongText).toUTF8.toList.map UInt8.toNat)) = overlongText := by
    decide +kernel
  have content : overlongReading.tree.contents ⟨"", ["a.h"]⟩ =
      .ok (String.ofList overlongText).toUTF8 := by
    simp only [FileTree.contents, placed]
    rfl
  simp only [FileTree.read, content, Except.map, Text.decodeText, decoded]

theorem overlong_name_too_long :
    overlongReading.tree.TooLong ⟨"", [String.ofList overlongName]⟩ := by
  have rendered : Path.render ⟨"", [String.ofList overlongName]⟩ = String.ofList overlongName := by
    simp [Path.render]
  have plain : overlongName.contains '\x00' = false := by decide +kernel
  have short : ¬ FileTree.longestPath < (String.ofList overlongName).utf8ByteSize := by
    decide +kernel
  have long : FileTree.longestName < (String.ofList overlongName).utf8ByteSize := by
    decide +kernel
  simp only [FileTree.TooLong, FileTree.placeOf, rendered, String.toList_ofList, plain, short,
    Bool.false_eq_true, if_false, FileTree.walk, long, if_true]
  rfl

theorem overlong_blocks :
    Blocked overlongReading (firstMoment overlongReading {} ⟨"", ["a.h"]⟩) := by
  have lines : logicalLines (String.ofList overlongText) = [⟨1, overlongText⟩] := by
    simp only [logicalLines, String.toList_ofList]
    decide +kernel
  have directive : Directive.ofLine? overlongText =
      some ⟨"include", ['"'] ++ overlongName ++ ['"']⟩ := by
    decide +kernel
  have target : Directive.writtenTarget? (['"'] ++ overlongName ++ ['"']) =
      some (some ⟨String.ofList overlongName, true⟩) := by
    decide +kernel
  have parsed : Path.parse (String.ofList overlongName) = ⟨"", [String.ofList overlongName]⟩ := by
    simp only [Path.parse, String.toList_ofList]
    decide +kernel
  have opened : (firstMoment overlongReading {} ⟨"", ["a.h"]⟩).stack =
      [⟨["a.h"], ⟨⟨"", ["a.h"]⟩, "a.h", false⟩, startOf ⟨⟨"", ["a.h"]⟩, "a.h", false⟩,
        [⟨1, overlongText⟩]⟩] := by
    simp only [firstMoment, descend, overlong_text_reads, lines]
    rfl
  refine ⟨_, [], _, [], ⟨String.ofList overlongName, true⟩, opened, rfl, ?_, ?_⟩
  · simp only [wanted?, directive]
    simp only [includeTarget, target]
    rfl
  · refine ⟨[], ⟨"", []⟩, [⟨"", ["inc"]⟩], rfl, by simp, ?_⟩
    simp only [parsed]
    exact overlong_name_too_long

/-- The directories and the entry are there, and still nothing is returned. -/
theorem overlong_include_unread :
    Usable overlongReading ⟨"", ["a.h"]⟩ ∧
      ∃ failure, readHeaders overlongReading {} ⟨"", ["a.h"]⟩ = .error (.refused failure) := by
  have readable : overlongReading.tree.IsReadable ⟨"", ["a.h"]⟩ := ⟨_, overlong_text_reads⟩
  have usable : Usable overlongReading ⟨"", ["a.h"]⟩ := by
    refine ⟨by simp [overlongReading], ?_, readable⟩
    intro path member
    rw [List.mem_singleton.mp member]
    decide +kernel
  refine ⟨usable, ?_⟩
  rcases readHeaders_cases overlongReading {} ⟨"", ["a.h"]⟩ with ⟨-, same⟩ | ⟨unusable, -⟩
  · have runs := enter_runs_entry {} readable
    rw [same]
    generalize enter overlongReading _ _ _ _ = entered at runs ⊢
    cases entered with
    | error failure => exact ⟨failure, rfl⟩
    | ok walk => exact absurd overlong_blocks (not_blocked_of_ends runs .refl)
  · exact absurd usable unusable

end CBindings
