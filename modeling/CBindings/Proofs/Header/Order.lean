import CBindings.Proofs.Header.Traversal

/-! Headers are finished in an order of dependency: each header once, the entry last, and what a
header includes before it, unless that is open at the time, which is reported. -/

namespace CBindings

namespace IncludeGraph

variable {reading : Reading} {first moment next : Moment} {entry : Path}

def order (reading : Reading) (walk : Walk) : List Place :=
  walk.finished.map fun header => reading.tree.resolve header.path

/-- At `moment` the header at `place` makes its inclusion number `count`. What it includes is that
header itself or one further out on the stack, and the next moment reports it. -/
structure CycleAt (reading : Reading) (first moment next : Moment) (place : Place) (name : String)
    (count : Nat) (included : Path) (diagnostic : Diagnostic) : Prop where
  reached : Reaches reading first moment
  follows : Follows reading moment next
  recorded : ∃ frame after outer, moment.stack = frame :: outer ∧ next.stack = after :: outer ∧
    frame.place = place ∧ frame.scan.header.includes.length = count ∧
    after.scan.header.includes = frame.scan.header.includes ++ [included]
  enclosing : reading.tree.resolve included ∈ moment.places
  kind : diagnostic.kind = Diagnostic.includeCycle
  header : diagnostic.header = some name
  reported : ∃ earlier, next.walk.findings.diagnostics =
    moment.walk.findings.diagnostics ++ earlier ++ [diagnostic]

def Cyclic (reading : Reading) (first : Moment) (walk : Walk) (place : Place) (name : String)
    (count : Nat) (included : Path) : Prop :=
  ∃ moment next diagnostic, diagnostic ∈ walk.findings.diagnostics ∧
    CycleAt reading first moment next place name count included diagnostic

theorem Cyclic.mono {before after : Walk} {place : Place} {name : String} {count : Nat}
    {included : Path} (cyclic : Cyclic reading first before place name count included)
    (kept : before.findings.diagnostics <+: after.findings.diagnostics) :
    Cyclic reading first after place name count included := by
  obtain ⟨moment, next, diagnostic, member, cycle⟩ := cyclic
  exact ⟨moment, next, diagnostic, kept.subset member, cycle⟩

/-- What holds at every moment of a traversal. An inclusion that an open header has made leads to a
finished header, to one that was opened since, or into a cycle. -/
structure Sound (reading : Reading) (first : Moment) (entry : Path) (moment : Moment) : Prop where
  reached : Reaches reading first moment
  located : ∀ place visit, moment.walk.visits.get? place = some visit →
    reading.tree.resolve visit.path = place
  waiting : ∀ place, place ∈ moment.places ↔
    ∃ visit, moment.walk.visits.get? place = some visit ∧ visit.isDone = false
  nested : moment.places.Nodup
  framed : ∀ frame ∈ moment.stack, reading.tree.resolve frame.entry.path = frame.place ∧
    frame.scan.header.path = frame.entry.path
  listed : ∀ place, place ∈ order reading moment.walk ↔
    ∃ visit, moment.walk.visits.get? place = some visit ∧ visit.isDone = true
  once : (order reading moment.walk).Nodup
  opened : ∀ place ∈ order reading moment.walk,
    ∃ earlier, Reaches reading first earlier ∧ place ∈ earlier.places
  bottom : (∃ frame, moment.stack.getLast? = some frame ∧ frame.entry.path = entry) ∨
    moment.stack = [] ∧
      ∃ header, moment.walk.finished.getLast? = some header ∧ header.path = entry
  settled : ∀ before header after, moment.walk.finished = before ++ header :: after →
    ∀ count included, header.includes[count]? = some included →
      reading.tree.resolve included ∈ before.map (fun header => reading.tree.resolve header.path) ∨
      Cyclic reading first moment.walk (reading.tree.resolve header.path) header.name count included
  pending : ∀ inner frame outer, moment.stack = inner ++ frame :: outer →
    ∀ count included, frame.scan.header.includes[count]? = some included →
      reading.tree.resolve included ∈ order reading moment.walk ∨
      reading.tree.resolve included ∈ inner.map Frame.place ∨
      Cyclic reading first moment.walk frame.place frame.scan.header.name count included

theorem getElem?_concat {α : Type} {xs : List α} {x y : α} {count : Nat}
    (found : (xs ++ [x])[count]? = some y) : xs[count]? = some y ∨ (count = xs.length ∧ y = x) := by
  rcases Nat.lt_trichotomy count xs.length with less | same | more
  · rw [List.getElem?_append_left less] at found
    exact .inl found
  · subst same
    rw [List.getElem?_append_right (Nat.le_refl _), Nat.sub_self] at found
    cases found
    exact .inr ⟨rfl, rfl⟩
  · rw [List.getElem?_eq_none (by simp; omega)] at found
    cases found

theorem Sound.not_listed {frame : Frame} {outer : List Frame} {walk : Walk}
    (sound : Sound reading first entry ⟨frame :: outer, walk⟩) :
    frame.place ∉ order reading walk := by
  intro member
  obtain ⟨visit, found, waiting⟩ := (sound.waiting frame.place).mp List.mem_cons_self
  obtain ⟨other, found', done⟩ := (sound.listed frame.place).mp member
  rw [found] at found'
  cases found'
  rw [waiting] at done
  cases done

theorem Sound.line {frame : Frame} {outer : List Frame} {walk walkAfter : Walk} {scan : Scan}
    {rest : List NumberedLine} (sound : Sound reading first entry ⟨frame :: outer, walk⟩)
    (follows : Follows reading ⟨frame :: outer, walk⟩
      ⟨{ frame with scan := scan, lines := rest } :: outer, walkAfter⟩)
    (kept : walk.Kept walkAfter) (path : scan.header.path = frame.scan.header.path)
    (name : scan.header.name = frame.scan.header.name)
    (added : ∀ count included, scan.header.includes[count]? = some included →
      frame.scan.header.includes[count]? = some included ∨
      reading.tree.resolve included ∈ order reading walk ∨
      Cyclic reading first walkAfter frame.place frame.scan.header.name count included) :
    Sound reading first entry
      ⟨{ frame with scan := scan, lines := rest } :: outer, walkAfter⟩ := by
  have sameOrder : order reading walkAfter = order reading walk := by
    simp only [order, kept.finished]
  constructor
  · exact .tail sound.reached follows
  · intro place visit found
    rw [kept.visits] at found
    exact sound.located place visit found
  · intro place
    rw [kept.visits]
    exact sound.waiting place
  · exact sound.nested
  · intro other member
    rcases List.mem_cons.mp member with rfl | below
    · obtain ⟨place, scanned⟩ := sound.framed frame List.mem_cons_self
      exact ⟨place, path.trans scanned⟩
    · exact sound.framed other (List.mem_cons_of_mem _ below)
  · intro place
    rw [sameOrder, kept.visits]
    exact sound.listed place
  · rw [sameOrder]
    exact sound.once
  · rw [sameOrder]
    exact sound.opened
  · refine .inl ?_
    rcases sound.bottom with ⟨bottom, last, isEntry⟩ | ⟨impossible, -⟩
    · cases outer with
      | nil =>
        cases last
        exact ⟨_, rfl, isEntry⟩
      | cons => exact ⟨bottom, by simpa using last, isEntry⟩
    · cases impossible
  · intro before header after split count included made
    rw [kept.finished] at split
    exact (sound.settled before header after split count included made).imp_right
      (Cyclic.mono · kept.diagnostics)
  · intro inner other outer' split count included made
    rw [sameOrder]
    cases inner with
    | nil =>
      cases split
      rcases added count included made with old | listed | cyclic
      · rcases sound.pending [] frame outer rfl count included old with listed | above | cyclic
        · exact .inl listed
        · cases above
        · exact .inr (.inr (name ▸ cyclic.mono kept.diagnostics))
      · exact .inl listed
      · exact .inr (.inr (name ▸ cyclic))
    | cons top inner =>
      cases split
      exact (sound.pending (frame :: inner) other outer' rfl count included made).imp_right
        (.imp_right (Cyclic.mono · kept.diagnostics))

/-- The end of a header. What it includes is finished by then, for nothing lies above it. -/
theorem Sound.ended {frame : Frame} {outer : List Frame} {walk : Walk}
    (sound : Sound reading first entry ⟨frame :: outer, walk⟩)
    (follows : Follows reading ⟨frame :: outer, walk⟩
      ⟨outer, finish reading frame.place frame.entry frame.scan walk⟩) :
    Sound reading first entry
      ⟨outer, finish reading frame.place frame.entry frame.scan walk⟩ := by
  obtain ⟨visits, ⟨header, finished, path, name, includes⟩, kept⟩ :=
    finish_kept reading frame.scan walk frame.place frame.entry
  generalize finish reading frame.place frame.entry frame.scan walk = walkAfter
    at follows visits finished kept ⊢
  obtain ⟨entryPlace, scanned⟩ := sound.framed frame List.mem_cons_self
  have headerPlace : reading.tree.resolve header.path = frame.place := by
    rw [path, scanned, entryPlace]
  have ordered : order reading walkAfter = order reading walk ++ [frame.place] := by
    simp [order, finished, headerPlace]
  have outside : frame.place ∉ outer.map Frame.place := (List.nodup_cons.mp sound.nested).1
  have known : ∀ place, walkAfter.visits.get? place =
      if place = frame.place then some { frame.entry with isDone := true }
      else walk.visits.get? place := by
    intro place
    rw [visits, OrderedMap.get?_insert]
  have last : ∀ count included, frame.scan.header.includes[count]? = some included →
      reading.tree.resolve included ∈ order reading walk ∨
      Cyclic reading first walkAfter frame.place frame.scan.header.name count included := by
    intro count included made
    rcases sound.pending [] frame outer rfl count included made with listed | above | cyclic
    · exact .inl listed
    · cases above
    · exact .inr (cyclic.mono kept)
  constructor
  · exact .tail sound.reached follows
  · intro place visit found
    rw [known] at found
    split at found
    · next same =>
      cases found
      exact entryPlace.trans same.symm
    · exact sound.located place visit found
  · intro place
    rw [known]
    by_cases same : place = frame.place
    · rw [if_pos same]
      constructor
      · intro member
        exact absurd (same ▸ member) outside
      · rintro ⟨visit, found, waiting⟩
        cases found
        cases waiting
    · rw [if_neg same, ← sound.waiting place]
      constructor
      · exact List.mem_cons_of_mem _
      · exact fun member => (List.mem_cons.mp member).resolve_left same
  · exact (List.nodup_cons.mp sound.nested).2
  · intro other below
    exact sound.framed other (List.mem_cons_of_mem _ below)
  · intro place
    rw [known, ordered, List.mem_append, List.mem_singleton]
    by_cases same : place = frame.place
    · rw [if_pos same]
      constructor
      · exact fun _ => ⟨_, rfl, rfl⟩
      · exact fun _ => .inr same
    · rw [if_neg same, ← sound.listed place]
      constructor
      · exact fun member => member.resolve_right same
      · exact .inl
  · rw [ordered]
    refine List.nodup_append.mpr ⟨sound.once, List.nodup_singleton _, ?_⟩
    intro place listed other single same
    rw [List.mem_singleton] at single
    exact sound.not_listed (single ▸ same ▸ listed)
  · intro place member
    rw [ordered, List.mem_append, List.mem_singleton] at member
    rcases member with listed | same
    · exact sound.opened place listed
    · exact ⟨_, sound.reached, same ▸ List.mem_cons_self⟩
  · rcases sound.bottom with ⟨bottom, isLast, isEntry⟩ | ⟨impossible, -⟩
    · cases outer with
      | nil =>
        cases isLast
        refine .inr ⟨rfl, header, ?_, path.trans (scanned.trans isEntry)⟩
        rw [finished, List.getLast?_append]
        rfl
      | cons top outer => exact .inl ⟨bottom, by simpa using isLast, isEntry⟩
    · cases impossible
  · intro before ended after split count included made
    rw [finished] at split
    rcases List.eq_nil_or_concat after with rfl | ⟨after, newest, rfl⟩
    · obtain ⟨rfl, same⟩ := List.append_inj' split rfl
      cases same
      rw [headerPlace, name]
      exact last count included (includes ▸ made)
    · rw [List.concat_eq_append, ← List.cons_append, ← List.append_assoc] at split
      have shorter := (List.append_inj' split rfl).1
      exact (sound.settled before ended after shorter count included made).imp_right
        (Cyclic.mono · kept)
  · intro inner other outer' split count included made
    rw [ordered, List.mem_append, List.mem_singleton]
    have earlier : frame :: outer = (frame :: inner) ++ other :: outer' := by
      rw [List.cons_append]
      exact congrArg (List.cons frame) split
    rcases sound.pending (frame :: inner) other outer' earlier count included made with
      listed | above | cyclic
    · exact .inl (.inl listed)
    · rcases List.mem_cons.mp above with same | above
      · exact .inl (.inr same)
      · exact .inr (.inl above)
    · exact .inr (.inr (cyclic.mono kept))

/-- A header that is opened is on no stack yet, and its includer has just named it. -/
theorem Sound.descent {frame : Frame} {outer : List Frame} {walk : Walk} {read : Scan × Walk}
    {met : Visit} {rest lines : List NumberedLine}
    (sound : Sound reading first entry ⟨frame :: outer, walk⟩)
    (follows : Follows reading ⟨frame :: outer, walk⟩
      ⟨⟨reading.tree.resolve met.path, met, startOf met, lines⟩ ::
          { frame with scan := read.1.including met.path, lines := rest } :: outer,
        read.2.mark (reading.tree.resolve met.path) met false⟩)
    (calm : Undisturbed frame.scan walk read)
    (unmet : walk.visits.get? (reading.tree.resolve met.path) = none) :
    Sound reading first entry
      ⟨⟨reading.tree.resolve met.path, met, startOf met, lines⟩ ::
          { frame with scan := read.1.including met.path, lines := rest } :: outer,
        read.2.mark (reading.tree.resolve met.path) met false⟩ := by
  have sameOrder : order reading (read.2.mark (reading.tree.resolve met.path) met false) =
      order reading walk := by
    simp only [order, Walk.mark, calm.kept.finished]
  have known : ∀ place, (read.2.mark (reading.tree.resolve met.path) met false).visits.get? place =
      if place = reading.tree.resolve met.path then some { met with isDone := false }
      else walk.visits.get? place := by
    intro place
    simp only [Walk.mark, OrderedMap.get?_insert, calm.kept.visits]
  constructor
  · exact .tail sound.reached follows
  · intro place visit found
    rw [known] at found
    split at found
    · next same =>
      cases found
      exact same.symm
    · exact sound.located place visit found
  · intro place
    rw [known]
    by_cases same : place = reading.tree.resolve met.path
    · rw [if_pos same]
      constructor
      · exact fun _ => ⟨_, rfl, rfl⟩
      · exact fun _ => same ▸ List.mem_cons_self
    · rw [if_neg same, ← sound.waiting place]
      constructor
      · exact fun member => (List.mem_cons.mp member).resolve_left same
      · exact List.mem_cons_of_mem _
  · refine List.nodup_cons.mpr ⟨?_, sound.nested⟩
    intro member
    obtain ⟨visit, found, -⟩ := (sound.waiting _).mp member
    rw [unmet] at found
    cases found
  · intro other member
    rcases List.mem_cons.mp member with rfl | member
    · exact ⟨rfl, rfl⟩
    · rcases List.mem_cons.mp member with rfl | below
      · obtain ⟨place, scanned⟩ := sound.framed frame List.mem_cons_self
        exact ⟨place, calm.same.path.trans scanned⟩
      · exact sound.framed other (List.mem_cons_of_mem _ below)
  · intro place
    rw [sameOrder, known, sound.listed place]
    by_cases same : place = reading.tree.resolve met.path
    · rw [if_pos same, same, unmet]
      constructor
      · rintro ⟨visit, impossible, -⟩
        cases impossible
      · rintro ⟨visit, found, done⟩
        cases found
        cases done
    · rw [if_neg same]
  · rw [sameOrder]
    exact sound.once
  · rw [sameOrder]
    exact sound.opened
  · refine .inl ?_
    rcases sound.bottom with ⟨bottom, isLast, isEntry⟩ | ⟨impossible, -⟩
    · cases outer with
      | nil =>
        cases isLast
        exact ⟨_, rfl, isEntry⟩
      | cons => exact ⟨bottom, by simpa using isLast, isEntry⟩
    · cases impossible
  · intro before header after split count included made
    have finished : walk.finished = before ++ header :: after := calm.kept.finished.symm.trans split
    exact (sound.settled before header after finished count included made).imp_right
      (Cyclic.mono · calm.kept.diagnostics)
  · intro inner other outer' split count included made
    rw [sameOrder]
    cases inner with
    | nil =>
      cases split
      cases made
    | cons top inner =>
      cases inner with
      | nil =>
        cases split
        rcases getElem?_concat made with old | ⟨-, rfl⟩
        · rw [calm.same.includes] at old
          rcases sound.pending [] frame outer rfl count included old with listed | above | cyclic
          · exact .inl listed
          · cases above
          · exact .inr (.inr (calm.same.name ▸ cyclic.mono calm.kept.diagnostics))
        · exact .inr (.inl List.mem_cons_self)
      | cons second inner =>
        cases split
        rcases sound.pending (frame :: inner) other outer' rfl count included made with
          listed | above | cyclic
        · exact .inl listed
        · exact .inr (.inl (List.mem_cons_of_mem _ above))
        · exact .inr (.inr (cyclic.mono calm.kept.diagnostics))

theorem sound_step (sound : Sound reading first entry moment)
    (follows : Follows reading moment next) : Sound reading first entry next := by
  cases move_of_follows follows with
  | finish frame outer walk => exact sound.ended follows
  | quiet frame outer walk rest read calm =>
    refine sound.line follows calm.kept calm.same.path calm.same.name ?_
    intro count included made
    exact .inl (calm.same.includes ▸ made)
  | finished frame outer walk rest read calm place visit met done =>
    refine sound.line follows calm.kept calm.same.path calm.same.name ?_
    intro count included made
    rcases getElem?_concat made with old | ⟨-, rfl⟩
    · exact .inl (calm.same.includes ▸ old)
    · refine .inr (.inl ?_)
      rw [sound.located place visit met]
      exact (sound.listed place).mpr ⟨visit, met, done⟩
  | cycle frame outer walk rest read calm place visit met waiting diagnostic reports =>
    refine sound.line follows (calm.kept.trans (read.2.kept_report diagnostic)) calm.same.path
      calm.same.name ?_
    intro count included made
    rcases getElem?_concat made with old | ⟨rfl, rfl⟩
    · exact .inl (calm.same.includes ▸ old)
    · refine .inr (.inr ⟨_, _, diagnostic, ?_, sound.reached, follows, ?_, ?_, ?_, ?_, ?_⟩)
      · exact List.mem_append_right _ List.mem_cons_self
      · refine ⟨frame, _, outer, rfl, rfl, rfl, ?_, ?_⟩
        · rw [calm.same.includes]
        · exact congrArg (· ++ [visit.path]) calm.same.includes
      · rw [sound.located place visit met]
        exact (sound.waiting place).mpr ⟨visit, met, waiting⟩
      · exact reports.kind
      · exact reports.header
      · obtain ⟨earlier, more⟩ := calm.kept.diagnostics
        exact ⟨earlier, congrArg (· ++ [diagnostic]) more.symm⟩
  | descent frame outer walk rest read calm met source unmet readable =>
    exact sound.descent follows calm unmet

theorem sound_of_reaches (start : Sound reading first entry first)
    (reaches : Reaches reading first moment) : Sound reading first entry moment := by
  induction reaches with
  | refl => exact start
  | tail _ follows ih => exact sound_step ih follows

end IncludeGraph

end CBindings
