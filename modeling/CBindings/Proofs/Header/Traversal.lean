import CBindings.Proofs.Header.Line
import Mathlib.Data.List.Nodup
import Mathlib.Logic.Relation

/-! Reading headers as a run over an explicit include stack. Every moment of the recursion is a
moment of the run, and the recursion is never too deep. -/

namespace CBindings

namespace IncludeGraph

structure Frame where
  place : Place
  entry : Visit
  scan : Scan
  lines : List NumberedLine

/-- A moment of the traversal. The header that was opened last is the first on the stack. -/
structure Moment where
  stack : List Frame
  walk : Walk

def Moment.places (moment : Moment) : List Place := moment.stack.map Frame.place

variable (reading : Reading)

def descend (place : Place) (entry : Visit) (moment : Moment) : Moment :=
  match reading.tree.read entry.path with
  | .error _ => moment
  | .ok source =>
    ⟨⟨place, entry, startOf entry, logicalLines source⟩ :: moment.stack,
      moment.walk.mark place entry false⟩

def advance (moment : Moment) : Except FileFailure (Option Moment) :=
  match moment.stack with
  | [] => .ok none
  | frame :: outer =>
    match frame.lines with
    | [] => .ok (some ⟨outer, finish reading frame.place frame.entry frame.scan moment.walk⟩)
    | line :: rest =>
      (readLine reading frame.scan moment.walk line).map fun progress =>
        let next : Moment :=
          ⟨{ frame with scan := progress.scan, lines := rest } :: outer, progress.walk⟩
        match progress.descent with
        | none => some next
        | some (place, entry) => some (descend reading place entry next)

def Follows (moment next : Moment) : Prop := advance reading moment = .ok (some next)

def Reaches : Moment → Moment → Prop := Relation.ReflTransGen (Follows reading)

inductive Move : Moment → Moment → Prop where
  | finish (frame : Frame) (outer : List Frame) (walk : Walk) :
      Move ⟨frame :: outer, walk⟩
        ⟨outer, finish reading frame.place frame.entry frame.scan walk⟩
  | quiet (frame : Frame) (outer : List Frame) (walk : Walk) (rest : List NumberedLine)
      (read : Scan × Walk) (calm : Undisturbed frame.scan walk read) :
      Move ⟨frame :: outer, walk⟩ ⟨{ frame with scan := read.1, lines := rest } :: outer, read.2⟩
  | finished (frame : Frame) (outer : List Frame) (walk : Walk) (rest : List NumberedLine)
      (read : Scan × Walk) (calm : Undisturbed frame.scan walk read) (place : Place)
      (visit : Visit) (met : walk.visits.get? place = some visit) (done : visit.isDone = true) :
      Move ⟨frame :: outer, walk⟩
        ⟨{ frame with scan := read.1.including visit.path, lines := rest } :: outer, read.2⟩
  | cycle (frame : Frame) (outer : List Frame) (walk : Walk) (rest : List NumberedLine)
      (read : Scan × Walk) (calm : Undisturbed frame.scan walk read) (place : Place)
      (visit : Visit) (met : walk.visits.get? place = some visit) (waiting : visit.isDone = false)
      (diagnostic : Diagnostic)
      (reports : ReportsCycle frame.scan.header.name visit.name diagnostic) :
      Move ⟨frame :: outer, walk⟩
        ⟨{ frame with scan := read.1.including visit.path, lines := rest } :: outer,
          read.2.report diagnostic⟩
  | descent (frame : Frame) (outer : List Frame) (walk : Walk) (rest : List NumberedLine)
      (read : Scan × Walk) (calm : Undisturbed frame.scan walk read) (entry : Visit)
      (source : String) (unmet : walk.visits.get? (reading.tree.resolve entry.path) = none)
      (readable : reading.tree.IsReadable entry.path) :
      Move ⟨frame :: outer, walk⟩
        ⟨⟨reading.tree.resolve entry.path, entry, startOf entry, logicalLines source⟩ ::
            { frame with scan := read.1.including entry.path, lines := rest } :: outer,
          read.2.mark (reading.tree.resolve entry.path) entry false⟩

variable {reading} {moment next : Moment}

theorem move_of_follows (follows : Follows reading moment next) : Move reading moment next := by
  obtain ⟨stack, walk⟩ := moment
  unfold Follows advance at follows
  cases stack with
  | nil => cases follows
  | cons frame outer =>
    obtain ⟨place, entry, scan, lines⟩ := frame
    cases lines with
    | nil =>
      cases follows
      exact .finish ⟨place, entry, scan, []⟩ outer walk
    | cons line rest =>
      simp only at follows
      cases read : readLine reading scan walk line with
      | error failure =>
        rw [read] at follows
        cases follows
      | ok progress =>
        rw [read] at follows
        cases readLine_effect read with
        | quiet after calm =>
          cases follows
          exact .quiet _ outer walk rest after calm
        | finished after calm place visit met done =>
          cases follows
          exact .finished _ outer walk rest after calm place visit met done
        | cycle after calm place visit met waiting diagnostic reports =>
          cases follows
          exact .cycle _ outer walk rest after calm place visit met waiting diagnostic reports
        | descent after calm entry unmet readable =>
          obtain ⟨source, found⟩ := readable
          simp only [Except.map, descend, found] at follows
          cases follows
          exact .descent _ outer walk rest after calm entry source unmet ⟨source, found⟩

/-! ### Room for every header -/

/-- Every header that has been met is a file. -/
def Grounded (reading : Reading) (walk : Walk) : Prop :=
  walk.visits.keys ⊆ reading.tree.files.map Prod.fst

structure Extends (reading : Reading) (before after : Walk) : Prop where
  keys : before.visits.keys <+: after.visits.keys
  grounded : Grounded reading before → Grounded reading after
  diagnostics : before.findings.diagnostics <+: after.findings.diagnostics
  finished : before.finished <+: after.finished

theorem Extends.refl (walk : Walk) : Extends reading walk walk :=
  ⟨List.prefix_refl _, id, List.prefix_refl _, List.prefix_refl _⟩

theorem Extends.trans {before middle after : Walk} (first : Extends reading before middle)
    (second : Extends reading middle after) : Extends reading before after where
  keys := first.keys.trans second.keys
  grounded := second.grounded ∘ first.grounded
  diagnostics := first.diagnostics.trans second.diagnostics
  finished := first.finished.trans second.finished

theorem extends_of_kept {before after : Walk} (kept : before.Kept after) :
    Extends reading before after where
  keys := by
    have same : after.visits.keys = before.visits.keys := congrArg OrderedMap.keys kept.visits
    exact same ▸ List.prefix_refl _
  grounded grounded := by
    unfold Grounded
    rw [kept.visits]
    exact grounded
  diagnostics := kept.diagnostics
  finished := kept.finished ▸ List.prefix_refl _

theorem keys_prefix_insert (walk : Walk) (place : Place) (visit : Visit) :
    walk.visits.keys <+: (walk.visits.insert place visit).keys := by
  rw [OrderedMap.keys_insert]
  split
  · exact List.prefix_refl _
  · exact List.prefix_append _ _

theorem extends_mark {walk : Walk} {place : Place} (visit : Visit) (isDone : Bool)
    (file : place ∈ reading.tree.files.map Prod.fst) :
    Extends reading walk (walk.mark place visit isDone) where
  keys := keys_prefix_insert walk place _
  grounded grounded := by
    intro key member
    simp only [Walk.mark, OrderedMap.keys_insert] at member
    split at member
    · exact grounded member
    · rcases List.mem_append.mp member with old | new
      · exact grounded old
      · rw [List.mem_singleton.mp new]
        exact file
  diagnostics := List.prefix_refl _
  finished := List.prefix_refl _

def Filed (reading : Reading) (moment : Moment) : Prop :=
  moment.places ⊆ reading.tree.files.map Prod.fst

theorem filed_of_move (move : Move reading moment next) (filed : Filed reading moment) :
    Filed reading next := by
  cases move with
  | finish frame outer walk => exact fun place member => filed (List.mem_cons_of_mem _ member)
  | quiet | finished | cycle => exact filed
  | descent frame outer walk rest read calm entry source unmet readable =>
    intro place member
    rcases List.mem_cons.mp member with rfl | below
    · exact FileTree.resolve_mem_of_isReadable readable
    · exact filed below

theorem extends_of_move (move : Move reading moment next) (filed : Filed reading moment) :
    Extends reading moment.walk next.walk := by
  cases move with
  | finish frame outer walk =>
    have file : frame.place ∈ reading.tree.files.map Prod.fst := filed List.mem_cons_self
    obtain ⟨visits, ⟨header, finished, -⟩, diagnostics⟩ :=
      finish_kept reading frame.scan walk frame.place frame.entry
    have marked : Extends reading walk (walk.mark frame.place frame.entry true) :=
      extends_mark frame.entry true file
    refine ⟨?_, ?_, diagnostics, ?_⟩
    · rw [visits]
      exact marked.keys
    · intro grounded
      unfold Grounded
      rw [visits]
      exact marked.grounded grounded
    · rw [finished]
      exact List.prefix_append _ _
  | quiet frame outer walk rest read calm => exact extends_of_kept calm.kept
  | finished frame outer walk rest read calm => exact extends_of_kept calm.kept
  | cycle frame outer walk rest read calm =>
    exact extends_of_kept (calm.kept.trans (Walk.kept_report _ _))
  | descent frame outer walk rest read calm entry source unmet readable =>
    exact (extends_of_kept calm.kept).trans
      (extends_mark entry false (FileTree.resolve_mem_of_isReadable readable))

theorem extends_of_reaches (reaches : Reaches reading moment next)
    (filed : Filed reading moment) :
    Filed reading next ∧ Extends reading moment.walk next.walk := by
  induction reaches with
  | refl => exact ⟨filed, .refl _⟩
  | tail _ follows ih =>
    have move := move_of_follows follows
    exact ⟨filed_of_move move ih.1, ih.2.trans (extends_of_move move ih.1)⟩

theorem room_for_unmet {walk : Walk} {place : Place} (grounded : Grounded reading walk)
    (unmet : walk.visits.get? place = none) (file : place ∈ reading.tree.files.map Prod.fst) :
    walk.visits.keys.length < reading.tree.files.length := by
  have distinct : (place :: walk.visits.keys).Nodup :=
    List.nodup_cons.mpr ⟨OrderedMap.not_mem_keys_iff.mpr unmet, walk.visits.distinct⟩
  have within : place :: walk.visits.keys ⊆ reading.tree.files.map Prod.fst :=
    List.cons_subset.mpr ⟨file, grounded⟩
  have fewer : (place :: walk.visits.keys).length ≤ (reading.tree.files.map Prod.fst).length :=
    List.Nodup.length_le_of_subset distinct within
  simp only [List.length_cons, List.length_map] at fewer
  omega

/-! ### The recursion is the run -/

def RunsTo {α : Type} (reading : Reading) (moment : Moment) (last : α → Moment) :
    Except FileFailure α → Prop
  | .ok answer => Reaches reading moment (last answer)
  | .error failure => ∃ stuck, Reaches reading moment stuck ∧ advance reading stuck = .error failure

theorem RunsTo.after {α : Type} {middle : Moment} {last : α → Moment}
    {computed : Except FileFailure α} (reaches : Reaches reading moment middle)
    (runs : RunsTo reading middle last computed) : RunsTo reading moment last computed := by
  cases computed with
  | ok answer => exact reaches.trans runs
  | error failure =>
    obtain ⟨stuck, there, failed⟩ := runs
    exact ⟨stuck, reaches.trans there, failed⟩

/-- Headers can be met as long as fewer are than there are files, the depth being what is left. -/
structure Roomy (reading : Reading) (depth : Nat) (walk : Walk) : Prop where
  grounded : Grounded reading walk
  enough : reading.tree.files.length ≤ depth + walk.visits.keys.length

theorem Roomy.extend {depth : Nat} {before after : Walk} (roomy : Roomy reading depth before)
    (extension : Extends reading before after) : Roomy reading depth after where
  grounded := extension.grounded roomy.grounded
  enough := by
    have longer := extension.keys.length_le
    have enough := roomy.enough
    omega

theorem Roomy.mark {depth : Nat} {walk : Walk} {place : Place} (visit : Visit)
    (roomy : Roomy reading (depth + 1) walk) (unmet : walk.visits.get? place = none)
    (file : place ∈ reading.tree.files.map Prod.fst) :
    Roomy reading depth (walk.mark place visit false) where
  grounded := (extends_mark visit false file).grounded roomy.grounded
  enough := by
    have absent : place ∉ walk.visits.keys := OrderedMap.not_mem_keys_iff.mpr unmet
    have enough := roomy.enough
    simp only [Walk.mark, OrderedMap.keys_insert, if_neg absent, List.length_append,
      List.length_singleton]
    omega

def Enters (reading : Reading) (depth : Nat)
    (enter : Place → Visit → Walk → Except FileFailure Walk) : Prop :=
  ∀ (entry : Visit) (outer : List Frame) (walk : Walk), Roomy reading depth walk →
    Filed reading ⟨outer, walk⟩ → walk.visits.get? (reading.tree.resolve entry.path) = none →
    reading.tree.IsReadable entry.path →
    RunsTo reading (descend reading (reading.tree.resolve entry.path) entry ⟨outer, walk⟩)
      (fun walk => ⟨outer, walk⟩) (enter (reading.tree.resolve entry.path) entry walk)

theorem readLines_runs {depth : Nat} {enter : Place → Visit → Walk → Except FileFailure Walk}
    (enters : Enters reading depth enter) (place : Place) (entry : Visit) (outer : List Frame)
    (lines : List NumberedLine) (scan : Scan) (walk : Walk) (roomy : Roomy reading depth walk)
    (filed : Filed reading ⟨⟨place, entry, scan, lines⟩ :: outer, walk⟩) :
    RunsTo reading ⟨⟨place, entry, scan, lines⟩ :: outer, walk⟩
      (fun read => ⟨⟨place, entry, read.1, []⟩ :: outer, read.2⟩)
      (readLines reading enter lines scan walk) := by
  induction lines generalizing scan walk with
  | nil => exact .refl
  | cons line rest ih =>
    let here : Moment := ⟨⟨place, entry, scan, line :: rest⟩ :: outer, walk⟩
    have stepped : advance reading here =
        (readLine reading scan walk line).map fun progress =>
          let next : Moment := ⟨⟨place, entry, progress.scan, rest⟩ :: outer, progress.walk⟩
          match progress.descent with
          | none => some next
          | some (place, entry) => some (descend reading place entry next) := rfl
    unfold readLines
    cases read : readLine reading scan walk line with
    | error failure =>
      rw [read] at stepped
      exact ⟨here, .refl, stepped⟩
    | ok progress =>
      rw [read] at stepped
      obtain ⟨scanAfter, walkAfter, descent⟩ := progress
      have effect := readLine_effect read
      cases descent with
      | none =>
        have follows : Follows reading here ⟨⟨place, entry, scanAfter, rest⟩ :: outer, walkAfter⟩ :=
          stepped
        have kept := extends_of_move (move_of_follows follows) filed
        exact RunsTo.after (.single follows)
          (ih scanAfter walkAfter (roomy.extend kept) filed)
      | some met =>
        obtain ⟨metPlace, metEntry⟩ := met
        let next : Moment := ⟨⟨place, entry, scanAfter, rest⟩ :: outer, walkAfter⟩
        have follows : Follows reading here (descend reading metPlace metEntry next) := stepped
        cases effect with
        | descent after calm _ unmet readable =>
          have roomyAfter := roomy.extend (extends_of_kept calm.kept)
          have inner := enters metEntry next.stack after.2 roomyAfter filed
            (calm.kept.visits ▸ unmet) readable
          simp only [bind, Except.bind]
          cases entered : enter (reading.tree.resolve metEntry.path) metEntry after.2 with
          | error failure =>
            rw [entered] at inner
            obtain ⟨stuck, there, failed⟩ := inner
            exact ⟨stuck, .head follows there, failed⟩
          | ok walkInner =>
            rw [entered] at inner
            have reaches : Reaches reading here ⟨next.stack, walkInner⟩ := .head follows inner
            have known := extends_of_reaches reaches filed
            exact RunsTo.after reaches
              (ih _ walkInner (roomy.extend known.2) known.1)

theorem enter_runs (reading : Reading) (depth : Nat) :
    Enters reading depth (enter reading depth) := by
  induction depth with
  | zero =>
    intro entry outer walk roomy filed unmet readable
    have room := room_for_unmet roomy.grounded unmet (FileTree.resolve_mem_of_isReadable readable)
    have enough := roomy.enough
    omega
  | succ depth ih =>
    intro entry outer walk roomy filed unmet readable
    have file := FileTree.resolve_mem_of_isReadable readable
    obtain ⟨source, found⟩ := readable
    generalize reading.tree.resolve entry.path = place at unmet file ⊢
    let start : Frame := ⟨place, entry, startOf entry, logicalLines source⟩
    have opened : descend reading place entry ⟨outer, walk⟩ =
        ⟨start :: outer, walk.mark place entry false⟩ := by
      simp only [descend, found, start]
    have filedInside : Filed reading ⟨start :: outer, walk.mark place entry false⟩ := by
      intro other member
      rcases List.mem_cons.mp member with rfl | below
      · exact file
      · exact filed below
    have lines := readLines_runs ih place entry outer (logicalLines source) (startOf entry)
      (walk.mark place entry false) (roomy.mark entry unmet file) filedInside
    rw [opened]
    cases read : readLines reading (enter reading depth) (logicalLines source) (startOf entry)
        (walk.mark place entry false) with
    | error failure =>
      rw [read] at lines
      simp only [enter, found, bind, Except.bind, read]
      exact lines
    | ok answer =>
      rw [read] at lines
      simp only [enter, found, bind, Except.bind, read]
      have ended : Follows reading ⟨⟨place, entry, answer.1, []⟩ :: outer, answer.2⟩
          ⟨outer, finish reading place entry answer.1 answer.2⟩ := rfl
      exact .tail lines ended

end IncludeGraph

end CBindings
