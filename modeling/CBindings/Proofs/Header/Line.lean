import CBindings.Proofs.Header.Lookup
import CBindings.Proofs.Macro.Findings

/-! What reading one line of a header does to the include graph. -/

namespace CBindings

structure Scan.Same (before after : Scan) : Prop where
  path : after.header.path = before.header.path
  name : after.header.name = before.header.name
  includes : after.header.includes = before.header.includes

theorem Scan.Same.refl (scan : Scan) : scan.Same scan := ⟨rfl, rfl, rfl⟩

theorem Scan.Same.trans {before middle after : Scan} (first : before.Same middle)
    (second : middle.Same after) : before.Same after where
  path := second.path.trans first.path
  name := second.name.trans first.name
  includes := second.includes.trans first.includes

structure Walk.Kept (before after : Walk) : Prop where
  visits : after.visits = before.visits
  finished : after.finished = before.finished
  diagnostics : before.findings.diagnostics <+: after.findings.diagnostics

theorem Walk.Kept.refl (walk : Walk) : walk.Kept walk := ⟨rfl, rfl, List.prefix_refl _⟩

theorem Walk.Kept.trans {before middle after : Walk} (first : before.Kept middle)
    (second : middle.Kept after) : before.Kept after where
  visits := second.visits.trans first.visits
  finished := second.finished.trans first.finished
  diagnostics := first.diagnostics.trans second.diagnostics

theorem Walk.kept_report (walk : Walk) (diagnostic : Diagnostic) :
    walk.Kept (walk.report diagnostic) :=
  ⟨rfl, rfl, add_accumulates walk.findings diagnostic⟩

namespace IncludeGraph

variable {reading : Reading} {scan : Scan} {walk : Walk}

structure Undisturbed (scan : Scan) (walk : Walk) (read : Scan × Walk) : Prop where
  same : scan.Same read.1
  kept : walk.Kept read.2

theorem undisturbed_self (scan : Scan) (walk : Walk) : Undisturbed scan walk (scan, walk) :=
  ⟨.refl scan, .refl walk⟩

theorem undisturbed_report (scan : Scan) (walk : Walk) (diagnostic : Diagnostic) :
    Undisturbed scan walk (scan, walk.report diagnostic) :=
  ⟨.refl scan, walk.kept_report diagnostic⟩

theorem Undisturbed.trans {middle after : Scan × Walk} (first : Undisturbed scan walk middle)
    (second : Undisturbed middle.1 middle.2 after) : Undisturbed scan walk after :=
  ⟨first.same.trans second.same, first.kept.trans second.kept⟩

theorem flush_undisturbed (scan : Scan) (walk : Walk) : Undisturbed scan walk (flush scan walk) where
  same := ⟨rfl, rfl, rfl⟩
  kept := ⟨rfl, rfl, expand_accumulates walk.table scan.pending _ walk.findings⟩

theorem condition_kept (rest : List Char) (line : Nat) :
    walk.Kept (condition reading rest line scan walk).2 :=
  ⟨rfl, rfl, holds_accumulates walk.table reading.longWidth _ _ _ walk.findings⟩

theorem openGroup_undisturbed (directive : Directive) (line : Nat) :
    Undisturbed scan walk (openGroup reading directive line scan walk) := by
  unfold openGroup
  split
  · exact ⟨⟨rfl, rfl, rfl⟩, .refl walk⟩
  · refine ⟨⟨rfl, rfl, rfl⟩, ?_⟩
    simp only
    split
    · exact condition_kept directive.rest line
    · split
      · split
        · exact .refl walk
        · exact walk.kept_report _
      · exact walk.kept_report _

theorem elseIf_undisturbed (rest : List Char) (line : Nat) :
    Undisturbed scan walk (elseIf reading rest line scan walk) := by
  unfold elseIf
  split
  · exact undisturbed_report scan walk _
  · split
    · exact ⟨⟨rfl, rfl, rfl⟩, condition_kept rest line⟩
    · exact ⟨⟨rfl, rfl, rfl⟩, .refl walk⟩

theorem otherwise_undisturbed (line : Nat) : Undisturbed scan walk (otherwise line scan walk) := by
  unfold otherwise
  split
  · exact undisturbed_report scan walk _
  · exact ⟨⟨rfl, rfl, rfl⟩, .refl walk⟩

theorem closeGroup_undisturbed (line : Nat) :
    Undisturbed scan walk (closeGroup line scan walk) := by
  unfold closeGroup
  split
  · exact undisturbed_report scan walk _
  · exact ⟨⟨rfl, rfl, rfl⟩, .refl walk⟩

theorem define_undisturbed (rest : List Char) (line : Nat) :
    Undisturbed scan walk (define rest line scan walk) := by
  unfold define
  split
  · exact undisturbed_report scan walk _
  · simp only
    split
    · exact ⟨⟨rfl, rfl, rfl⟩, ⟨rfl, rfl, List.prefix_refl _⟩⟩
    · exact ⟨.refl scan, ⟨rfl, rfl, List.prefix_refl _⟩⟩

theorem includeTarget_kept (rest : List Char) (line : Nat) :
    walk.Kept (includeTarget rest line scan walk).2 := by
  unfold includeTarget
  split
  · exact .refl walk
  · exact ⟨rfl, rfl, expand_accumulates walk.table _ _ walk.findings⟩

theorem act_undisturbed (directive : Directive) (line : Nat) :
    Undisturbed scan walk (act directive line scan walk) := by
  unfold act
  split
  · exact define_undisturbed directive.rest line
  · split
    · exact ⟨.refl scan, ⟨rfl, rfl, List.prefix_refl _⟩⟩
    · split
      · exact undisturbed_report scan walk _
      · split
        · exact undisturbed_self scan walk
        · exact undisturbed_report scan walk _

/-! ### What a line comes to -/

structure ReportsCycle (includer included : String) (diagnostic : Diagnostic) : Prop where
  kind : diagnostic.kind = Diagnostic.includeCycle
  header : diagnostic.header = some includer
  message : diagnostic.message =
    includer ++ " includes " ++ included ++ ", which is still being processed"

/-- A line leaves the graph alone, or includes a header that is finished, open, or new. -/
inductive Effect (reading : Reading) (scan : Scan) (walk : Walk) : Progress → Prop where
  | quiet (read : Scan × Walk) (calm : Undisturbed scan walk read) :
      Effect reading scan walk (.plain read)
  | finished (read : Scan × Walk) (calm : Undisturbed scan walk read) (place : Place)
      (visit : Visit) (met : walk.visits.get? place = some visit) (done : visit.isDone = true) :
      Effect reading scan walk (.plain (read.1.including visit.path, read.2))
  | cycle (read : Scan × Walk) (calm : Undisturbed scan walk read) (place : Place)
      (visit : Visit) (met : walk.visits.get? place = some visit) (waiting : visit.isDone = false)
      (diagnostic : Diagnostic) (reports : ReportsCycle scan.header.name visit.name diagnostic) :
      Effect reading scan walk
        (.plain (read.1.including visit.path, read.2.report diagnostic))
  | descent (read : Scan × Walk) (calm : Undisturbed scan walk read) (entry : Visit)
      (unmet : walk.visits.get? (reading.tree.resolve entry.path) = none)
      (readable : reading.tree.IsReadable entry.path) :
      Effect reading scan walk ⟨read.1.including entry.path, read.2,
        some (reading.tree.resolve entry.path, entry)⟩

theorem Effect.of_undisturbed {read : Scan × Walk} {progress : Progress}
    (calm : Undisturbed scan walk read) (effect : Effect reading read.1 read.2 progress) :
    Effect reading scan walk progress := by
  cases effect with
  | quiet after calmAfter => exact .quiet after (calm.trans calmAfter)
  | finished after calmAfter place visit met done =>
    exact .finished after (calm.trans calmAfter) place visit (calm.kept.visits ▸ met) done
  | cycle after calmAfter place visit met waiting diagnostic reports =>
    exact .cycle after (calm.trans calmAfter) place visit (calm.kept.visits ▸ met) waiting
      diagnostic (calm.same.name ▸ reports)
  | descent after calmAfter entry unmet readable =>
    exact .descent after (calm.trans calmAfter) entry (calm.kept.visits ▸ unmet) readable

theorem visit_effect {path : Path} (readable : reading.tree.IsReadable path) (name : String)
    (line : Nat) (scan : Scan) (walk : Walk) :
    Effect reading scan walk (visit reading path name line scan walk) := by
  simp only [visit]
  cases met : walk.visits.get? (reading.tree.resolve path) with
  | none =>
    exact .descent (scan, walk) (undisturbed_self scan walk) (walk.meet reading.tree path name) met
      readable
  | some visit =>
    simp only [Option.getD_some]
    by_cases done : visit.isDone
    · rw [if_pos done]
      exact .finished (scan, walk) (undisturbed_self scan walk) _ visit met done
    · rw [if_neg done]
      exact .cycle (scan, walk) (undisturbed_self scan walk) _ visit met
        (Bool.eq_false_iff.mpr done) _ ⟨rfl, rfl, rfl⟩

theorem includeHeader_effect {rest : List Char} {line : Nat} {progress : Progress}
    (included : includeHeader reading rest line scan walk = .ok progress) :
    Effect reading scan walk progress := by
  have kept : walk.Kept (includeTarget rest line scan walk).2 := includeTarget_kept rest line
  simp only [includeHeader] at included
  split at included
  · cases included
    exact .quiet _ ⟨.refl scan, kept.trans (Walk.kept_report _ _)⟩
  · next wanted same =>
    cases found : find reading wanted scan.header.path with
    | error failure =>
      rw [found] at included
      cases included
    | ok answer =>
      rw [found] at included
      cases answer with
      | none =>
        cases included
        exact .quiet _ ⟨.refl scan, kept.trans (Walk.kept_report _ _)⟩
      | some answer =>
        cases included
        have calm : Undisturbed scan walk (scan, (includeTarget rest line scan walk).2) :=
          ⟨.refl scan, kept⟩
        exact .of_undisturbed calm (visit_effect (find_readable found) answer.2 line scan _)

theorem carryOut_effect {directive : Directive} {line : Nat} {progress : Progress}
    (carried : carryOut reading directive line scan walk = .ok progress) :
    Effect reading scan walk progress := by
  unfold carryOut at carried
  split at carried
  · cases carried
    exact .quiet _ (openGroup_undisturbed directive line)
  · split at carried
    · cases carried
      exact .quiet _ (elseIf_undisturbed directive.rest line)
    · split at carried
      · cases carried
        exact .quiet _ (otherwise_undisturbed line)
      · split at carried
        · cases carried
          exact .quiet _ (closeGroup_undisturbed line)
        · split at carried
          · cases carried
            exact .quiet _ (undisturbed_self scan walk)
          · split at carried
            · exact includeHeader_effect carried
            · cases carried
              exact .quiet _ (act_undisturbed directive line)

theorem readLine_effect {line : NumberedLine} {progress : Progress}
    (read : readLine reading scan walk line = .ok progress) :
    Effect reading scan walk progress := by
  unfold readLine at read
  split at read
  · split at read
    · cases read
      exact .quiet _ ⟨⟨rfl, rfl, rfl⟩, .refl walk⟩
    · cases read
      exact .quiet _ (undisturbed_self scan walk)
  · exact .of_undisturbed (flush_undisturbed scan walk) (carryOut_effect read)

theorem finish_kept (reading : Reading) (scan : Scan) (walk : Walk) (place : Place)
    (entry : Visit) :
    (finish reading place entry scan walk).visits =
        walk.visits.insert place { entry with isDone := true } ∧
      (∃ header : Header, (finish reading place entry scan walk).finished =
          walk.finished ++ [header] ∧ header.path = scan.header.path ∧
        header.name = scan.header.name ∧ header.includes = scan.header.includes) ∧
      walk.findings.diagnostics <+: (finish reading place entry scan walk).findings.diagnostics := by
  have flushed := (flush_undisturbed scan walk).kept
  have reported : ∀ (branches : Branches) (scan : Scan) (walk : Walk),
      walk.Kept (branches.foldl (fun walk branch =>
        walk.report (malformed scan branch.line "unterminated conditional block")) walk) := by
    intro branches scan
    induction branches with
    | nil => exact Walk.Kept.refl
    | cons branch rest ih => exact fun walk => (walk.kept_report _).trans (ih _)
  have ended := flushed.trans (reported (flush scan walk).1.branches.reverse (flush scan walk).1 _)
  let header : Header := { (flush scan walk).1.header with
    declarations := (reading.parser (flush scan walk).1.header).1 }
  refine ⟨?_, ⟨header, ?_, rfl, rfl, rfl⟩, ?_⟩
  · simp only [finish, Walk.mark, ended.visits]
  · simp only [finish, Walk.mark, ended.finished, header]
  · exact ended.diagnostics.trans (List.prefix_append _ _)

/-! ### Look-ups that cannot be made -/

def wanted? (scan : Scan) (walk : Walk) (line : NumberedLine) : Option Directive.Target :=
  match Directive.ofLine? line.text with
  | none => none
  | some directive =>
    if inclusions.contains directive.name && Branches.active scan.branches then
      let flushed := flush scan walk
      (includeTarget directive.rest line.number flushed.1 flushed.2).1
    else none

theorem includeHeader_fails_iff {rest : List Char} {line : Nat} :
    (∃ failure, includeHeader reading rest line scan walk = .error failure) ↔
      ∃ target, (includeTarget rest line scan walk).1 = some target ∧
        reading.tree.Stuck (Path.parse target.name)
          (directories reading target scan.header.path) := by
  simp only [includeHeader]
  cases wanted : (includeTarget rest line scan walk).1 with
  | none =>
    constructor
    · rintro ⟨failure, impossible⟩
      cases impossible
    · rintro ⟨target, impossible, -⟩
      cases impossible
  | some target =>
    have search : (∃ failure, find reading target scan.header.path = .error failure) ↔ _ :=
      find_fails_iff
    constructor
    · rintro ⟨failure, failed⟩
      refine ⟨target, rfl, search.mp ?_⟩
      cases found : find reading target scan.header.path with
      | error failure => exact ⟨failure, rfl⟩
      | ok answer =>
        simp only [found] at failed
        cases answer <;> cases failed
    · rintro ⟨other, same, stuck⟩
      cases same
      obtain ⟨failure, failed⟩ := search.mpr stuck
      simp only [failed]
      exact ⟨failure, rfl⟩

theorem readLine_fails_iff {line : NumberedLine} :
    (∃ failure, readLine reading scan walk line = .error failure) ↔
      ∃ target, wanted? scan walk line = some target ∧
        reading.tree.Stuck (Path.parse target.name)
          (directories reading target scan.header.path) := by
  unfold readLine wanted?
  cases Directive.ofLine? line.text with
  | none =>
    constructor
    · rintro ⟨failure, impossible⟩
      simp only at impossible
      split at impossible <;> cases impossible
    · rintro ⟨target, impossible, -⟩
      cases impossible
  | some directive =>
    by_cases inclusion : directive.name = "include" ∨ directive.name = "include_next"
    · have member : inclusions.contains directive.name = true := by
        rcases inclusion with same | same <;> rw [same] <;> rfl
      have other : ["if", "ifdef", "ifndef"].contains directive.name = false ∧
          directive.name ≠ "elif" ∧ directive.name ≠ "else" ∧ directive.name ≠ "endif" := by
        rcases inclusion with same | same <;> rw [same] <;> decide
      simp only [carryOut, other, member, Bool.true_and, Bool.false_eq_true, if_false, if_true]
      cases active : Branches.active scan.branches with
      | true =>
        have still : Branches.active (flush scan walk).1.branches = true := active
        simp only [still, Bool.not_true, Bool.false_eq_true, if_false, if_true]
        exact includeHeader_fails_iff
      | false =>
        have still : Branches.active (flush scan walk).1.branches = false := active
        simp only [still, Bool.not_false, if_true]
        constructor
        · rintro ⟨failure, impossible⟩
          cases impossible
        · rintro ⟨target, impossible, -⟩
          cases impossible
    · have member : inclusions.contains directive.name = false := by
        simpa [inclusions] using inclusion
      simp only [carryOut, member, Bool.false_and, Bool.false_eq_true, if_false]
      constructor
      · rintro ⟨failure, impossible⟩
        repeat' split at impossible
        all_goals cases impossible
      · rintro ⟨target, impossible, -⟩
        cases impossible

end IncludeGraph

end CBindings
