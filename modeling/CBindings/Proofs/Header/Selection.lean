import CBindings.Proofs.Expr.Dependence
import CBindings.Proofs.Header.Outline
import CBindings.Proofs.Macro.Independence
import Mathlib.Data.List.Induction

/-! Reading a header selects the branches that its outline tells: the flags of every open group say
what the directives above say. -/

namespace CBindings

namespace IncludeGraph

open Outline

variable {holds : BranchStart → Bool} {branch : Branch} {stack : Branches} {groups outer : Outline}
  {branches : List BranchStart} {start : BranchStart}

structure Reflects (holds : BranchStart → Bool) (branch : Branch) (branches : List BranchStart)
    (outer : Outline) : Prop where
  parentActive : branch.parentActive = keeps holds outer
  active : branch.active = keeps holds (branches :: outer)
  taken : branch.taken = (!keeps holds outer || (first? holds branches).isSome)
  seenElse : branch.seenElse = branches.any BranchStart.isElse

/-- A stack of open groups whose flags say what an outline does. -/
inductive Mirrors (holds : BranchStart → Bool) : Branches → Outline → Prop where
  | nil : Mirrors holds [] []
  | cons {branch : Branch} {stack : Branches} {branches : List BranchStart} {outer : Outline}
      (here : Reflects holds branch branches outer) (around : Mirrors holds stack outer) :
      Mirrors holds (branch :: stack) (branches :: outer)

theorem Mirrors.active_eq (mirrors : Mirrors holds stack groups) :
    Branches.active stack = keeps holds groups := by
  cases mirrors with
  | nil => rfl
  | cons here around => exact here.active

/-- Of a new branch text is kept just if no earlier one is selected and its condition holds. -/
theorem keeps_append : keeps holds ((branches ++ [start]) :: outer) =
    (keeps holds outer && (first? holds branches).isNone && (start.isElse || holds start)) := by
  simp only [keeps, first?_append, List.length_append, List.length_singleton, Nat.add_sub_cancel]
  cases found : first? holds branches with
  | some i =>
    have earlier := first?_lt found
    have different : i ≠ branches.length := Nat.ne_of_lt earlier
    simp [different]
  | none =>
    cases start.isElse || holds start with
    | true => simp
    | false => simp

theorem Reflects.wantsCondition_eq (here : Reflects holds branch branches outer) :
    Branches.wantsCondition branch = (keeps holds outer && (first? holds branches).isNone) := by
  rw [Branches.wantsCondition, here.parentActive, here.taken]
  cases keeps holds outer with
  | false => rfl
  | true => simp

theorem Reflects.elseIf (here : Reflects holds branch branches outer)
    (wanted : Branches.wantsCondition branch = true) (conditional : start.isElse = false) :
    Reflects holds { branch with active := holds start, taken := holds start }
      (branches ++ [start]) outer := by
  rw [here.wantsCondition_eq, Bool.and_eq_true, Option.isNone_iff_eq_none] at wanted
  obtain ⟨kept, unselected⟩ := wanted
  constructor
  · exact here.parentActive
  · rw [keeps_append, kept, unselected, conditional]
    simp
  · rw [first?_append, kept, unselected, conditional]
    cases holds start with
    | true => rfl
    | false => rfl
  · simp [here.seenElse, conditional]

theorem Reflects.skip (here : Reflects holds branch branches outer)
    (unwanted : Branches.wantsCondition branch = false) (conditional : start.isElse = false) :
    Reflects holds { branch with active := false } (branches ++ [start]) outer := by
  rw [here.wantsCondition_eq] at unwanted
  constructor
  · exact here.parentActive
  · rw [keeps_append, unwanted, Bool.false_and]
  · rw [here.taken, first?_append]
    cases kept : keeps holds outer with
    | false => rfl
    | true =>
      rw [kept, Bool.true_and, Option.isNone_eq_false_iff] at unwanted
      simp [unwanted]
  · simp [here.seenElse, conditional]

theorem Reflects.startElse (here : Reflects holds branch branches outer)
    (last : start.isElse = true) :
    Reflects holds
      { branch with
        seenElse := true
        active := branch.parentActive && !branch.taken
        taken := true }
      (branches ++ [start]) outer := by
  have wanted := here.wantsCondition_eq
  rw [Branches.wantsCondition] at wanted
  constructor
  · exact here.parentActive
  · rw [keeps_append, last, Bool.true_or, Bool.and_true]
    exact wanted
  · rw [first?_append, last]
    cases first? holds branches with
    | some i => simp
    | none => simp
  · simp [last]

theorem Mirrors.openActive (mirrors : Mirrors holds stack groups) (line : Nat)
    (kept : keeps holds groups = true) (conditional : start.isElse = false) :
    Mirrors holds (Branches.openActive stack line (holds start)) ([start] :: groups) := by
  refine .cons ⟨kept.symm, ?_, ?_, ?_⟩ mirrors
  · rw [show [start] = [] ++ [start] from rfl, keeps_append, kept, conditional]
    simp [first?]
  · simp only [kept, first?, List.findIdx?_cons, conditional, Bool.false_or]
    cases holds start with
    | true => rfl
    | false => rfl
  · simp [conditional]

theorem Mirrors.openInactive (mirrors : Mirrors holds stack groups) (line : Nat)
    (skipped : keeps holds groups = false) (conditional : start.isElse = false) :
    Mirrors holds (Branches.openInactive stack line) ([start] :: groups) := by
  refine .cons ⟨skipped.symm, ?_, ?_, ?_⟩ mirrors
  · rw [keeps, skipped, Bool.false_and]
  · rw [skipped]
    rfl
  · simp [conditional]

/-! ### One directive -/

variable {reading : Reading} {directive : Directive} {line : Nat} {scan : Scan} {walk : Walk}

/-- What a conditional directive adds to what was found: a report if it is stray, the findings of
its condition if it has one that decides, and a report if it lacks the name it asks about. -/
def noted (reading : Reading) (holds : BranchStart → Bool) (groups : Outline)
    (directive : Directive) (line : Nat) (scan : Scan) (walk : Walk) : Walk :=
  if groups.isStray directive then
    walk.report (malformed scan line ("#" ++ directive.name ++ " without #if"))
  else if groups.wantsCondition holds directive then
    (condition reading directive.rest line scan walk).2
  else if groups.keeps holds && directive.lacksSubject line then
    walk.report (malformed scan line ("#" ++ directive.name ++ " without a macro name"))
  else walk

theorem condition_eq_holds (named : directive.name = "if" ∨ directive.name = "elif") :
    (condition reading directive.rest line scan walk).1 =
      BranchStart.holds reading.longWidth walk.table ⟨directive, line⟩ := by
  have different : directive.name ≠ "ifdef" ∧ directive.name ≠ "ifndef" := by
    rcases named with same | same <;> rw [same] <;> decide
  simp only [condition, BranchStart.holds, different.1, different.2, if_false]
  exact holds_alike ..

/-- A directive does to the stack what it does to the outline that the stack mirrors, adds to what
was found what the outline says, and changes nothing else. -/
structure Obeys (reading : Reading) (holds : BranchStart → Bool) (groups : Outline)
    (directive : Directive) (line : Nat) (scan : Scan) (walk : Walk) (read : Scan × Walk) :
    Prop where
  content : read.1 = { scan with branches := read.1.branches }
  notes : read.2 = noted reading holds groups directive line scan walk
  mirrors : Mirrors holds read.1.branches (groups.next directive line)
  stray : groups.isStray directive → read.1 = scan

theorem opensGroup_iff :
    directive.opensGroup ↔ directive.name = "if" ∨ directive.name = "ifdef" ∨
      directive.name = "ifndef" := by
  simp [Directive.opensGroup]

theorem isStray_of_opens (opens : directive.opensGroup) : groups.isStray directive = false := by
  rcases opensGroup_iff.mp opens with same | same | same <;> simp [isStray, same]

/-- `#ifdef` and `#ifndef` in kept text ask whether their name is defined. -/
theorem openGroup_subject (asks : directive.name = "ifdef" ∨ directive.name = "ifndef")
    (kept : Branches.active scan.branches = true) :
    openGroup reading directive line scan walk =
      ({ scan with
          branches := Branches.openActive scan.branches line
            (BranchStart.holds reading.longWidth walk.table ⟨directive, line⟩) },
        if directive.lacksSubject line then
          walk.report (malformed scan line ("#" ++ directive.name ++ " without a macro name"))
        else walk) := by
  have noCondition : directive.name ≠ "if" := by
    rcases asks with same | same <;> rw [same] <;> decide
  have lacks : directive.lacksSubject line = (directive.subject? line).isNone := by
    rcases asks with same | same <;> simp [Directive.lacksSubject, same]
  have truth : BranchStart.holds reading.longWidth walk.table ⟨directive, line⟩ =
      (directive.subject? line).any fun name =>
        walk.table.isDefined name == (directive.name == "ifdef") := by
    rcases asks with same | same <;> simp [BranchStart.holds, same]
  simp only [openGroup, kept, Bool.not_true, Bool.false_eq_true, if_false, noCondition]
  rw [lacks, truth, Directive.subject?]
  cases tokenize (String.ofList directive.rest) line with
  | nil => rfl
  | cons token rest =>
    by_cases isName : token.kind = .ident
    · simp [isName]
    · simp [isName]

theorem openGroup_obeys (mirrors : Mirrors holds scan.branches groups)
    (truth : holds = BranchStart.holds reading.longWidth walk.table)
    (opens : directive.opensGroup) :
    Obeys reading holds groups directive line scan walk
      (openGroup reading directive line scan walk) := by
  have direct : groups.isStray directive = false := isStray_of_opens opens
  have next : groups.next directive line = [⟨directive, line⟩] :: groups := by
    simp [Outline.next, direct, opens]
  have conditional : (⟨directive, line⟩ : BranchStart).isElse = false := by
    rcases opensGroup_iff.mp opens with same | same | same <;> simp [BranchStart.isElse, same]
  have stray : ∀ read, groups.isStray directive → read = scan := by simp [direct]
  have active := mirrors.active_eq
  cases kept : keeps holds groups with
  | false =>
    have unwanted : groups.wantsCondition holds directive = false := by
      rcases opensGroup_iff.mp opens with same | same | same <;>
        simp [wantsCondition, same, kept]
    simp only [openGroup, active, kept, Bool.not_false, if_true]
    refine ⟨rfl, ?_, ?_, stray _⟩
    · simp [noted, direct, unwanted, kept]
    · rw [next]
      exact mirrors.openInactive line kept conditional
  | true =>
    have opened := mirrors.openActive line kept conditional
    by_cases decides : directive.name = "if"
    · have wanted : groups.wantsCondition holds directive = true := by
        simp [wantsCondition, decides, kept]
      simp only [openGroup, active, kept, decides, Bool.not_true, Bool.false_eq_true, if_false,
        if_true]
      rw [condition_eq_holds (.inl decides), ← truth]
      refine ⟨rfl, ?_, ?_, stray _⟩
      · simp [noted, direct, wanted]
      · rw [next]
        exact opened
    · have asks := (opensGroup_iff.mp opens).resolve_left decides
      have unwanted : groups.wantsCondition holds directive = false := by
        rcases asks with same | same <;> simp [wantsCondition, same]
      rw [openGroup_subject asks (active.trans kept), ← truth]
      refine ⟨rfl, ?_, ?_, stray _⟩
      · simp [noted, direct, unwanted, kept]
      · rw [next]
        exact opened

/-- What `#elif` and `#else` find: no group that takes a further branch, or one in which they start
it. -/
theorem divide_cases (line : Nat) (mirrors : Mirrors holds stack groups)
    (divides : directive.name = "elif" ∨ directive.name = "else") :
    (groups.isStray directive = true ∧ Branches.extendable? stack = none) ∨
    ∃ branch rest branches outer, groups = branches :: outer ∧
      groups.isStray directive = false ∧ Branches.extendable? stack = some (branch, rest) ∧
      Reflects holds branch branches outer ∧ Mirrors holds rest outer ∧
      groups.next directive line = (branches ++ [⟨directive, line⟩]) :: outer := by
  have kind : directive.name ≠ "endif" ∧ ["elif", "else"].contains directive.name := by
    rcases divides with same | same <;> rw [same] <;> decide
  have closed : directive.opensGroup = false := by
    rcases divides with same | same <;> simp [Directive.opensGroup, same]
  cases mirrors with
  | nil => exact .inl ⟨by simp only [isStray, kind.1, kind.2, if_false, if_true], rfl⟩
  | @cons branch rest branches outer here around =>
    have stray : isStray (branches :: outer) directive = branch.seenElse := by
      simp only [isStray, kind.1, kind.2, if_false, if_true, here.seenElse]
    cases ended : branch.seenElse with
    | true => exact .inl ⟨stray.trans ended, by simp [Branches.extendable?, ended]⟩
    | false =>
      refine .inr ⟨branch, rest, branches, outer, rfl, stray.trans ended, ?_, here, around, ?_⟩
      · simp [Branches.extendable?, ended]
      · simp only [Outline.next, stray, ended, closed, kind, Bool.false_eq_true, if_false, if_true]

theorem next_of_stray (stray : groups.isStray directive = true) :
    groups.next directive line = groups := by
  simp [Outline.next, stray]

theorem obeys_of_stray (mirrors : Mirrors holds scan.branches groups)
    (stray : groups.isStray directive = true) :
    Obeys reading holds groups directive line scan walk
      (scan, walk.report (malformed scan line ("#" ++ directive.name ++ " without #if"))) where
  content := rfl
  notes := by simp only [noted, stray, if_true]
  mirrors := by
    rw [next_of_stray stray]
    exact mirrors
  stray _ := rfl

theorem elseIf_obeys (mirrors : Mirrors holds scan.branches groups)
    (truth : holds = BranchStart.holds reading.longWidth walk.table)
    (named : directive.name = "elif") :
    Obeys reading holds groups directive line scan walk
      (elseIf reading directive.rest line scan walk) := by
  have conditional : (⟨directive, line⟩ : BranchStart).isElse = false := by
    simp [BranchStart.isElse, named]
  rcases divide_cases line mirrors (.inl named) with ⟨stray, ended⟩ |
    ⟨branch, rest, branches, outer, rfl, direct, open', here, around, next⟩
  · have reported : Obeys reading holds groups directive line scan walk _ :=
      obeys_of_stray mirrors stray
    rw [named] at reported
    simp only [elseIf, ended]
    exact reported
  · have wants : wantsCondition holds (branches :: outer) directive =
        Branches.wantsCondition branch := by
      rw [here.wantsCondition_eq]
      cases kept : keeps holds outer <;> simp [wantsCondition, selected?, named, kept]
    have stray : ∀ read, isStray (branches :: outer) directive → read = scan := by simp [direct]
    simp only [elseIf, open']
    cases wanted : Branches.wantsCondition branch with
    | true =>
      rw [if_pos rfl, condition_eq_holds (.inr named), ← truth]
      refine ⟨rfl, ?_, ?_, stray _⟩
      · simp [noted, direct, wants, wanted]
      · rw [next]
        exact .cons (here.elseIf wanted conditional) around
    | false =>
      have unnamed : directive.lacksSubject line = false := by
        simp [Directive.lacksSubject, named]
      rw [if_neg (by decide)]
      refine ⟨rfl, ?_, ?_, stray _⟩
      · simp [noted, direct, wants, wanted, unnamed]
      · rw [next]
        exact .cons (here.skip wanted conditional) around

theorem otherwise_obeys (mirrors : Mirrors holds scan.branches groups)
    (named : directive.name = "else") :
    Obeys reading holds groups directive line scan walk (otherwise line scan walk) := by
  have last : (⟨directive, line⟩ : BranchStart).isElse = true := by
    simp [BranchStart.isElse, named]
  rcases divide_cases line mirrors (.inr named) with ⟨stray, ended⟩ |
    ⟨branch, rest, branches, outer, rfl, direct, open', here, around, next⟩
  · have reported : Obeys reading holds groups directive line scan walk _ :=
      obeys_of_stray mirrors stray
    rw [named] at reported
    simp only [otherwise, ended]
    exact reported
  · have quiet : wantsCondition holds (branches :: outer) directive = false ∧
        directive.lacksSubject line = false := by
      simp [wantsCondition, Directive.lacksSubject, named]
    simp only [otherwise, open']
    refine ⟨rfl, ?_, ?_, by simp [direct]⟩
    · simp [noted, direct, quiet]
    · rw [next]
      exact .cons (here.startElse last) around

theorem closeGroup_obeys (mirrors : Mirrors holds scan.branches groups)
    (named : directive.name = "endif") :
    Obeys reading holds groups directive line scan walk (closeGroup line scan walk) := by
  generalize stackEq : scan.branches = stack at mirrors
  cases mirrors with
  | nil =>
    have stray : isStray [] directive = true := by simp [isStray, named]
    have reported : Obeys reading holds [] directive line scan walk _ :=
      obeys_of_stray (stackEq ▸ .nil) stray
    rw [named] at reported
    simp only [closeGroup, stackEq]
    exact reported
  | @cons branch rest branches outer here around =>
    have direct : isStray (branches :: outer) directive = false := by simp [isStray, named]
    have quiet : wantsCondition holds (branches :: outer) directive = false ∧
        directive.lacksSubject line = false := by
      simp [wantsCondition, Directive.lacksSubject, named]
    have next : Outline.next (branches :: outer) directive line = outer := by
      simp [Outline.next, direct, Directive.opensGroup, named]
    simp only [closeGroup, stackEq]
    refine ⟨rfl, ?_, ?_, by simp [direct]⟩
    · simp [noted, direct, quiet]
    · rw [next]
      exact around

theorem carryOut_obeys (mirrors : Mirrors holds scan.branches groups)
    (truth : holds = BranchStart.holds reading.longWidth walk.table)
    (conditional : directive.isConditional) :
    ∃ read, carryOut reading directive line scan walk = .ok (.plain read) ∧
      Obeys reading holds groups directive line scan walk read := by
  rcases Bool.or_eq_true _ _ ▸ conditional with opens | divides
  · have opening : ["if", "ifdef", "ifndef"].contains directive.name := opens
    refine ⟨_, ?_, openGroup_obeys mirrors truth opens⟩
    simp only [carryOut, opening, if_true]
    rfl
  · have names : directive.name = "elif" ∨ directive.name = "else" ∨ directive.name = "endif" := by
      simpa using divides
    have closed : ["if", "ifdef", "ifndef"].contains directive.name = false := by
      rcases names with same | same | same <;> rw [same] <;> decide
    rcases names with named | named | named
    · refine ⟨_, ?_, elseIf_obeys mirrors truth named⟩
      rw [carryOut, closed]
      simp only [named, Bool.false_eq_true, if_false, if_true]
      rfl
    · refine ⟨_, ?_, otherwise_obeys mirrors named⟩
      rw [carryOut, closed]
      simp only [named, Bool.false_eq_true, if_false, if_true]
      rfl
    · refine ⟨_, ?_, closeGroup_obeys mirrors named⟩
      rw [carryOut, closed]
      simp only [named, Bool.false_eq_true, if_false, if_true]
      rfl

/-! ### A whole header -/

variable {enter : Place → Visit → Walk → Except FileFailure Walk} {lines : List NumberedLine}

theorem readLines_append {line : NumberedLine} {read after : Scan × Walk}
    (before : readLines reading enter lines scan walk = .ok read)
    (last : readLine reading read.1 read.2 line = .ok (.plain after)) :
    readLines reading enter (lines ++ [line]) scan walk = .ok after := by
  induction lines generalizing scan walk with
  | nil =>
    cases before
    simp only [List.nil_append, readLines, last]
    rfl
  | cons first rest ih =>
    simp only [List.cons_append, readLines, Except.bind_eq_ok] at before ⊢
    obtain ⟨progress, here, others⟩ := before
    refine ⟨progress, here, ?_⟩
    cases descends : progress.descent with
    | none =>
      simp only [descends] at others
      exact ih others
    | some found =>
      simp only [descends, Except.bind_eq_ok] at others ⊢
      obtain ⟨entered, descent, others⟩ := others
      exact ⟨entered, descent, ih others⟩

theorem noted_table :
    (noted reading holds groups directive line scan walk).table = walk.table := by
  unfold noted
  split
  · rfl
  · split
    · rfl
    · split
      · rfl
      · rfl

theorem readLine_text {line : NumberedLine} (mirrors : Mirrors holds scan.branches groups)
    (text : Directive.ofLine? line.text = none) :
    readLine reading scan walk line = .ok (.plain
      (if groups.keeps holds then
        { scan with pending := scan.pending ++ Lexer.tokensOf line.number line.text }
      else scan, walk)) := by
  simp only [readLine, text, mirrors.active_eq]
  split
  · rfl
  · rfl

theorem readLine_directive {line : NumberedLine} (mirrors : Mirrors holds scan.branches groups)
    (truth : holds = BranchStart.holds reading.longWidth walk.table)
    (found : Directive.ofLine? line.text = some directive)
    (conditional : directive.isConditional) :
    ∃ read, readLine reading scan walk line = .ok (.plain read) ∧
      Obeys reading holds groups directive line.number (flush scan walk).1 (flush scan walk).2
        read := by
  have flushed : Mirrors holds (flush scan walk).1.branches groups := mirrors
  simp only [readLine, found]
  exact carryOut_obeys flushed truth conditional

theorem ofLines_append (line : NumberedLine) :
    ofLines (lines ++ [line]) = (ofLines lines).after line := by
  simp [ofLines]

/-- Text and conditional directives are read to the end, and the stack mirrors the outline. -/
theorem readLines_mirrors (reading : Reading)
    (enter : Place → Visit → Walk → Except FileFailure Walk) (entry : Visit) (start : Walk)
    (plain : ∀ line ∈ lines, (Directive.ofLine? line.text).all Directive.isConditional) :
    ∃ scan walk, readLines reading enter lines (startOf entry) start = .ok (scan, walk) ∧
      walk.table = start.table ∧
      Mirrors (BranchStart.holds reading.longWidth start.table) scan.branches (ofLines lines) := by
  induction lines using List.reverseRecOn with
  | nil => exact ⟨startOf entry, start, rfl, rfl, .nil⟩
  | append_singleton lines line ih =>
    obtain ⟨scan, walk, before, same, mirrors⟩ :=
      ih fun other member => plain other (List.mem_append_left _ member)
    have sort := plain line (by simp)
    rw [ofLines_append, Outline.after]
    cases found : Directive.ofLine? line.text with
    | none =>
      refine ⟨_, _, readLines_append before (readLine_text mirrors found), same, ?_⟩
      split
      · exact mirrors
      · exact mirrors
    | some directive =>
      rw [found] at sort
      have truth : BranchStart.holds reading.longWidth start.table =
          BranchStart.holds reading.longWidth walk.table := by rw [same]
      obtain ⟨read, last, obeys⟩ := readLine_directive mirrors truth found sort
      refine ⟨read.1, read.2, readLines_append before last, ?_, obeys.mirrors⟩
      rw [obeys.notes, noted_table]
      exact same

/-- Of text and conditional directives, however nested, a line of text is kept just if the current
branch of every open group is the selected one. That is the first whose condition held, in a group in
kept text, and never another; a condition is evaluated just if it decides about a branch; a stray
directive adds one report. A directive ends the run of text before it, which is then expanded. -/
theorem reads_selected_branches (reading : Reading)
    (enter : Place → Visit → Walk → Except FileFailure Walk) (entry : Visit) (start : Walk)
    (lines : List NumberedLine)
    (plain : ∀ line ∈ lines, (Directive.ofLine? line.text).all Directive.isConditional) :
    let read := fun lines => readLines reading enter lines (startOf entry) start
    let holds := BranchStart.holds reading.longWidth start.table
    let groups := ofLines lines
    ∃ scan walk, read lines = .ok (scan, walk) ∧
      (∀ line, Directive.ofLine? line.text = none → read (lines ++ [line]) = .ok
        (if groups.keeps holds then
          { scan with pending := scan.pending ++ Lexer.tokensOf line.number line.text }
        else scan, walk)) ∧
      (groups.keeps holds ↔ ∀ branches outer, branches :: outer <:+ groups →
        selected? holds outer branches = some (branches.length - 1)) ∧
      (∀ branches outer, branches :: outer <:+ groups → ∀ i < branches.length,
        (selected? holds outer (branches.take (i + 1)) = some i ↔
          selected? holds outer branches = some i)) ∧
      ∀ line directive, Directive.ofLine? line.text = some directive → directive.isConditional →
        ∃ after, read (lines ++ [line]) = .ok after ∧
          after.1 = { (flush scan walk).1 with branches := after.1.branches } ∧
          after.2 = noted reading holds groups directive line.number (flush scan walk).1
            (flush scan walk).2 ∧
          (groups.isStray directive →
            after.1 = (flush scan walk).1 ∧ ofLines (lines ++ [line]) = groups) := by
  intro read holds groups
  obtain ⟨scan, walk, before, same, mirrors⟩ :=
    readLines_mirrors reading enter entry start plain
  refine ⟨scan, walk, before, ?_, keeps_iff, ?_, ?_⟩
  · intro line text
    exact readLines_append before (readLine_text mirrors text)
  · intro branches outer _ i within
    unfold selected?
    split
    · exact first?_take within
    · rfl
  · intro line directive found conditional
    have truth : holds = BranchStart.holds reading.longWidth walk.table := by rw [same]
    obtain ⟨after, last, obeys⟩ := readLine_directive mirrors truth found conditional
    refine ⟨after, readLines_append before last, obeys.content, obeys.notes, fun stray => ?_⟩
    refine ⟨obeys.stray stray, ?_⟩
    rw [ofLines_append, Outline.after, found]
    exact next_of_stray stray

def guardLines : List NumberedLine :=
  [⟨1, "#ifndef GUARD".toList⟩, ⟨2, "#elif SIZE".toList⟩, ⟨3, "#ifdef GUARD".toList⟩,
    ⟨4, "#else".toList⟩]

def guardReading : Reading where
  tree := ⟨[], [], []⟩
  searchPaths := []
  longWidth := 32
  parser := fun _ => ([], [])

/-- Reads lines as those of a header before which no macro is defined. -/
def readGuarded (lines : List NumberedLine) : Except FileFailure (Scan × Walk) :=
  readLines guardReading (fun _ _ walk => .ok walk) lines
    (startOf ⟨⟨"", ["a.h"]⟩, "a.h", false⟩) { table := .ofPredefined ∅ }

/-- Text in it is skipped, and one more `#elif` is reported. -/
theorem reads_guard :
    (∀ line ∈ guardLines, (Directive.ofLine? line.text).all Directive.isConditional) ∧
    ∃ scan walk, readGuarded guardLines = .ok (scan, walk) ∧
      readGuarded (guardLines ++ [⟨5, "int x;".toList⟩]) = .ok (scan, walk) ∧
      readGuarded (guardLines ++ [⟨5, "#elif 1".toList⟩]) =
        .ok ((flush scan walk).1, (flush scan walk).2.report
          (malformed (flush scan walk).1 5 "#elif without #if")) := by
  have plain : ∀ line ∈ guardLines,
      (Directive.ofLine? line.text).all Directive.isConditional := by decide +kernel
  obtain ⟨scan, walk, before, text, -, -, directives⟩ :=
    reads_selected_branches guardReading (fun _ _ walk => .ok walk) ⟨⟨"", ["a.h"]⟩, "a.h", false⟩
      { table := .ofPredefined ∅ } guardLines plain
  have skipped : ¬(ofLines guardLines).keeps (BranchStart.holds 32 (.ofPredefined ∅)) := by
    decide +kernel
  have stray : (ofLines guardLines).isStray ⟨"elif", ['1']⟩ = true := by decide +kernel
  obtain ⟨after, last, -, notes, unchanged⟩ :=
    directives ⟨5, "#elif 1".toList⟩ ⟨"elif", ['1']⟩ (by decide +kernel) rfl
  refine ⟨plain, scan, walk, before, ?_, ?_⟩
  · have kept := text ⟨5, "int x;".toList⟩ (by decide +kernel)
    exact kept.trans (congrArg (fun scan => Except.ok (scan, walk)) (if_neg skipped))
  · have reported := notes.trans (if_pos stray)
    exact last.trans (congrArg Except.ok (Prod.ext (unchanged stray).1 reported))

end IncludeGraph

end CBindings
