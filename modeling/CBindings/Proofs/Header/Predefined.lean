import Mathlib
import CBindings.Proofs.Declaration.Omission
import CBindings.Proofs.File.Places
import CBindings.Run.Basic

/-! Predefined macros stay as they are. A directive that defines or undefines one of them does
nothing, but that an object-like definition is listed in its header and becomes a constant. -/

namespace CBindings

open Expansion

variable {fixed listed : List String}

/-! ### Macros -/

namespace MacroTable

structure Stands (start now : MacroTable) : Prop where
  predefined : now.predefined = start.predefined
  lookup : ∀ name ∈ start.predefined, now.lookup name = start.lookup name

variable {start now : MacroTable}

theorem Stands.refl (table : MacroTable) : table.Stands table := ⟨rfl, fun _ _ => rfl⟩

theorem Stands.isPredefined (stands : start.Stands now) {name : String}
    (member : name ∈ start.predefined) : now.isPredefined name = true := by
  unfold MacroTable.isPredefined
  rw [stands.predefined]
  exact List.contains_iff_mem.mpr member

theorem Stands.define_eq (stands : start.Stands now) {m : Macro}
    (member : m.name ∈ start.predefined) : now.define m = now :=
  if_pos (stands.isPredefined member)

theorem Stands.undefine_eq (stands : start.Stands now) {name : String}
    (member : name ∈ start.predefined) : now.undefine name = now :=
  if_pos (stands.isPredefined member)

theorem Stands.define (stands : start.Stands now) (m : Macro) : start.Stands (now.define m) := by
  by_cases member : m.name ∈ start.predefined
  · rwa [stands.define_eq member]
  · unfold MacroTable.define
    split
    · exact stands
    · refine ⟨stands.predefined, fun name known => ?_⟩
      have different : name ≠ m.name := fun same => member (same ▸ known)
      exact (OrderedMap.get?_insert_ne _ _ different).trans (stands.lookup name known)

theorem Stands.undefine (stands : start.Stands now) (name : String) :
    start.Stands (now.undefine name) := by
  by_cases member : name ∈ start.predefined
  · rwa [stands.undefine_eq member]
  · unfold MacroTable.undefine
    split
    · exact stands
    · refine ⟨stands.predefined, fun other known => ?_⟩
      have different : other ≠ name := fun same => member (same ▸ known)
      refine Eq.trans ?_ (stands.lookup other known)
      exact (OrderedMap.get?_erase _ _ _).trans (if_neg different)

end MacroTable

/-! ### Texts -/

/-- A directive that defines or undefines a `fixed` macro. The names of the object-like macros that
are defined are `listed`. -/
inductive Restates (fixed listed : List String) : Directive → Prop
  | define {rest : List Char} {definition : Directive.Definition}
    (reads : Directive.definition? rest = some definition) (known : definition.name ∈ fixed)
    (counted : definition.parameters = none → definition.name ∈ listed) :
    Restates fixed listed ⟨"define", rest⟩
  | undefine {rest : List Char} (known : Directive.firstWord rest ∈ fixed) :
    Restates fixed listed ⟨"undef", rest⟩

/-- The same line, or an ignored directive in place of one that restates a `fixed` macro. -/
inductive Muted (fixed listed : List String) : NumberedLine → NumberedLine → Prop
  | same (line : NumberedLine) : Muted fixed listed line line
  | ignored {number : Nat} {text text' : List Char} {directive directive' : Directive}
    (before : Directive.ofLine? text = some directive) (restates : Restates fixed listed directive)
    (after : Directive.ofLine? text' = some directive')
    (idle : directive'.name ∈ IncludeGraph.ignored) :
    Muted fixed listed ⟨number, text⟩ ⟨number, text'⟩

/-- Texts whose lines are the same but for directives that restate a `fixed` macro in the first. -/
def MutedText (fixed listed : List String) (source source' : String) : Prop :=
  List.Forall₂ (Muted fixed listed) (logicalLines source) (logicalLines source')

/-! ### States -/

/-- The same headers but for listed macros and the constants that are made of them. -/
structure Header.Agrees (listed : List String) (header header' : Header) : Prop where
  path : header.path = header'.path
  name : header.name = header'.name
  includes : header.includes = header'.includes
  tokens : header.tokens = header'.tokens
  defines : withoutMacros listed header.defines = withoutMacros listed header'.defines
  declarations : withoutConstants listed header.declarations =
    withoutConstants listed header'.declarations

structure Scan.Agrees (listed : List String) (scan scan' : Scan) : Prop where
  header : scan.header.Agrees listed scan'.header
  branches : scan.branches = scan'.branches
  pending : scan.pending = scan'.pending

/-- The same macros, among them those predefined at the start, and the same results but for listed
macros. -/
structure Walk.Agrees (start : MacroTable) (listed : List String) (walk walk' : Walk) : Prop where
  table : walk.table = walk'.table
  stands : start.Stands walk.table
  findings : walk.findings = walk'.findings
  visits : walk.visits = walk'.visits
  finished : List.Forall₂ (Header.Agrees listed) walk.finished walk'.finished

variable {start : MacroTable} {scan scan' : Scan} {walk walk' : Walk}

theorem Walk.Agrees.report (walks : walk.Agrees start listed walk') (diagnostic : Diagnostic) :
    (walk.report diagnostic).Agrees start listed (walk'.report diagnostic) :=
  { walks with findings := congrArg (·.add diagnostic) walks.findings }

theorem Walk.Agrees.finding (walks : walk.Agrees start listed walk') {findings findings' : Findings}
    (same : findings = findings') : ({ walk with findings := findings } : Walk).Agrees start listed
      { walk' with findings := findings' } :=
  { walks with findings := same }

theorem Walk.Agrees.mark (walks : walk.Agrees start listed walk') (place : Place) (entry : Visit)
    (isDone : Bool) :
    (walk.mark place entry isDone).Agrees start listed (walk'.mark place entry isDone) :=
  { walks with visits := congrArg (·.insert place { entry with isDone := isDone }) walks.visits }

theorem Scan.Agrees.branch (scans : scan.Agrees listed scan') {branches branches' : Branches}
    (same : branches = branches') : ({ scan with branches := branches } : Scan).Agrees listed
      { scan' with branches := branches' } :=
  ⟨scans.header, same, scans.pending⟩

theorem Walk.Agrees.define (walks : walk.Agrees start listed walk') (m : Macro) :
    ({ walk with table := walk.table.define m } : Walk).Agrees start listed
      { walk' with table := walk'.table.define m } :=
  { walks with
    table := congrArg (·.define m) walks.table
    stands := walks.stands.define m }

theorem Walk.Agrees.undefine (walks : walk.Agrees start listed walk') (name : String) :
    ({ walk with table := walk.table.undefine name } : Walk).Agrees start listed
      { walk' with table := walk'.table.undefine name } :=
  { walks with
    table := congrArg (·.undefine name) walks.table
    stands := walks.stands.undefine name }

theorem Header.Agrees.define {header header' : Header} (headers : header.Agrees listed header')
    (entry : Nat × Macro) :
    ({ header with defines := header.defines ++ [entry] } : Header).Agrees listed
      { header' with defines := header'.defines ++ [entry] } :=
  { headers with
    defines := by rw [withoutMacros_append, withoutMacros_append, headers.defines] }

theorem Scan.Agrees.including (scans : scan.Agrees listed scan') (path : Path) :
    (scan.including path).Agrees listed (scan'.including path) :=
  { scans with
    header := { scans.header with includes := congrArg (· ++ [path]) scans.header.includes } }

namespace IncludeGraph

structure Both (start : MacroTable) (listed : List String) (read read' : Scan × Walk) : Prop where
  scan : read.1.Agrees listed read'.1
  walk : read.2.Agrees start listed read'.2

/-- Ways of reading that agree: in the places of the same files stand texts that are muted. -/
structure ReadsAlike (fixed listed : List String) (reading reading' : Reading) : Prop where
  tree : reading.tree.Retold (MutedText fixed listed) reading'.tree
  searchPaths : reading.searchPaths = reading'.searchPaths
  longWidth : reading.longWidth = reading'.longWidth
  parser : ∀ header header', header.Agrees listed header' →
    withoutConstants listed (reading.parser header).1 =
        withoutConstants listed (reading'.parser header').1 ∧
      (reading.parser header).2 = (reading'.parser header').2

variable {reading reading' : Reading}

/-! ### One line -/

theorem malformed_eq (scans : scan.Agrees listed scan') : malformed scan = malformed scan' := by
  funext line message
  unfold malformed
  rw [scans.header.name]

theorem flush_agrees (scans : scan.Agrees listed scan') (walks : walk.Agrees start listed walk') :
    Both start listed (flush scan walk) (flush scan' walk') := by
  have expanded : expand walk.table scan.pending (some scan.header.name) walk.findings =
      expand walk'.table scan'.pending (some scan'.header.name) walk'.findings := by
    rw [scans.pending, scans.header.name, walks.table, walks.findings]
  refine ⟨⟨?_, scans.branches, rfl⟩, walks.finding (congrArg Prod.snd expanded)⟩
  have tokens := congrArg₂ (· ++ ·) scans.header.tokens (congrArg Prod.fst expanded)
  exact { scans.header with tokens := tokens }

theorem condition_agrees (readings : ReadsAlike fixed listed reading reading') (rest : List Char)
    (line : Nat) (scans : scan.Agrees listed scan') (walks : walk.Agrees start listed walk') :
    (condition reading rest line scan walk).1 = (condition reading' rest line scan' walk').1 ∧
      (condition reading rest line scan walk).2.Agrees start listed
        (condition reading' rest line scan' walk').2 := by
  have result : Condition.holds walk.table reading.longWidth (tokenize (String.ofList rest) line)
      (some scan.header.name) (some line) walk.findings =
        Condition.holds walk'.table reading'.longWidth (tokenize (String.ofList rest) line)
          (some scan'.header.name) (some line) walk'.findings := by
    rw [readings.longWidth, scans.header.name, walks.table, walks.findings]
  have truth := congrArg Prod.fst result
  exact ⟨truth, walks.finding (congrArg Prod.snd result)⟩

theorem openGroup_agrees (readings : ReadsAlike fixed listed reading reading')
    (directive : Directive) (line : Nat) (scans : scan.Agrees listed scan')
    (walks : walk.Agrees start listed walk') :
    Both start listed (openGroup reading directive line scan walk)
      (openGroup reading' directive line scan' walk') := by
  have reported := walks.report (malformed scan' line
    ("#" ++ directive.name ++ " without a macro name"))
  unfold openGroup
  rw [scans.branches, malformed_eq scans]
  split
  · exact ⟨scans.branch rfl, walks⟩
  · split
    · obtain ⟨truth, after⟩ := condition_agrees readings directive.rest line scans walks
      exact ⟨scans.branch (by rw [truth]), after⟩
    · split
      · split
        · exact ⟨scans.branch (by rw [walks.table]), walks⟩
        · exact ⟨scans.branch rfl, reported⟩
      · exact ⟨scans.branch rfl, reported⟩

theorem elseIf_agrees (readings : ReadsAlike fixed listed reading reading') (rest : List Char)
    (line : Nat) (scans : scan.Agrees listed scan') (walks : walk.Agrees start listed walk') :
    Both start listed (elseIf reading rest line scan walk)
      (elseIf reading' rest line scan' walk') := by
  unfold elseIf
  rw [scans.branches, malformed_eq scans]
  split
  · exact ⟨scans, walks.report _⟩
  · split
    · obtain ⟨truth, after⟩ := condition_agrees readings rest line scans walks
      exact ⟨scans.branch (by rw [truth]), after⟩
    · exact ⟨scans.branch rfl, walks⟩

theorem otherwise_agrees (line : Nat) (scans : scan.Agrees listed scan')
    (walks : walk.Agrees start listed walk') :
    Both start listed (otherwise line scan walk) (otherwise line scan' walk') := by
  unfold otherwise
  rw [scans.branches, malformed_eq scans]
  split
  · exact ⟨scans, walks.report _⟩
  · exact ⟨scans.branch rfl, walks⟩

theorem closeGroup_agrees (line : Nat) (scans : scan.Agrees listed scan')
    (walks : walk.Agrees start listed walk') :
    Both start listed (closeGroup line scan walk) (closeGroup line scan' walk') := by
  unfold closeGroup
  rw [scans.branches, malformed_eq scans]
  split
  · exact ⟨scans, walks.report _⟩
  · exact ⟨scans.branch rfl, walks⟩

theorem define_agrees (rest : List Char) (line : Nat) (scans : scan.Agrees listed scan')
    (walks : walk.Agrees start listed walk') :
    Both start listed (define rest line scan walk) (define rest line scan' walk') := by
  unfold define
  rw [malformed_eq scans, scans.header.name, scans.header.tokens]
  split
  · exact ⟨scans, walks.report _⟩
  · dsimp only
    split
    · exact ⟨⟨scans.header.define _, scans.branches, scans.pending⟩, walks.define _⟩
    · exact ⟨scans, walks.define _⟩

/-- A directive that restates a predefined macro adds it to the listed ones at most. -/
theorem act_restates {directive : Directive} (restates : Restates start.predefined listed directive)
    (line : Nat) (scans : scan.Agrees listed scan') (walks : walk.Agrees start listed walk') :
    Both start listed (act directive line scan walk) (scan', walk') := by
  cases restates with
  | @undefine rest known =>
    have still : act ⟨"undef", rest⟩ line scan walk = (scan, walk) := by
      simp only [act, String.reduceEq, if_true, if_false]
      rw [walks.stands.undefine_eq known]
    rw [still]
    exact ⟨scans, walks⟩
  | @define rest definition reads known counted =>
    -- the table ignores the definition, and only then is it listed all the same
    simp only [act, if_true, IncludeGraph.define, reads]
    rw [walks.stands.define_eq known]
    split
    · next objectLike =>
      have isListed : definition.name ∈ listed := counted (Option.isNone_iff_eq_none.mp objectLike)
      refine ⟨⟨{ scans.header with defines := ?_ }, scans.branches, scans.pending⟩, walks⟩
      rw [withoutMacros_append, ← scans.header.defines, withoutMacros, withoutMacros,
        List.filter_cons_of_neg (by simpa using isListed), List.filter_nil, List.append_nil]
    · exact ⟨scans, walks⟩

theorem includeTarget_agrees (rest : List Char) (line : Nat) (scans : scan.Agrees listed scan')
    (walks : walk.Agrees start listed walk') :
    (includeTarget rest line scan walk).1 = (includeTarget rest line scan' walk').1 ∧
      (includeTarget rest line scan walk).2.Agrees start listed
        (includeTarget rest line scan' walk').2 := by
  have expanded : expand walk.table (tokenize (String.ofList rest) line) (some scan.header.name)
      walk.findings = expand walk'.table (tokenize (String.ofList rest) line)
        (some scan'.header.name) walk'.findings := by
    rw [scans.header.name, walks.table, walks.findings]
  unfold includeTarget
  split
  · exact ⟨rfl, walks⟩
  · exact ⟨congrArg (Directive.targetOfTokens? ·.1) expanded,
      walks.finding (congrArg Prod.snd expanded)⟩

theorem followIgnoringCase_agrees {tree other : FileTree} {told : String → String → Prop}
    (retold : tree.Retold told other) (parts : List String) (path : Path) :
    followIgnoringCase tree path parts = followIgnoringCase other path parts := by
  induction parts generalizing path with
  | nil => rw [followIgnoringCase, followIgnoringCase, retold.isFile]
  | cons part rest ih =>
    rw [followIgnoringCase, followIgnoringCase, retold.findIgnoringCase]
    simp only [ih]

theorem find_agrees (readings : ReadsAlike fixed listed reading reading')
    (target : Directive.Target) (includer : Path) :
    find reading target includer = find reading' target includer := by
  unfold find directories
  simp only [readings.searchPaths, readings.tree.directoryWith,
    followIgnoringCase_agrees readings.tree]

structure ProgressAgrees (start : MacroTable) (listed : List String)
    (progress progress' : Progress) : Prop where
  scan : progress.scan.Agrees listed progress'.scan
  walk : progress.walk.Agrees start listed progress'.walk
  descent : progress.descent = progress'.descent

theorem Both.plain {read read' : Scan × Walk} (both : Both start listed read read') :
    ProgressAgrees start listed (.plain read) (.plain read') := ⟨both.scan, both.walk, rfl⟩

theorem visit_agrees (readings : ReadsAlike fixed listed reading reading') (path : Path)
    (name : String) (line : Nat) (scans : scan.Agrees listed scan')
    (walks : walk.Agrees start listed walk') :
    ProgressAgrees start listed (visit reading path name line scan walk)
      (visit reading' path name line scan' walk') := by
  have met : walk.meet reading.tree path name = walk'.meet reading'.tree path name := by
    unfold Walk.meet
    rw [walks.visits, readings.tree.resolve]
  unfold visit
  rw [readings.tree.resolve, walks.visits, met]
  dsimp only
  split
  · exact ⟨scans.including _, walks, rfl⟩
  · split
    · exact ⟨scans.including _, walks, rfl⟩
    · have included (path : Path) : (scan.including path).header.name =
          (scan'.including path).header.name := scans.header.name
      rw [included]
      exact ⟨scans.including _, walks.report _, rfl⟩

theorem includeHeader_agrees (readings : ReadsAlike fixed listed reading reading')
    (rest : List Char) (line : Nat) (scans : scan.Agrees listed scan')
    (walks : walk.Agrees start listed walk') :
    Concurs (ProgressAgrees start listed) (includeHeader reading rest line scan walk)
      (includeHeader reading' rest line scan' walk') := by
  obtain ⟨target, after⟩ := includeTarget_agrees rest line scans walks
  unfold includeHeader
  simp only [target, find_agrees readings, scans.header.path, malformed_eq scans,
    scans.header.name]
  split
  · exact .ok (Both.plain ⟨scans, after.report _⟩)
  · next wanted _ =>
    cases find reading' wanted scan'.header.path with
    | error failure => exact .error failure
    | ok found =>
      cases found with
      | none => exact .ok (Both.plain ⟨scans, after.report _⟩)
      | some found => exact .ok (visit_agrees readings found.1 found.2 line scans after)

theorem act_agrees (directive : Directive) (line : Nat) (scans : scan.Agrees listed scan')
    (walks : walk.Agrees start listed walk') :
    Both start listed (act directive line scan walk) (act directive line scan' walk') := by
  unfold act
  rw [scans.header.name, malformed_eq scans]
  split
  · exact define_agrees directive.rest line scans walks
  · split
    · exact ⟨scans, walks.undefine _⟩
    · split
      · exact ⟨scans, walks.report _⟩
      · split
        · exact ⟨scans, walks⟩
        · exact ⟨scans, walks.report _⟩

theorem carryOut_agrees (readings : ReadsAlike fixed listed reading reading')
    (directive : Directive) (line : Nat) (scans : scan.Agrees listed scan')
    (walks : walk.Agrees start listed walk') :
    Concurs (ProgressAgrees start listed) (carryOut reading directive line scan walk)
      (carryOut reading' directive line scan' walk') := by
  unfold carryOut
  rw [scans.branches]
  split
  · exact .ok (openGroup_agrees readings directive line scans walks).plain
  · split
    · exact .ok (elseIf_agrees readings directive.rest line scans walks).plain
    · split
      · exact .ok (otherwise_agrees line scans walks).plain
      · split
        · exact .ok (closeGroup_agrees line scans walks).plain
        · split
          · exact .ok (Both.plain ⟨scans, walks⟩)
          · split
            · exact includeHeader_agrees readings directive.rest line scans walks
            · exact .ok (act_agrees directive line scans walks).plain

def structural : List String := ["if", "ifdef", "ifndef", "elif", "else", "endif"] ++ inclusions

theorem carryOut_act {directive : Directive} (plain : directive.name ∉ structural) (line : Nat)
    (scan : Scan) (walk : Walk) :
    carryOut reading directive line scan walk =
      .ok (.plain (if Branches.active scan.branches then act directive line scan walk
        else (scan, walk))) := by
  simp only [structural, inclusions, List.cons_append, List.nil_append, List.mem_cons,
    List.not_mem_nil, or_false, not_or] at plain
  obtain ⟨noIf, noIfdef, noIfndef, noElif, noElse, noEndif, noInclude, noNext⟩ := plain
  unfold carryOut
  by_cases active : Branches.active scan.branches = true
  · simp [inclusions, active, noIf, noIfdef, noIfndef, noElif, noElse, noEndif, noInclude, noNext]
    rfl
  · simp [active, noIf, noIfdef, noIfndef, noElif, noElse, noEndif]
    rfl

theorem act_ignored {directive : Directive} (idle : directive.name ∈ ignored) (line : Nat)
    (scan : Scan) (walk : Walk) : act directive line scan walk = (scan, walk) := by
  have apart : ∀ name ∈ ignored, name ≠ "define" ∧ name ≠ "undef" ∧ name ≠ "error" := by decide
  obtain ⟨noDefine, noUndef, noError⟩ := apart directive.name idle
  unfold act
  rw [if_neg noDefine, if_neg noUndef, if_neg noError, if_pos (List.contains_iff_mem.mpr idle)]

theorem carryOut_restates {directive directive' : Directive}
    (restates : Restates start.predefined listed directive) (idle : directive'.name ∈ ignored)
    (line : Nat) (scans : scan.Agrees listed scan') (walks : walk.Agrees start listed walk') :
    Concurs (ProgressAgrees start listed) (carryOut reading directive line scan walk)
      (carryOut reading' directive' line scan' walk') := by
  have plain : directive.name ∉ structural := by
    cases restates with
    | define => exact of_decide_eq_true rfl
    | undefine => exact of_decide_eq_true rfl
  have plain' : directive'.name ∉ structural := by
    have apart : ∀ name ∈ ignored, name ∉ structural := by decide
    exact apart _ idle
  rw [carryOut_act plain, carryOut_act plain', act_ignored idle, scans.branches, ite_self]
  split
  · exact .ok (act_restates restates line scans walks).plain
  · exact .ok (Both.plain ⟨scans, walks⟩)

theorem readLine_agrees (readings : ReadsAlike start.predefined listed reading reading')
    {line line' : NumberedLine} (muted : Muted start.predefined listed line line')
    (scans : scan.Agrees listed scan') (walks : walk.Agrees start listed walk') :
    Concurs (ProgressAgrees start listed) (readLine reading scan walk line)
      (readLine reading' scan' walk' line') := by
  -- an ignored directive ends the text before it as well
  have flushed := flush_agrees scans walks
  unfold readLine
  cases muted with
  | same line =>
    rw [scans.branches]
    split
    · split
      · have pending := congrArg (· ++ Lexer.tokensOf line.number line.text) scans.pending
        exact .ok (Both.plain ⟨⟨scans.header, rfl, pending⟩, walks⟩)
      · exact .ok (Both.plain ⟨scans, walks⟩)
    · exact carryOut_agrees readings _ _ flushed.scan flushed.walk
  | ignored before restates after idle =>
    simp only [before, after]
    exact carryOut_restates restates idle _ flushed.scan flushed.walk

/-! ### Headers -/

def EntersAlike (start : MacroTable) (listed : List String)
    (enter enter' : Place → Visit → Walk → Except FileFailure Walk) : Prop :=
  ∀ place entry walk walk', walk.Agrees start listed walk' →
    Concurs (Walk.Agrees start listed) (enter place entry walk) (enter' place entry walk')

theorem readLines_agrees (readings : ReadsAlike start.predefined listed reading reading')
    {enter enter' : Place → Visit → Walk → Except FileFailure Walk}
    (enters : EntersAlike start listed enter enter') {lines lines' : List NumberedLine}
    (muted : List.Forall₂ (Muted start.predefined listed) lines lines')
    (scans : scan.Agrees listed scan') (walks : walk.Agrees start listed walk') :
    Concurs (Both start listed) (readLines reading enter lines scan walk)
      (readLines reading' enter' lines' scan' walk') := by
  induction muted generalizing scan scan' walk walk' with
  | nil => exact .ok ⟨scans, walks⟩
  | cons line _ ih =>
    rw [readLines, readLines]
    refine (readLine_agrees readings line scans walks).bind fun progress progress' agrees => ?_
    rw [agrees.descent]
    split
    · exact ih agrees.scan agrees.walk
    · next place entry _ =>
      exact (enters place entry _ _ agrees.walk).bind fun walk walk' walks => ih agrees.scan walks

theorem unterminated_agrees (branches : Branches) (scan : Scan)
    (walks : walk.Agrees start listed walk') :
    (branches.foldl (fun walk branch =>
        walk.report (malformed scan branch.line "unterminated conditional block")) walk).Agrees
      start listed (branches.foldl (fun walk branch =>
        walk.report (malformed scan branch.line "unterminated conditional block")) walk') := by
  induction branches generalizing walk walk' with
  | nil => exact walks
  | cons branch rest ih => exact ih (walks.report _)

theorem finish_agrees (readings : ReadsAlike fixed listed reading reading') (place : Place)
    (entry : Visit) (scans : scan.Agrees listed scan') (walks : walk.Agrees start listed walk') :
    (finish reading place entry scan walk).Agrees start listed
      (finish reading' place entry scan' walk') := by
  have flushed := flush_agrees scans walks
  obtain ⟨declared, reported⟩ := readings.parser _ _ flushed.scan.header
  have ended := (unterminated_agrees (flush scan' walk').1.branches.reverse (flush scan' walk').1
    flushed.walk).mark place entry true
  dsimp only [finish]
  rw [flushed.scan.branches, malformed_eq flushed.scan, reported]
  refine ⟨ended.table, ended.stands, ?_, ended.visits, ?_⟩
  · rw [ended.findings]
  · refine List.rel_append ended.finished (.cons ?_ .nil)
    exact { flushed.scan.header with declarations := declared }

theorem enter_agrees (readings : ReadsAlike start.predefined listed reading reading')
    (depth : Nat) : EntersAlike start listed (enter reading depth) (enter reading' depth) := by
  -- one header is read by its lines, and what they include by the hypothesis for less depth
  induction depth with
  | zero => exact fun _ _ _ _ walks => .ok walks
  | succ depth ih =>
    intro place entry walk walk' walks
    have told := readings.tree.read entry.path
    rw [enter, enter]
    generalize reading.tree.read entry.path = source at told ⊢
    generalize reading'.tree.read entry.path = source' at told ⊢
    cases told with
    | error error => exact .ok walks
    | ok muted =>
      have started : (startOf entry).Agrees listed (startOf entry) :=
        ⟨⟨rfl, rfl, rfl, rfl, rfl, rfl⟩, rfl, rfl⟩
      refine (readLines_agrees readings ih muted started (walks.mark place entry false)).bind
        fun read read' both => ?_
      exact .ok (finish_agrees readings place entry both.scan both.walk)

end IncludeGraph

theorem checkSearchPaths_agrees {told : String → String → Prop} {tree other : FileTree}
    (retold : tree.Retold told other) (paths : List Path) :
    checkSearchPaths tree paths = checkSearchPaths other paths := by
  induction paths with
  | nil => rfl
  | cons path rest ih =>
    rw [checkSearchPaths, checkSearchPaths, retold.ask retold.isDirectory, ih]

theorem readHeaders_agrees {reading reading' : Reading}
    (readings : IncludeGraph.ReadsAlike start.predefined listed reading reading') (entry : Path) :
    Concurs (Walk.Agrees start listed) (readHeaders reading start entry)
      (readHeaders reading' start entry) := by
  have told := readings.tree.read entry
  have depth : reading.tree.files.length = reading'.tree.files.length :=
    readings.tree.files.length_eq
  have fresh : ({ table := start } : Walk).Agrees start listed { table := start } :=
    ⟨rfl, .refl start, rfl, rfl, .nil⟩
  unfold readHeaders
  rw [readings.searchPaths, checkSearchPaths_agrees readings.tree, readings.tree.resolve, depth]
  split
  · exact .error _
  · cases checkSearchPaths reading'.tree reading'.searchPaths with
    | error error => exact .error error
    | ok _ =>
      simp only [Bind.bind, Except.bind]
      generalize reading.tree.read entry = source at told ⊢
      generalize reading'.tree.read entry = source' at told ⊢
      cases told with
      | error error => cases error <;> exact .error _
      | ok muted =>
        exact (IncludeGraph.enter_agrees readings _ _ _ _ _ fresh).mapError _

theorem readsAlike_of_retold {tree other : FileTree} (searchPaths : List Path) (target : Target)
    (retold : tree.Retold (MutedText fixed listed) other) :
    IncludeGraph.ReadsAlike fixed listed (Run.reading tree searchPaths target)
      (Run.reading other searchPaths target) where
  tree := retold
  searchPaths := rfl
  longWidth := rfl
  parser header header' headers := by
    have declared := declarationsOf_without header.tokens header.name headers.defines
    dsimp only [Run.reading]
    rwa [headers.tokens, headers.name] at declared ⊢

/-- Directives that define or undefine predefined macros can be replaced by ignored ones, anywhere
in the texts of a run. At every line the same conditional groups are open and kept, the same tokens
wait and the same macros are in force, the predefined ones as at the start. In the end the headers
are the same but for the object-like macros that were defined, and the constants made of them. -/
theorem restating_predefined (start : MacroTable) (listed : List String) (searchPaths : List Path)
    (target : Target) {tree other : FileTree}
    (retold : tree.Retold (MutedText start.predefined listed) other) :
    let reading := Run.reading tree searchPaths target
    let reading' := Run.reading other searchPaths target
    (∀ depth lines lines' scan scan' walk walk',
        List.Forall₂ (Muted start.predefined listed) lines lines' →
        scan.Agrees listed scan' → walk.Agrees start listed walk' →
        Concurs (IncludeGraph.Both start listed)
          (IncludeGraph.readLines reading (IncludeGraph.enter reading depth) lines scan walk)
          (IncludeGraph.readLines reading' (IncludeGraph.enter reading' depth) lines' scan' walk')) ∧
      ∀ entry, Concurs (Walk.Agrees start listed) (readHeaders reading start entry)
        (readHeaders reading' start entry) := by
  intro reading reading'
  have readings := readsAlike_of_retold searchPaths target retold
  refine ⟨?_, readHeaders_agrees readings⟩
  intro depth lines lines' scan scan' walk walk' muted scans walks
  exact IncludeGraph.readLines_agrees readings (IncludeGraph.enter_agrees readings depth) muted
    scans walks

def treeOf (text : String) : FileTree := ⟨[(["a.h"], text.toUTF8)], [["inc"]], []⟩

def tableWithP : MacroTable := .ofPredefined (.ofList [("P", "1")])

def readingOf (text : String) : Reading :=
  Run.reading (treeOf text) [⟨"", ["inc"]⟩]
    { name := "x86", pointerWidth := 32, longWidth := 32, predefined := ∅ }

/-- A header that takes `P` back, defines it anew and goes on. -/
theorem restating_p :
    (treeOf "#undef P\n#define P 2\nint x;\n").Retold (MutedText ["P"] ["P"])
        (treeOf "#pragma\n#pragma\nint x;\n") ∧
      Concurs (Walk.Agrees tableWithP ["P"])
        (readHeaders (readingOf "#undef P\n#define P 2\nint x;\n") tableWithP ⟨"", ["a.h"]⟩)
        (readHeaders (readingOf "#pragma\n#pragma\nint x;\n") tableWithP ⟨"", ["a.h"]⟩) := by
  have lines : logicalLines (Text.decodeText "#undef P\n#define P 2\nint x;\n".toUTF8) =
      [⟨1, "#undef P".toList⟩, ⟨2, "#define P 2".toList⟩, ⟨3, "int x;".toList⟩] := by
    decide +kernel
  have lines' : logicalLines (Text.decodeText "#pragma\n#pragma\nint x;\n".toUTF8) =
      [⟨1, "#pragma".toList⟩, ⟨2, "#pragma".toList⟩, ⟨3, "int x;".toList⟩] := by
    decide +kernel
  have idle : Directive.ofLine? "#pragma".toList = some ⟨"pragma", []⟩ := by decide
  have muted : MutedText ["P"] ["P"] (Text.decodeText "#undef P\n#define P 2\nint x;\n".toUTF8)
      (Text.decodeText "#pragma\n#pragma\nint x;\n".toUTF8) := by
    unfold MutedText
    rw [lines, lines']
    have taken : Restates ["P"] ["P"] ⟨"undef", "P".toList⟩ := .undefine (by decide)
    have read : Directive.definition? "P 2".toList = some ⟨"P", none, false, " 2"⟩ := by decide
    have defined : Restates ["P"] ["P"] ⟨"define", "P 2".toList⟩ :=
      .define read (by decide) fun _ => by decide
    exact .cons (.ignored (by decide) taken idle (by decide))
      (.cons (.ignored (by decide) defined idle (by decide)) (.cons (.same _) .nil))
  have retold : (treeOf "#undef P\n#define P 2\nint x;\n").Retold (MutedText ["P"] ["P"])
      (treeOf "#pragma\n#pragma\nint x;\n") := ⟨.cons ⟨rfl, muted⟩ .nil, rfl, rfl⟩
  exact ⟨retold, (restating_predefined tableWithP ["P"] _ _ retold).2 _⟩

/-- The declarations of each header and the meaning of `P` in the end. -/
def outcomeOf (text : String) : Option (List (List Item) × Option (List String)) :=
  (readHeaders (readingOf text) tableWithP ⟨"", ["a.h"]⟩).toOption.map fun walk =>
    (walk.finished.map fun header => header.declarations.map Declaration.item,
      (walk.table.lookup "P").map Macro.bodyText)

/-- A definition of `P` that every condition ignores becomes a constant. -/
theorem redefinition_declared :
    outcomeOf "#define P 2\n" = some ([[.constant "P" ["2"]]], some ["1"]) ∧
      outcomeOf "#pragma P 2\n" = some ([[]], some ["1"]) ∧
      outcomeOf "#define P 2\n" ≠ outcomeOf "#pragma P 2\n" := by
  have defined : outcomeOf "#define P 2\n" = some ([[.constant "P" ["2"]]], some ["1"]) := by cbv
  have ignored : outcomeOf "#pragma P 2\n" = some ([[]], some ["1"]) := by cbv
  refine ⟨defined, ignored, ?_⟩
  rw [defined, ignored]
  decide

end CBindings
