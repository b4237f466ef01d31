import CBindings.Proofs.Declaration.Naming
import CBindings.Proofs.Header.Dependency
import CBindings.Proofs.Macro.Naming
import CBindings.Proofs.Rust.Naming
import CBindings.Run.Basic

/-! The names in headers that are read: identifiers are such that the lexer can read them, and
neither they nor the names of macros have marks. -/

namespace CBindings

open Expansion Lexer Text

/-! ### Names -/

theorem unmarked_of_isName {name : String} (isName : IsName name.toList) : Unmarked name := by
  have blank : isIdentChar ' ' = false := rfl
  have mark : isIdentChar '#' = false := rfl
  constructor
  · intro member
    cases blank.symm.trans (isName.2 _ member)
  · intro member
    cases mark.symm.trans (isName.2 _ member)

theorem unmarked_of_definition {rest : List Char} {definition : Directive.Definition}
    (reads : Directive.definition? rest = some definition) : Unmarked definition.name := by
  have word {c : Char} {rest : List Char} (starts : isNameStart c = true) :
      Unmarked (String.ofList (c :: rest.takeWhile isWord)) := by
    have outside : ∀ d, (d = ' ' ∨ d = '#') → isNameStart d = false ∧ isWord d = false := by
      rintro d (rfl | rfl) <;> exact ⟨rfl, rfl⟩
    have absent : ∀ d, (d = ' ' ∨ d = '#') → d ∉ c :: rest.takeWhile isWord := by
      intro d mark member
      rcases List.mem_cons.mp member with rfl | later
      · cases (outside d mark).1.symm.trans starts
      · cases (outside d mark).2.symm.trans (List.mem_takeWhile_imp later)
    rw [Unmarked, String.toList_ofList]
    exact ⟨absent ' ' (.inl rfl), absent '#' (.inr rfl)⟩
  unfold Directive.definition? at reads
  split at reads
  · cases reads
  · next name after found =>
    have isWord : Unmarked (String.ofList name) := by
      unfold Directive.nameAt? at found
      split at found
      · cases found
      · split at found
        · next starts =>
          cases found
          exact word starts
        · cases found
    dsimp only at reads
    split at reads
    · split at reads <;> cases reads <;> exact isWord
    · cases reads
      exact isWord

/-- A declaration that is read from tokens and macros. Identifiers are such that the lexer can read
them, and macros have names without marks. -/
def Declaration.IsRead (d : Declaration) : Prop :=
  ∃ tokens header defines, d ∈ (declarationsOf tokens header defines).1 ∧
    (∀ token ∈ tokens, token.Named) ∧ ∀ define ∈ defines, Unmarked define.2.name

theorem Declaration.IsRead.unmarked {d : Declaration} (isRead : d.IsRead) :
    ∀ name ∈ d.item.plainNames, Unmarked name := by
  obtain ⟨tokens, header, defines, member, named, defined⟩ := isRead
  intro name among
  obtain ⟨token, inside, ident, rfl⟩ | ⟨define, inside, rfl⟩ :=
    declarationsOf_names tokens header defines d member name among
  · exact unmarked_of_isName (named token inside ident)
  · exact defined define inside

/-! ### Lines -/

structure Scan.Named (scan : Scan) : Prop where
  pending : ∀ token ∈ scan.pending, token.Named
  tokens : ∀ token ∈ scan.header.tokens, token.Named
  defines : ∀ define ∈ scan.header.defines, Unmarked define.2.name

structure Walk.Named (walk : Walk) : Prop where
  bodies : walk.table.Named
  finished : ∀ header ∈ walk.finished, ∀ d ∈ header.declarations, d.IsRead

namespace IncludeGraph

variable {reading : Reading} {scan : Scan} {walk : Walk}

structure Named (read : Scan × Walk) : Prop where
  scan : read.1.Named
  walk : read.2.Named

theorem Named.report (named : Named (scan, walk)) (diagnostic : Diagnostic) :
    Named (scan, walk.report diagnostic) := ⟨named.scan, ⟨named.walk.bodies, named.walk.finished⟩⟩

theorem named_flush (named : Named (scan, walk)) : Named (flush scan walk) where
  scan :=
    { pending := List.forall_mem_nil _
      tokens := List.forall_mem_append.mpr ⟨named.scan.tokens,
        named_expand named.walk.bodies named.scan.pending _ walk.findings⟩
      defines := named.scan.defines }
  walk := ⟨named.walk.bodies, named.walk.finished⟩

theorem named_openGroup (named : Named (scan, walk)) (directive : Directive) (line : Nat) :
    Named (openGroup reading directive line scan walk) := by
  unfold openGroup
  split
  · exact ⟨⟨named.scan.pending, named.scan.tokens, named.scan.defines⟩, named.walk⟩
  · refine ⟨⟨named.scan.pending, named.scan.tokens, named.scan.defines⟩, ?_⟩
    dsimp only
    split
    · exact ⟨named.walk.bodies, named.walk.finished⟩
    · split
      · split
        · exact named.walk
        · exact (named.report _).walk
      · exact (named.report _).walk

theorem named_elseIf (named : Named (scan, walk)) (rest : List Char) (line : Nat) :
    Named (elseIf reading rest line scan walk) := by
  unfold elseIf
  split
  · exact named.report _
  · split
    · exact ⟨⟨named.scan.pending, named.scan.tokens, named.scan.defines⟩,
        ⟨named.walk.bodies, named.walk.finished⟩⟩
    · exact ⟨⟨named.scan.pending, named.scan.tokens, named.scan.defines⟩, named.walk⟩

theorem named_otherwise (named : Named (scan, walk)) (line : Nat) :
    Named (otherwise line scan walk) := by
  unfold otherwise
  split
  · exact named.report _
  · exact ⟨⟨named.scan.pending, named.scan.tokens, named.scan.defines⟩, named.walk⟩

theorem named_closeGroup (named : Named (scan, walk)) (line : Nat) :
    Named (closeGroup line scan walk) := by
  unfold closeGroup
  split
  · exact named.report _
  · exact ⟨⟨named.scan.pending, named.scan.tokens, named.scan.defines⟩, named.walk⟩

theorem named_define (named : Named (scan, walk)) (rest : List Char) (line : Nat) :
    Named (define rest line scan walk) := by
  unfold define
  split
  · exact named.report _
  · next definition reads =>
    have after : ∀ m : Macro, m.body = tokenize definition.body line →
        ({ walk with table := walk.table.define m } : Walk).Named :=
      fun m body => ⟨named.walk.bodies.define (body ▸ named_of_mem_tokensOf), named.walk.finished⟩
    dsimp only
    split
    · refine ⟨⟨named.scan.pending, named.scan.tokens, ?_⟩, after _ rfl⟩
      exact List.forall_mem_append.mpr ⟨named.scan.defines,
        List.forall_mem_singleton.mpr (unmarked_of_definition reads)⟩
    · exact ⟨named.scan, after _ rfl⟩

theorem named_act (named : Named (scan, walk)) (directive : Directive) (line : Nat) :
    Named (act directive line scan walk) := by
  unfold act
  split
  · exact named_define named directive.rest line
  · split
    · exact ⟨named.scan, ⟨named.walk.bodies.undefine _, named.walk.finished⟩⟩
    · split
      · exact named.report _
      · split
        · exact named
        · exact named.report _

def NamedProgress (progress : Progress) : Prop := Named (progress.scan, progress.walk)

theorem named_visit (named : Named (scan, walk)) (path : Path) (name : String) (line : Nat) :
    NamedProgress (visit reading path name line scan walk) := by
  have including (path : Path) : (scan.including path).Named :=
    ⟨named.scan.pending, named.scan.tokens, named.scan.defines⟩
  unfold visit
  dsimp only
  split
  · exact ⟨including _, named.walk⟩
  · split
    · exact ⟨including _, named.walk⟩
    · exact ⟨including _, ⟨named.walk.bodies, named.walk.finished⟩⟩

theorem named_includeTarget (named : walk.Named) (rest : List Char) (line : Nat) :
    (includeTarget rest line scan walk).2.Named := by
  unfold includeTarget
  split
  · exact named
  · exact ⟨named.bodies, named.finished⟩

theorem named_includeHeader (named : Named (scan, walk)) {rest : List Char} {line : Nat}
    {progress : Progress} (included : includeHeader reading rest line scan walk = .ok progress) :
    NamedProgress progress := by
  have target : (includeTarget rest line scan walk).2.Named :=
    named_includeTarget named.walk rest line
  have after : Named (scan, (includeTarget rest line scan walk).2) := ⟨named.scan, target⟩
  simp only [includeHeader] at included
  split at included
  · cases included
    exact after.report _
  · next wanted _ =>
    cases found : find reading wanted scan.header.path with
    | error failure =>
      rw [found] at included
      cases included
    | ok answer =>
      rw [found] at included
      cases answer with
      | none =>
        cases included
        exact after.report _
      | some answer =>
        cases included
        exact named_visit after _ _ _

theorem named_carryOut (named : Named (scan, walk)) {directive : Directive} {line : Nat}
    {progress : Progress} (carried : carryOut reading directive line scan walk = .ok progress) :
    NamedProgress progress := by
  unfold carryOut at carried
  split at carried
  · cases carried
    exact named_openGroup named directive line
  · split at carried
    · cases carried
      exact named_elseIf named directive.rest line
    · split at carried
      · cases carried
        exact named_otherwise named line
      · split at carried
        · cases carried
          exact named_closeGroup named line
        · split at carried
          · cases carried
            exact named
          · split at carried
            · exact named_includeHeader named carried
            · cases carried
              exact named_act named directive line

theorem named_readLine (named : Named (scan, walk)) {line : NumberedLine} {progress : Progress}
    (read : readLine reading scan walk line = .ok progress) : NamedProgress progress := by
  unfold readLine at read
  split at read
  · split at read
    · cases read
      refine ⟨⟨?_, named.scan.tokens, named.scan.defines⟩, named.walk⟩
      exact List.forall_mem_append.mpr ⟨named.scan.pending, named_of_mem_tokensOf⟩
    · cases read
      exact named
  · exact named_carryOut (named_flush named) read

/-! ### Headers -/

theorem named_readLines {enter : Place → Visit → Walk → Except FileFailure Walk}
    (enters : ∀ place entry before after, enter place entry before = .ok after → before.Named →
      after.Named) {lines : List NumberedLine} (named : Named (scan, walk)) {read : Scan × Walk}
    (reads : readLines reading enter lines scan walk = .ok read) : Named read := by
  induction lines generalizing scan walk with
  | nil =>
    cases reads
    exact named
  | cons line rest ih =>
    rw [readLines] at reads
    obtain ⟨progress, first, reads⟩ := Except.bind_eq_ok.mp reads
    have middle := named_readLine named first
    split at reads
    · exact ih middle reads
    · obtain ⟨after, entered, reads⟩ := Except.bind_eq_ok.mp reads
      have between : Named (progress.scan, after) :=
        ⟨middle.scan, enters _ _ _ _ entered middle.walk⟩
      exact ih between reads

theorem named_finish (parser : ∀ header, (reading.parser header).1 =
      (declarationsOf header.tokens header.name header.defines).1)
    (named : Named (scan, walk)) (place : Place) (entry : Visit) :
    (finish reading place entry scan walk).Named := by
  have flushed := named_flush named
  have ended : ∀ (branches : Branches) (scan : Scan) (walk : Walk), walk.Named →
      (branches.foldl (fun walk branch =>
        walk.report (malformed scan branch.line "unterminated conditional block")) walk).Named := by
    intro branches scan
    induction branches with
    | nil => exact fun _ named => named
    | cons branch rest ih => exact fun walk named => ih _ ⟨named.bodies, named.finished⟩
  have before := ended (flush scan walk).1.branches.reverse (flush scan walk).1 _ flushed.walk
  refine ⟨before.bodies, List.forall_mem_append.mpr ⟨before.finished, ?_⟩⟩
  refine List.forall_mem_singleton.mpr fun d member => ?_
  exact ⟨_, _, _, parser _ ▸ member, flushed.scan.tokens, flushed.scan.defines⟩

theorem named_enter (parser : ∀ header, (reading.parser header).1 =
      (declarationsOf header.tokens header.name header.defines).1) (depth : Nat) (place : Place)
    (entry : Visit) (before after : Walk) (entered : enter reading depth place entry before = .ok after)
    (named : before.Named) : after.Named := by
  induction depth generalizing place entry before after with
  | zero =>
    cases entered
    exact named
  | succ depth ih =>
    rw [enter] at entered
    split at entered
    · cases entered
      exact named
    · obtain ⟨read, reads, entered⟩ := Except.bind_eq_ok.mp entered
      cases entered
      have start : Named (startOf entry, before.mark place entry false) :=
        ⟨⟨List.forall_mem_nil _, List.forall_mem_nil _, List.forall_mem_nil _⟩,
          ⟨named.bodies, named.finished⟩⟩
      exact named_finish parser (named_readLines ih start reads) place entry

end IncludeGraph

/-- All that is declared in the headers of a run is read from proper names. -/
theorem isRead_of_readHeaders {tree : FileTree} {searchPaths : List Path} {target : Target}
    {table : MacroTable} {entry : Path} {walk : Walk}
    (read : readHeaders (Run.reading tree searchPaths target) table entry = .ok walk)
    (bodies : table.Named) : ∀ header ∈ walk.finished, ∀ d ∈ header.declarations, d.IsRead := by
  have start : ({ table := table } : Walk).Named := ⟨bodies, List.forall_mem_nil _⟩
  obtain ⟨-, enters⟩ | ⟨-, error, fails⟩ :=
    readHeaders_cases (Run.reading tree searchPaths target) table entry
  · rw [enters] at read
    generalize found : IncludeGraph.enter _ _ _ _ _ = result at read
    cases result with
    | error failure => cases read
    | ok after =>
      cases read
      exact (IncludeGraph.named_enter (fun _ => rfl) _ _ _ _ _ found start).finished
  · cases fails.symm.trans read

end CBindings
