import CBindings.Token.LogicalLine
import Mathlib.Data.List.Range

/-! Comments are taken out by an automaton that reads one character at a time. What it leaves has no
comments, and its lines are numbered in order. -/

namespace CBindings.LogicalLine

open Text

/-! ### The automaton -/

/-- Where the automaton stands in a line. A slash in code is held back until the next character
tells whether it opens a comment, and a star in a block comment may be the first half of its end. -/
inductive ScanState where
  | code (slash : Bool)
  | quoted (quote : Char)
  | escaped (quote : Char)
  | lineComment
  | blockComment (star : Bool)
  deriving DecidableEq, Repr

namespace ScanState

def next : ScanState → Char → ScanState × List Char
  | code slash, c =>
    let held := if slash then ['/'] else []
    if slash ∧ c = '/' then (lineComment, [])
    else if slash ∧ c = '*' then (blockComment false, [])
    else if c = '/' then (code true, held)
    else if c = '"' ∨ c = '\'' then (quoted c, held ++ [c])
    else (code false, held ++ [c])
  | quoted quote, c =>
    (if c = '\\' then escaped quote else if c = quote then code false else quoted quote, [c])
  | escaped quote, c => (quoted quote, [c])
  | lineComment, _ => (lineComment, [])
  | blockComment star, c =>
    if star ∧ c = '/' then (code false, [' ']) else (blockComment (c = '*'), [])

def endLine : ScanState → ScanState × List Char
  | code true => (code false, ['/'])
  | blockComment _ => (blockComment false, [])
  | _ => (code false, [])

def scan (state : ScanState) : List Char → ScanState × List Char
  | [] => state.endLine
  | c :: rest =>
    let after := (state.next c).1.scan rest
    (after.1, (state.next c).2 ++ after.2)

end ScanState

/-- The automaton between two lines: the lines it has written, and the line that it goes on with
because a block comment is open. -/
structure Scan where
  state : ScanState := .code false
  written : List NumberedLine := []
  unfinished : Option NumberedLine := none

namespace Scan

def readLine (s : Scan) (line : NumberedLine) : Scan :=
  let start := s.unfinished.getD ⟨line.number, []⟩
  let after := s.state.scan line.text
  let current : NumberedLine := ⟨start.number, start.text ++ after.2⟩
  if after.1 = .blockComment false then { s with state := after.1, unfinished := some current }
  else { state := after.1, written := s.written ++ [current] }

def output (s : Scan) : List NumberedLine := s.written ++ s.unfinished.toList

end Scan

def scanLines (source : List NumberedLine) : List NumberedLine :=
  (source.foldl Scan.readLine {}).output

namespace ScanState

variable {c : Char} {rest : List Char}

def between (commented : Bool) : ScanState :=
  if commented then blockComment false else code false

theorem scan_cons {state state' : ScanState} {written : List Char}
    (step : state.next c = (state', written)) (rest : List Char) :
    state.scan (c :: rest) = ((state'.scan rest).1, written ++ (state'.scan rest).2) := by
  rw [scan, step]

theorem scan_lineComment (text : List Char) : lineComment.scan text = (code false, []) := by
  induction text with
  | nil => rfl
  | cons c rest ih =>
    rw [scan_cons rfl, ih]
    rfl

/-- A slash that was held back is written unless the next character makes it open a comment. -/
theorem scan_slash (plain : ∀ c ∈ rest.head?, c ≠ '/' ∧ c ≠ '*') : (code true).scan rest =
    (((code false).scan rest).1, '/' :: ((code false).scan rest).2) := by
  cases rest with
  | nil => rfl
  | cons c rest =>
    obtain ⟨slash, star⟩ := plain c rfl
    by_cases quote : c = '"' ∨ c = '\'' <;> simp [scan, next, slash, star, quote]

theorem scan_star (stays : ∀ c ∈ rest.head?, c ≠ '/') :
    (blockComment true).scan rest = (blockComment false).scan rest := by
  cases rest with
  | nil => rfl
  | cons c rest => simp [scan, next, stays c rfl]

end ScanState

def Place.state : Place → ScanState
  | code => .code false
  | quoted quote => .quoted quote
  | comment => .blockComment false

theorem lone_backslash (quote : Char) {c : Char} {text : List Char}
    (alone : ∀ d tail, c = '\\' → text = d :: tail → False) (escape : c = '\\') :
    text = [] ∧ uncomment (if c = quote then .code else .quoted quote) text = ([], false) := by
  cases text with
  | nil =>
    refine ⟨rfl, ?_⟩
    split <;> rfl
  | cons d tail => exact (alone d tail escape rfl).elim

theorem slash_opens_nothing :
    (if '/' = '"' ∨ '/' = '\'' then Place.quoted '/' else .code) = .code := by decide

open ScanState in
theorem scan_eq_uncomment (place : Place) (text : List Char) :
    place.state.scan text = (between (uncomment place text).2, (uncomment place text).1) := by
  fun_induction uncomment place text with
  | case1 => rfl
  | case2 place closed =>
    cases place with
    | comment => exact absurd rfl closed
    | code | quoted => rfl
  | case3 rest after ih =>
    have star : (blockComment false).next '*' = (blockComment true, []) := rfl
    have slash : (blockComment true).next '/' = (Place.code.state, [' ']) := rfl
    rw [Place.state, scan_cons star, scan_cons slash, ih]
    rfl
  | case4 c rest other ih =>
    have step : (blockComment false).next c = (blockComment (c = '*'), []) := by simp [next]
    have goesOn : (blockComment (c = '*')).scan rest = (blockComment false).scan rest := by
      by_cases star : c = '*'
      · have stays : ∀ d ∈ rest.head?, d ≠ '/' := by
          rintro d first rfl
          obtain ⟨tail, rfl⟩ := List.head?_eq_some_iff.mp first
          exact other tail star rfl
        simp [star, scan_star stays]
      · simp [star]
    rw [Place.state, scan_cons step, goesOn, ← Place.state, ih]
    rfl
  | case5 quote c rest after ih =>
    have backslash : (quoted quote).next '\\' = (escaped quote, ['\\']) := rfl
    have taken : (escaped quote).next c = ((Place.quoted quote).state, [c]) := rfl
    rw [Place.state, scan_cons backslash, scan_cons taken, ih]
    rfl
  | case6 quote c rest alone after ih =>
    by_cases escape : c = '\\'
    · obtain ⟨rfl, nothing⟩ := lone_backslash quote alone escape
      subst escape
      simp only [after, nothing]
      rfl
    · have step : (quoted quote).next c =
          ((if c = quote then Place.code else .quoted quote).state, [c]) := by
        simp only [next, escape, if_false]
        split <;> rfl
      rw [Place.state, scan_cons step, ih]
      rfl
  | case7 rest =>
    have first : (code false).next '/' = (code true, []) := rfl
    have second : (code true).next '/' = (lineComment, []) := rfl
    rw [Place.state, scan_cons first, scan_cons second, scan_lineComment]
    rfl
  | case8 rest ih =>
    have slash : (code false).next '/' = (code true, []) := rfl
    have star : (code true).next '*' = (Place.comment.state, []) := rfl
    rw [Place.state, scan_cons slash, scan_cons star, ih]
    rfl
  | case9 c rest noLine noBlock after ih =>
    by_cases slash : c = '/'
    · have plain : ∀ d ∈ rest.head?, d ≠ '/' ∧ d ≠ '*' := by
        intro d first
        obtain ⟨tail, rfl⟩ := List.head?_eq_some_iff.mp first
        exact ⟨fun same => noLine tail slash (same ▸ rfl),
          fun same => noBlock tail slash (same ▸ rfl)⟩
      subst slash
      have held : (code false).next '/' = (code true, []) := rfl
      rw [slash_opens_nothing, Place.state] at ih
      rw [Place.state, scan_cons held, scan_slash plain, ih]
      simp only [after, slash_opens_nothing]
      rfl
    · have step : (code false).next c =
          ((if c = '"' ∨ c = '\'' then Place.quoted c else .code).state, [c]) := by
        by_cases quote : c = '"' ∨ c = '\'' <;> simp [next, slash, quote, Place.state]
      rw [Place.state, scan_cons step, ih]
      rfl

/-- Where a line begins that goes on with a pending line, if there is one. -/
def startOf (pending : Option NumberedLine) : Place := if pending.isSome then .comment else .code

def continued (pending : Option NumberedLine) (line : NumberedLine) : NumberedLine :=
  let start := pending.getD ⟨line.number, []⟩
  ⟨start.number, start.text ++ (uncomment (startOf pending) line.text).1⟩

variable {line : NumberedLine} {pending : Option NumberedLine} {rest lines : List NumberedLine}

theorem stripAfter_cons : stripAfter pending (line :: rest) =
    if (uncomment (startOf pending) line.text).2 then
      stripAfter (some (continued pending line)) rest
    else continued pending line :: stripAfter none rest := by
  cases pending with
  | none => rfl
  | some start => rfl

theorem readLine_between (written : List NumberedLine) (pending : Option NumberedLine)
    (line : NumberedLine) :
    Scan.readLine ⟨.between pending.isSome, written, pending⟩ line =
      if (uncomment (startOf pending) line.text).2 then
        ⟨.between true, written, some (continued pending line)⟩
      else ⟨.between false, written ++ [continued pending line], none⟩ := by
  have begins : ScanState.between pending.isSome = (startOf pending).state := by
    cases pending <;> rfl
  rw [Scan.readLine, begins, scan_eq_uncomment]
  cases (uncomment (startOf pending) line.text).2 <;> rfl

theorem foldl_readLine (lines written : List NumberedLine) (pending : Option NumberedLine) :
    (lines.foldl Scan.readLine ⟨.between pending.isSome, written, pending⟩).output =
      written ++ stripAfter pending lines := by
  induction lines generalizing written pending with
  | nil => simp [Scan.output, stripAfter]
  | cons line rest ih =>
    rw [List.foldl_cons, stripAfter_cons, readLine_between]
    split
    · exact ih written (some (continued pending line))
    · have later := ih (written ++ [continued pending line]) none
      rwa [List.append_assoc] at later

theorem scanLines_eq (source : List NumberedLine) : scanLines source = stripComments source :=
  foldl_readLine source [] none

example : scanLines [⟨4, "a /* ' b".toList⟩, ⟨6, "c */ \"/*\" // d".toList⟩] =
    [⟨4, "a   \"/*\" ".toList⟩] := by decide

/-! ### Lines without comments -/

theorem uncomment_code {c : Char} {text : List Char}
    (plain : c = '/' → ∀ d ∈ text.head?, d ≠ '/' ∧ d ≠ '*') :
    uncomment .code (c :: text) =
      (c :: (uncomment (if c = '"' ∨ c = '\'' then .quoted c else .code) text).1,
        (uncomment (if c = '"' ∨ c = '\'' then .quoted c else .code) text).2) := by
  rw [uncomment.eq_def]
  split <;> simp_all

theorem uncomment_quoted {quote c : Char} {text : List Char} (plain : c = '\\' → text = []) :
    uncomment (.quoted quote) (c :: text) =
      (c :: (uncomment (if c = quote then .code else .quoted quote) text).1,
        (uncomment (if c = quote then .code else .quoted quote) text).2) := by
  rw [uncomment.eq_def]
  split <;> simp_all

def Bare (text : List Char) : Prop := uncomment .code text = (text, false)

def Place.outside : Place → Place
  | code => code
  | quoted quote => quoted quote
  | comment => code

/-- What is left has no comments, and in front of other text it changes nothing about that text.
Other text stands behind it only where a comment is open at its end. -/
theorem uncomment_again (place : Place) (text rest : List Char)
    (closed : (uncomment place text).2 = false → rest = []) :
    uncomment place.outside ((uncomment place text).1 ++ rest) =
      ((uncomment place text).1 ++ (uncomment .code rest).1, (uncomment .code rest).2) := by
  fun_induction uncomment place text with
  | case1 => rfl
  | case2 place other =>
    cases closed rfl
    cases place with
    | comment => exact absurd rfl other
    | code | quoted => rfl
  | case3 text after ih =>
    have inner : uncomment .code (after.1 ++ rest) = _ := ih closed
    have blank : uncomment .code (' ' :: (after.1 ++ rest)) = _ := uncomment_code (by simp)
    rw [if_neg (by decide), inner] at blank
    exact blank
  | case4 c text other ih => exact ih closed
  | case5 quote c text after ih =>
    have inner : uncomment (.quoted quote) (after.1 ++ rest) = _ := ih closed
    rw [Place.outside, List.cons_append, List.cons_append, uncomment, inner]
    rfl
  | case6 quote c text alone after ih =>
    have inner := ih closed
    have same : (if c = quote then Place.code else .quoted quote).outside =
        if c = quote then Place.code else .quoted quote := by split <;> rfl
    rw [same] at inner
    have ends : c = '\\' → after.1 ++ rest = [] := by
      intro escape
      obtain ⟨-, nothing⟩ := lone_backslash quote alone escape
      have noComment : (c :: after.1, after.2).2 = false := by simp only [after, nothing]
      simp only [after, nothing, closed noComment, List.append_nil]
    rw [Place.outside, List.cons_append, uncomment_quoted ends, inner]
    rfl
  | case7 text =>
    cases closed rfl
    rfl
  | case8 text ih => exact ih closed
  | case9 c text noLine noBlock after ih =>
    have inner := ih closed
    have same : (if c = '"' ∨ c = '\'' then Place.quoted c else .code).outside =
        if c = '"' ∨ c = '\'' then Place.quoted c else .code := by split <;> rfl
    rw [same] at inner
    have plain : c = '/' → ∀ d ∈ (after.1 ++ rest).head?, d ≠ '/' ∧ d ≠ '*' := by
      rintro rfl d first
      cases text with
      | nil =>
        rw [closed rfl] at first
        cases first
      | cons next tail =>
        have plain : next ≠ '/' ∧ next ≠ '*' :=
          ⟨fun same => noLine tail rfl (same ▸ rfl), fun same => noBlock tail rfl (same ▸ rfl)⟩
        simp only [after, slash_opens_nothing] at first
        rw [uncomment_code fun slash => absurd slash plain.1] at first
        cases first
        exact plain
    rw [Place.outside, List.cons_append, uncomment_code plain, inner]
    rfl

def Precedes (text rest : List Char) : Prop :=
  uncomment .code (text ++ rest) = (text ++ (uncomment .code rest).1, (uncomment .code rest).2)

theorem precedes_nil_iff {text : List Char} : Precedes text [] ↔ Bare text := by
  have nothing : uncomment .code [] = ([], false) := rfl
  rw [Precedes, Bare, nothing, List.append_nil]

theorem continued_precedes (before : ∀ start ∈ pending, ∀ rest, Precedes start.text rest)
    (rest : List Char) (closed : (uncomment (startOf pending) line.text).2 = false → rest = []) :
    Precedes (continued pending line).text rest := by
  cases pending with
  | none => exact uncomment_again .code line.text rest closed
  | some start =>
    have later : uncomment .code ((uncomment .comment line.text).1 ++ rest) = _ :=
      uncomment_again .comment line.text rest closed
    have first : uncomment .code (start.text ++ _) = _ :=
      before start rfl ((uncomment .comment line.text).1 ++ rest)
    rw [later, ← List.append_assoc, ← List.append_assoc] at first
    exact first

theorem bare_stripAfter (before : ∀ start ∈ pending, ∀ rest, Precedes start.text rest) :
    ∀ left ∈ stripAfter pending lines, Bare left.text := by
  induction lines generalizing pending with
  | nil =>
    intro left member
    have start : pending = some left := by simpa [stripAfter] using member
    exact precedes_nil_iff.mp (before left start [])
  | cons line rest ih =>
    rw [stripAfter_cons]
    split
    · next commented =>
      refine ih fun start same rest => ?_
      cases same
      refine continued_precedes before rest fun ended => ?_
      cases commented.symm.trans ended
    · rw [List.forall_mem_cons]
      exact ⟨precedes_nil_iff.mp (continued_precedes before [] fun _ => rfl),
        ih fun _ impossible => by cases impossible⟩

theorem stripAfter_bare (bare : ∀ line ∈ lines, Bare line.text) :
    stripAfter none lines = lines := by
  induction lines with
  | nil => rfl
  | cons line rest ih =>
    rw [List.forall_mem_cons] at bare
    have left : uncomment (startOf none) line.text = (line.text, false) := bare.1
    rw [stripAfter_cons, continued, left, if_neg Bool.false_ne_true, ih bare.2]
    rfl

/-! ### Numbers -/

/-- A line that goes on with a pending one has the number of that one, else its own. -/
theorem start_sublist (pending : Option NumberedLine) (number : Nat) (later : List Nat) :
    ((pending.getD ⟨number, []⟩).number :: later).Sublist
      (pending.toList.map NumberedLine.number ++ number :: later) := by
  cases pending with
  | none => exact List.Sublist.refl _
  | some start => simp

theorem numbers_stripAfter (pending : Option NumberedLine) (lines : List NumberedLine) :
    ((stripAfter pending lines).map NumberedLine.number).Sublist
      (pending.toList.map NumberedLine.number ++ lines.map NumberedLine.number) := by
  induction lines generalizing pending with
  | nil => simp [stripAfter]
  | cons line rest ih =>
    have start := start_sublist pending line.number (rest.map NumberedLine.number)
    rw [stripAfter_cons]
    split
    · exact (ih _).trans start
    · exact ((ih none).cons_cons _).trans start

theorem numbers_spliceAfter {number : Nat} {physical : List (List Char)} :
    ((spliceAfter pending number physical).map NumberedLine.number).Sublist
      (pending.toList.map NumberedLine.number ++ List.range' number physical.length) := by
  induction physical generalizing pending number with
  | nil => simp [spliceAfter]
  | cons line rest ih =>
    have start := start_sublist pending number (List.range' (number + 1) rest.length)
    rw [spliceAfter, List.length_cons, List.range'_succ]
    split
    · exact ih.trans start
    · exact (ih.cons_cons _).trans start

theorem numbers_logicalLines (source : String) :
    ((logicalLines source).map NumberedLine.number).Sublist
      (List.range' 1 (Text.lines source.toList).length) :=
  (numbers_stripAfter none _).trans numbers_spliceAfter

/-- Comments are taken out as by an automaton that reads one character after the other: a closed
block comment leaves one blank and any other comment nothing, quotes and line comments end with their
line, and lines that an open block comment joins become one line with the number of the first. Taking
out comments twice is taking them out once, and the logical lines of a source are numbered in order
by physical lines of it. -/
theorem stripComments_scans :
    (∀ source, stripComments source = scanLines source) ∧
    (∀ source, stripComments (stripComments source) = stripComments source) ∧
    ∀ source : String,
      let numbers := (logicalLines source).map NumberedLine.number
      numbers.Pairwise (· < ·) ∧
        numbers.Sublist (List.range' 1 (Text.lines source.toList).length) := by
  refine ⟨fun source => (scanLines_eq source).symm, fun source => ?_, fun source => ?_⟩
  · exact stripAfter_bare (bare_stripAfter fun _ impossible => by cases impossible)
  · have numbered := numbers_logicalLines source
    exact ⟨List.Pairwise.sublist numbered List.pairwise_lt_range', numbered⟩

end CBindings.LogicalLine
