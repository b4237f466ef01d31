import CBindings.Header.IncludeGraph

/-! The conditional groups around a place in a header, and the branch selected in each, as the
directives above the place tell them. -/

namespace CBindings

namespace Directive

def opensGroup (directive : Directive) : Bool := ["if", "ifdef", "ifndef"].contains directive.name

/-- Whether a directive opens, divides or closes a conditional group. -/
def isConditional (directive : Directive) : Bool :=
  directive.opensGroup || ["elif", "else", "endif"].contains directive.name

/-- The name that `#ifdef` and `#ifndef` ask about, if there is one. -/
def subject? (directive : Directive) (line : Nat) : Option String :=
  match tokenize (String.ofList directive.rest) line with
  | token :: _ => if token.kind = .ident then some token.text else none
  | [] => none

def lacksSubject (directive : Directive) (line : Nat) : Bool :=
  ["ifdef", "ifndef"].contains directive.name && (directive.subject? line).isNone

end Directive

structure BranchStart where
  directive : Directive
  line : Nat
  deriving DecidableEq, Repr

namespace BranchStart

def isElse (start : BranchStart) : Bool := start.directive.name = "else"

/-- The truth of the condition of a branch while some macros are in force. -/
def holds (longWidth : Nat) (table : MacroTable) (start : BranchStart) : Bool :=
  if start.directive.name = "ifdef" then
    (start.directive.subject? start.line).any fun name => table.isDefined name
  else if start.directive.name = "ifndef" then
    (start.directive.subject? start.line).any fun name => !table.isDefined name
  else
    (Condition.holds table longWidth (tokenize (String.ofList start.directive.rest) start.line)
      none none {}).1

end BranchStart

abbrev Outline := List (List BranchStart)

namespace Outline

/-- Whether a directive is one of `#elif`, `#else` and `#endif` and has no group, or would start a
branch after the `#else` of its group. -/
def isStray (groups : Outline) (directive : Directive) : Bool :=
  if directive.name = "endif" then groups.isEmpty
  else if ["elif", "else"].contains directive.name then
    match groups with
    | [] => true
    | branches :: _ => branches.any BranchStart.isElse
  else false

def next (groups : Outline) (directive : Directive) (line : Nat) : Outline :=
  if groups.isStray directive then groups
  else if directive.opensGroup then [⟨directive, line⟩] :: groups
  else
    match groups with
    | [] => []
    | branches :: outer =>
      if directive.name = "endif" then outer
      else if ["elif", "else"].contains directive.name then
        (branches ++ [⟨directive, line⟩]) :: outer
      else groups

def after (groups : Outline) (line : NumberedLine) : Outline :=
  match Directive.ofLine? line.text with
  | none => groups
  | some directive => groups.next directive line.number

def ofLines (lines : List NumberedLine) : Outline := lines.foldl after []

variable (holds : BranchStart → Bool)

def first? (branches : List BranchStart) : Option Nat :=
  branches.findIdx? fun start => start.isElse || holds start

def keeps : Outline → Bool
  | [] => true
  | branches :: outer => keeps outer && first? holds branches = some (branches.length - 1)

def selected? (outer : Outline) (branches : List BranchStart) : Option Nat :=
  if keeps holds outer then first? holds branches else none

/-- Whether a directive has a condition that decides about a branch: it stands in kept text, and no
earlier branch of its group is selected. -/
def wantsCondition (groups : Outline) (directive : Directive) : Bool :=
  if directive.name = "if" then keeps holds groups
  else if directive.name = "elif" then
    match groups with
    | [] => false
    | branches :: outer => keeps holds outer && (selected? holds outer branches).isNone
  else false

variable {holds} {groups outer : Outline} {branches : List BranchStart} {start : BranchStart}

/-- Text is kept just if the current branch of every group around it is the selected one. -/
theorem keeps_iff : keeps holds groups ↔ ∀ branches outer, branches :: outer <:+ groups →
    selected? holds outer branches = some (branches.length - 1) := by
  induction groups with
  | nil =>
    constructor
    · intro _ branches outer within
      cases List.suffix_nil.mp within
    · intro _
      rfl
  | cons group groups ih =>
    constructor
    · intro kept branches outer within
      simp only [keeps, Bool.and_eq_true, decide_eq_true_eq] at kept
      rcases List.suffix_cons_iff.mp within with same | within
      · cases same
        simp only [selected?, kept.1, if_true, kept.2]
      · exact ih.mp kept.1 branches outer within
    · intro current
      have around : keeps holds groups := ih.mpr fun branches outer within =>
        current branches outer (within.trans (List.suffix_cons group groups))
      have here := current group groups (List.suffix_refl _)
      simp only [selected?, around, if_true] at here
      simp only [keeps, around, here, decide_true, Bool.and_self]

theorem first?_lt {i : Nat} (found : first? holds branches = some i) : i < branches.length := by
  obtain ⟨within, -⟩ := List.findIdx?_eq_some_iff_getElem.mp found
  exact within

theorem first?_append : first? holds (branches ++ [start]) = (first? holds branches).or
    (if start.isElse || holds start then some branches.length else none) := by
  simp only [first?, List.findIdx?_append, List.findIdx?_cons, List.findIdx?_nil]
  congr 1
  split <;> simp_all

/-- The branch that was selected while it was the current one stays so, and no other is. -/
theorem first?_take {i : Nat} (within : i < branches.length) :
    first? holds (branches.take (i + 1)) = some i ↔ first? holds branches = some i := by
  have whole := calc
    first? holds branches = first? holds (branches.take (i + 1) ++ branches.drop (i + 1)) := by
      rw [List.take_append_drop]
    _ = (first? holds (branches.take (i + 1))).or
        (((branches.drop (i + 1)).findIdx? fun start => start.isElse || holds start).map
          (· + (branches.take (i + 1)).length)) := List.findIdx?_append
  have length : (branches.take (i + 1)).length = i + 1 := by
    rw [List.length_take]
    omega
  rw [whole, length]
  cases first? holds (branches.take (i + 1)) with
  | some j => simp
  | none =>
    simp only [Option.none_or, reduceCtorEq, false_iff, Option.map_eq_some_iff, not_exists, not_and]
    intro j found
    omega

end Outline

end CBindings
