import CBindings.Macro.Condition

/-! Preprocessing forgets no issue: expansion and conditions only add to what was found before. -/

namespace CBindings

open Expansion

def Accumulates {α : Type} (total : StateM Findings α) : Prop :=
  ∀ findings, findings.diagnostics <+: (total findings).2.diagnostics

namespace Accumulates

variable {α β : Type}

theorem pure (a : α) : Accumulates (Pure.pure a : StateM Findings α) :=
  fun findings => List.prefix_refl findings.diagnostics

theorem bind {total : StateM Findings α} {next : α → StateM Findings β} (first : Accumulates total)
    (second : ∀ a, Accumulates (next a)) : Accumulates (total >>= next) :=
  fun findings => (first findings).trans (second _ _)

end Accumulates

theorem add_accumulates (findings : Findings) (diagnostic : Diagnostic) :
    findings.diagnostics <+: (findings.add diagnostic).diagnostics :=
  List.prefix_append findings.diagnostics [diagnostic]

theorem reportCycle_accumulates (findings : Findings) (header : Option String) (token : Token) :
    findings.diagnostics <+: (findings.reportCycle header token).diagnostics := by
  unfold Findings.reportCycle
  split
  · exact List.prefix_refl findings.diagnostics
  · exact add_accumulates _ _

theorem expandOnce_accumulates {expanded : String → StateM Findings (List Pending)}
    (argument : ∀ name, Accumulates (expanded name)) (known : Expanded) (name : String) :
    Accumulates (expandOnce expanded known name) := by
  unfold expandOnce
  cases known.lookup name with
  | some argument => exact .pure _
  | none => exact (argument name).bind fun argument => .pure _

theorem substitute_accumulates {expanded : String → StateM Findings (List Pending)}
    (argument : ∀ name, Accumulates (expanded name)) (m : Macro)
    (bound : List (String × List Pending)) (origin : Token) (known : Expanded)
    (done : List Pending) (body : List Token) :
    Accumulates (substitute m bound origin expanded known done body) := by
  fun_induction substitute m bound origin expanded known done body with
  | case1 known done => exact .pure _
  | case2 known done token isParameter =>
    exact (expandOnce_accumulates argument known token.text).bind fun argument => .pure _
  | case3 known done token notParameter => exact .pure _
  | case4 known done token next rest found quoted text ih => exact ih
  | case5 known done token next rest unquoted last pasted tokens ih => exact ih
  | case6 known done token next rest unquoted unpasted found isParameter _ beforePaste ih =>
    exact (Accumulates.pure _).bind ih
  | case7 known done token next rest unquoted unpasted found isParameter _ notBefore ih =>
    exact (expandOnce_accumulates argument known token.text).bind ih
  | case8 known done token next rest unquoted unpasted notParameter ih => exact ih

theorem expandPending_accumulates (table : MacroTable) (header : Option String)
    (pending : List Pending) (findings : Findings) :
    findings.diagnostics <+: (expandPending table header pending findings).2.diagnostics := by
  fun_induction expandPending table header pending findings with
  | case1 findings => exact List.prefix_refl findings.diagnostics
  | case2 findings p rest keep here ih => exact ih findings
  | case3 findings p rest here n after ih' ih => exact ih
  | case4 findings p rest keep here ih =>
    exact (reportCycle_accumulates findings header p.token).trans (ih _)
  | case5 findings p rest m here within body ih' ih => exact ih
  | case6 findings p rest keep m here outside ih => exact ih findings
  | case7 findings p rest m group here depth within bound expanded filled body _ ihArgument _ ih =>
    have given : ∀ name, Accumulates (expanded name) := by
      intro name findings
      simp only [expanded]
      split
      · exact List.prefix_refl findings.diagnostics
      · next argument found => exact ihArgument name findings argument found
    exact (substitute_accumulates given m bound p.token [] [] m.body findings).trans ih
  | case8 findings p rest keep m group here depth outside ih => exact ih findings

theorem expand_accumulates (table : MacroTable) (tokens : List Token) (header : Option String)
    (findings : Findings) :
    findings.diagnostics <+: (expand table tokens header findings).2.diagnostics :=
  expandPending_accumulates table header _ findings

theorem holds_accumulates (table : MacroTable) (longWidth : Nat) (tokens : List Token)
    (header : Option String) (line : Option Nat) (findings : Findings) :
    findings.diagnostics <+:
      (Condition.holds table longWidth tokens header line findings).2.diagnostics := by
  have value : findings.diagnostics <+:
      (Condition.value table longWidth tokens header findings).2.diagnostics := by
    unfold Condition.value
    split
    · exact List.prefix_refl findings.diagnostics
    · exact expand_accumulates table _ header findings
  unfold Condition.holds
  split
  · next truth after found =>
    rw [found] at value
    exact value
  · next error after found =>
    rw [found] at value
    exact value.trans (add_accumulates after _)

end CBindings
