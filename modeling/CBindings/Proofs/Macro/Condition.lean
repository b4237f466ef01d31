import CBindings.Proofs.Macro.Arithmetic
import CBindings.Proofs.Macro.Definition
import CBindings.Proofs.Macro.Findings

/-! The answer of a condition is the truth value of its expanded expression in preprocessor
arithmetic. -/

namespace CBindings

open Expansion

namespace Condition

variable {table : MacroTable} {longWidth : Nat} {tokens resolved expanded : List Token}
  {header : Option String} {line : Option Nat} {findings : Findings} {e : Expr} {v : IntValue}

/-- The tokens that a condition is read from. -/
structure Expands (table : MacroTable) (tokens : List Token) (header : Option String)
    (findings : Findings) (resolved expanded : List Token) : Prop where
  resolves : resolveDefined table tokens = .ok resolved
  expands : resolveDefined table (expand table resolved header findings).1 = .ok expanded

theorem value_eq_ok_iff {answer : Bool} :
    (value table longWidth tokens header findings).1 = .ok answer ↔
      ∃ resolved expanded e v, Expands table tokens header findings resolved expanded ∧
        Expr.parse expanded { longWidth := longWidth } = .ok e ∧ e.conditionValue = .ok v ∧
        answer = decide (v.value ≠ 0) := by
  unfold value
  cases first : resolveDefined table tokens with
  | error error =>
    simp only [reduceCtorEq, false_iff, not_exists, not_and]
    intro resolved expanded e v read
    cases first.symm.trans read.resolves
  | ok resolved =>
    simp only
    constructor
    · intro known
      obtain ⟨expanded, second, known⟩ := Except.bind_eq_ok.mp known
      obtain ⟨e, parsed, known⟩ := Except.bind_eq_ok.mp known
      obtain ⟨v, evaluated, known⟩ := Except.bind_eq_ok.mp known
      exact ⟨resolved, expanded, e, v, ⟨first, second⟩, parsed, evaluated,
        (Except.ok.inj known).symm⟩
    · rintro ⟨resolved', expanded, e, v, ⟨same, second⟩, parsed, evaluated, rfl⟩
      obtain rfl : resolved = resolved' := Except.ok.inj (first.symm.trans same)
      exact Except.bind_eq_ok.mpr ⟨expanded, second, Except.bind_eq_ok.mpr ⟨e, parsed,
        Except.bind_eq_ok.mpr ⟨v, evaluated, rfl⟩⟩⟩

def added (table : MacroTable) (longWidth : Nat) (tokens : List Token) (header : Option String)
    (line : Option Nat) (findings : Findings) : List Diagnostic :=
  (holds table longWidth tokens header line findings).2.diagnostics.drop
    findings.diagnostics.length

/-- A condition that is not reported as unsupported has a value, which is the answer. -/
theorem value_of_accepted
    (accepted : ∀ d ∈ added table longWidth tokens header line findings,
      d.kind ≠ Diagnostic.unsupportedExpression) :
    (value table longWidth tokens header findings).1 =
      .ok (holds table longWidth tokens header line findings).1 := by
  have kept : findings.diagnostics <+:
      (value table longWidth tokens header findings).2.diagnostics := by
    unfold value
    split
    · exact List.prefix_refl _
    · exact expand_accumulates table _ header findings
  unfold added at accepted
  unfold holds at accepted ⊢
  split at accepted
  · next truth after found => rw [found]
  · next error after found =>
    rw [found] at kept
    simp only [Findings.add, List.drop_append_of_le_length kept.length_le] at accepted
    exact absurd rfl (accepted _ (List.mem_append_right _ List.mem_cons_self))

/-- For every table and every condition that is not reported as unsupported, the answer is whether
the expanded condition is other than zero in 64-bit arithmetic, if its evaluation keeps to it. -/
theorem holds_wide (table : MacroTable) (longWidth : Nat) (tokens : List Token)
    (header : Option String) (line : Option Nat) (findings : Findings)
    (accepted : ∀ d ∈ added table longWidth tokens header line findings,
      d.kind ≠ Diagnostic.unsupportedExpression) :
    ∃ resolved expanded e wide, Expands table tokens header findings resolved expanded ∧
      Expr.parse expanded { longWidth := longWidth } = .ok e ∧
      Expr.parse (expanded.map (Token.asLongLong longWidth)) { longWidth := longWidth } =
        .ok wide ∧
      (e.KeepsWide wide → ∃ word, wide.wideValue = .ok word ∧
        (holds table longWidth tokens header line findings).1 = decide (word ≠ 0)) := by
  obtain ⟨resolved, expanded, e, v, read, parsed, evaluated, answer⟩ :=
    value_eq_ok_iff.mp (value_of_accepted accepted)
  obtain ⟨wide, parsedWide, alike⟩ :=
    Expr.parse_respelled (respells_asLongLong { longWidth := longWidth }) parsed
  refine ⟨resolved, expanded, e, wide, read, parsed, parsedWide, fun keeps => ?_⟩
  obtain ⟨word, known, represents⟩ := Expr.wideValue_of_conditionValue alike keeps evaluated
  refine ⟨word, known, answer.trans ?_⟩
  exact decide_eq_decide.mpr (not_congr represents.value_eq_zero)

theorem holds_of_evaluated {out : List Token} {after : Findings}
    (resolves : resolveDefined table tokens = .ok resolved)
    (expands : expand table resolved header findings = (out, after))
    (again : resolveDefined table out = .ok expanded)
    (parsed : Expr.parse expanded { longWidth := longWidth } = .ok e)
    (evaluated : e.conditionValue = .ok v) :
    holds table longWidth tokens header line findings = (decide (v.value ≠ 0), after) := by
  have answer : truth longWidth expanded = .ok (decide (v.value ≠ 0)) :=
    Except.bind_eq_ok.mpr ⟨e, parsed, Except.bind_eq_ok.mpr ⟨v, evaluated, rfl⟩⟩
  have known : value table longWidth tokens header findings =
      (.ok (decide (v.value ≠ 0)), after) := by
    simp only [value, resolves, expands, again, Except.bind, answer]
  rw [holds, known]

/-! ### Shifts of one and of a truth value -/

def noMacros : MacroTable := .ofPredefined ∅

def shifted (operand : List Token) (amount : String) : List Token :=
  operand ++ [⟨.punct, "<<", 1⟩, ⟨.number, amount, 1⟩]

def shiftedOne : List Token := shifted [⟨.number, "1", 1⟩] "40"

def shiftedTruth : List Token := shifted [⟨.punct, "!", 1⟩, ⟨.number, "0", 1⟩] "40"

theorem literalOf_shifted :
    Expr.literalOf { longWidth := 32 } ⟨.number, "0"⟩ = .ok ⟨0, .int, .decimal⟩ ∧
    Expr.literalOf { longWidth := 32 } ⟨.number, "1"⟩ = .ok ⟨1, .int, .decimal⟩ ∧
    Expr.literalOf { longWidth := 32 } ⟨.number, "40"⟩ = .ok ⟨40, .int, .decimal⟩ ∧
    Expr.literalOf { longWidth := 32 } ⟨.number, "0ll"⟩ = .ok ⟨0, .longLong, .decimal⟩ ∧
    Expr.literalOf { longWidth := 32 } ⟨.number, "1ll"⟩ = .ok ⟨1, .longLong, .decimal⟩ ∧
    Expr.literalOf { longWidth := 32 } ⟨.number, "40ll"⟩ = .ok ⟨40, .longLong, .decimal⟩ := by
  decide +kernel

theorem asLongLong_shifted :
    shiftedOne.map (Token.asLongLong 32) = shifted [⟨.number, "1ll", 1⟩] "40ll" ∧
    shiftedTruth.map (Token.asLongLong 32) =
      shifted [⟨.punct, "!", 1⟩, ⟨.number, "0ll", 1⟩] "40ll" := by
  decide +kernel

open CBindings.Expr in
theorem parse_shifted {reading : Expr.Reading} {operand : List Token} {amount : String} {e : Expr}
    {n : IntValue} (first : Reads (Expr.operand reading (shifted operand amount)) e
      [⟨.punct, "<<", 1⟩, ⟨.number, amount, 1⟩])
    (second : literalOf reading ⟨.number, amount⟩ = .ok n) :
    parse (shifted operand amount) reading = .ok (.binary .shiftLeft e (.literal n)) :=
  parse_eq_ok_iff.mpr (expression_binary_reads first rfl (by decide) (Nat.zero_le _)
    (expression_operand_reads (operand_number_reads second) (by simp)) (by simp))

open CBindings.Expr in
theorem parse_shiftedOne :
    parse shiftedOne { longWidth := 32 } = .ok (.binary .shiftLeft (.literal ⟨1, .int, .decimal⟩)
      (.literal ⟨40, .int, .decimal⟩)) ∧
    parse (shiftedOne.map (Token.asLongLong 32)) { longWidth := 32 } =
      .ok (.binary .shiftLeft (.literal ⟨1, .longLong, .decimal⟩)
        (.literal ⟨40, .longLong, .decimal⟩)) := by
  obtain ⟨-, one, forty, -, oneLong, fortyLong⟩ := literalOf_shifted
  rw [asLongLong_shifted.1]
  exact ⟨parse_shifted (operand_number_reads one) forty,
    parse_shifted (operand_number_reads oneLong) fortyLong⟩

open CBindings.Expr in
theorem parse_shiftedTruth :
    parse shiftedTruth { longWidth := 32 } =
      .ok (.binary .shiftLeft (.unary .not (.literal ⟨0, .int, .decimal⟩))
        (.literal ⟨40, .int, .decimal⟩)) ∧
    parse (shiftedTruth.map (Token.asLongLong 32)) { longWidth := 32 } =
      .ok (.binary .shiftLeft (.unary .not (.literal ⟨0, .longLong, .decimal⟩))
        (.literal ⟨40, .longLong, .decimal⟩)) := by
  obtain ⟨zero, -, forty, zeroLong, -, fortyLong⟩ := literalOf_shifted
  rw [asLongLong_shifted.2]
  exact ⟨parse_shifted ((operand_prefix_reads rfl).mpr ⟨_, operand_number_reads zero, rfl⟩) forty,
    parse_shifted ((operand_prefix_reads rfl).mpr ⟨_, operand_number_reads zeroLong, rfl⟩) fortyLong⟩

theorem expandPending_plain {pending : List Pending} (plain : ∀ p ∈ pending,
      table.named p.token = none ∧ p.token.isIdent "defined" = false) :
    expandPending table header pending findings = (pending, findings) := by
  rw [← List.append_nil pending, expandPending_append_plain plain, expandPending]

theorem expand_shifted :
    expand noMacros shiftedOne none {} = (shiftedOne, {}) ∧
      expand noMacros shiftedTruth none {} = (shiftedTruth, {}) := by
  constructor
  · rw [expand, expandPending_plain (by decide)]
    rfl
  · rw [expand, expandPending_plain (by decide)]
    rfl

theorem resolveDefined_shifted :
    resolveDefined noMacros shiftedOne = .ok shiftedOne ∧
      resolveDefined noMacros shiftedTruth = .ok shiftedTruth := by
  refine ⟨?_, ?_⟩ <;> decide +kernel

theorem expands_shifted :
    Expands noMacros shiftedOne none {} shiftedOne shiftedOne ∧
      Expands noMacros shiftedTruth none {} shiftedTruth shiftedTruth := by
  obtain ⟨one, truth⟩ := resolveDefined_shifted
  exact ⟨⟨one, by rw [expand_shifted.1]; exact one⟩,
    ⟨truth, by rw [expand_shifted.2]; exact truth⟩⟩

theorem holds_shifted :
    holds noMacros 32 shiftedOne none none {} = (true, {}) ∧
      holds noMacros 32 shiftedTruth none none {} = (false, {}) := by
  obtain ⟨one, notZero⟩ := resolveDefined_shifted
  obtain ⟨expandOne, expandNotZero⟩ := expand_shifted
  exact ⟨holds_of_evaluated one expandOne one parse_shiftedOne.1 rfl,
    holds_of_evaluated notZero expandNotZero notZero parse_shiftedTruth.1 rfl⟩

/-- The one bit of a truth value is gone from 32 bits, and not from 64. -/
theorem shifted_truth_lost :
    holds noMacros 32 shiftedTruth none none {} = (false, {}) ∧
    ∃ wide word, Expands noMacros shiftedTruth none {} shiftedTruth shiftedTruth ∧
      Expr.parse (shiftedTruth.map (Token.asLongLong 32)) { longWidth := 32 } = .ok wide ∧
      wide.wideValue = .ok word ∧ word ≠ 0 :=
  ⟨holds_shifted.2, _, _, expands_shifted.2, parse_shiftedTruth.2, rfl, by decide⟩

/-- The bit of a literal stays in 64-bit arithmetic. -/
theorem shifted_one_holds :
    added noMacros 32 shiftedOne none none {} = [] ∧
      (holds noMacros 32 shiftedOne none none {}).1 = true := by
  have accepted : added noMacros 32 shiftedOne none none {} = [] := by
    rw [added, holds_shifted.1]
    rfl
  obtain ⟨resolved, expanded, e, wide, read, parsed, parsedWide, answers⟩ :=
    holds_wide noMacros 32 shiftedOne none none {} (by simp [accepted])
  obtain rfl : shiftedOne = resolved :=
    Except.ok.inj (expands_shifted.1.resolves.symm.trans read.resolves)
  obtain rfl : shiftedOne = expanded :=
    Except.ok.inj (expands_shifted.1.expands.symm.trans read.expands)
  obtain rfl := Except.ok.inj (parse_shiftedOne.1.symm.trans parsed)
  obtain rfl := Except.ok.inj (parse_shiftedOne.2.symm.trans parsedWide)
  have keeps : ∀ a b, a = IntValue.mk 1 .longLong .decimal → b = IntValue.mk 40 .longLong .decimal →
      BinaryOp.shiftLeft.Keeps a b false false := by
    rintro a b rfl rfl
    exact ⟨by decide, by decide, by decide⟩
  have wide : (Expr.literal ⟨1, .int, .decimal⟩).KeepsWide (.literal ⟨1, .longLong, .decimal⟩) ∧
      (Expr.literal ⟨40, .int, .decimal⟩).KeepsWide (.literal ⟨40, .longLong, .decimal⟩) :=
    ⟨⟨by decide, by decide⟩, ⟨by decide, by decide⟩⟩
  obtain ⟨word, known, answer⟩ := answers ⟨wide.1, fun a left _ => ⟨wide.2, fun b right =>
    keeps a b (Except.ok.inj left).symm (Except.ok.inj right).symm⟩⟩
  obtain rfl := Except.ok.inj known
  exact ⟨accepted, answer.trans (by decide)⟩

end Condition

end CBindings
