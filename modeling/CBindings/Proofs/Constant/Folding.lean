import CBindings.Declaration.Reader
import CBindings.Proofs.Constant.Agreement
import CBindings.Proofs.Constant.Replay
import CBindings.Proofs.Expr.Folding
import CBindings.Proofs.Token.Spelling

/-! Enumerators that are evaluated where they are read, with a `long` of 32 bits, and enumerators
that are evaluated from their text, with the `long` of the target. -/

namespace CBindings

namespace Expr

variable {e e' : Expr} {value : IntValue} {tokens : List Token}

theorem Alike.eq (alike : Alike Eq e e') : e = e' := by
  induction alike with
  | literal same => rw [same]
  | name n => rfl
  | call n => rfl
  | cast typeName _ ih => rw [ih]
  | unary op _ ih => rw [ih]
  | binary op _ _ ihLeft ihRight => rw [ihLeft, ihRight]
  | conditional _ _ _ ihCondition ihChosen ihOtherwise => rw [ihCondition, ihChosen, ihOtherwise]

theorem parse_without_lines {reading : Reading} (parsed : parse tokens reading = .ok e) :
    parse (tokens.map fun t => { t with line := 0 }) reading = .ok e := by
  have respells : Respells reading Eq fun t => { t with line := 0 } :=
    ⟨fun _ => rfl, fun _ _ => rfl, fun _ value known => ⟨value, known, rfl⟩⟩
  obtain ⟨e', parsed', alike⟩ := parse_respelled respells parsed
  rw [alike.eq]
  exact parsed'

/-- What has a value without names and casts has it whatever they mean, and asks for none. -/
theorem Folds.evaluateIn (folds : e.Folds value) (names : String → Evaluating IntValue)
    (casts : String → Evaluating IntType) : e.evaluateIn names casts false = pure value := by
  induction e generalizing value with
  | literal v =>
    cases folds
    rfl
  | name n => exact absurd folds (stuck_name n value)
  | call n => cases folds
  | cast typeName operand => exact absurd folds (stuck_cast typeName operand value)
  | unary op operand ih =>
    obtain ⟨inner, operandFolds, rfl⟩ := evaluate_unary_eq_ok.mp folds
    rw [Expr.evaluateIn, ih operandFolds, pure_bind]
  | conditional condition chosen otherwise ihCondition ihChosen ihOtherwise =>
    obtain ⟨test, tested, ⟨holds, branch⟩ | ⟨fails, branch⟩⟩ := evaluate_conditional_eq_ok.mp folds
    · rw [Expr.evaluateIn, ihCondition tested, pure_bind, if_pos holds, ihChosen branch]
    · rw [Expr.evaluateIn, ihCondition tested, pure_bind, if_neg (by simpa using fails),
        ihOtherwise branch]
  | binary op left right ihLeft ihRight =>
    obtain ⟨a, leftFolds, decided | ⟨undecided, b, rightFolds, applied⟩⟩ :=
      evaluate_binary_eq_ok.mp folds
    · simp only [Expr.evaluateIn, ihLeft leftFolds, pure_bind, decided]
    · simp only [Expr.evaluateIn, ihLeft leftFolds, ihRight rightFolds, pure_bind, undecided,
        applied]

end Expr

open CBindings.Expr

theorem DeclarationReader.constant_eq_ok {tokens : List Token} {line : Nat} {v : Int} :
    constant tokens line = .ok v ↔
      ∃ e value, parse tokens = .ok e ∧ e.Folds value ∧ value.value = v := by
  unfold constant
  cases parsed : parse tokens with
  | error error => simp [Except.bind, fail]
  | ok e =>
    simp only [Except.bind]
    cases evaluated : e.evaluate noNames noCasts false with
    | error error => simp [fail, Folds, evaluated]
    | ok value => simp [Folds, evaluated]

/-- A number that has the same value and type for both widths of `long`. -/
def Token.SameLong (longWidth : Nat) (t : Token) : Prop :=
  t.kind = .number → Literal.integer t.text longWidth = Literal.integer t.text

namespace ConstantScope

variable {scope : ConstantScope} {tokens : List Token} {e : Expr} {value : IntValue}

theorem untyped_of_sameLong (same : ∀ t ∈ tokens, t.SameLong scope.target.longWidth) :
    Untyped {} scope.reading tokens where
  noType _ := rfl
  literal t member := by
    unfold literalOf
    simp only [Token.lexeme]
    cases kind : t.kind with
    | number =>
      have both := same t member kind
      simp only [reading, both]
      rfl
    | _ => rfl

theorem integer_of_parsed (lexemes : ∀ t ∈ tokens, t.IsLexeme)
    (parsed : parse tokens scope.reading = .ok e) (folds : e.Folds value)
    (resolve : String → Evaluating IntValue) :
    scope.integer resolve (tokenize (spell tokens)) = pure value := by
  rw [tokenize_spell lexemes, integer_eq, parse_without_lines parsed]
  exact folds.evaluateIn _ _

theorem assigned_of_parsed (lexemes : ∀ t ∈ tokens, t.IsLexeme)
    (parsed : parse tokens scope.reading = .ok e) (folds : e.Folds value)
    (resolve : String → Evaluating IntValue) (done : List (String × Option Int))
    (following : Option Int) :
    scope.assigned resolve done following (.text (spell tokens)) = pure (some value.value) := by
  rw [assigned, integer_of_parsed lexemes parsed folds]
  rfl

theorem ensures_trivial {α : Type} (x : Remembering α) :
    Ensures (fun _ => True) x fun _ => True := fun _ _ => ⟨trivial, trivial⟩

theorem enumeratorsFrom_extends (resolve : String → Evaluating IntValue) (values : List Enumerator)
    (done : List (String × Option Int)) (following : Option Int) :
    Ensures (fun _ => True) (scope.enumeratorsFrom resolve done following values) (done <+: ·) := by
  induction values generalizing done following with
  | nil => exact .pure (List.prefix_refl done)
  | cons e rest ih =>
    refine (ensures_trivial _).bind fun given _ => ?_
    exact (ih _ _).mono fun _ => (List.prefix_append _ _).trans

theorem enumeratorsFrom_at {resolve : String → Evaluating IntValue} {e : Enumerator} {v : Int}
    (assigned : ∀ done following, scope.assigned resolve done following e.value = pure (some v))
    (before after : List Enumerator) (done : List (String × Option Int)) (following : Option Int) :
    Ensures (fun _ => True) (scope.enumeratorsFrom resolve done following (before ++ e :: after))
      fun values => values[done.length + before.length]? =
        some (e.name, some (IntType.int.wrap v)) := by
  induction before generalizing done following with
  | nil =>
    rw [List.nil_append, enumeratorsFrom, assigned, pure_bind]
    refine (enumeratorsFrom_extends resolve after _ _).mono fun values ⟨others, whole⟩ => ?_
    rw [← whole]
    simp
  | cons first rest ih =>
    refine (ensures_trivial _).bind fun given _ => ?_
    refine (ih _ _).mono fun values found => ?_
    rw [← found]
    congr 1
    simp only [List.length_append, List.length_cons, List.length_nil]
    omega

theorem evaluateEnum_of_parsed {symbol : Symbol} (before after : List Enumerator) {name : String}
    (spelled : symbol.item.enumerators = before ++ ⟨name, .text (spell tokens)⟩ :: after)
    (lexemes : ∀ t ∈ tokens, t.IsLexeme) (parsed : parse tokens scope.reading = .ok e)
    (folds : e.Folds value) {memo : ConstantMemo} (lacks : memo.Lacks (.enum symbol.serial)) :
    (scope.evaluateEnum symbol memo).1[before.length]? =
      some (name, some (IntType.int.wrap value.value)) := by
  have evaluated := (enumeratorsFrom_at (e := ⟨name, .text (spell tokens)⟩)
    (assigned_of_parsed lexemes parsed folds (scope.resolve [.enum symbol.serial])) before after []
    (some 0) memo trivial).1
  rw [List.length_nil, Nat.zero_add, ← spelled] at evaluated
  rw [evaluateEnum_lacking lacks]
  exact evaluated

/-- An enumerator that is folded where it is read has the same value for every target if its text is
evaluated instead, and if no number in it depends on the width of `long`. -/
theorem evaluateEnum_of_folded (scope : ConstantScope) {symbol : Symbol}
    (before after : List Enumerator) {name : String} {tokens : List Token} {line : Nat} {v : Int}
    (spelled : symbol.item.enumerators = before ++ ⟨name, .text (spell tokens)⟩ :: after)
    (lexemes : ∀ t ∈ tokens, t.IsLexeme)
    (same : ∀ t ∈ tokens, t.SameLong scope.target.longWidth)
    (folded : DeclarationReader.constant tokens line = .ok v) {memo : ConstantMemo}
    (lacks : memo.Lacks (.enum symbol.serial)) :
    (scope.evaluateEnum symbol memo).1[before.length]? =
      some (name, some (IntType.int.wrap v)) := by
  obtain ⟨e, value, parsed, folds, rfl⟩ := DeclarationReader.constant_eq_ok.mp folded
  obtain ⟨e', parsed', folds'⟩ := parse_folds (untyped_of_sameLong same) parsed folds
  exact evaluateEnum_of_parsed before after spelled lexemes parsed' folds' lacks

/-! ### A number that depends on `long` -/

/-- A number that is shifted out of the lower 32 bits and back. -/
def shiftedBack (text : String) : List Token :=
  [⟨.punct, "(", 0⟩, ⟨.number, text, 0⟩, ⟨.punct, "<<", 0⟩, ⟨.number, "32", 0⟩, ⟨.punct, ")", 0⟩,
   ⟨.punct, ">>", 0⟩, ⟨.number, "32", 0⟩]

def shiftedEnum (text : String) : Symbol where
  serial := 0
  declaration := { item := .enum none [⟨"B", .text (spell (shiftedBack text))⟩] false }

def longScope : ConstantScope where
  table := {}
  target := { name := "x86-64-sysv", pointerWidth := 64, longWidth := 64, predefined := ∅ }

theorem shiftedBack_lexemes {text : String} (closed : text ≠ "\"" ∧ text ≠ "'")
    (spelled : tokenize (spell (shiftedBack text)) = shiftedBack text) :
    ∀ t ∈ shiftedBack text, t.IsLexeme := by
  intro t member
  refine ⟨⟨0, (spell (shiftedBack text)).toList, ?_⟩, ?_⟩
  · rw [← tokenize, spelled]
    exact member
  · simp only [shiftedBack, List.mem_cons, List.not_mem_nil, or_false] at member
    rcases member with rfl | rfl | rfl | rfl | rfl | rfl | rfl
    · decide
    · exact closed
    all_goals decide

theorem parse_shiftedBack {reading : Expr.Reading} {text : String} {value amount : IntValue}
    (known : literalOf reading ⟨.number, text⟩ = .ok value)
    (bits : literalOf reading ⟨.number, "32"⟩ = .ok amount) :
    parse (shiftedBack text) reading = .ok (.binary .shiftRight
      (.binary .shiftLeft (.literal value) (.literal amount)) (.literal amount)) := by
  have closed : ∀ next ∈ [(⟨.punct, ")", 0⟩ : Token), ⟨.punct, ">>", 0⟩, ⟨.number, "32", 0⟩].head?,
      next.isPunct ")" = true := by simp [Token.isPunct]
  have inner : Reads (expression reading 0 (shiftedBack text).tail)
      (.binary .shiftLeft (.literal value) (.literal amount))
      [⟨.punct, ")", 0⟩, ⟨.punct, ">>", 0⟩, ⟨.number, "32", 0⟩] :=
    expression_binary_reads (operand_number_reads known) rfl (by decide) (Nat.zero_le _)
      (expression_operand_reads (operand_number_reads bits) closed) closed
  have group : Reads (operand reading (shiftedBack text))
      (.binary .shiftLeft (.literal value) (.literal amount))
      [⟨.punct, ">>", 0⟩, ⟨.number, "32", 0⟩] :=
    (operand_group_reads (by decide) rfl rfl).mpr ⟨⟨.punct, ")", 0⟩, inner, rfl⟩
  exact parse_eq_ok_iff.mpr (expression_binary_reads group rfl (by decide) (Nat.zero_le _)
    (expression_operand_reads (operand_number_reads bits) (by simp)) (by simp))

theorem folds_shiftedBack : Folds (.binary .shiftRight (.binary .shiftLeft
      (.literal ⟨1, .longLong, .decimal⟩) (.literal ⟨32, .int, .decimal⟩))
      (.literal ⟨32, .int, .decimal⟩)) ⟨1, .longLong, .decimal⟩ ∧
    Folds (.binary .shiftRight (.binary .shiftLeft
      (.literal ⟨1, .int, .decimal⟩) (.literal ⟨32, .int, .decimal⟩))
      (.literal ⟨32, .int, .decimal⟩)) ⟨0, .int, .decimal⟩ := by
  unfold Folds
  decide +kernel

/-- A `long long` comes back for every target. -/
theorem evaluateEnum_shiftedBack :
    let tokens := shiftedBack "1LL"
    (∀ t ∈ tokens, t.IsLexeme) ∧ (∀ t ∈ tokens, t.SameLong longScope.target.longWidth) ∧
      DeclarationReader.constant tokens 1 = .ok 1 ∧
      (longScope.evaluateEnum (shiftedEnum "1LL") {}).1[0]? = some ("B", some 1) := by
  intro tokens
  have lexemes : ∀ t ∈ tokens, t.IsLexeme :=
    shiftedBack_lexemes (by decide) (by decide +kernel)
  have same : ∀ t ∈ tokens, t.SameLong longScope.target.longWidth := by
    have numbers : Literal.integer "1LL" 64 = Literal.integer "1LL" ∧
      Literal.integer "32" 64 = Literal.integer "32" := by decide +kernel
    simp [tokens, shiftedBack, Token.SameLong, longScope, numbers]
  have known : literalOf {} ⟨.number, "1LL"⟩ = .ok ⟨1, .longLong, .decimal⟩ := by decide +kernel
  have bits : literalOf {} ⟨.number, "32"⟩ = .ok ⟨32, .int, .decimal⟩ := by decide +kernel
  have folded : DeclarationReader.constant tokens 1 = .ok 1 := DeclarationReader.constant_eq_ok.mpr
    ⟨_, _, parse_shiftedBack known bits, folds_shiftedBack.1, rfl⟩
  exact ⟨lexemes, same, folded,
    evaluateEnum_of_folded longScope [] [] rfl lexemes same folded rfl⟩

/-- A `long` of 32 bits is gone where it is read, and a `long` of 64 bits comes back. -/
theorem shiftedBack_depends_on_long :
    let tokens := shiftedBack "1L"
    (∀ t ∈ tokens, t.IsLexeme) ∧ DeclarationReader.constant tokens 1 = .ok 0 ∧
      (longScope.evaluateEnum (shiftedEnum "1L") {}).1[0]? = some ("B", some 1) := by
  intro tokens
  have lexemes : ∀ t ∈ tokens, t.IsLexeme :=
    shiftedBack_lexemes (by decide) (by decide +kernel)
  have short : literalOf {} ⟨.number, "1L"⟩ = .ok ⟨1, .int, .decimal⟩ ∧
    literalOf {} ⟨.number, "32"⟩ = .ok ⟨32, .int, .decimal⟩ := by decide +kernel
  have long : literalOf longScope.reading ⟨.number, "1L"⟩ = .ok ⟨1, .longLong, .decimal⟩ ∧
    literalOf longScope.reading ⟨.number, "32"⟩ = .ok ⟨32, .int, .decimal⟩ := by decide +kernel
  have folded : DeclarationReader.constant tokens 1 = .ok 0 := DeclarationReader.constant_eq_ok.mpr
    ⟨_, _, parse_shiftedBack short.1 short.2, folds_shiftedBack.2, rfl⟩
  exact ⟨lexemes, folded, evaluateEnum_of_parsed [] [] rfl lexemes
    (parse_shiftedBack long.1 long.2) folds_shiftedBack.1 rfl⟩

end ConstantScope

end CBindings
