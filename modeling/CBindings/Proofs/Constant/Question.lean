import CBindings.Proofs.Constant.Settling
import CBindings.Proofs.SymbolTable.Enumerator
import Mathlib

/-! Questions to an evaluator of constants. What it remembers from earlier questions does not change
an answer, unless the question leads to a cycle of references through an enum or through a constant
that an enumerator stands in for. -/

namespace CBindings

inductive ConstantQuestion where
  | constant (name : String)
  | enum (symbol : Symbol)
  | enumerator (name : String)

inductive ConstantAnswer where
  | constant (result : Option ConstantValue)
  | enum (values : List (String × Option Int))
  | enumerator (value : Option Int)
  deriving DecidableEq

namespace ConstantScope

variable {scope : ConstantScope} {symbols : List Symbol} {name : String} {α : Type}

def answer (scope : ConstantScope) : ConstantQuestion → Remembering ConstantAnswer
  | .constant name => .constant <$> scope.evaluateConstant name
  | .enum symbol => .enum <$> scope.evaluateEnum symbol
  | .enumerator name => .enumerator <$> scope.evaluateEnumerator name

/-- The answers of one evaluator to some questions in a row. -/
def answers (scope : ConstantScope) (questions : List ConstantQuestion) :
    Remembering (List ConstantAnswer) :=
  questions.mapM scope.answer

def subject? (scope : ConstantScope) : ConstantQuestion → Option Pursuit
  | .constant name => some (.constant name)
  | .enum symbol => some (.enum symbol.serial)
  | .enumerator name => (scope.table.enumerator? name).map fun found => .enum found.1.serial

theorem evaluateConstant_ensures (listed : Symbol.Listed symbols scope.table) (name : String) :
    Ensures (scope.Faithful symbols []) (scope.evaluateConstant name) fun result =>
      scope.Grounded symbols (.constant name) →
        result = (scope.final symbols).constant name := by
  intro memo faithful
  unfold evaluateConstant
  cases known : memo.constants.get? name with
  | some result =>
    rw [constantBy_known known]
    exact ⟨faithful.constants name result known, faithful⟩
  | none =>
    rw [constantBy_lacking known]
    cases declared : scope.table.constant? name with
    | none =>
      rw [newConstant_absent declared]
      exact ⟨fun _ => (final_absent declared).symm, faithful⟩
    | some words =>
      rw [newConstant_found declared List.not_mem_nil]
      have candidate : .constant name ∈ scope.candidates symbols :=
        List.mem_append_left _
          (List.mem_map_of_mem (SymbolTable.mem_names_of_constant? declared))
      exact settles listed _ candidate [] .nil List.not_mem_nil words declared memo
        (faithful.pursue known)

theorem evaluateEnum_ensures (listed : Symbol.Listed symbols scope.table) {symbol : Symbol}
    (member : symbol ∈ symbols) :
    Ensures (scope.Faithful symbols []) (scope.evaluateEnum symbol) fun values =>
      scope.Grounded symbols (.enum symbol.serial) →
        values = (scope.final symbols).enum symbol.serial := by
  intro memo faithful
  cases known : memo.enums.get? symbol.serial with
  | some values =>
    rw [evaluateEnum_known known]
    exact ⟨faithful.enums _ values known, faithful⟩
  | none =>
    rw [evaluateEnum_lacking known]
    have candidate : .enum symbol.serial ∈ scope.candidates symbols :=
      List.mem_append_right _ (List.mem_map.mpr ⟨symbol, member, rfl⟩)
    exact settles listed _ candidate [] .nil List.not_mem_nil symbol member rfl memo
      (faithful.pursue known)

theorem evaluateEnum_remembered (symbol : Symbol) (memo : ConstantMemo) :
    (scope.evaluateEnum symbol memo).2.enums.get? symbol.serial =
      some (scope.evaluateEnum symbol memo).1 := by
  cases known : memo.enums.get? symbol.serial with
  | some values =>
    rw [evaluateEnum_known known]
    exact known
  | none =>
    rw [evaluateEnum_lacking known]
    exact enumeratorValues_remembered symbol memo

theorem evaluateEnum_numbered (listed : Symbol.Listed symbols scope.table) {symbol : Symbol}
    (member : symbol ∈ symbols) :
    Ensures (scope.Faithful symbols []) (scope.evaluateEnum symbol)
      (scope.Numbered symbols symbol) := by
  intro memo faithful
  have still := (evaluateEnum_ensures listed member memo faithful).2
  exact ⟨still.numbered symbol member _ (evaluateEnum_remembered symbol memo), still⟩

/-! ### Expressions that are evaluated from the outside -/

def namesInExtent (scope : ConstantScope) : Extent → List String
  | .text expression => scope.namesIn (tokenize expression)
  | .flexible | .count _ => []

/-- What a name stands for is grounded. -/
def Firm (scope : ConstantScope) (symbols : List Symbol) (name : String) : Prop :=
  ∀ p, scope.StandsFor name p → scope.Grounded symbols p

theorem Firm.grounded (firm : scope.Firm symbols name) :
    scope.Grounded symbols (.constant name) := by
  cases declared : scope.table.constant? name with
  | some words => exact firm _ ⟨rfl, by rw [declared]; rfl⟩
  | none => exact grounded_of_nil (by rw [namesOf, declared])

/-- Where nothing is being evaluated an enumerator is looked up in its enum. -/
theorem enumeratorBy_found {symbol : Symbol} {e : Enumerator}
    (found : scope.table.enumerator? name = some (symbol, e)) :
    (scope.enumeratorBy (scope.follow []) name).run =
      (fun values => .ok (valueOf values name)) <$> scope.evaluateEnum symbol := by
  have values : ∀ member, (scope.enumValuesBy (scope.follow [] (.enum symbol.serial) member)
      symbol).run = Except.ok <$> scope.evaluateEnum symbol := by
    intro member
    funext memo
    cases known : memo.enums.get? symbol.serial with
    | some values =>
      rw [enumValuesBy_known known, map_eq_pure_bind]
      change _ = (Except.ok (scope.evaluateEnum symbol memo).1, (scope.evaluateEnum symbol memo).2)
      rw [evaluateEnum_known known]
    | none =>
      rw [enumValuesBy_lacking known, map_eq_pure_bind]
      change _ = (Except.ok (scope.evaluateEnum symbol memo).1, (scope.evaluateEnum symbol memo).2)
      rw [evaluateEnum_lacking known]
      rfl
  unfold enumeratorBy
  split
  · next absent => cases found.symm.trans absent
  · next other value same =>
    cases found.symm.trans same
    rw [ExceptT.run_map, values]
    rfl

section

variable (listed : Symbol.Listed symbols scope.table)

include listed

theorem resolve_fresh (name : String) :
    Ensures (scope.Faithful symbols []) (scope.resolve [] name).run fun result =>
      scope.Firm symbols name → result = ((scope.resolve [] name).run {}).1 := by
  rw [resolve_eq]
  have constant : Ensures (scope.Faithful symbols []) (scope.evaluateConstant name) fun result =>
      scope.Firm symbols name → result = (scope.final symbols).constant name :=
    (evaluateConstant_ensures listed name).mono fun _ right firm => right firm.grounded
  have enumerator : Ensures (scope.Faithful symbols [])
      (scope.enumeratorBy (scope.follow []) name).run fun result => scope.Firm symbols name →
        result = ((scope.enumeratorBy (scope.follow []) name).run {}).1 := by
    cases found : scope.table.enumerator? name with
    | none =>
      unfold enumeratorBy
      split
      · exact .pure fun _ => rfl
      · next present => cases found.symm.trans present
    | some entry =>
      rw [enumeratorBy_found found, map_eq_pure_bind]
      have values : Ensures (scope.Faithful symbols []) (scope.evaluateEnum entry.1) fun values =>
          scope.Firm symbols name → values = (scope.final symbols).enum entry.1.serial :=
        (evaluateEnum_ensures listed (listed.indexed name entry found)).mono
          fun _ right firm => right (firm _ ⟨entry, found, rfl⟩)
      exact (values.fresh (.empty [])).bindFresh (.empty []) fun _ => .pure fun _ => rfl
  refine (constant.fresh (.empty [])).bindLiftFresh (.empty []) fun result => ?_
  cases result with
  | some result => cases result <;> exact .pure fun _ => rfl
  | none =>
    refine enumerator.bindEFresh (.empty []) fun value => ?_
    cases value <;> exact .pure fun _ => rfl

theorem evaluate_fresh (tokens : List Token) :
    Ensures (scope.Faithful symbols []) (scope.evaluate tokens) fun result =>
      (∀ name ∈ scope.namesIn tokens, scope.Firm symbols name) →
        result = (scope.evaluate tokens {}).1 := by
  refine Ensures.fresh (.empty []) (a := scope.valueUnder
    (fun name => ((scope.resolve [] name).run {}).1) tokens) ?_
  refine value_ensures (fun _ => False.elim) (fun name member _ => ?_) (fun _ => False.elim)
  exact (resolve_fresh listed name).mono fun _ right firm => right (firm name member)

theorem evaluateExtent_fresh (extent : Extent) :
    Ensures (scope.Faithful symbols []) (scope.evaluateExtent extent) fun result =>
      (∀ name ∈ scope.namesInExtent extent, scope.Firm symbols name) →
        result = (scope.evaluateExtent extent {}).1 := by
  cases extent with
  | flexible => exact .pure fun _ => rfl
  | count n => exact .pure fun _ => rfl
  | text expression =>
    refine (evaluate_fresh listed (tokenize expression)).bindFresh (.empty []) fun result => ?_
    split
    · exact .pure fun _ => rfl
    · exact .pure fun _ => rfl

end

noncomputable def finalAnswer (scope : ConstantScope) (symbols : List Symbol) :
    ConstantQuestion → ConstantAnswer
  | .constant name => .constant ((scope.final symbols).constant name)
  | .enum symbol => .enum ((scope.final symbols).enum symbol.serial)
  | .enumerator name => .enumerator ((scope.table.enumerator? name).bind fun found =>
      valueOf ((scope.final symbols).enum found.1.serial) name)

theorem answer_ensures (listed : Symbol.Listed symbols scope.table) (question : ConstantQuestion)
    (member : ∀ symbol, question = .enum symbol → symbol ∈ symbols) :
    Ensures (scope.Faithful symbols []) (scope.answer question) fun given =>
      (∀ p ∈ scope.subject? question, scope.Grounded symbols p) →
        given = scope.finalAnswer symbols question := by
  cases question with
  | constant name =>
    exact (evaluateConstant_ensures listed name).bind fun result right => .pure fun grounded =>
      congrArg _ (right (grounded _ rfl))
  | enum symbol =>
    exact (evaluateEnum_ensures listed (member symbol rfl)).bind fun values right =>
      .pure fun grounded => congrArg _ (right (grounded _ rfl))
  | enumerator name =>
    have evaluated : Ensures (scope.Faithful symbols []) (scope.evaluateEnumerator name) fun value =>
        (∀ p ∈ scope.subject? (.enumerator name), scope.Grounded symbols p) →
          value = (scope.table.enumerator? name).bind fun found =>
            valueOf ((scope.final symbols).enum found.1.serial) name := by
      cases found : scope.table.enumerator? name with
      | none =>
        simp only [evaluateEnumerator, found]
        exact .pure fun _ => rfl
      | some entry =>
        simp only [evaluateEnumerator, found, subject?]
        exact (evaluateEnum_ensures listed (listed.indexed name entry found)).bind
          fun values right => .pure fun grounded =>
            congrArg (valueOf · name) (right (grounded _ rfl))
    exact evaluated.bind fun value right => .pure fun grounded => congrArg _ (right grounded)

theorem answers_ensures (listed : Symbol.Listed symbols scope.table)
    (questions : List ConstantQuestion)
    (member : ∀ symbol, .enum symbol ∈ questions → symbol ∈ symbols) :
    Ensures (scope.Faithful symbols []) (scope.answers questions)
      (List.Forall₂ (fun question given =>
        (∀ p ∈ scope.subject? question, scope.Grounded symbols p) →
          given = (scope.answer question {}).1) questions) := by
  unfold answers
  induction questions with
  | nil => exact .pure .nil
  | cons question rest ih =>
    rw [List.mapM_cons]
    have first := answer_ensures listed question fun symbol same =>
      member symbol (same ▸ List.mem_cons_self)
    have alone := (first {} (.empty [])).1
    have others := ih fun symbol listed => member symbol (List.mem_cons_of_mem _ listed)
    exact first.bind fun given right => others.bind fun answers right' =>
      .pure (.cons (fun grounded => (right grounded).trans (alone grounded).symm) right')

end ConstantScope

namespace SymbolTable

theorem listed_symbolsOf (policy : DuplicatePolicy) (history : List Declaration) :
    Symbol.Listed (symbolsOf history) (ofHistory policy history) where
  indexed _ _ found := (enumerator?_ofHistory found).1
  identified _ first _ second same := eq_of_serial first second same

/-- One evaluator answers many questions as new evaluators would, each of which is asked only one.
This is so for every question from which no cycle of references can be reached that goes through an
enum or through a constant that an enumerator stands in for. The others may come in between. -/
theorem answers_of_history (policy : DuplicatePolicy) (history : List Declaration)
    (target : Target) (questions : List ConstantQuestion)
    (declared : ∀ symbol, .enum symbol ∈ questions → symbol ∈ symbolsOf history) :
    let scope : ConstantScope := ⟨ofHistory policy history, target⟩
    List.Forall₂ (fun question given =>
      (∀ p ∈ scope.subject? question, scope.Grounded (symbolsOf history) p) →
        given = (scope.answer question {}).1) questions (scope.answers questions {}).1 := by
  intro scope
  have listed : Symbol.Listed (symbolsOf history) scope.table := listed_symbolsOf policy history
  exact (ConstantScope.answers_ensures listed questions declared {} (.empty [])).1

/-- An enum on a cycle with a constant, and a constant that names itself and an enumerator of an
enum that names constants on a cycle. -/
def tangledHistory : List Declaration :=
  [{ item := .enum (some "E") [⟨"C", .number 1⟩, ⟨"A", .text "B"⟩] false },
   { item := .constant "B" ["C"] },
   { item := .constant "X" ["Y"] },
   { item := .constant "Y" ["X"] },
   { item := .enum (some "G") [⟨"D", .number 2⟩, ⟨"F", .text "X"⟩] false },
   { item := .constant "D" ["D"] },
   { item := .constant "K" ["D"] }]

def tangledScope : ConstantScope :=
  ⟨ofHistory .first tangledHistory,
    { name := "x86", pointerWidth := 32, longWidth := 32, predefined := ∅ }⟩

def tangledQuestions : List ConstantQuestion :=
  [.enum ⟨0, tangledHistory[0]⟩, .constant "B", .constant "K"]

def tangledNames : List (Pursuit × String) :=
  [(.constant "K", "D"), (.constant "D", "D"), (.enum 4, "X"), (.constant "X", "Y"),
   (.constant "Y", "X")]

def tangledRank : Pursuit → Nat
  | .constant "K" => 3
  | .constant "D" => 2
  | .enum _ => 1
  | _ => 0

open ConstantScope in
theorem namesOf_tangled : ∀ pair ∈ tangledNames,
    tangledScope.namesOf (symbolsOf tangledHistory) pair.1 = [pair.2] := by
  have constant : ∀ name other, tangledScope.table.constant? name = some [other] →
      tokenize (" ".intercalate [other]) = [⟨.ident, other, 0⟩] →
      tangledScope.namesOf (symbolsOf tangledHistory) (.constant name) = [other] := by
    intro name other declared words
    simp only [namesOf, declared, words]
    exact namesIn_single other 0
  have d : tokenize (" ".intercalate ["D"]) = [⟨.ident, "D", 0⟩] := by cbv
  have x : tokenize (" ".intercalate ["X"]) = [⟨.ident, "X", 0⟩] := by cbv
  have y : tokenize (" ".intercalate ["Y"]) = [⟨.ident, "Y", 0⟩] := by cbv
  have text : tokenize "X" = [⟨.ident, "X", 0⟩] := by cbv
  have enum : tangledScope.namesOf (symbolsOf tangledHistory) (.enum 4) = ["X"] := by
    have listed : (symbolsOf tangledHistory).find? (·.serial = 4) =
        some ⟨4, tangledHistory[4]⟩ := by decide
    simp only [namesOf, listed]
    change [] ++ ((tangledScope.namesIn (tokenize "X")).filter (· ∉ ["D"]) ++ []) = ["X"]
    rw [text, namesIn_single]
    decide
  simp only [tangledNames, List.forall_mem_cons]
  exact ⟨constant "K" "D" (by decide) d, constant "D" "D" (by decide) d, enum,
    constant "X" "Y" (by decide) y, constant "Y" "X" (by decide) x, List.forall_mem_nil _⟩

theorem tangled_grounded :
    tangledScope.Grounded (symbolsOf tangledHistory) (.constant "K") := by
  have closed : ∀ pair ∈ tangledNames, ∀ q ∈ tangledScope.targets pair.2, pair.1 ≠ q →
      q ∈ tangledNames.map Prod.fst ∧ tangledRank q ≤ tangledRank pair.1 ∧
        (tangledScope.Recovers pair.1 → tangledRank q < tangledRank pair.1) := by decide
  have start : .constant "K" ∈ tangledNames.map Prod.fst := by decide
  refine ConstantScope.grounded_of_rank tangledRank start ?_
  rintro r q member ⟨different, name, named, stands⟩
  obtain ⟨pair, listed, rfl⟩ := List.mem_map.mp member
  rw [namesOf_tangled pair listed, List.mem_singleton] at named
  exact closed pair listed q (ConstantScope.mem_targets (named ▸ stands)) different

/-- The answer about a constant, given after those about an enum and a constant on a cycle. -/
theorem answer_of_tangled_history :
    (∀ symbol, .enum symbol ∈ tangledQuestions → symbol ∈ symbolsOf tangledHistory) ∧
      (∀ p ∈ tangledScope.subject? (.constant "K"),
        tangledScope.Grounded (symbolsOf tangledHistory) p) ∧
      (tangledScope.answers tangledQuestions {}).1[2]? =
        some (tangledScope.answer (.constant "K") {}).1 := by
  have declared : ∀ symbol, .enum symbol ∈ tangledQuestions → symbol ∈ symbolsOf tangledHistory := by
    intro symbol asked
    simp only [tangledQuestions, List.mem_cons, ConstantQuestion.enum.injEq, reduceCtorEq,
      List.not_mem_nil, or_false] at asked
    subst asked
    decide
  have grounded : ∀ p ∈ tangledScope.subject? (.constant "K"),
      tangledScope.Grounded (symbolsOf tangledHistory) p := by
    rintro p ⟨⟩
    exact tangled_grounded
  refine ⟨declared, grounded, ?_⟩
  have fresh := answers_of_history .first tangledHistory tangledScope.target tangledQuestions declared
  change List.Forall₂ _ tangledQuestions (tangledScope.answers tangledQuestions {}).1 at fresh
  generalize (tangledScope.answers tangledQuestions {}).1 = given at fresh ⊢
  unfold tangledQuestions at fresh
  cases fresh with
  | cons first rest =>
    cases rest with
    | cons second rest =>
      cases rest with
      | cons third rest => exact congrArg some (third grounded)

end SymbolTable

end CBindings
