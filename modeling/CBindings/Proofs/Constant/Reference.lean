import CBindings.Constant.Evaluation
import CBindings.Proofs.Expr.Dependence
import Mathlib.Logic.Relation

/-! Which constants and enums name each other. What a result may depend on is what can be reached
through these references. -/

namespace CBindings

/-- A list of symbols that holds all enums of a table, each known by its serial number. -/
structure Symbol.Listed (symbols : List Symbol) (table : SymbolTable) : Prop where
  indexed : ∀ name found, table.enumerator? name = some found → found.1 ∈ symbols
  identified : ∀ first ∈ symbols, ∀ second ∈ symbols, first.serial = second.serial → first = second

namespace ConstantScope

open Relation (ReflTransGen TransGen)

variable {scope : ConstantScope} {symbols : List Symbol} {p q r : Pursuit}

def reading (scope : ConstantScope) : Expr.Reading where
  longWidth := scope.target.longWidth
  isTypeName := scope.table.isTypeName

def namesIn (scope : ConstantScope) (tokens : List Token) : List String :=
  match Expr.parse tokens scope.reading with
  | .ok expr => expr.names
  | .error _ => []

theorem parse_single (name : String) (line : Nat) :
    Expr.parse [⟨.ident, name, line⟩] scope.reading = .ok (.name name) := by
  simp [Expr.parse, Expr.expression, Expr.operand, Expr.climb, Expr.atom, Token.opensParen,
    Token.isPunct, bind, Except.bind, pure, Except.pure]

theorem namesIn_single (name : String) (line : Nat) :
    scope.namesIn [⟨.ident, name, line⟩] = [name] := by
  rw [namesIn, parse_single]
  rfl

def namesAsked (scope : ConstantScope) (earlier : List String) : Assigned → List String
  | .text expression => (scope.namesIn (tokenize expression)).filter (· ∉ earlier)
  | _ => []

def namesFrom (scope : ConstantScope) : List String → List Enumerator → List String
  | _, [] => []
  | earlier, e :: rest =>
    scope.namesAsked earlier e.value ++ scope.namesFrom (earlier ++ [e.name]) rest

theorem namesFrom_append (earlier : List String) (first second : List Enumerator) :
    scope.namesFrom earlier (first ++ second) =
      scope.namesFrom earlier first ++
        scope.namesFrom (earlier ++ first.map Enumerator.name) second := by
  induction first generalizing earlier with
  | nil => simp [namesFrom]
  | cons e rest ih => simp [namesFrom, ih]

theorem namesFrom_take {enumerators : List Enumerator} {name : String} {count : Nat}
    (member : name ∈ scope.namesFrom [] (enumerators.take count)) :
    name ∈ scope.namesFrom [] enumerators := by
  rw [← List.take_append_drop count enumerators, namesFrom_append]
  exact List.mem_append_left _ member

theorem mem_namesFrom {enumerators : List Enumerator} {e : Enumerator} {name : String} {j : Nat}
    (place : enumerators[j]? = some e)
    (asked : name ∈ scope.namesAsked ((enumerators.take j).map Enumerator.name) e.value) :
    name ∈ scope.namesFrom [] enumerators := by
  obtain ⟨inside, here⟩ := List.getElem?_eq_some_iff.mp place
  rw [← List.take_append_drop j enumerators, List.drop_eq_getElem_cons inside, here,
    namesFrom_append, namesFrom]
  exact List.mem_append_right _ (List.mem_append_left _ asked)

def namesOf (scope : ConstantScope) (symbols : List Symbol) : Pursuit → List String
  | .constant name =>
    match scope.table.constant? name with
    | some tokens => scope.namesIn (tokenize (" ".intercalate tokens))
    | none => []
  | .enum serial =>
    match symbols.find? (·.serial = serial) with
    | some symbol => scope.namesFrom [] symbol.item.enumerators
    | none => []

def StandsFor (scope : ConstantScope) (name : String) : Pursuit → Prop
  | .constant other => other = name ∧ (scope.table.constant? name).isSome
  | .enum serial => ∃ found, scope.table.enumerator? name = some found ∧ found.1.serial = serial

def targets (scope : ConstantScope) (name : String) : List Pursuit :=
  (if (scope.table.constant? name).isSome then [.constant name] else []) ++
    ((scope.table.enumerator? name).map fun found => Pursuit.enum found.1.serial).toList

theorem mem_targets {name : String} (stands : scope.StandsFor name q) : q ∈ scope.targets name := by
  cases q with
  | constant other =>
    obtain ⟨rfl, declared⟩ := stands
    simp [targets, declared]
  | enum serial =>
    obtain ⟨found, entry, rfl⟩ := stands
    simp [targets, entry]

/-- Whether a constant or an enum names another one. What names itself always fails in the same
way, so that this does not count. -/
def Refers (scope : ConstantScope) (symbols : List Symbol) (p q : Pursuit) : Prop :=
  p ≠ q ∧ ∃ name ∈ scope.namesOf symbols p, scope.StandsFor name q

def Reaches (scope : ConstantScope) (symbols : List Symbol) : Pursuit → Pursuit → Prop :=
  ReflTransGen (scope.Refers symbols)

/-- Whether a failure inside can leave a value: an enum keeps its other enumerators, and in place of
a constant there can be an enumerator of the same name. -/
def Recovers (scope : ConstantScope) : Pursuit → Prop
  | .constant name => (scope.table.enumerator? name).isSome
  | .enum _ => True

instance : DecidablePred scope.Recovers
  | .constant name => inferInstanceAs (Decidable ((scope.table.enumerator? name).isSome = true))
  | .enum _ => inferInstanceAs (Decidable True)

/-- Whether nothing that a result depends on can recover from a cycle of references through
itself. -/
def Grounded (scope : ConstantScope) (symbols : List Symbol) (p : Pursuit) : Prop :=
  ∀ r, scope.Reaches symbols p r → scope.Recovers r → ¬ TransGen (scope.Refers symbols) r r

theorem Grounded.of_reaches (grounded : scope.Grounded symbols p)
    (reaches : scope.Reaches symbols p q) : scope.Grounded symbols q :=
  fun r further => grounded r (reaches.trans further)

theorem Grounded.not_recovers (grounded : scope.Grounded symbols p)
    (refers : scope.Refers symbols p q) (back : scope.Reaches symbols q p) :
    ¬ scope.Recovers p ∧ ¬ scope.Recovers q :=
  ⟨fun recovers => grounded p .refl recovers (.head' refers back),
    fun recovers => grounded q (.single refers) recovers (.tail' back refers)⟩

theorem grounded_of_nil (nothing : scope.namesOf symbols p = []) : scope.Grounded symbols p := by
  have stays : ∀ q, ¬ scope.Refers symbols p q := by
    rintro q ⟨-, name, named, -⟩
    rw [nothing] at named
    cases named
  intro r reaches _ cycle
  rcases reaches.cases_head with rfl | ⟨q, step, -⟩
  · obtain ⟨q, step, -⟩ := TransGen.head'_iff.mp cycle
    exact stays q step
  · exact stays q step

/-- What can be ranked above all that it leads to is grounded. Constants on a cycle have equal ranks. -/
theorem grounded_of_rank (rank : Pursuit → Nat) {among : Pursuit → Prop} (start : among p)
    (closed : ∀ r q, among r → scope.Refers symbols r q →
      among q ∧ rank q ≤ rank r ∧ (scope.Recovers r → rank q < rank r)) :
    scope.Grounded symbols p := by
  have falls : ∀ r q, among r → scope.Reaches symbols r q → among q ∧ rank q ≤ rank r := by
    intro r q member way
    induction way with
    | refl => exact ⟨member, Nat.le_refl _⟩
    | tail _ step ih =>
      obtain ⟨next, le, -⟩ := closed _ _ ih.1 step
      exact ⟨next, Nat.le_trans le ih.2⟩
  intro r reaches recovers cycle
  obtain ⟨q, step, back⟩ := TransGen.head'_iff.mp cycle
  obtain ⟨member, -⟩ := falls p r start reaches
  obtain ⟨next, -, lower⟩ := closed r q member step
  exact absurd (falls q r next back).2 (Nat.not_le_of_lt (lower recovers))

theorem mem_pursuits (refers : scope.Refers symbols p q) : q ∈ scope.pursuits := by
  obtain ⟨-, name, -, stands⟩ := refers
  cases q with
  | constant other =>
    obtain ⟨rfl, declared⟩ := stands
    obtain ⟨tokens, found⟩ := Option.isSome_iff_exists.mp declared
    exact constant_mem_pursuits found
  | enum serial =>
    obtain ⟨⟨symbol, value⟩, found, rfl⟩ := stands
    exact enum_mem_pursuits found

/-! ### How much can be reached -/

def candidates (scope : ConstantScope) (symbols : List Symbol) : List Pursuit :=
  scope.table.names.map .constant ++ symbols.map fun symbol => .enum symbol.serial

open Classical in
noncomputable def weight (scope : ConstantScope) (symbols : List Symbol) (p : Pursuit) : Nat :=
  (scope.candidates symbols).countP fun r => decide (scope.Reaches symbols p r)

theorem weight_le (reaches : scope.Reaches symbols p q) :
    scope.weight symbols q ≤ scope.weight symbols p := by
  classical
  apply List.countP_mono_left
  intro r _ further
  rw [decide_eq_true_eq] at further ⊢
  exact reaches.trans further

theorem weight_lt (member : p ∈ scope.candidates symbols) (refers : scope.Refers symbols p q)
    (stays : ¬ scope.Reaches symbols q p) : scope.weight symbols q < scope.weight symbols p := by
  classical
  rw [weight, weight, List.countP_eq_length_filter, List.countP_eq_length_filter]
  apply length_filter_lt _ member
  · exact decide_eq_false stays
  · exact decide_eq_true Relation.ReflTransGen.refl
  · intro r further
    rw [decide_eq_true_eq] at further ⊢
    exact .head refers further

end ConstantScope

end CBindings
