import CBindings.Proofs.Constant.Counting
import CBindings.Proofs.Constant.Question
import CBindings.Proofs.Constant.Request

/-! The numbering of enumerators whatever an evaluator was asked before. The value of an expression in
an enum is the one that a new evaluator finds, where none of its names leads to a cycle of references
through an enum or through a constant that an enumerator stands in for. -/

namespace CBindings

namespace ConstantScope

variable {scope : ConstantScope} {symbols : List Symbol} {name : String}
  {done : List (String × Option Int)} {few many : String → Except ExpressionError IntValue}

/-! ### Names with the same meaning -/

theorem toOption_integerUnder_congr {tokens : List Token}
    (same : ∀ n ∈ scope.namesIn tokens, few n = many n) :
    (scope.integerUnder few tokens).toOption = (scope.integerUnder many tokens).toOption := by
  simp only [namesIn, integerUnder] at same ⊢
  cases parsed : Expr.parse tokens scope.reading with
  | error error => rfl
  | ok expr =>
    rw [parsed] at same
    have agrees : ∀ v, expr.evaluate few scope.castType false = .ok v ↔
        expr.evaluate many scope.castType false = .ok v := fun v =>
      ⟨Expr.evaluate_mono fun n member w => (same n member ▸ ·),
        Expr.evaluate_mono fun n member w => (same n member ▸ ·)⟩
    change (expr.evaluate few scope.castType false).toOption =
      (expr.evaluate many scope.castType false).toOption
    cases found : expr.evaluate few scope.castType false with
    | ok v => rw [(agrees v).mp found]
    | error error =>
      cases other : expr.evaluate many scope.castType false with
      | ok v => cases found.symm.trans ((agrees v).mpr other)
      | error error => rfl

theorem assignedUnder_congr {given : Assigned}
    (same : ∀ n ∈ scope.namesAsked (done.map Prod.fst) given, few n = many n) :
    scope.assignedUnder few done none given = scope.assignedUnder many done none given := by
  cases given with
  | implicit => rfl
  | number n => rfl
  | text expression =>
    refine congrArg (Option.map IntValue.value) (toOption_integerUnder_congr fun n member => ?_)
    cases found : done.lookup n with
    | some value => cases value <;> simp only [meaningAfter, found]
    | none =>
      simp only [meaningAfter, found]
      refine same n (List.mem_filter.mpr ⟨member, decide_eq_true fun inside => ?_⟩)
      obtain ⟨⟨earlier, value⟩, listed, rfl⟩ := List.mem_map.mp inside
      rw [List.lookup_eq_none_iff] at found
      simpa using found _ listed

theorem Numbering.congr {clear : String → Prop} {enumerators : List Enumerator}
    {values : List (String × Option Int)}
    (numbering : scope.Numbering few clear enumerators values)
    (same : ∀ n, clear n → few n = many n) : scope.Numbering many clear enumerators values where
  names := numbering.names
  ranged := numbering.ranged
  fromZero := numbering.fromZero
  fromExplicit j i own e upTo given explicit place implicit isClear := by
    rw [numbering.fromExplicit j i own e upTo given explicit place implicit isClear]
    rw [assignedUnder_congr fun n asked => same n (isClear n ?_)]
    rwa [List.map_take, numbering.names, ← List.map_take] at asked

/-! ### Requests -/

section

variable (listed : Symbol.Listed symbols scope.table)

include listed

theorem meaningIn_fresh {serial : Nat} (clear : scope.Clear symbols (.enum serial) name) :
    scope.meaningIn (scope.final symbols) (.enum serial) name =
      scope.meaningIn (scope.fresh symbols) (.enum serial) name := by
  have grounded : scope.Grounded symbols (.constant name) := by
    cases declared : scope.table.constant? name with
    | some words => exact clear _ (by simp) ⟨rfl, by rw [declared]; rfl⟩
    | none => exact grounded_of_nil (by rw [namesOf, declared])
  have constant : (scope.fresh symbols).constant name = (scope.final symbols).constant name :=
    (evaluateConstant_ensures listed name {} (.empty [])).1 grounded
  rw [meaningIn, meaningIn, constant]
  rfl

theorem reply_keeps {request : ConstantRequest}
    (asked : ∀ symbol, request = .enum symbol → symbol ∈ symbols) :
    Keeps (scope.Faithful symbols []) (scope.reply request) := by
  cases request with
  | tokens list => exact (evaluate_fresh listed list).bind fun _ _ => .pure trivial
  | constant name => exact (evaluateConstant_ensures listed name).bind fun _ _ => .pure trivial
  | enum symbol =>
    exact (evaluateEnum_ensures listed (asked symbol rfl)).bind fun _ _ => .pure trivial
  | enumerator name =>
    have evaluated : Keeps (scope.Faithful symbols []) (scope.evaluateEnumerator name) := by
      unfold evaluateEnumerator
      split
      · exact .pure none
      · next symbol e found =>
        exact (evaluateEnum_ensures listed (listed.indexed _ _ found)).bind
          fun _ _ => .pure trivial
    exact evaluated.bind fun _ _ => .pure trivial
  | extent size => exact (evaluateExtent_fresh listed size).bind fun _ _ => .pure trivial

theorem replies_keep {requests : List ConstantRequest}
    (asked : ∀ symbol, .enum symbol ∈ requests → symbol ∈ symbols) :
    Keeps (scope.Faithful symbols []) (scope.replies requests) := by
  unfold replies
  induction requests with
  | nil => exact .pure []
  | cons request rest ih =>
    rw [List.mapM_cons]
    have first : ∀ symbol, request = .enum symbol → symbol ∈ symbols := fun symbol same =>
      asked symbol (same ▸ List.mem_cons_self)
    have others := ih fun symbol member => asked symbol (List.mem_cons_of_mem _ member)
    exact (reply_keeps listed first).bind fun _ _ => others.bind fun _ _ => .pure trivial

end

/-- Whatever an evaluator was asked before, it numbers every enum as C says: each enumerator counts on
from the last one with a value of its own, and the earlier ones have their values in its expression.
Other names in it have the meaning that a new evaluator finds, if what they stand for leads to no cycle
of references through an enum or through a constant that an enumerator stands in for. -/
theorem evaluateEnum_numbering (scope : ConstantScope) (symbols : List Symbol)
    (listed : Symbol.Listed symbols scope.table) (requests : List ConstantRequest)
    (asked : ∀ symbol, .enum symbol ∈ requests → symbol ∈ symbols) (symbol : Symbol)
    (member : symbol ∈ symbols) :
    scope.Numbering (scope.meaningIn (scope.fresh symbols) (.enum symbol.serial))
      (scope.Clear symbols (.enum symbol.serial)) symbol.item.enumerators
      (scope.evaluateEnum symbol (scope.replies requests {}).2).1 := by
  have faithful := (replies_keep listed asked {} (.empty [])).2
  exact (evaluateEnum_numbered listed member _ faithful).1.congr
    fun _ clear => meaningIn_fresh listed clear

/-! ### Expressions of one name -/

section

variable {resolve : String → Evaluating IntValue} {memo : ConstantMemo} {other : String}

theorem assigned_single {expression : String} {line : Nat} (following : Option Int)
    (word : tokenize expression = [⟨.ident, name, line⟩]) :
    (scope.assigned resolve done following (.text expression) memo).1 =
      ((resolveIn done resolve name).run memo).1.toOption.map IntValue.value := by
  have run : scope.assigned resolve done following (.text expression) =
      (fun result => result.toOption.map IntValue.value) <$> (resolveIn done resolve name).run := by
    rw [assigned, word, integer_single, map_eq_pure_bind]
    refine congrArg ((resolveIn done resolve name).run >>= ·) ?_
    funext result
    cases result <;> rfl
  rw [run]
  rfl

theorem constantBy_single {pursued : List Pursuit} {line : Nat}
    (declared : scope.table.constant? name = some [other])
    (word : tokenize (" ".intercalate [other]) = [⟨.ident, other, line⟩])
    (lacks : memo.constants.get? name = none) (new : .constant name ∉ pursued) :
    (scope.constantBy (scope.follow pursued) name memo).1 =
      ((scope.resolve (.constant name :: pursued) other).run memo).1.toOption.map .integer := by
  have expression : literal? [⟨.ident, other, line⟩] = none := by
    simp [literal?, Constant.string?, Constant.float?, Constant.stripParens, Constant.floatOf?]
  rw [constantBy_lacking lacks, newConstant_found declared new, constantValue, word,
    value_expression expression, integer_single]
  rfl

theorem meaning_enumerator {follow : Following scope}
    (unknown : (scope.constantBy follow name memo).1 = none) :
    ((scope.meaning follow name).run memo).1 =
      ((scope.enumeratorBy follow name).run (scope.constantBy follow name memo).2).1 >>=
        asEnumerator name := by
  have asked : (liftM (scope.constantBy follow name) : Evaluating _).run memo =
      (.ok none, (scope.constantBy follow name memo).2) := by
    rw [← unknown]
    rfl
  unfold meaning
  rw [ExceptT.run_bind]
  simp only [bind, StateT.bind, asked]
  change ((scope.enumeratorBy follow name >>= _).run _).1 = _
  rw [ExceptT.run_bind]
  simp only [bind, StateT.bind, Except.bind]
  rcases (scope.enumeratorBy follow name).run (scope.constantBy follow name memo).2 with
    ⟨error | value, after⟩
  · rfl
  · cases value <;> rfl

end

def countedHistory : List Declaration :=
  [{ item := .enum (some "F") [⟨"Z", .number 2147483647⟩] false },
   { item := .enum (some "E")
      [⟨"A", .implicit⟩, ⟨"B", .text "Z"⟩, ⟨"C", .implicit⟩, ⟨"D", .text "A"⟩] false }]

def countedScope : ConstantScope where
  table := SymbolTable.ofHistory .first countedHistory
  target := { name := "x86", pointerWidth := 32, longWidth := 32, predefined := ∅ }

/-- After the greatest value the numbers go on with the least one. -/
theorem countedScope_numbering :
    let symbol : Symbol := ⟨1, countedHistory[1]⟩
    let requests : List ConstantRequest := [.enumerator "C", .enum symbol]
    Symbol.Listed (SymbolTable.symbolsOf countedHistory) countedScope.table ∧
    (∀ other, .enum other ∈ requests → other ∈ SymbolTable.symbolsOf countedHistory) ∧
    symbol ∈ SymbolTable.symbolsOf countedHistory ∧
    (countedScope.evaluateEnum symbol (countedScope.replies requests {}).2).1 =
      [("A", some 0), ("B", some 2147483647), ("C", some (-2147483648)), ("D", some 0)] := by
  intro symbol requests
  have listed : Symbol.Listed (SymbolTable.symbolsOf countedHistory) countedScope.table :=
    SymbolTable.listed_symbolsOf .first countedHistory
  have member : symbol ∈ SymbolTable.symbolsOf countedHistory := by decide
  have asked : ∀ other, .enum other ∈ requests → other ∈ SymbolTable.symbolsOf countedHistory := by
    intro other among
    simp only [requests, List.mem_cons, reduceCtorEq, List.not_mem_nil, or_false, false_or,
      ConstantRequest.enum.injEq] at among
    exact among ▸ member
  refine ⟨listed, asked, member, ?_⟩
  have numbering := evaluateEnum_numbering countedScope _ listed requests asked symbol member
  have z : tokenize "Z" = [⟨.ident, "Z", 0⟩] := by cbv
  have a : tokenize "A" = [⟨.ident, "A", 0⟩] := by cbv
  have clear : ∀ name ∈ countedScope.namesAsked ["A"] (.text "Z"),
      countedScope.Clear (SymbolTable.symbolsOf countedHistory) (.enum 1) name := by
    intro name among
    rw [namesAsked, z, namesIn_single] at among
    obtain rfl : name = "Z" := by simpa using among
    rintro (constant | serial) - stands
    · obtain ⟨rfl, declared⟩ := stands
      exact absurd declared (by decide)
    · obtain ⟨found, entry, rfl⟩ := stands
      cases entry
      exact grounded_of_nil rfl
  have own : ∀ name ∈ countedScope.namesAsked ["A", "B", "C"] (.text "A"),
      countedScope.Clear (SymbolTable.symbolsOf countedHistory) (.enum 1) name := by
    intro name among
    rw [namesAsked, a, namesIn_single] at among
    simp at among
  generalize (countedScope.evaluateEnum symbol (countedScope.replies requests {}).2).1 = values
    at numbering ⊢
  have first : values[0]? = some ("A", some 0) := numbering.fromZero 0 ⟨"A", .implicit⟩ rfl (by
    intro k upTo other found
    obtain rfl := Nat.le_zero.mp upTo
    cases found
    rfl)
  have one : values.take 1 = [("A", some 0)] := by
    rw [List.take_add_one, first]
    rfl
  have given : countedScope.assignedUnder (countedScope.meaningIn
      (countedScope.fresh (SymbolTable.symbolsOf countedHistory)) (.enum 1)) [("A", some 0)] none
      (.text "Z") = some 2147483647 := by
    rw [assignedUnder, z, integerUnder_single]
    rfl
  have second : values[1]? = some ("B", some 2147483647) := by
    rw [numbering.fromExplicit 1 1 ⟨"B", .text "Z"⟩ _ le_rfl rfl (by simp) rfl (by omega) clear, one]
    exact congrArg (fun n => some ("B", Option.map _ n)) given
  have third : values[2]? = some ("C", some (-2147483648)) := by
    have alone : ∀ k, 1 < k → k ≤ 2 → ∀ other, symbol.item.enumerators[k]? = some other →
        other.value = .implicit := by
      intro k after upTo other found
      obtain rfl : k = 2 := by omega
      cases found
      rfl
    rw [numbering.fromExplicit 1 2 ⟨"B", .text "Z"⟩ ⟨"C", .implicit⟩ (by omega) rfl (by simp) rfl alone
      clear, one]
    exact congrArg (fun n => some ("C", Option.map _ n)) given
  have three : values.take 3 = [("A", some 0), ("B", some 2147483647), ("C", some (-2147483648))] := by
    rw [List.take_add_one, List.take_add_one, one, second, third]
    rfl
  have fourth : values[3]? = some ("D", some 0) := by
    rw [numbering.fromExplicit 3 3 ⟨"D", .text "A"⟩ _ le_rfl rfl (by simp) rfl (by omega) own, three,
      assignedUnder, a, integerUnder_single]
    rfl
  have length : values.length = 4 := by
    rw [← List.length_map Prod.fst, numbering.names]
    rfl
  rw [← List.take_of_length_le (Nat.le_of_eq length), List.take_add_one, three, fourth]
  rfl

def cyclicHistory : List Declaration :=
  [{ item := .enum (some "E") [⟨"C", .number 1⟩, ⟨"A", .text "B"⟩] false },
   { item := .constant "B" ["C"] }]

def cyclicScope : ConstantScope where
  table := SymbolTable.ofHistory .first cyclicHistory
  target := { name := "x86", pointerWidth := 32, longWidth := 32, predefined := ∅ }

/-- An enumerator has no value, though the constant that it names has one. -/
theorem evaluateEnum_of_cycle :
    (cyclicScope.evaluateEnum ⟨0, cyclicHistory[0]⟩ {}).1 = [("C", some 1), ("A", none)] ∧
      (cyclicScope.evaluateConstant "B" {}).1 = some (.integer ⟨1, .int, .decimal⟩) := by
  have word : tokenize "B" = [⟨.ident, "B", 0⟩] := by cbv
  have body : tokenize (" ".intercalate ["C"]) = [⟨.ident, "C", 0⟩] := by cbv
  have values : ∀ pursued error,
      ((cyclicScope.resolve (.enum 0 :: pursued) "B").run {}).1 = .error error →
      (cyclicScope.enumeratorValues (cyclicScope.resolve (.enum 0 :: pursued))
        ⟨0, cyclicHistory[0]⟩ {}).1 = [("C", some 1), ("A", none)] := by
    intro pursued error fails
    let resolve := cyclicScope.resolve (.enum 0 :: pursued)
    have assigned : (cyclicScope.assigned resolve [("C", some 1)] (some 2) (.text "B") {}).1 =
        none := by
      rw [assigned_single _ word]
      change (((resolve "B").run {}).1.toOption.map IntValue.value) = none
      rw [fails]
      rfl
    change [("C", some 1), ("A", ((cyclicScope.assigned resolve [("C", some 1)] (some 2)
      (.text "B") {}).1).map IntType.int.wrap)] = _
    rw [assigned]
    rfl
  constructor
  · -- `C` is asked for while the enum is being evaluated
    have blocked : ((cyclicScope.resolve [.constant "B", .enum 0] "C").run {}).1 =
        .error .ownEnum := by
      rw [resolve_eq]
      rfl
    have unknown : (cyclicScope.constantBy (cyclicScope.follow [.enum 0]) "B" {}).1 = none := by
      rw [constantBy_single rfl body rfl (by decide), blocked]
      rfl
    refine values [] (.unknownName "B") ?_
    rw [resolve_eq, meaning_enumerator unknown]
    rfl
  · -- the enum is evaluated while `B` is, so that `A` has no value, but `C` has
    have blocked : ((cyclicScope.resolve [.enum 0, .constant "B"] "B").run {}).1 =
        .error (.unknownName "B") := by
      rw [resolve_eq]
      rfl
    have found : ((cyclicScope.enumeratorBy (cyclicScope.follow [.constant "B"]) "C").run {}).1 =
        .ok (some 1) := by
      change Except.ok (valueOf (cyclicScope.enumeratorValues
        (cyclicScope.resolve [.enum 0, .constant "B"]) ⟨0, cyclicHistory[0]⟩ {}).1 "C") = _
      rw [values [.constant "B"] _ blocked]
      rfl
    change (cyclicScope.constantBy (cyclicScope.follow []) "B" {}).1 = _
    rw [constantBy_single rfl body rfl (by decide), resolve_eq, meaning_enumerator rfl]
    change Option.map _ (Except.toOption
      (((cyclicScope.enumeratorBy (cyclicScope.follow [.constant "B"]) "C").run {}).1 >>= _)) = _
    rw [found]
    rfl

end ConstantScope

end CBindings
