import CBindings.Proofs.Constant.Question
import CBindings.Proofs.Expr.Inlining
import CBindings.Proofs.Macro.Unfolding

/-! Constants that are object-like macros as well. The evaluator puts the value of a constant where
its name stands, expansion puts the tokens of its body there. Both come to the same where each body
that another one names is read as one operand, whatever stands around it. -/

namespace CBindings

namespace ConstantScope

open Relation (ReflTransGen)

variable {scope : ConstantScope} {name user : String} {k : Nat}

/-- The tokens of a constant; none if there is no such constant. -/
def body (scope : ConstantScope) (name : String) : List Token :=
  match scope.table.constant? name with
  | some words => tokenize (" ".intercalate words)
  | none => []

def Mentions (scope : ConstantScope) (user name : String) : Prop :=
  .word name ∈ (scope.body user).map Token.lexeme ∧ (scope.table.constant? name).isSome

/-- A body in which it makes no difference whether a name gives way to tokens or to a value: it has
no `defined`, no calls, no constant in place of a type and no type in place of a constant, and what
its names stand for is read as one operand. -/
structure Clean (scope : ConstantScope) (user : String) : Prop where
  plain : .word "defined" ∉ (scope.body user).map Token.lexeme
  types : ∀ word, .word word ∈ (scope.body user).map Token.lexeme →
    scope.reading.isTypeWord word = true → scope.table.constant? word = none
  bare : ∀ e, Expr.parse (scope.body user) scope.reading = .ok e → e.Bare scope.reading
  operands : ∀ name, scope.Mentions user name → scope.reading.isOperand (scope.body name) = true

theorem Clean.not_typeWord (clean : scope.Clean user) (mentions : scope.Mentions user name) :
    scope.reading.isTypeWord name = false := by
  obtain ⟨listed, declared⟩ := mentions
  by_contra typeWord
  rw [clean.types name listed (by simpa using typeWord)] at declared
  cases declared

def Hygienic (scope : ConstantScope) (name : String) : Prop :=
  ∀ user, ReflTransGen scope.Mentions name user → scope.Clean user

theorem hygienic_of_closed (names : List String) (start : name ∈ names)
    (clean : ∀ user ∈ names, scope.Clean user)
    (closed : ∀ user ∈ names, ∀ other, scope.Mentions user other → other ∈ names) :
    scope.Hygienic name := by
  intro user reached
  suffices member : user ∈ names from clean user member
  induction reached with
  | refl => exact start
  | tail _ mentions ih => exact closed _ ih _ mentions

/-- The macros and the constants are the same definitions, with the same tokens, and there is no
enumerator beside them. -/
structure Mirrors (macros : MacroTable) (scope : ConstantScope) : Prop where
  object : ∀ name m, macros.lookup name = some m → m.isObjectLike = true
  words : ∀ name, scope.table.constant? name = (macros.lookup name).map Macro.bodyText
  tokens : ∀ name m, macros.lookup name = some m →
    (scope.body name).map Token.lexeme = m.body.map Token.lexeme
  plain : ∀ name, scope.table.enumerator? name = none

def wordsOf? (symbol : Symbol) : Option (List String) :=
  match symbol.item with
  | .constant _ words => some words
  | _ => none

theorem constant?_eq (table : SymbolTable) (name : String) :
    table.constant? name = (table.get? name).bind wordsOf? := by
  unfold SymbolTable.constant?
  rcases table.get? name with _ | ⟨serial, item, location⟩
  · rfl
  · cases item <;> rfl

/-- Tables are the same definitions if their entries are, in the same order. -/
theorem mirrors_of_entries {macros : MacroTable}
    (object : ∀ pair ∈ macros.macros.entries, pair.2.isObjectLike = true)
    (words : scope.table.entries.entries.map (Prod.map id wordsOf?) =
      macros.macros.entries.map (Prod.map id fun m => some m.bodyText))
    (tokens : ∀ pair ∈ macros.macros.entries,
      (tokenize (" ".intercalate pair.2.bodyText)).map Token.lexeme = pair.2.body.map Token.lexeme)
    (plain : scope.table.enumerators.entries = []) : Mirrors macros scope := by
  have same : ∀ name, scope.table.constant? name = (macros.lookup name).map Macro.bodyText := by
    intro name
    have found := congrArg (fun pairs => (pairs.find? (·.1 = name)).bind Prod.snd) words
    simp only [List.find?_map, Function.comp_def, Prod.map_fst, id_eq, Option.bind_map] at found
    rw [constant?_eq, SymbolTable.get?, MacroTable.lookup, OrderedMap.get?, OrderedMap.get?,
      Option.bind_map, Option.map_map, Option.map_eq_bind]
    exact found
  refine ⟨fun name m found => object _ (OrderedMap.mem_of_get? found), same, ?_, fun name => ?_⟩
  · intro name m found
    rw [body, same, found]
    exact tokens _ (OrderedMap.mem_of_get? found)
  · rw [SymbolTable.enumerator?, OrderedMap.get?, plain]
    rfl

/-! ### The round in which a constant gets its value -/

def staged (scope : ConstantScope) (k : Nat) (name : String) : Except ExpressionError IntValue :=
  match scope.stage (scope.fresh []) k name with
  | some (.integer v) => .ok ⟨v.value, v.type, .decimal⟩
  | _ => .error (.unknownName name)

abbrev StagedAs (scope : ConstantScope) (k : Nat) : String → Expr → Prop :=
  Expr.Gives (scope.staged k) scope.castType false

theorem staged_eq_ok {value : IntValue} : scope.staged k name = .ok value ↔
    ∃ v, scope.stage (scope.fresh []) k name = some (.integer v) ∧
      value = ⟨v.value, v.type, .decimal⟩ := by
  unfold staged
  cases scope.stage (scope.fresh []) k name with
  | none => simp
  | some result => cases result <;> simp [eq_comm]

theorem stage_first {result : ConstantValue} (plain : scope.table.enumerator? name = none)
    (known : scope.stage (scope.fresh []) k name = some result) :
    ∃ j < k, scope.stage (scope.fresh []) j name = none ∧
      scope.stage (scope.fresh []) (j + 1) name = some result := by
  induction k with
  | zero =>
    rw [stage_zero plain] at known
    cases known
  | succ k ih =>
    cases before : scope.stage (scope.fresh []) k name with
    | none => exact ⟨k, Nat.lt_succ_self k, before, known⟩
    | some earlier =>
      obtain rfl : earlier = result :=
        Option.some.inj ((stage_grows before).symm.trans known)
      obtain ⟨j, less, rest⟩ := ih before
      exact ⟨j, Nat.lt_succ_of_lt less, rest⟩

theorem stage_eq_none_of_le {j : Nat} (le : j ≤ k)
    (late : scope.stage (scope.fresh []) k name = none) :
    scope.stage (scope.fresh []) j name = none := by
  rw [Option.eq_none_iff_forall_ne_some] at late ⊢
  exact fun result early => late result (stage_mono le early)

/-- What an integer is made of: an expression that has this value by the integers of the round
before. -/
theorem staged_body {v : IntValue} (plain : ∀ n, scope.table.enumerator? n = none)
    (known : scope.stage (scope.fresh []) (k + 1) name = some (.integer v)) :
    ∃ e, Expr.parse (scope.body name) scope.reading = .ok e ∧
      e.evaluate (scope.staged k) scope.castType false = .ok v := by
  rw [stage_succ (plain name), Option.bind_eq_some_iff] at known
  obtain ⟨words, declared, value⟩ := known
  have spelled : scope.body name = tokenize (" ".intercalate words) := by rw [body, declared]
  rw [← spelled] at value
  cases literal : literal? (scope.body name) with
  | some fixed =>
    simp only [valueUnder, literal] at value
    exact absurd (value ▸ literal) literal?_ne_integer
  | none =>
    obtain ⟨w, evaluated, same⟩ := (valueUnder_expression literal).mp value
    cases same
    obtain ⟨e, parsed, early⟩ := integerUnder_eq_ok.mp evaluated
    refine ⟨e, parsed, Expr.evaluate_mono (fun n _ value known => ?_) early⟩
    obtain ⟨-, u, earlier, rfl⟩ := (meaningIn_plain (plain n)).mp known
    exact staged_eq_ok.mpr ⟨u, earlier, rfl⟩

theorem stage_of_body (few : String → Except ExpressionError IntValue) {e : Expr} {v : IntValue}
    (plain : ∀ n, scope.table.enumerator? n = none)
    (declared : (scope.table.constant? name).isSome)
    (expression : literal? (scope.body name) = none)
    (parsed : Expr.parse (scope.body name) scope.reading = .ok e)
    (there : ∀ n value, few n = .ok value → name ≠ n ∧
      ∃ u, scope.stage (scope.fresh []) k n = some (.integer u) ∧
        value = ⟨u.value, u.type, .decimal⟩)
    (evaluated : e.evaluate few scope.castType false = .ok v) :
    scope.stage (scope.fresh []) (k + 1) name = some (.integer v) := by
  obtain ⟨words, found⟩ := Option.isSome_iff_exists.mp declared
  have spelled : scope.body name = tokenize (" ".intercalate words) := by rw [body, found]
  rw [stage_succ (plain name), found, Option.bind_some, ← spelled, valueUnder_expression expression]
  refine ⟨v, integerUnder_eq_ok.mpr ⟨e, parsed, ?_⟩, rfl⟩
  refine Expr.evaluate_mono (fun n _ value known => ?_) evaluated
  obtain ⟨other, u, earlier, rfl⟩ := there n value known
  exact (meaningIn_plain (plain n)).mpr ⟨by simpa using other, u, earlier, rfl⟩

/-- A round before that of the constant gives its body the value of the constant. -/
theorem exists_round {e : Expr} (plain : ∀ n, scope.table.enumerator? n = none)
    (parsed : Expr.parse (scope.body name) scope.reading = .ok e) (k : Nat) :
    ∃ j ≤ k, scope.stage (scope.fresh []) j name = none ∧
      ∀ e', e.Inlined (scope.StagedAs j) e' → scope.StagedAs k name e' := by
  cases known : scope.stage (scope.fresh []) k name with
  | none =>
    refine ⟨k, Nat.le_refl k, known, fun e' _ v staged => ?_⟩
    obtain ⟨u, value, -⟩ := staged_eq_ok.mp staged
    rw [known] at value
    cases value
  | some result =>
    obtain ⟨j, less, before, first⟩ := stage_first (plain name) known
    refine ⟨j, Nat.le_of_lt less, before, fun e' inlined v staged => ?_⟩
    obtain ⟨u, value, rfl⟩ := staged_eq_ok.mp staged
    obtain rfl := Option.some.inj (known.symm.trans value)
    obtain ⟨_, parsed', evaluated⟩ := staged_body plain first
    obtain rfl := Except.ok.inj (parsed.symm.trans parsed')
    obtain ⟨w, result, same⟩ := inlined.amounts evaluated
    exact ⟨w, result, same⟩

/-- A clean body that is one operand stands for its name, where the names in it stay or give way by
the values of a round that comes before that of the constant. -/
theorem stands_for_name (plain : ∀ n, scope.table.enumerator? n = none) (clean : scope.Clean name)
    (whole : scope.reading.isOperand (scope.body name) = true) (k : Nat) :
    ∃ j ≤ k, scope.stage (scope.fresh []) j name = none ∧
      ∀ out, Expr.Replaced scope.reading (scope.StagedAs j) (scope.body name) out →
        ∃ e, scope.StagedAs k name e ∧ Expr.Operand scope.reading out e := by
  obtain ⟨e, reads⟩ := Expr.isOperand_iff.mp whole
  have parsed := Expr.parse_of_operand reads
  obtain ⟨j, below, before, gives⟩ := exists_round plain parsed k
  refine ⟨j, below, before, fun out replaced => ?_⟩
  obtain ⟨e', inlined, operand⟩ := Expr.operand_of_replaced replaced reads (clean.bare e parsed)
  exact ⟨e', gives e' inlined, operand⟩

/-! ### Expansion of a body -/

section

variable {macros : MacroTable} (mirrors : Mirrors macros scope)

include mirrors

theorem Mirrors.mentions {m : Macro} (found : macros.lookup name = some m)
    (listed : .word name ∈ (scope.body user).map Token.lexeme) : scope.Mentions user name := by
  refine ⟨listed, ?_⟩
  rw [mirrors.words, found]
  rfl

theorem Mirrors.stage_eq_none (unnamed : macros.lookup name = none) :
    scope.stage (scope.fresh []) k name = none := by
  cases k with
  | zero => exact stage_zero (mirrors.plain name)
  | succ k => rw [stage_succ (mirrors.plain name), mirrors.words name, unnamed]; rfl

/-- Names of clean bodies give way to operands that have their values. Names that stay since they
are hidden have no value yet, so that nothing that has a value needs them. -/
theorem Mirrors.replaced {start : String} (hygienic : scope.Hygienic start) {ps : List Pending}
    {out tokens : List Token} (unfolded : Expansion.Unfolded macros ps out)
    (reached : ReflTransGen scope.Mentions start user)
    (spelled : tokens.map Token.lexeme = ps.map (·.token.lexeme))
    (part : ∀ t ∈ tokens, t ∈ scope.body user)
    (valueless : ∀ p ∈ ps, ∀ n ∈ p.hidden, scope.stage (scope.fresh []) k n = none) :
    Expr.Replaced scope.reading (scope.StagedAs k) tokens out := by
  induction unfolded generalizing user tokens k with
  | nil =>
    obtain rfl : tokens = [] := List.map_eq_nil_iff.mp spelled
    exact .nil
  | @keep p rest out stays others ih =>
    obtain ⟨t, tokens, rfl, same, spelled⟩ := List.map_eq_cons_iff.mp spelled
    have after := ih reached spelled (fun t member => part t (List.mem_cons_of_mem _ member))
      fun p member => valueless p (List.mem_cons_of_mem _ member)
    refine .keep same.symm (fun isName _ v known => ?_) after
    obtain ⟨u, staged, -⟩ := staged_eq_ok.mp known
    have sameText : p.token.text = t.text := (congrArg Lexeme.text same).symm
    have valued : scope.stage (scope.fresh []) k t.text ≠ none := by simp [staged]
    rcases stays with unnamed | hidesOwn
    · have isName : p.token.kind = .ident := (congrArg Lexeme.kind same).symm.trans isName
      rw [MacroTable.named, if_pos isName, sameText] at unnamed
      exact absurd (mirrors.stage_eq_none unnamed) valued
    · exact absurd (valueless p List.mem_cons_self t.text (sameText ▸ hidesOwn)) valued
  | @object p m rest inner out invokes body others ihBody ih =>
    obtain ⟨t, tokens, rfl, same, spelled⟩ := List.map_eq_cons_iff.mp spelled
    have after := ih reached spelled (fun t member => part t (List.mem_cons_of_mem _ member))
      fun p member => valueless p (List.mem_cons_of_mem _ member)
    have sameText : p.token.text = t.text := (congrArg Lexeme.text same).symm
    have isName : t.kind = .ident := (congrArg Lexeme.kind same).trans invokes.kind_eq
    have found : macros.lookup t.text = some m := sameText ▸ invokes.lookup
    have listed : .word t.text ∈ (scope.body user).map Token.lexeme :=
      Token.lexeme_eq_word isName ▸ List.mem_map_of_mem (part t List.mem_cons_self)
    have mentions := mirrors.mentions found listed
    have clean := hygienic user reached
    have further := reached.tail mentions
    -- In the round just before its value, this name is as good as hidden.
    obtain ⟨j, below, before, stands⟩ := stands_for_name mirrors.plain (hygienic t.text further)
      (clean.operands t.text mentions) k
    have replaced : Expr.Replaced scope.reading (scope.StagedAs j) (scope.body t.text) inner := by
      refine ihBody further ?_ (fun t member => member) fun q inside n member => ?_
      · exact (mirrors.tokens t.text m found).trans (Expansion.lexemes_placed_fresh ..).symm
      · rw [(Expansion.mem_placed_fresh inside).1] at member
        rcases Expansion.mem_union.mp member with outer | own
        · exact stage_eq_none_of_le below (valueless p List.mem_cons_self n outer)
        · rw [List.mem_singleton.mp own, MacroTable.name_of_lookup found]
          exact before
    obtain ⟨e, staged, operand⟩ := stands inner replaced
    exact .block isName (clean.not_typeWord mentions) staged operand after

theorem Mirrors.unfoldable {start : String} (hygienic : scope.Hygienic start) :
    Expansion.Unfoldable macros fun x =>
      ∃ user, ReflTransGen scope.Mentions start user ∧ x ∈ (scope.body user).map Token.lexeme where
  plain := by
    rintro ⟨user, reached, listed⟩
    exact (hygienic user reached).plain listed
  object name m _ found := mirrors.object name m found
  body := by
    rintro name m ⟨user, reached, listed⟩ found t member
    refine ⟨name, reached.tail (mirrors.mentions found listed), ?_⟩
    rw [mirrors.tokens name m found]
    exact List.mem_map_of_mem member

end

theorem grounded_of_plain (plain : ∀ n, scope.table.enumerator? n = none) (name : String) :
    scope.Grounded [] (.constant name) := by
  intro r reaches recovers _
  cases r with
  | constant other => simp [Recovers, plain] at recovers
  | enum serial =>
    rcases Relation.ReflTransGen.cases_tail reaches with same | ⟨q, -, -, n, -, found, entry, -⟩
    · cases same
    · simp [plain] at entry

def evaluateConstants (scope : ConstantScope) (names : List String) :
    Remembering (List (Option ConstantValue)) := names.mapM scope.evaluateConstant

theorem evaluateConstants_ensures (plain : ∀ n, scope.table.enumerator? n = none)
    (names : List String) :
    Ensures (scope.Faithful [] []) (scope.evaluateConstants names) fun results =>
      results = names.map (scope.final []).constant := by
  have listed : Symbol.Listed [] scope.table :=
    ⟨fun name found entry => by simp [plain] at entry, List.forall_mem_nil _⟩
  unfold evaluateConstants
  induction names with
  | nil => exact .pure rfl
  | cons name rest ih =>
    rw [List.mapM_cons]
    refine (evaluateConstant_ensures listed name).bind fun result right =>
      ih.bind fun results right' => .pure ?_
    rw [right (grounded_of_plain plain name), right', List.map_cons]

/-- The evaluator gives a constant the value that it has in some round, whatever else it is
asked. -/
theorem mem_answers_iff {result : ConstantValue} (plain : ∀ n, scope.table.enumerator? n = none)
    (asked : List String) :
    (name, some result) ∈ asked.zip (scope.evaluateConstants asked {}).1 ↔
      name ∈ asked ∧ ∃ k, scope.stage (scope.fresh []) k name = some result := by
  have answers := (evaluateConstants_ensures plain asked {} (.empty [])).1
  rw [answers, ← List.map_prod_left_eq_zip, List.mem_map]
  constructor
  · rintro ⟨n, member, same⟩
    obtain ⟨rfl, value⟩ := Prod.mk.inj same
    exact ⟨member, limit_eq_some.mp value⟩
  · rintro ⟨member, reached⟩
    exact ⟨name, member, congrArg (Prod.mk name) (limit_eq_some.mpr reached)⟩

/-- An integer that is the value of a macro is also what the expansion of the macro amounts to, with
the same type, if all bodies that it leads to are clean. The expansion is read without any names. -/
theorem expansion_has_value_of_constant {macros : MacroTable} (mirrors : Mirrors macros scope)
    {m : Macro} (defined : macros.lookup name = some m) (hygienic : scope.Hygienic name)
    {asked : List String} {v : IntValue}
    (answered : (name, some (.integer v)) ∈ asked.zip (scope.evaluateConstants asked {}).1)
    (header : Option String) (findings : Expansion.Findings) :
    ∃ e w, Expr.parse (expand macros m.body header findings).1 scope.reading = .ok e ∧
      e.evaluate Expr.noNames scope.castType false = .ok w ∧
        w.value = v.value ∧ w.type = v.type := by
  obtain ⟨-, k, known⟩ := (mem_answers_iff mirrors.plain asked).mp answered
  obtain ⟨j, -, -, first⟩ := stage_first (mirrors.plain name) known
  obtain ⟨e, parsed, evaluated⟩ := staged_body mirrors.plain first
  have spelled := mirrors.tokens name m defined
  have unfolded := Expansion.expand_unfolded (mirrors.unfoldable hygienic) m.body header findings
    fun t member => ⟨name, .refl, spelled ▸ List.mem_map_of_mem member⟩
  have replaced := mirrors.replaced hygienic (k := j) unfolded .refl
    (by simpa [Function.comp_def] using spelled) (fun t member => member) (by simp)
  obtain ⟨e', inlined, parsed'⟩ :=
    Expr.parse_replaced replaced parsed ((hygienic name .refl).bare e parsed)
  obtain ⟨w, result, sameValue, sameType⟩ := inlined.amounts evaluated
  exact ⟨e', w, parsed', result, sameValue, sameType⟩

/-! ### Definitions with unparenthesized bodies -/

def macrosOf (definitions : List (String × List Token)) : MacroTable :=
  definitions.foldl (fun table definition =>
    table.define ⟨definition.1, definition.2, none, false, none, none⟩) {}

def scopeOf (definitions : List (String × List Token)) : ConstantScope where
  table := .ofHistory .first (definitions.map fun definition =>
    { item := .constant definition.1 (definition.2.map Token.text) })
  target := { name := "x86", pointerWidth := 32, longWidth := 32, predefined := ∅ }

def sums : List (String × List Token) :=
  [("A", [⟨.number, "1", 0⟩, ⟨.punct, "+", 0⟩, ⟨.number, "2", 0⟩]),
   ("B", [⟨.ident, "A", 0⟩, ⟨.punct, "*", 0⟩, ⟨.number, "3", 0⟩])]

def shifts : List (String × List Token) :=
  [("BASE", [⟨.punct, "(", 0⟩, ⟨.number, "1", 0⟩, ⟨.punct, "+", 0⟩, ⟨.number, "2", 0⟩,
      ⟨.punct, ")", 0⟩]),
   ("LOOP", [⟨.punct, "(", 0⟩, ⟨.number, "1", 0⟩, ⟨.punct, "||", 0⟩, ⟨.ident, "LOOP", 0⟩,
      ⟨.punct, ")", 0⟩]),
   ("MASK", [⟨.punct, "(", 0⟩, ⟨.ident, "short", 0⟩, ⟨.punct, ")", 0⟩, ⟨.ident, "BASE", 0⟩,
      ⟨.punct, "<<", 0⟩, ⟨.ident, "LOOP", 0⟩])]

theorem body_sums : (scopeOf sums).body "A" = sums[0].2 ∧ (scopeOf sums).body "B" = sums[1].2 := by
  refine ⟨?_, ?_⟩
  · show tokenize "1 + 2" = _
    cbv
  · show tokenize "A * 3" = _
    cbv

theorem body_shifts : (scopeOf shifts).body "BASE" = shifts[0].2 ∧
    (scopeOf shifts).body "LOOP" = shifts[1].2 ∧ (scopeOf shifts).body "MASK" = shifts[2].2 := by
  refine ⟨?_, ?_, ?_⟩
  · show tokenize "( 1 + 2 )" = _
    cbv
  · show tokenize "( 1 || LOOP )" = _
    cbv
  · show tokenize "( short ) BASE << LOOP" = _
    cbv

theorem mirrors_sums : Mirrors (macrosOf sums) (scopeOf sums) := by
  refine mirrors_of_entries (by decide) (by decide) ?_ (by decide)
  show ∀ pair ∈ [_, _], _
  simp only [List.forall_mem_cons]
  exact ⟨congrArg _ body_sums.1, congrArg _ body_sums.2, List.forall_mem_nil _⟩

theorem mirrors_shifts : Mirrors (macrosOf shifts) (scopeOf shifts) := by
  refine mirrors_of_entries (by decide) (by decide) ?_ (by decide)
  show ∀ pair ∈ [_, _, _], _
  simp only [List.forall_mem_cons]
  exact ⟨congrArg _ body_shifts.1, congrArg _ body_shifts.2.1, congrArg _ body_shifts.2.2,
    List.forall_mem_nil _⟩

def digit (n : Int) : Expr := .literal ⟨n, .int, .decimal⟩

theorem literalOf_digits (reading : Expr.Reading) (width : reading.longWidth = 32) :
    Expr.literalOf reading ⟨.number, "1"⟩ = .ok ⟨1, .int, .decimal⟩ ∧
      Expr.literalOf reading ⟨.number, "2"⟩ = .ok ⟨2, .int, .decimal⟩ ∧
      Expr.literalOf reading ⟨.number, "3"⟩ = .ok ⟨3, .int, .decimal⟩ := by
  unfold Expr.literalOf
  rw [width]
  decide +kernel

open CBindings.Expr in
theorem reads_base : Reads (operand (scopeOf shifts).reading ((scopeOf shifts).body "BASE"))
    (.binary .add (digit 1) (digit 2)) [] := by
  obtain ⟨one, two, -⟩ := literalOf_digits (scopeOf shifts).reading rfl
  rw [body_shifts.1]
  refine (operand_group_reads (by decide) rfl ?_).mpr ⟨⟨.punct, ")", 0⟩, ?_, rfl⟩
  · cbv
  · exact expression_binary_reads (operand_number_reads one) rfl (by decide) (Nat.zero_le _)
      (expression_operand_reads (operand_number_reads two) (by simp [Token.isPunct]))
      (by simp [Token.isPunct])

open CBindings.Expr in
theorem reads_loop : Reads (operand (scopeOf shifts).reading ((scopeOf shifts).body "LOOP"))
    (.binary .or (digit 1) (.name "LOOP")) [] := by
  obtain ⟨one, -, -⟩ := literalOf_digits (scopeOf shifts).reading rfl
  rw [body_shifts.2.1]
  refine (operand_group_reads (by decide) rfl ?_).mpr ⟨⟨.punct, ")", 0⟩, ?_, rfl⟩
  · cbv
  · exact expression_binary_reads (operand_number_reads one) rfl (by decide) (Nat.zero_le _)
      (expression_operand_reads (operand_name_reads (by simp [Token.opensParen, Token.isPunct]))
        (by simp [Token.isPunct])) (by simp [Token.isPunct])

open CBindings.Expr in
theorem parse_mask : parse ((scopeOf shifts).body "MASK") (scopeOf shifts).reading =
    .ok (.binary .shiftLeft (.cast "short" (.name "BASE")) (.name "LOOP")) := by
  rw [body_shifts.2.2, parse_eq_ok_iff]
  have cast : ∃ shorter, cast? (scopeOf shifts).reading ([⟨.ident, "short", 0⟩] ++
      ⟨.punct, ")", 0⟩ :: [⟨.ident, "BASE", 0⟩, ⟨.punct, "<<", 0⟩, ⟨.ident, "LOOP", 0⟩]) =
        some ⟨"short", [⟨.ident, "BASE", 0⟩, ⟨.punct, "<<", 0⟩, ⟨.ident, "LOOP", 0⟩], shorter⟩ :=
    cast?_of_spelled (by simp) (by simp) rfl rfl (.inl ⟨by decide, by decide⟩)
  obtain ⟨shorter, cast⟩ := cast
  have noOp : prefixOp? ⟨.punct, "(", 0⟩ = none := by decide
  have first := (operand_cast_reads noOp rfl cast).mpr
    ⟨.name "BASE", operand_name_reads (by simp [Token.opensParen, Token.isPunct]), rfl⟩
  exact expression_binary_reads first rfl (by decide) (Nat.zero_le _)
    (expression_operand_reads (operand_name_reads (by simp)) (by simp)) (by simp)

def operandsOfMask (name : String) : Except ExpressionError IntValue :=
  if name = "BASE" then .ok ⟨3, .int, .decimal⟩
  else if name = "LOOP" then .ok ⟨1, .int, .decimal⟩
  else .error (.unknownName name)

theorem stage_mask :
    (scopeOf shifts).stage ((scopeOf shifts).fresh []) 2 "MASK" =
      some (.integer ⟨6, .int, .decimal⟩) := by
  have plain := mirrors_shifts.plain
  have base : (scopeOf shifts).stage ((scopeOf shifts).fresh []) 1 "BASE" =
      some (.integer ⟨3, .int, .decimal⟩) :=
    stage_of_body Expr.noNames plain (by decide) (by rw [body_shifts.1]; cbv)
      (Expr.parse_of_operand reads_base) (fun _ _ known => by cases known) rfl
  have loop : (scopeOf shifts).stage ((scopeOf shifts).fresh []) 1 "LOOP" =
      some (.integer ⟨1, .int, .decimal⟩) :=
    stage_of_body Expr.noNames plain (by decide) (by rw [body_shifts.2.1]; cbv)
      (Expr.parse_of_operand reads_loop) (fun _ _ known => by cases known) rfl
  have cast : (scopeOf shifts).castType "short" = .ok ⟨16, true⟩ := by cbv
  have shifted : (Expr.cast "short" (.name "BASE")).evaluate operandsOfMask
      (scopeOf shifts).castType false = .ok ⟨3, ⟨16, true⟩, .decimal⟩ :=
    Expr.evaluate_cast_eq_ok.mpr ⟨_, cast, ⟨3, .int, .decimal⟩, by decide, by decide⟩
  refine stage_of_body operandsOfMask plain (by decide) (by rw [body_shifts.2.2]; cbv)
    parse_mask (fun n value known => ?_) (Expr.evaluate_binary_eq_ok.mpr ⟨_, shifted,
      .inr ⟨by decide, ⟨1, .int, .decimal⟩, by decide, by decide⟩⟩)
  unfold operandsOfMask at known
  split at known
  · next same =>
    cases known
    exact ⟨by simp [same], _, same ▸ base, rfl⟩
  · split at known
    · next same =>
      cases known
      exact ⟨by simp [same], _, same ▸ loop, rfl⟩
    · cases known

theorem mem_words_shifts :
    (∀ word, .word word ∈ ((scopeOf shifts).body "BASE").map Token.lexeme → word ∈ []) ∧
    (∀ word, .word word ∈ ((scopeOf shifts).body "LOOP").map Token.lexeme → word ∈ ["LOOP"]) ∧
    (∀ word, .word word ∈ ((scopeOf shifts).body "MASK").map Token.lexeme →
      word ∈ ["short", "BASE", "LOOP"]) := by
  rw [body_shifts.1, body_shifts.2.1, body_shifts.2.2]
  simp [shifts, Token.lexeme, Lexeme.word]

theorem hygienic_mask : (scopeOf shifts).Hygienic "MASK" := by
  obtain ⟨baseWords, loopWords, maskWords⟩ := mem_words_shifts
  have words : ∀ user ∈ ["BASE", "LOOP", "MASK"], ∀ word,
      .word word ∈ ((scopeOf shifts).body user).map Token.lexeme →
        word ∈ ["short", "BASE", "LOOP"] := by
    simp only [List.forall_mem_cons]
    refine ⟨fun word listed => ?_, fun word listed => ?_, maskWords, List.forall_mem_nil _⟩
    · exact absurd (baseWords word listed) List.not_mem_nil
    · simp [List.mem_singleton.mp (loopWords word listed)]
  have cases : ∀ word ∈ ["short", "BASE", "LOOP"], word ≠ "defined" ∧
      ((scopeOf shifts).reading.isTypeWord word = true →
        (scopeOf shifts).table.constant? word = none) ∧
      (((scopeOf shifts).table.constant? word).isSome → word ∈ ["BASE", "LOOP"]) := by
    decide
  have plain : ∀ name ∈ ["BASE", "LOOP"],
      (scopeOf shifts).reading.isTypeWord name = false := by decide
  have operand : ∀ name ∈ ["BASE", "LOOP"],
      (scopeOf shifts).reading.isOperand ((scopeOf shifts).body name) = true := by
    simp only [List.forall_mem_cons]
    exact ⟨Expr.isOperand_iff.mpr ⟨_, reads_base⟩, Expr.isOperand_iff.mpr ⟨_, reads_loop⟩,
      List.forall_mem_nil _⟩
  have bare : ∀ user ∈ ["BASE", "LOOP", "MASK"], ∀ e,
      Expr.parse ((scopeOf shifts).body user) (scopeOf shifts).reading = .ok e →
        e.Bare (scopeOf shifts).reading := by
    simp only [List.forall_mem_cons, Expr.parse_of_operand reads_base,
      Expr.parse_of_operand reads_loop, parse_mask, Except.ok.injEq, forall_eq']
    exact ⟨⟨trivial, trivial⟩, ⟨trivial, plain "LOOP" (by simp)⟩,
      ⟨plain "BASE" (by simp), plain "LOOP" (by simp)⟩, List.forall_mem_nil _⟩
  refine hygienic_of_closed ["BASE", "LOOP", "MASK"] (by simp) (fun user member => ?_) ?_
  · exact ⟨fun listed => (cases _ (words user member _ listed)).1 rfl,
      fun word listed => (cases word (words user member word listed)).2.1, bare user member,
      fun name mentions => operand name
        ((cases name (words user member name mentions.1)).2.2 mentions.2)⟩
  · intro user member other mentions
    have := (cases other (words user member other mentions.1)).2.2 mentions.2
    exact List.mem_append_left ["MASK"] this

/-- A macro whose body is not one operand but names operands only. -/
theorem expansion_of_mask :
    Mirrors (macrosOf shifts) (scopeOf shifts) ∧
      ∃ m, (macrosOf shifts).lookup "MASK" = some m ∧ (scopeOf shifts).Hygienic "MASK" ∧
        ("MASK", some (.integer ⟨6, .int, .decimal⟩)) ∈
          ["LOOP", "MASK"].zip ((scopeOf shifts).evaluateConstants ["LOOP", "MASK"] {}).1 ∧
        ∃ e w, Expr.parse (expand (macrosOf shifts) m.body none {}).1 (scopeOf shifts).reading =
            .ok e ∧
          e.evaluate Expr.noNames (scopeOf shifts).castType false = .ok w ∧ w.value = 6 ∧
            w.type = .int := by
  have answered := (mem_answers_iff mirrors_shifts.plain ["LOOP", "MASK"]).mpr
    ⟨by simp, 2, stage_mask⟩
  exact ⟨mirrors_shifts, _, rfl, hygienic_mask, answered,
    expansion_has_value_of_constant mirrors_shifts rfl hygienic_mask answered none {}⟩

open CBindings.Expr in
theorem stage_product :
    (scopeOf sums).stage ((scopeOf sums).fresh []) 2 "B" = some (.integer ⟨9, .int, .decimal⟩) := by
  obtain ⟨one, two, three⟩ := literalOf_digits (scopeOf sums).reading rfl
  have plain := mirrors_sums.plain
  have sum : parse ((scopeOf sums).body "A") (scopeOf sums).reading =
      .ok (.binary .add (digit 1) (digit 2)) := by
    rw [body_sums.1, parse_eq_ok_iff]
    exact expression_binary_reads (operand_number_reads one) rfl (by decide) (Nat.zero_le _)
      (expression_operand_reads (operand_number_reads two) (by simp)) (by simp)
  have product : parse ((scopeOf sums).body "B") (scopeOf sums).reading =
      .ok (.binary .mul (.name "A") (digit 3)) := by
    rw [body_sums.2, parse_eq_ok_iff]
    exact expression_binary_reads
      (operand_name_reads (by simp [Token.opensParen, Token.isPunct])) rfl (by decide)
      (Nat.zero_le _) (expression_operand_reads (operand_number_reads three) (by simp)) (by simp)
  have value : (scopeOf sums).stage ((scopeOf sums).fresh []) 1 "A" =
      some (.integer ⟨3, .int, .decimal⟩) :=
    stage_of_body noNames plain (by decide) (by rw [body_sums.1]; cbv) sum
      (fun _ _ known => by cases known) rfl
  refine stage_of_body (fun n => if n = "A" then .ok ⟨3, .int, .decimal⟩ else noNames n)
    plain (by decide) (by rw [body_sums.2]; cbv) product (fun n value known => ?_) (by decide)
  split at known
  · next same =>
    cases known
    exact ⟨by simp [same], _, same ▸ value, rfl⟩
  · cases known

open CBindings.Expr in
/-- Without parentheses the expansion of a product of a sum is another expression. -/
theorem expansion_of_product :
    Mirrors (macrosOf sums) (scopeOf sums) ∧
      ∃ m, (macrosOf sums).lookup "B" = some m ∧
        ("B", some (.integer ⟨9, .int, .decimal⟩)) ∈
          ["B"].zip ((scopeOf sums).evaluateConstants ["B"] {}).1 ∧
        ∃ e, parse (expand (macrosOf sums) m.body none {}).1 (scopeOf sums).reading = .ok e ∧
          e.evaluate noNames (scopeOf sums).castType false = .ok ⟨7, .int, .decimal⟩ := by
  have answered := (mem_answers_iff mirrors_sums.plain ["B"]).mpr
    ⟨by simp, 2, stage_product⟩
  have expanded : (expand (macrosOf sums) sums[1].2 none {}).1 =
      [⟨.number, "1", 0⟩, ⟨.punct, "+", 0⟩, ⟨.number, "2", 0⟩, ⟨.punct, "*", 0⟩,
        ⟨.number, "3", 0⟩] := by cbv
  obtain ⟨one, two, three⟩ := literalOf_digits (scopeOf sums).reading rfl
  have found : (macrosOf sums).lookup "B" = some ⟨"B", sums[1].2, none, false, none, none⟩ := rfl
  refine ⟨mirrors_sums, _, found, answered,
    .binary .add (digit 1) (.binary .mul (digit 2) (digit 3)), ?_, rfl⟩
  rw [expanded, parse_eq_ok_iff]
  exact expression_binary_reads (operand_number_reads one) rfl (by decide) (Nat.zero_le _)
    (expression_binary_reads (operand_number_reads two) rfl (by decide) (by decide)
      (expression_operand_reads (operand_number_reads three) (by simp)) (by simp)) (by simp)

end ConstantScope

end CBindings
