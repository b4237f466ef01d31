import CBindings.Proofs.Constant.Agreement
import CBindings.Proofs.Constant.Replay
import CBindings.Proofs.Constant.Request
import CBindings.Proofs.Expr.Literal
import CBindings.Proofs.Integer.Range
import CBindings.SymbolTable.Insertion

/-! The range of constants. Every value is in the range of its type, unless it is that of a
character literal, whose value is never wrapped. -/

namespace CBindings

open IntValue

variable {α β : Type} {holds : ConstantMemo → Prop} {written : Int → Prop}

def IntValue.Admissible (written : Int → Prop) (v : IntValue) : Prop :=
  v.InRange ∨ v.type = .int ∧ written v.value

theorem IntValue.Admissible.mono {more : Int → Prop} {v : IntValue}
    (admissible : v.Admissible written) (weaker : ∀ n, written n → more n) : v.Admissible more :=
  admissible.imp_right fun ⟨type, known⟩ => ⟨type, weaker v.value known⟩

theorem UnaryOp.apply_admissible {operand : IntValue} (op : UnaryOp)
    (admissible : operand.Admissible written) : (op.apply operand).Admissible written := by
  rcases admissible with inRange | ⟨type, known⟩
  · exact .inl (op.inRange_apply inRange)
  · cases op with
    | negate | complement => exact .inl (inRange_wrap _ _ _)
    | not => exact .inl (inRange_ofBool _)
    | plus =>
      refine .inr ⟨?_, known⟩
      simp only [apply, type]
      rfl

def Yields (p : α → Prop) (result : Except ExpressionError α) : Prop := ∀ a, result = .ok a → p a

namespace Ensures

variable {p : α → Prop} {q : β → Prop}

theorem yields {a : α} (fine : p a) :
    Ensures holds (Pure.pure a : Evaluating α).run (Yields p) :=
  .pure fun _ same => Except.ok.inj same ▸ fine

theorem throws (error : ExpressionError) :
    Ensures holds (throw error : Evaluating α).run (Yields p) :=
  .pure fun _ impossible => by cases impossible

theorem bindYields {x : Evaluating α} {f : α → Evaluating β} (first : Ensures holds x.run (Yields p))
    (second : ∀ a, p a → Ensures holds (f a).run (Yields q)) :
    Ensures holds (x >>= f).run (Yields q) := by
  rw [ExceptT.run_bind]
  refine first.bind fun result known => ?_
  cases result with
  | ok a => exact second a (known a rfl)
  | error error => exact throws error

end Ensures

/-- Operators and casts lead into the range, and all else passes literals and names on. -/
theorem evaluateIn_admissible {names : String → Evaluating IntValue}
    {casts : String → Evaluating IntType} {expr : Expr}
    (named : ∀ n, Ensures holds (names n).run (Yields (Admissible written)))
    (cast : ∀ typeName, Ensures holds (casts typeName).run (Yields fun _ => True))
    (literals : ∀ v ∈ expr.literals, v.Admissible written) :
    Ensures holds (expr.evaluateIn names casts false).run (Yields (Admissible written)) := by
  induction expr with
  | literal value => exact .yields (literals value List.mem_cons_self)
  | name n => exact named n
  | call n => exact .throws _
  | cast typeName operand ih =>
    refine (cast typeName).bindYields fun target _ => ?_
    exact (ih literals).bindYields fun value _ => .yields (.inl (inRange_wrap _ _ _))
  | unary op operand ih =>
    exact (ih literals).bindYields fun value fine => .yields (op.apply_admissible fine)
  | conditional condition chosen otherwise ihCondition ihChosen ihOtherwise =>
    simp only [Expr.literals, List.mem_append, or_imp, forall_and] at literals
    refine (ihCondition literals.1.1).bindYields fun value _ => ?_
    split
    · exact ihChosen literals.1.2
    · exact ihOtherwise literals.2
  | binary op left right ihLeft ihRight =>
    simp only [Expr.literals, List.mem_append, or_imp, forall_and] at literals
    refine (ihLeft literals.1).bindYields fun a _ => ?_
    split
    · next decided => exact .yields (.inl (BinaryOp.inRange_decided? decided))
    · refine (ihRight literals.2).bindYields fun b _ => ?_
      split
      · next applied => exact .yields (.inl (BinaryOp.inRange_apply applied))
      · exact .throws _

def CharacterIn (tokens : List Token) (n : Int) : Prop :=
  ∃ token ∈ tokens, token.kind = .char ∧ ∃ v, Literal.character token.text = .ok v ∧ v.value = n

theorem literal_admissible {reading : Expr.Reading} {tokens : List Token} {token : Token}
    {v : IntValue} (member : token ∈ tokens)
    (known : Expr.literalOf reading token.lexeme = .ok v) : v.Admissible (CharacterIn tokens) := by
  unfold Expr.literalOf at known
  split at known
  · split at known
    · cases known
    · exact .inl (Literal.inRange_integer known)
  · next kind =>
    exact .inr ⟨Literal.character_type known, token, member, kind, v, known, rfl⟩
  · cases known

namespace ConstantScope

variable {scope : ConstantScope} {resolve : String → Evaluating IntValue} {pursued : List Pursuit}

/-- Whether a character literal in a constant of the table has this value. -/
def Writes (scope : ConstantScope) (n : Int) : Prop :=
  ∃ name words, scope.table.constant? name = some words ∧
    CharacterIn (tokenize (" ".intercalate words)) n

/-- What is admissible in a replacement list for a use of its value. -/
def WritesIn (scope : ConstantScope) (tokens : List Token) (n : Int) : Prop :=
  CharacterIn tokens n ∨ scope.Writes n

def Integral (p : IntValue → Prop) (result : Option ConstantValue) : Prop :=
  ∀ v, result = some (.integer v) → p v

def Counted (values : List (String × Option Int)) : Prop :=
  ∀ name n, (name, some n) ∈ values → IntType.int.fits n = true

theorem Counted.lookup {values : List (String × Option Int)} (counted : Counted values)
    {name : String} {n : Int} (found : values.lookup name = some (some n)) :
    IntType.int.fits n = true :=
  counted name n (mem_of_lookup found)

structure Sound (scope : ConstantScope) (memo : ConstantMemo) : Prop where
  constants : ∀ name v, memo.constants.get? name = some (some (.integer v)) →
    v.Admissible scope.Writes
  enums : ∀ serial values, memo.enums.get? serial = some values → Counted values

namespace Sound

variable {memo : ConstantMemo}

theorem empty (scope : ConstantScope) : scope.Sound {} where
  constants _ _ known := by cases known
  enums _ _ known := by cases known

theorem insertConstant {result : Option ConstantValue} (sound : scope.Sound memo) (name : String)
    (fine : Integral (Admissible scope.Writes) result) :
    scope.Sound { memo with constants := memo.constants.insert name result } where
  constants other v known := by
    by_cases same : other = name
    · subst same
      rw [OrderedMap.get?_insert_self] at known
      exact fine v (Option.some.inj known)
    · rw [OrderedMap.get?_insert_ne _ _ same] at known
      exact sound.constants other v known
  enums := sound.enums

theorem insertEnum {values : List (String × Option Int)} (sound : scope.Sound memo) (serial : Nat)
    (counted : Counted values) :
    scope.Sound { memo with enums := memo.enums.insert serial values } where
  constants := sound.constants
  enums other found known := by
    by_cases same : other = serial
    · subst same
      rw [OrderedMap.get?_insert_self] at known
      exact Option.some.inj known ▸ counted
    · rw [OrderedMap.get?_insert_ne _ _ same] at known
      exact sound.enums other found known

end Sound

/-! ### Replacement lists -/

theorem integer_admissible {written : Int → Prop} {tokens : List Token}
    (resolved : ∀ name, Ensures scope.Sound (resolve name).run (Yields (Admissible written)))
    (characters : ∀ n, CharacterIn tokens n → written n) :
    Ensures scope.Sound (scope.integer resolve tokens).run (Yields (Admissible written)) := by
  rw [integer_eq]
  cases parsed : Expr.parse tokens scope.reading with
  | error error => exact .throws error
  | ok expr =>
    refine evaluateIn_admissible resolved (fun typeName => ?_) fun v member => ?_
    · exact .pure fun _ _ => trivial
    · obtain ⟨token, listed, known⟩ := Expr.literals_of_parse parsed member
      exact (literal_admissible listed known).mono characters

theorem value_admissible {tokens : List Token}
    (resolved : ∀ name, Ensures scope.Sound (resolve name).run (Yields (Admissible scope.Writes))) :
    Ensures scope.Sound (scope.value resolve tokens)
      (Integral (Admissible (scope.WritesIn tokens))) := by
  cases literal : literal? tokens with
  | some result =>
    rw [value_literal literal]
    refine .pure fun v same => ?_
    subst same
    exact (literal?_ne_integer literal).elim
  | none =>
    rw [value_expression literal, map_eq_pure_bind]
    have weaker (name : String) : Ensures scope.Sound (resolve name).run
        (Yields (Admissible (scope.WritesIn tokens))) :=
      (resolved name).mono fun _ fine v same => (fine v same).mono fun _ => .inr
    refine (integer_admissible weaker fun _ => .inl).bind fun result fine => .pure fun v same => ?_
    cases result with
    | ok value =>
      cases same
      exact fine v rfl
    | error error => cases same

theorem constantValue_admissible {name : String} {words : List String}
    (resolved : ∀ name, Ensures scope.Sound (resolve name).run (Yields (Admissible scope.Writes)))
    (found : scope.table.constant? name = some words) :
    Ensures scope.Sound (scope.constantValue resolve name words)
      (Integral (Admissible scope.Writes)) := by
  have own : ∀ n, scope.WritesIn (tokenize (" ".intercalate words)) n → scope.Writes n :=
    fun n => Or.rec (fun inside => ⟨name, words, found, inside⟩) id
  refine (value_admissible resolved).bind fun result fine memo sound => ?_
  have fine : Integral (Admissible scope.Writes) result := fun v same => (fine v same).mono own
  exact ⟨fine, sound.insertConstant name fine⟩

/-! ### Enumerators -/

theorem admissible_int {n : Int} (fits : IntType.int.fits n = true) (style : NumberStyle) :
    Admissible written ⟨n, .int, style⟩ := .inl (inRange_iff.mpr fits)

theorem resolveIn_admissible {done : List (String × Option Int)}
    (resolved : ∀ name, Ensures holds (resolve name).run (Yields (Admissible written)))
    (counted : Counted done) (name : String) :
    Ensures holds (resolveIn done resolve name).run (Yields (Admissible written)) := by
  unfold resolveIn
  split
  · next n found => exact .yields (admissible_int (counted.lookup found) _)
  · exact .throws _
  · exact resolved name

theorem assigned_sound {done : List (String × Option Int)} {following : Option Int}
    (resolved : ∀ name, Ensures scope.Sound (resolve name).run (Yields (Admissible scope.Writes)))
    (counted : Counted done) (given : Assigned) :
    Ensures scope.Sound (scope.assigned resolve done following given) fun _ => True := by
  cases given with
  | implicit => exact .pure trivial
  | number n => exact .pure trivial
  | text expression =>
    have weaker (name : String) : Ensures scope.Sound (resolve name).run
        (Yields (Admissible (scope.WritesIn (tokenize expression)))) :=
      (resolved name).mono fun _ fine v same => (fine v same).mono fun _ => .inr
    refine (integer_admissible (resolveIn_admissible weaker counted) fun _ => .inl).bind
      fun result _ => ?_
    cases result with
    | ok value => exact .pure trivial
    | error error => exact .pure trivial

theorem enumeratorsFrom_counted {values : List Enumerator} {following : Option Int}
    {done : List (String × Option Int)}
    (resolved : ∀ name, Ensures scope.Sound (resolve name).run (Yields (Admissible scope.Writes)))
    (counted : Counted done) :
    Ensures scope.Sound (scope.enumeratorsFrom resolve done following values) Counted := by
  induction values generalizing done following with
  | nil => exact .pure counted
  | cons e rest ih =>
    refine (assigned_sound resolved counted e.value).bind fun given _ => ih ?_
    intro name n member
    rcases List.mem_append.mp member with before | last
    · exact counted name n before
    · obtain ⟨-, wrapped⟩ := Prod.mk.inj (List.mem_singleton.mp last)
      obtain ⟨m, -, rfl⟩ := Option.map_eq_some_iff.mp wrapped.symm
      exact IntType.fits_wrap _ _

theorem enumeratorValues_counted
    (resolved : ∀ name, Ensures scope.Sound (resolve name).run (Yields (Admissible scope.Writes)))
    (symbol : Symbol) :
    Ensures scope.Sound (scope.enumeratorValues resolve symbol) Counted := by
  have nothing : Counted [] := fun _ _ member => absurd member List.not_mem_nil
  refine (enumeratorsFrom_counted resolved nothing).bind fun values counted memo sound => ?_
  exact ⟨counted, sound.insertEnum symbol.serial counted⟩

/-! ### Names -/

theorem constantBy_admissible {name : String}
    (nested : ∀ pursuit ∈ scope.pursuits, pursuit ∉ pursued → ∀ inner, Ensures scope.Sound
      (scope.resolve (pursuit :: pursued) inner).run (Yields (Admissible scope.Writes))) :
    Ensures scope.Sound (scope.constantBy (scope.follow pursued) name)
      (Integral (Admissible scope.Writes)) := by
  have nothing : Integral (Admissible scope.Writes) none := fun _ impossible => by cases impossible
  intro memo sound
  cases known : memo.constants.get? name with
  | some result =>
    rw [constantBy_known known]
    exact ⟨fun v same => sound.constants name v (same ▸ known), sound⟩
  | none =>
    rw [constantBy_lacking known]
    cases found : scope.table.constant? name with
    | none =>
      rw [newConstant_absent found]
      exact ⟨nothing, sound⟩
    | some words =>
      by_cases new : .constant name ∈ pursued
      · rw [newConstant_pursued new]
        exact ⟨nothing, sound⟩
      · rw [newConstant_found found new]
        exact constantValue_admissible (nested _ (constant_mem_pursuits found) new) found memo sound

theorem enumValuesBy_counted {symbol : Symbol}
    {inner : Option (String → Evaluating IntValue)}
    (resolved : ∀ resolve ∈ inner, ∀ name,
      Ensures scope.Sound (resolve name).run (Yields (Admissible scope.Writes))) :
    Ensures scope.Sound (scope.enumValuesBy inner symbol).run (Yields Counted) := by
  intro memo sound
  cases known : memo.enums.get? symbol.serial with
  | some values =>
    rw [enumValuesBy_known known]
    exact ⟨fun _ same => Except.ok.inj same ▸ sound.enums _ values known, sound⟩
  | none =>
    rw [enumValuesBy_lacking known]
    cases inner with
    | none => exact ⟨fun _ impossible => (by cases impossible), sound⟩
    | some resolve =>
      obtain ⟨counted, after⟩ := enumeratorValues_counted (resolved resolve rfl) symbol memo sound
      exact ⟨fun _ same => Except.ok.inj same ▸ counted, after⟩

theorem fits_valueOf {values : List (String × Option Int)} {name : String} {n : Int}
    (counted : Counted values) (found : valueOf values name = some n) :
    IntType.int.fits n = true := by
  have backwards : Counted values.reverse :=
    fun name n member => counted name n (List.mem_reverse.mp member)
  exact backwards.lookup (Option.join_eq_some_iff.mp found)

theorem enumeratorBy_fits {name : String}
    (nested : ∀ pursuit ∈ scope.pursuits, pursuit ∉ pursued → ∀ inner, Ensures scope.Sound
      (scope.resolve (pursuit :: pursued) inner).run (Yields (Admissible scope.Writes))) :
    Ensures scope.Sound (scope.enumeratorBy (scope.follow pursued) name).run
      (Yields fun value => ∀ n, value = some n → IntType.int.fits n = true) := by
  unfold enumeratorBy
  split
  · exact .yields fun _ impossible => by cases impossible
  · next symbol e found =>
    rw [map_eq_pure_bind]
    refine (enumValuesBy_counted fun resolve inside => ?_).bindYields fun values counted =>
      .yields fun n => fits_valueOf counted
    unfold follow at inside
    split at inside
    · cases inside
    · next new =>
      cases inside
      exact nested _ (enum_mem_pursuits found) new

theorem resolve_admissible (pursued : List Pursuit) (name : String) :
    Ensures scope.Sound (scope.resolve pursued name).run (Yields (Admissible scope.Writes)) := by
  have nested : ∀ pursuit ∈ scope.pursuits, pursuit ∉ pursued → ∀ inner, Ensures scope.Sound
      (scope.resolve (pursuit :: pursued) inner).run (Yields (Admissible scope.Writes)) :=
    fun pursuit member new inner => resolve_admissible (pursuit :: pursued) inner
  rw [resolve_eq]
  refine Ensures.bindLift (constantBy_admissible nested) fun result fine => ?_
  cases result with
  | some result =>
    cases result with
    | integer value =>
      -- the style of the literal is not kept, and does not matter
      have operand : Admissible scope.Writes ⟨value.value, value.type, .decimal⟩ := fine value rfl
      exact .yields operand
    | float x => exact .throws _
    | text body => exact .throws _
  | none =>
    refine (enumeratorBy_fits nested).bindYields fun value fits => ?_
    cases value with
    | some n => exact .yields (admissible_int (fits n rfl) _)
    | none => exact .throws _
termination_by unseen scope.pursuits pursued
decreasing_by exact unseen_cons_lt member new

/-! ### Requests -/

theorem evaluate_admissible (tokens : List Token) :
    Ensures scope.Sound (scope.evaluate tokens)
      (Integral (Admissible (scope.WritesIn tokens))) :=
  value_admissible (resolve_admissible [])

theorem evaluateEnum_counted (symbol : Symbol) :
    Ensures scope.Sound (scope.evaluateEnum symbol) Counted := by
  intro memo sound
  cases known : memo.enums.get? symbol.serial with
  | some values =>
    rw [evaluateEnum_known known]
    exact ⟨sound.enums _ values known, sound⟩
  | none =>
    rw [evaluateEnum_lacking known]
    exact enumeratorValues_counted (resolve_admissible [.enum symbol.serial]) symbol memo sound

theorem reply_sound (request : ConstantRequest) :
    Ensures scope.Sound (scope.reply request) fun _ => True := by
  cases request with
  | tokens list => exact (evaluate_admissible list).bind fun _ _ => .pure trivial
  | constant name =>
    have nested : ∀ pursuit ∈ scope.pursuits, pursuit ∉ [] → ∀ inner, Ensures scope.Sound
        (scope.resolve [pursuit] inner).run (Yields (Admissible scope.Writes)) :=
      fun pursuit _ _ inner => resolve_admissible [pursuit] inner
    exact (constantBy_admissible nested).bind fun _ _ => .pure trivial
  | enum symbol => exact (evaluateEnum_counted symbol).bind fun _ _ => .pure trivial
  | enumerator name =>
    have evaluated : Ensures scope.Sound (scope.evaluateEnumerator name) fun _ => True := by
      unfold evaluateEnumerator
      split
      · exact .pure trivial
      · exact (evaluateEnum_counted _).bind fun _ _ => .pure trivial
    exact evaluated.bind fun _ _ => .pure trivial
  | extent size =>
    have evaluated : Ensures scope.Sound (scope.evaluateExtent size) fun _ => True := by
      cases size with
      | flexible => exact .pure trivial
      | count n => exact .pure trivial
      | text expression =>
        refine (evaluate_admissible (tokenize expression)).bind fun result _ => ?_
        split
        · exact .pure trivial
        · exact .pure trivial
    exact evaluated.bind fun _ _ => .pure trivial

theorem replies_sound (requests : List ConstantRequest) :
    Ensures scope.Sound (scope.replies requests) fun _ => True := by
  unfold replies
  induction requests with
  | nil => exact .pure trivial
  | cons request rest ih =>
    rw [List.mapM_cons]
    exact (reply_sound request).bind fun _ _ => ih.bind fun _ _ => .pure trivial

/-- Whatever was asked before, an integer constant is in the range of its type, or it is an `int`
with the value of a character literal that its tokens or a constant of the table hold. -/
theorem evaluate_inRange (scope : ConstantScope) (requests : List ConstantRequest)
    (tokens : List Token) {v : IntValue}
    (evaluated : (scope.evaluate tokens (scope.replies requests {}).2).1 = some (.integer v)) :
    v.InRange ∨ v.type = .int ∧ scope.WritesIn tokens v.value := by
  have sound := (replies_sound requests {} (.empty scope)).2
  exact (evaluate_admissible tokens _ sound).1 v evaluated

theorem evaluate_literal {token : Token} {v : IntValue}
    (literal : token.kind = .number ∨ token.kind = .char)
    (known : Expr.literalOf scope.reading token.lexeme = .ok v) (memo : ConstantMemo) :
    (scope.evaluate [token] memo).1 = some (.integer v) := by
  have noName : token.kind ≠ .ident := by rcases literal with kind | kind <;> simp [kind]
  have noPunct : token.kind ≠ .punct := by rcases literal with kind | kind <;> simp [kind]
  have noString : token.kind ≠ .string := by rcases literal with kind | kind <;> simp [kind]
  have noFloat : Constant.floatOf? token = none := by
    refine if_neg fun float => ?_
    simp [Expr.literalOf, Token.lexeme, float] at known
  have integral : literal? [token] = none := by
    simp [literal?, Constant.string?, Constant.float?, Constant.stripParens, noString, noFloat]
  have noOp : Expr.prefixOp? token = none := if_neg noPunct
  have noGroup : token.opensParen = false := by simp [Token.opensParen, Token.isPunct, noPunct]
  have parsed : Expr.parse [token] scope.reading = .ok (.literal v) :=
    Expr.parse_of_operand ((Expr.operand_atom_reads noOp noGroup).mpr
      ((Expr.atom_literal_reads noName).mpr ⟨v, known, rfl, rfl⟩))
  rw [evaluate, value_expression integral, integer_eq, parsed]
  rfl

def narrowScope : ConstantScope where
  table := (({} : SymbolTable).insert { item := .constant "A" ["1"] }).1
  target := { name := "x86", pointerWidth := 32, longWidth := 32, predefined := ∅ }

/-- A literal that is too large for `int` is read as `unsigned`. -/
theorem greatest_unsigned_inRange :
    let tokens : List Token := [⟨.number, "0xFFFFFFFF", 0⟩]
    let v : IntValue := ⟨4294967295, .uint, .hex⟩
    (narrowScope.evaluate tokens (narrowScope.replies [.constant "A"] {}).2).1 =
        some (.integer v) ∧
      (v.InRange ∨ v.type = .int ∧ narrowScope.WritesIn tokens v.value) := by
  intro tokens v
  have known : Expr.literalOf narrowScope.reading ⟨.number, "0xFFFFFFFF"⟩ = .ok v := by
    decide +kernel
  have evaluated : (narrowScope.evaluate tokens (narrowScope.replies [.constant "A"] {}).2).1 =
      some (.integer v) := evaluate_literal (.inl rfl) known _
  exact ⟨evaluated, evaluate_inRange narrowScope [.constant "A"] tokens evaluated⟩

/-- A character literal keeps all the bits of its escape and the type `int`. -/
theorem wide_character_not_inRange :
    let v : IntValue := ⟨4294967295, .int, .character⟩
    (narrowScope.evaluate [⟨.char, "'\\xFFFFFFFF'", 0⟩] {}).1 = some (.integer v) ∧
      ¬ v.InRange := by
  intro v
  have known : Expr.literalOf narrowScope.reading ⟨.char, "'\\xFFFFFFFF'"⟩ = .ok v := by
    decide +kernel
  refine ⟨evaluate_literal (.inr rfl) known {}, fun inRange => ?_⟩
  exact absurd inRange.2 (by decide)

end ConstantScope

end CBindings
