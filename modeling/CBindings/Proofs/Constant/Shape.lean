import CBindings.Proofs.Constant.Agreement
import CBindings.Proofs.Constant.Replay
import CBindings.Proofs.Text.Line
import CBindings.Proofs.Token.Spelling

/-! The shape of what is remembered: a string stands on one line, and an enum has a value for each
of its enumerators. -/

namespace CBindings

variable {α β : Type} {holds : ConstantMemo → Prop}

/-! ### Strings -/

namespace Lexer

theorem not_mem_quotedBody? {quote : Char} {text body after : List Char} (visible : quote ≠ '\n')
    (read : quotedBody? quote text = some (body, after)) : '\n' ∉ body := by
  fun_induction quotedBody? quote text generalizing body with
  | case1 => cases read
  | case2 rest =>
    cases read
    simpa using visible.symm
  | case3 => cases read
  | case4 => cases read
  | case5 => cases read
  | case6 escaped after taken other inside ih =>
    obtain ⟨cut, found, same⟩ := Option.map_eq_some_iff.mp read
    cases same
    simp [Ne.symm taken, ih found]
  | case7 c rest other plain inside ih =>
    obtain ⟨cut, found, same⟩ := Option.map_eq_some_iff.mp read
    cases same
    simp [Ne.symm plain, ih found]

theorem oneLine_of_string {line : Nat} {text : List Char} {t : Token}
    (member : t ∈ tokensOf line text) (string : t.kind = .string) : OneLine t.text := by
  obtain ⟨c, rest, after, -, read⟩ := exists_cut_of_mem member
  rw [string] at read
  have quoted : quoted? '"' (c :: rest) = some (t.text.toList, after) := by
    unfold token at read
    split at read
    · next cut found => rw [found, (Prod.mk.inj read).2]
    · split at read
      · cases read
      · split at read
        · cases read
        · split at read <;> cases read
  obtain ⟨front, encoding, inside, body, -, found, spelled⟩ := quoted?_eq_some quoted
  have prefixed : '\n' ∉ front := by
    have all : ∀ front ∈ encodings, '\n' ∉ front := by decide
    exact all front encoding
  rw [OneLine, spelled]
  simp [prefixed, not_mem_quotedBody? (by decide) found]

end Lexer

namespace Constant

theorem mem_of_mem_stripParens {t : Token} {tokens : List Token}
    (member : t ∈ stripParens tokens) : t ∈ tokens := by
  fun_induction stripParens tokens with
  | case1 first second rest enclosed ih =>
    exact List.mem_cons_of_mem _ (List.dropLast_subset _ (ih member))
  | case2 => exact member
  | case3 => exact member

theorem not_mem_stringBody? {t : Token} {body : List Char} (oneLine : OneLine t.text)
    (read : stringBody? t = some body) : '\n' ∉ body := by
  unfold stringBody? at read
  split at read
  · next rest spelled =>
    simp only at read
    split at read
    · cases read
      intro member
      refine oneLine ?_
      rw [spelled]
      exact List.mem_cons_of_mem _ (List.dropLast_subset _ member)
    · cases read
  · cases read

theorem exists_of_mem_mapM {f : α → Option β} {as : List α} {bs : List β}
    (found : as.mapM f = some bs) {b : β} (member : b ∈ bs) : ∃ a ∈ as, f a = some b := by
  induction as generalizing bs with
  | nil =>
    cases found
    cases member
  | cons a rest ih =>
    rw [List.mapM_cons] at found
    obtain ⟨first, here, found⟩ := Option.bind_eq_some_iff.mp found
    obtain ⟨others, later, same⟩ := Option.bind_eq_some_iff.mp found
    cases same
    rcases List.mem_cons.mp member with rfl | member
    · exact ⟨a, List.mem_cons_self, here⟩
    · obtain ⟨a, listed, cut⟩ := ih later member
      exact ⟨a, List.mem_cons_of_mem _ listed, cut⟩

theorem string?_oneLine {text body : String} (read : string? (tokenize text) = some body) :
    OneLine body := by
  unfold string? at read
  simp only at read
  split at read
  · next strings =>
    obtain ⟨bodies, found, rfl⟩ := Option.map_eq_some_iff.mp read
    rw [oneLine_ofList, List.mem_flatten]
    rintro ⟨one, listed, broken⟩
    obtain ⟨t, member, cut⟩ := exists_of_mem_mapM found listed
    have string : t.kind = .string := by simpa using List.all_eq_true.mp strings t member
    have oneLine := Lexer.oneLine_of_string (mem_of_mem_stripParens member) string
    exact not_mem_stringBody? oneLine cut broken
  · cases read

end Constant

/-! ### Evaluation -/

def Plain (result : Option ConstantValue) : Prop :=
  ∀ body, result = some (.text body) → OneLine body

theorem plain_integer (value : IntValue) : Plain (some (.integer value)) :=
  fun _ impossible => by cases impossible

theorem plain_none : Plain none := fun _ impossible => by cases impossible

/-- Remembered strings have no line break, and a remembered enum among `symbols` has a value for
each of its enumerators. -/
structure ConstantMemo.Shaped (symbols : List Symbol) (memo : ConstantMemo) : Prop where
  plain : ∀ name result, memo.constants.get? name = some result → Plain result
  counted : ∀ symbol ∈ symbols, ∀ values, memo.enums.get? symbol.serial = some values →
    values.length = symbol.item.enumerators.length

abbrev Keeps (holds : ConstantMemo → Prop) (x : Remembering α) : Prop :=
  Ensures holds x fun _ => True

namespace Keeps

theorem pure (a : α) : Keeps holds (Pure.pure a) := Ensures.pure trivial

theorem bindE {x : Evaluating α} {f : α → Evaluating β} (first : Keeps holds x.run)
    (second : ∀ a, Keeps holds (f a).run) : Keeps holds (x >>= f).run := by
  rw [ExceptT.run_bind]
  refine Ensures.bind first fun result _ => ?_
  cases result with
  | ok a => exact second a
  | error error => exact pure _

end Keeps

theorem evaluateIn_keeps {names : String → Evaluating IntValue}
    {casts : String → Evaluating IntType} (named : ∀ name, Keeps holds (names name).run)
    (cast : ∀ typeName, Keeps holds (casts typeName).run) (widen : Bool) (expr : Expr) :
    Keeps holds (expr.evaluateIn names casts widen).run := by
  induction expr with
  | literal value => exact .pure _
  | name n => exact named n
  | call n => exact .pure _
  | cast typeName operand ih =>
    exact (cast typeName).bindE fun target => ih.bindE fun value => .pure _
  | unary op operand ih => exact ih.bindE fun value => .pure _
  | conditional condition chosen otherwise ihCondition ihChosen ihOtherwise =>
    refine ihCondition.bindE fun value => ?_
    split
    · exact ihChosen
    · exact ihOtherwise
  | binary op left right ihLeft ihRight =>
    refine ihLeft.bindE fun a => ?_
    split
    · exact .pure _
    · refine ihRight.bindE fun b => ?_
      split
      · exact .pure _
      · exact .pure _

namespace ConstantMemo.Shaped

variable {symbols : List Symbol} {table : SymbolTable} {memo : ConstantMemo}

theorem empty (symbols : List Symbol) : Shaped symbols {} where
  plain _ _ known := by cases known
  counted _ _ _ known := by cases known

theorem insertConstant {result : Option ConstantValue} (shaped : Shaped symbols memo)
    (name : String) (fine : Plain result) :
    Shaped symbols { memo with constants := memo.constants.insert name result } where
  plain other found known := by
    by_cases same : other = name
    · rw [same, OrderedMap.get?_insert_self] at known
      exact Option.some.inj known ▸ fine
    · rw [OrderedMap.get?_insert_ne _ _ same] at known
      exact shaped.plain other found known
  counted := shaped.counted

theorem insertEnum {symbol : Symbol} {values : List (String × Option Int)}
    (shaped : Shaped symbols memo) (listed : Symbol.Listed symbols table)
    (member : symbol ∈ symbols)
    (whole : values.length = symbol.item.enumerators.length) :
    Shaped symbols { memo with enums := memo.enums.insert symbol.serial values } where
  plain := shaped.plain
  counted other among found known := by
    by_cases same : other.serial = symbol.serial
    · rw [same, OrderedMap.get?_insert_self] at known
      rw [listed.identified other among symbol member same, ← whole, Option.some.inj known]
    · rw [OrderedMap.get?_insert_ne _ _ same] at known
      exact shaped.counted other among found known

end ConstantMemo.Shaped

namespace ConstantScope

open ConstantMemo (Shaped)

variable {scope : ConstantScope} {symbols : List Symbol} {pursued : List Pursuit}
  {resolve : String → Evaluating IntValue}

theorem integer_keeps (resolved : ∀ name, Keeps holds (resolve name).run) (tokens : List Token) :
    Keeps holds (scope.integer resolve tokens).run := by
  rw [integer_eq]
  cases Expr.parse tokens scope.reading with
  | error error => exact .pure _
  | ok expr => exact evaluateIn_keeps resolved (fun _ => .pure _) false expr

theorem value_plain (resolved : ∀ name, Keeps holds (resolve name).run) (text : String) :
    Ensures holds (scope.value resolve (tokenize text)) Plain := by
  unfold value
  split
  · exact .pure plain_none
  · split
    · next body read =>
      refine .pure fun _ same => ?_
      cases same
      exact Constant.string?_oneLine read
    · split
      · exact .pure fun _ impossible => by cases impossible
      · refine (integer_keeps resolved _).bind fun result _ => ?_
        cases result with
        | ok value => exact .pure (plain_integer value)
        | error error => exact .pure plain_none

theorem constantValue_plain
    (resolved : ∀ name, Keeps (Shaped symbols) (resolve name).run) (name : String)
    (tokens : List String) :
    Ensures (Shaped symbols) (scope.constantValue resolve name tokens) Plain :=
  (value_plain resolved _).bind fun _ fine _ shaped => ⟨fine, shaped.insertConstant name fine⟩

theorem resolveIn_keeps (resolved : ∀ name, Keeps holds (resolve name).run)
    (done : List (String × Option Int)) (name : String) :
    Keeps holds (resolveIn done resolve name).run := by
  unfold resolveIn
  split
  · exact .pure _
  · exact .pure _
  · exact resolved name

theorem assigned_keeps (resolved : ∀ name, Keeps holds (resolve name).run)
    (done : List (String × Option Int)) (following : Option Int) (given : Assigned) :
    Keeps holds (scope.assigned resolve done following given) := by
  cases given with
  | implicit => exact .pure _
  | number n => exact .pure _
  | text expression =>
    refine (integer_keeps (resolveIn_keeps resolved done) _).bind fun result _ => ?_
    cases result with
    | ok value => exact .pure trivial
    | error error => exact .pure trivial

theorem enumeratorsFrom_length (resolved : ∀ name, Keeps holds (resolve name).run)
    (values : List Enumerator) (done : List (String × Option Int)) (following : Option Int) :
    Ensures holds (scope.enumeratorsFrom resolve done following values) fun result =>
      result.length = done.length + values.length := by
  induction values generalizing done following with
  | nil => exact .pure rfl
  | cons e rest ih =>
    refine (assigned_keeps resolved done following e.value).bind fun given _ => ?_
    refine (ih _ _).mono fun result length => ?_
    rw [length, List.length_append, List.length_singleton, List.length_cons]
    omega

theorem enumeratorValues_length (listed : Symbol.Listed symbols scope.table)
    (resolved : ∀ name, Keeps (Shaped symbols) (resolve name).run) {symbol : Symbol}
    (member : symbol ∈ symbols) :
    Ensures (Shaped symbols) (scope.enumeratorValues resolve symbol) fun values =>
      values.length = symbol.item.enumerators.length := by
  refine (enumeratorsFrom_length resolved symbol.item.enumerators [] (some 0)).bind
    fun values length memo shaped => ?_
  have whole : values.length = symbol.item.enumerators.length := by simpa using length
  exact ⟨whole, shaped.insertEnum listed member whole⟩

/-! ### Names -/

theorem constantBy_plain {name : String}
    (nested : ∀ pursuit ∈ scope.pursuits, pursuit ∉ pursued → ∀ inner,
      Keeps (Shaped symbols) (scope.resolve (pursuit :: pursued) inner).run) :
    Ensures (Shaped symbols) (scope.constantBy (scope.follow pursued) name) Plain := by
  intro memo shaped
  cases known : memo.constants.get? name with
  | some result =>
    rw [constantBy_known known]
    exact ⟨shaped.plain name result known, shaped⟩
  | none =>
    rw [constantBy_lacking known]
    cases found : scope.table.constant? name with
    | none =>
      rw [newConstant_absent found]
      exact ⟨plain_none, shaped⟩
    | some tokens =>
      by_cases new : .constant name ∈ pursued
      · rw [newConstant_pursued new]
        exact ⟨plain_none, shaped⟩
      · rw [newConstant_found found new]
        have inner := nested _ (constant_mem_pursuits found) new
        exact constantValue_plain inner name tokens memo shaped

theorem enumValuesBy_keeps (listed : Symbol.Listed symbols scope.table) {symbol : Symbol}
    (member : symbol ∈ symbols) {inner : Option (String → Evaluating IntValue)}
    (resolved : ∀ resolve ∈ inner, ∀ name, Keeps (Shaped symbols) (resolve name).run) :
    Keeps (Shaped symbols) (scope.enumValuesBy inner symbol).run := by
  intro memo shaped
  cases known : memo.enums.get? symbol.serial with
  | some values =>
    rw [enumValuesBy_known known]
    exact ⟨trivial, shaped⟩
  | none =>
    rw [enumValuesBy_lacking known]
    cases inner with
    | none => exact ⟨trivial, shaped⟩
    | some resolve =>
      exact ⟨trivial,
        (enumeratorValues_length listed (resolved resolve rfl) member memo shaped).2⟩

theorem enumeratorBy_keeps (listed : Symbol.Listed symbols scope.table) {name : String}
    (nested : ∀ pursuit ∈ scope.pursuits, pursuit ∉ pursued → ∀ inner,
      Keeps (Shaped symbols) (scope.resolve (pursuit :: pursued) inner).run) :
    Keeps (Shaped symbols) (scope.enumeratorBy (scope.follow pursued) name).run := by
  unfold enumeratorBy
  split
  · exact .pure _
  · next symbol e found =>
    rw [map_eq_pure_bind]
    have member : symbol ∈ symbols := listed.indexed _ _ found
    refine Keeps.bindE (enumValuesBy_keeps listed member fun resolve inside => ?_)
      fun values => .pure _
    unfold follow at inside
    split at inside
    · cases inside
    · next new =>
      cases inside
      exact nested _ (enum_mem_pursuits found) new

theorem resolve_keeps (listed : Symbol.Listed symbols scope.table) (pursued : List Pursuit)
    (name : String) : Keeps (Shaped symbols) (scope.resolve pursued name).run := by
  have nested : ∀ pursuit ∈ scope.pursuits, pursuit ∉ pursued → ∀ inner,
      Keeps (Shaped symbols) (scope.resolve (pursuit :: pursued) inner).run :=
    fun pursuit member new inner => resolve_keeps listed (pursuit :: pursued) inner
  rw [resolve_eq]
  refine Ensures.bindLift (constantBy_plain nested) fun result _ => ?_
  cases result with
  | some result => cases result <;> exact .pure trivial
  | none =>
    refine (enumeratorBy_keeps listed nested).bindE fun value => ?_
    cases value <;> exact .pure _
termination_by unseen scope.pursuits pursued
decreasing_by exact unseen_cons_lt member new

/-! ### Requests -/

variable (listed : Symbol.Listed symbols scope.table)

include listed

theorem evaluateConstant_plain (name : String) :
    Ensures (Shaped symbols) (scope.evaluateConstant name) Plain :=
  constantBy_plain fun pursuit _ _ inner => resolve_keeps listed [pursuit] inner

theorem evaluateEnum_length {symbol : Symbol} (member : symbol ∈ symbols) :
    Ensures (Shaped symbols) (scope.evaluateEnum symbol) fun values =>
      values.length = symbol.item.enumerators.length := by
  intro memo shaped
  cases known : memo.enums.get? symbol.serial with
  | some values =>
    rw [evaluateEnum_known known]
    exact ⟨shaped.counted symbol member values known, shaped⟩
  | none =>
    rw [evaluateEnum_lacking known]
    exact enumeratorValues_length listed (resolve_keeps listed _) member memo shaped

theorem evaluateExtent_keeps (extent : Extent) :
    Keeps (Shaped symbols) (scope.evaluateExtent extent) := by
  cases extent with
  | flexible => exact .pure _
  | count n => exact .pure _
  | text expression =>
    refine (value_plain (resolve_keeps listed []) expression).bind fun result _ => ?_
    split
    · exact .pure trivial
    · exact .pure trivial

end ConstantScope

end CBindings
