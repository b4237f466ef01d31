import CBindings.Proofs.Constant.Counting
import CBindings.Proofs.Constant.Replay
import CBindings.Proofs.Constant.Stage

/-! Evaluation in the midst of other evaluations. Whatever is pursued already and whatever is
remembered, a grounded constant gets the value that it has in the end: a pursuit that blocks one of
its names lies on a cycle with it, and no constant of such a cycle gets its value before the others. -/

namespace CBindings

open ConstantMemo

namespace ConstantScope

variable {scope : ConstantScope} {symbols : List Symbol} {pursued : List Pursuit} {p q r : Pursuit}
  {name : String}

/-- The results of evaluators that have answered nothing before. -/
def fresh (scope : ConstantScope) (symbols : List Symbol) : Results where
  constant name := (scope.evaluateConstant name {}).1
  enum serial :=
    match symbols.find? (·.serial = serial) with
    | some symbol => (scope.evaluateEnum symbol {}).1
    | none => []

abbrev early (scope : ConstantScope) (symbols : List Symbol) (k : Nat) : Results :=
  ⟨scope.stage (scope.fresh symbols) k, (scope.fresh symbols).enum⟩

/-- The results in the end. -/
noncomputable abbrev final (scope : ConstantScope) (symbols : List Symbol) : Results :=
  scope.settled (scope.fresh symbols)

/-- Whether a constant that cannot recover has a value after some rounds. -/
def Valued (scope : ConstantScope) (symbols : List Symbol) (k : Nat) : Pursuit → Prop
  | .constant name => scope.table.enumerator? name = none ∧
      (scope.stage (scope.fresh symbols) k name).isSome
  | .enum _ => False

/-- One constant gets its value later than another one, or never. -/
def Needs (scope : ConstantScope) (symbols : List Symbol) (p q : Pursuit) : Prop :=
  ∀ k, scope.Valued symbols k p → ∃ j < k, scope.Valued symbols j q

theorem Needs.trans (first : scope.Needs symbols p q) (second : scope.Needs symbols q r) :
    scope.Needs symbols p r := by
  intro k valued
  obtain ⟨j, less, middle⟩ := first k valued
  obtain ⟨i, lesser, last⟩ := second j middle
  exact ⟨i, Nat.lt_trans lesser less, last⟩

theorem Needs.never (needs : scope.Needs symbols p p) (k : Nat) : ¬ scope.Valued symbols k p := by
  induction k using Nat.strongRecOn with
  | ind k ih =>
    intro valued
    obtain ⟨j, less, earlier⟩ := needs k valued
    exact ih j less earlier

/-- What is asked for next, while other things are pursued: they all lead to it, and those on a
cycle with it cannot get a value before it. -/
structure Ready (scope : ConstantScope) (symbols : List Symbol) (pursued : List Pursuit)
    (p : Pursuit) : Prop where
  behind : ∀ q ∈ pursued, scope.Reaches symbols q p
  needed : scope.Grounded symbols p → ∀ q ∈ pursued, scope.Reaches symbols p q →
    scope.Needs symbols q p

theorem Ready.nil : scope.Ready symbols [] p where
  behind := List.forall_mem_nil _
  needed _ := List.forall_mem_nil _

theorem Ready.next (ready : scope.Ready symbols pursued p) (refers : scope.Refers symbols p q)
    (needs : scope.Grounded symbols q → scope.Reaches symbols q p → scope.Needs symbols p q) :
    scope.Ready symbols (p :: pursued) q where
  behind other member := by
    rcases List.mem_cons.mp member with rfl | member
    · exact .single refers
    · exact (ready.behind other member).tail refers
  needed grounded other member back := by
    rcases List.mem_cons.mp member with rfl | member
    · exact needs grounded back
    · have reaches := back.trans (ready.behind other member)
      have earlier := ready.needed (grounded.of_reaches reaches) other member (.head refers back)
      exact earlier.trans (needs grounded reaches)

/-- What a name stands for inside something else is grounded. -/
def Clear (scope : ConstantScope) (symbols : List Symbol) (p : Pursuit) (name : String) : Prop :=
  ∀ q, p ≠ q → scope.StandsFor name q → scope.Grounded symbols q

theorem Grounded.clear (grounded : scope.Grounded symbols p)
    (named : name ∈ scope.namesOf symbols p) : scope.Clear symbols p name :=
  fun _ different stands => grounded.of_reaches (.single ⟨different, name, named, stands⟩)

abbrev Numbered (scope : ConstantScope) (symbols : List Symbol) (symbol : Symbol)
    (values : List (String × Option Int)) : Prop :=
  scope.Numbering (scope.meaningIn (scope.final symbols) (.enum symbol.serial))
    (scope.Clear symbols (.enum symbol.serial)) symbol.item.enumerators values

/-- Right results are remembered of what is grounded, and none of what is pursued. -/
structure Faithful (scope : ConstantScope) (symbols : List Symbol) (pursued : List Pursuit)
    (memo : ConstantMemo) : Prop where
  constants : ∀ name result, memo.constants.get? name = some result →
    scope.Grounded symbols (.constant name) → result = (scope.final symbols).constant name
  enums : ∀ serial values, memo.enums.get? serial = some values →
    scope.Grounded symbols (.enum serial) → values = (scope.final symbols).enum serial
  numbered : ∀ symbol ∈ symbols, ∀ values, memo.enums.get? symbol.serial = some values →
    scope.Numbered symbols symbol values
  proper : memo.Proper scope.table
  lacks : ∀ p ∈ pursued, memo.Lacks p

theorem Faithful.empty (pursued : List Pursuit) : scope.Faithful symbols pursued {} where
  constants _ _ known := by cases known
  enums _ _ known := by cases known
  numbered _ _ _ known := by cases known
  proper _ _ known := by cases known
  lacks p _ := by cases p <;> rfl

theorem Faithful.pursue {memo : ConstantMemo} (faithful : scope.Faithful symbols pursued memo)
    (lacks : memo.Lacks p) : scope.Faithful symbols (p :: pursued) memo where
  constants := faithful.constants
  enums := faithful.enums
  numbered := faithful.numbered
  proper := faithful.proper
  lacks := by
    intro other member
    rcases List.mem_cons.mp member with rfl | member
    · exact lacks
    · exact faithful.lacks other member

theorem Faithful.learn_constant {memo : ConstantMemo} {words : List String}
    {result : Option ConstantValue}
    (faithful : scope.Faithful symbols (.constant name :: pursued) memo)
    (new : .constant name ∉ pursued) (declared : scope.table.constant? name = some words)
    (right : scope.Grounded symbols (.constant name) →
      result = (scope.final symbols).constant name) :
    scope.Faithful symbols pursued
      { memo with constants := memo.constants.insert name result } := by
  have learns := learns_constant new declared (faithful.lacks _ List.mem_cons_self) result
  refine ⟨fun other value known grounded => ?_, faithful.enums, faithful.numbered,
    learns.proper faithful.proper, fun p member =>
      learns.spares p member (faithful.lacks p (List.mem_cons_of_mem _ member))⟩
  by_cases same : other = name
  · subst same
    rw [OrderedMap.get?_insert_self] at known
    cases known
    exact right grounded
  · rw [OrderedMap.get?_insert_ne _ _ same] at known
    exact faithful.constants other value known grounded

theorem Faithful.learn_enum {memo : ConstantMemo} {serial : Nat}
    {values : List (String × Option Int)}
    (faithful : scope.Faithful symbols (.enum serial :: pursued) memo)
    (new : .enum serial ∉ pursued)
    (right : scope.Grounded symbols (.enum serial) → values = (scope.final symbols).enum serial)
    (numbered : ∀ symbol ∈ symbols, symbol.serial = serial →
      scope.Numbered symbols symbol values) :
    scope.Faithful symbols pursued { memo with enums := memo.enums.insert serial values } := by
  have learns : Learns scope pursued memo _ :=
    learns_enum new (faithful.lacks _ List.mem_cons_self) values
  refine ⟨faithful.constants, fun other found known grounded => ?_,
    fun symbol member found known => ?_, faithful.proper,
    fun p member => learns.spares p member (faithful.lacks p (List.mem_cons_of_mem _ member))⟩
  · by_cases same : other = serial
    · subst same
      rw [OrderedMap.get?_insert_self] at known
      cases known
      exact right grounded
    · rw [OrderedMap.get?_insert_ne _ _ same] at known
      exact faithful.enums other found known grounded
  · by_cases same : symbol.serial = serial
    · subst same
      rw [OrderedMap.get?_insert_self] at known
      cases known
      exact numbered symbol member rfl
    · rw [OrderedMap.get?_insert_ne _ _ same] at known
      exact faithful.numbered symbol member found known

def Settles (scope : ConstantScope) (symbols : List Symbol) (pursued : List Pursuit) :
    Pursuit → Prop
  | .constant name => ∀ words, scope.table.constant? name = some words →
      ∀ memo, scope.Faithful symbols (.constant name :: pursued) memo →
        let after := scope.constantValue (scope.resolve (.constant name :: pursued)) name words memo
        (scope.Grounded symbols (.constant name) →
          after.1 = (scope.final symbols).constant name) ∧ scope.Faithful symbols pursued after.2
  | .enum serial => ∀ symbol ∈ symbols, symbol.serial = serial →
      ∀ memo, scope.Faithful symbols (.enum serial :: pursued) memo →
        let after := scope.enumeratorValues (scope.resolve (.enum serial :: pursued)) symbol memo
        (scope.Grounded symbols (.enum serial) →
          after.1 = (scope.final symbols).enum serial) ∧ scope.Faithful symbols pursued after.2

/-! ### Names -/

theorem final_absent (absent : scope.table.constant? name = none) :
    (scope.final symbols).constant name = none := by
  change scope.limit (scope.fresh symbols) name = none
  cases found : scope.table.enumerator? name with
  | none => exact limit_absent found absent
  | some entry =>
    rw [limit_recovers (by rw [found]; rfl)]
    change (scope.constantBy (scope.follow []) name {}).1 = none
    have lacks : ({} : ConstantMemo).Lacks (.constant name) := rfl
    rw [constantBy_lacking lacks, newConstant_absent absent]
    rfl

/-- What leads to itself through others can have no value, if it is grounded. -/
theorem final_pursued (ready : scope.Ready symbols pursued (.constant name))
    (member : .constant name ∈ pursued) (grounded : scope.Grounded symbols (.constant name))
    (fails : ¬ scope.Recovers (.constant name)) : (scope.final symbols).constant name = none := by
  have plain : scope.table.enumerator? name = none := by
    simpa [Recovers] using fails
  rw [Option.eq_none_iff_forall_ne_some]
  intro result known
  obtain ⟨k, reached⟩ := limit_eq_some.mp known
  have needs := ready.needed grounded _ member .refl
  exact needs.never k ⟨plain, by rw [reached]; rfl⟩

section

variable (ready : scope.Ready symbols pursued p) (named : name ∈ scope.namesOf symbols p)
  (hoped : ∀ k, scope.Grounded symbols p ∧ scope.Valued symbols (k + 1) p →
    ∃ v, scope.meaningIn (scope.early symbols k) p name = .ok v)
  (inner : ∀ q, scope.Refers symbols p q → q ∉ p :: pursued →
    scope.Ready symbols (p :: pursued) q → scope.Settles symbols (p :: pursued) q)

include ready named hoped

theorem ready_named (different : p ≠ q) (stands : scope.StandsFor name q) :
    scope.Ready symbols (p :: pursued) q := by
  have refers : scope.Refers symbols p q := ⟨different, name, named, stands⟩
  refine ready.next refers fun grounded back => ?_
  -- both are constants that take part in a cycle
  have groundedToo := grounded.of_reaches back
  obtain ⟨fails, failsToo⟩ := groundedToo.not_recovers refers back
  cases q with
  | enum serial => exact absurd trivial failsToo
  | constant other =>
    obtain ⟨rfl, declared⟩ := stands
    have plain : scope.table.enumerator? other = none := by simpa [Recovers] using failsToo
    intro k valued
    cases p with
    | enum serial => exact valued.elim
    | constant asking =>
      cases k with
      | zero =>
        rw [Valued, stage_zero valued.1] at valued
        cases valued.2
      | succ k =>
        obtain ⟨v, meaning⟩ := hoped k ⟨groundedToo, valued⟩
        obtain ⟨-, w, known, -⟩ := (meaningIn_plain plain).mp meaning
        have known : scope.stage (scope.fresh symbols) k other = some (.integer w) := known
        exact ⟨k, Nat.lt_succ_self k, plain, by rw [known]; rfl⟩

include inner

theorem constantBy_ensures :
    Ensures (scope.Faithful symbols (p :: pursued))
      (scope.constantBy (scope.follow (p :: pursued)) name) fun result =>
        scope.Clear symbols p name →
          result = if p = .constant name then none else (scope.final symbols).constant name := by
  intro memo faithful
  cases known : memo.constants.get? name with
  | some result =>
    rw [constantBy_known known]
    refine ⟨fun clear => ?_, faithful⟩
    obtain ⟨words, declared⟩ := faithful.proper name result known
    have different : p ≠ .constant name := by
      rintro rfl
      rw [show memo.constants.get? name = none from faithful.lacks _ List.mem_cons_self] at known
      cases known
    rw [if_neg different]
    exact faithful.constants name result known
      (clear _ different ⟨rfl, by rw [declared]; rfl⟩)
  | none =>
    rw [constantBy_lacking known]
    cases declared : scope.table.constant? name with
    | none =>
      rw [newConstant_absent declared]
      refine ⟨fun _ => ?_, faithful⟩
      rw [final_absent declared, ite_self]
      rfl
    | some words =>
      have isDeclared : (scope.table.constant? name).isSome := by rw [declared]; rfl
      by_cases own : p = .constant name
      · rw [newConstant_pursued (own ▸ List.mem_cons_self), if_pos own]
        exact ⟨fun _ => rfl, faithful⟩
      · have readyToo := ready_named ready named hoped own ⟨rfl, isDeclared⟩
        have toName : scope.Refers symbols p (.constant name) := ⟨own, name, named, rfl, isDeclared⟩
        rw [if_neg own]
        by_cases new : .constant name ∈ p :: pursued
        · rw [newConstant_pursued new]
          refine ⟨fun clear => ?_, faithful⟩
          have behind : scope.Reaches symbols (.constant name) p := by
            rcases List.mem_cons.mp new with same | member
            · exact absurd same.symm own
            · exact ready.behind _ member
          have grounded := clear _ own ⟨rfl, isDeclared⟩
          exact (final_pursued readyToo new grounded
            ((grounded.of_reaches behind).not_recovers toName behind).2).symm
        · rw [newConstant_found declared new]
          obtain ⟨right, still⟩ := inner _ toName new readyToo words declared memo
            (faithful.pursue known)
          exact ⟨fun clear => right (clear _ own ⟨rfl, isDeclared⟩), still⟩

theorem enumeratorBy_ensures (listed : Symbol.Listed symbols scope.table) :
    Ensures (scope.Faithful symbols (p :: pursued))
      (scope.enumeratorBy (scope.follow (p :: pursued)) name).run fun result =>
        scope.Clear symbols p name → result = scope.enumeratorIn (scope.final symbols) p name := by
  unfold enumeratorBy
  split
  · next absent =>
    rw [enumeratorIn, absent]
    exact .pure fun _ => rfl
  · next symbol value found =>
    have stands : scope.StandsFor name (.enum symbol.serial) := ⟨_, found, rfl⟩
    have values : Ensures (scope.Faithful symbols (p :: pursued))
        (scope.enumValuesBy (scope.follow (p :: pursued) (.enum symbol.serial)
          (enum_mem_pursuits found)) symbol).run fun result =>
          scope.Clear symbols p name → result =
            if p = .enum symbol.serial then .error .ownEnum
            else .ok ((scope.final symbols).enum symbol.serial) := by
      intro memo faithful
      have refers : p ≠ .enum symbol.serial → scope.Refers symbols p (.enum symbol.serial) :=
        fun different => ⟨different, name, named, stands⟩
      cases known : memo.enums.get? symbol.serial with
      | some result =>
        rw [enumValuesBy_known known]
        refine ⟨fun clear => ?_, faithful⟩
        have different : p ≠ .enum symbol.serial := by
          rintro rfl
          rw [show memo.enums.get? symbol.serial = none from
            faithful.lacks _ List.mem_cons_self] at known
          cases known
        rw [if_neg different, faithful.enums _ result known (clear _ different stands)]
      | none =>
        rw [enumValuesBy_lacking known, follow]
        by_cases own : p = .enum symbol.serial
        · have member : .enum symbol.serial ∈ p :: pursued := own ▸ List.mem_cons_self
          rw [if_pos member, if_pos own]
          exact ⟨fun _ => rfl, faithful⟩
        · rw [if_neg own]
          by_cases new : .enum symbol.serial ∈ p :: pursued
          · rw [if_pos new]
            refine ⟨fun clear => ?_, faithful⟩
            have behind : scope.Reaches symbols (.enum symbol.serial) p := by
              rcases List.mem_cons.mp new with same | member
              · exact absurd same.symm own
              · exact ready.behind _ member
            have grounded := (clear _ own stands).of_reaches behind
            exact absurd trivial (grounded.not_recovers (refers own) behind).2
          · rw [if_neg new]
            have readyToo := ready_named ready named hoped own stands
            obtain ⟨right, still⟩ := inner _ (refers own) new readyToo symbol
              (listed.indexed name _ found) rfl memo (faithful.pursue known)
            exact ⟨fun clear => congrArg _ (right (clear _ own stands)), still⟩
    have expected : scope.enumeratorIn (scope.final symbols) p name =
        (if p = .enum symbol.serial then .error .ownEnum
          else .ok ((scope.final symbols).enum symbol.serial)) >>= fun values =>
            .ok (valueOf values name) := by
      simp only [enumeratorIn, found]
      split <;> rfl
    rw [map_eq_pure_bind, expected]
    exact values.bindE fun values _ => .pure fun _ => rfl

theorem resolve_ensures (listed : Symbol.Listed symbols scope.table) :
    Ensures (scope.Faithful symbols (p :: pursued)) (scope.resolve (p :: pursued) name).run
      fun result => scope.Clear symbols p name →
        result = scope.meaningIn (scope.final symbols) p name := by
  rw [resolve_eq]
  refine (constantBy_ensures ready named hoped inner).bindLift fun result known => ?_
  cases result with
  | some result =>
    cases result with
    | integer value => exact .pure fun clear => by rw [meaningIn, ← known clear]
    | float x => exact .pure fun clear => by rw [meaningIn, ← known clear]
    | text body => exact .pure fun clear => by rw [meaningIn, ← known clear]
  | none =>
    refine Ensures.mono (?_ : Ensures _ _ fun result => scope.Clear symbols p name →
      result = scope.enumeratorIn (scope.final symbols) p name >>= asEnumerator name)
      fun result right clear => ?_
    · refine (enumeratorBy_ensures ready named hoped inner listed).bindE fun value _ => ?_
      cases value with
      | some n => exact .pure fun _ => rfl
      | none => exact .pure fun _ => rfl
    · rw [right clear, meaningIn, ← known clear]

end

/-! ### Constants and enums -/

def AsksRightly (scope : ConstantScope) (symbols : List Symbol) (pursued : List Pursuit)
    (p : Pursuit) : Prop :=
  ∀ name ∈ scope.namesOf symbols p,
    (∀ k, scope.Grounded symbols p ∧ scope.Valued symbols (k + 1) p →
      ∃ v, scope.meaningIn (scope.early symbols k) p name = .ok v) →
    Ensures (scope.Faithful symbols (p :: pursued)) (scope.resolve (p :: pursued) name).run
      fun result => scope.Clear symbols p name →
        result = scope.meaningIn (scope.final symbols) p name

theorem value_agrees {words : List String} (declared : scope.table.constant? name = some words)
    (asks : scope.AsksRightly symbols pursued (.constant name)) :
    Ensures (scope.Faithful symbols (.constant name :: pursued))
      (scope.value (scope.resolve (.constant name :: pursued))
        (tokenize (" ".intercalate words))) fun result =>
        scope.Grounded symbols (.constant name) →
          result = scope.valueUnder (scope.meaningIn (scope.final symbols) (.constant name))
            (tokenize (" ".intercalate words)) := by
  have below : ∀ hope, (∃ k, (scope.Grounded symbols (.constant name) ∧
      scope.Valued symbols (k + 1) (.constant name)) ∧
        hope = scope.meaningIn (scope.early symbols k) (.constant name)) →
      ∀ n v, hope n = .ok v →
        scope.meaningIn (scope.final symbols) (.constant name) n = .ok v := by
    rintro _ ⟨k, -, rfl⟩ n v
    exact meaningIn_settled
  have named : ∀ n ∈ scope.namesIn (tokenize (" ".intercalate words)),
      n ∈ scope.namesOf symbols (.constant name) := by
    intro n member
    rw [namesOf, declared]
    exact member
  refine value_ensures below (fun n member hoped => ?_) ?_
  · exact (asks n (named n member) fun k valued => hoped _ ⟨k, valued, rfl⟩).mono
      fun result right grounded => right (grounded.clear (named n member))
  · rintro _ ⟨k, ⟨grounded, plain, valued⟩, rfl⟩
    rw [stage_succ plain, declared] at valued
    exact ⟨grounded, valued⟩

theorem find?_listed (listed : Symbol.Listed symbols scope.table) {symbol : Symbol}
    (member : symbol ∈ symbols) : symbols.find? (·.serial = symbol.serial) = some symbol := by
  cases found : symbols.find? (·.serial = symbol.serial) with
  | none =>
    rw [List.find?_eq_none] at found
    exact absurd (decide_eq_true rfl) (found symbol member)
  | some other =>
    have same : other.serial = symbol.serial := by simpa using List.find?_some found
    exact congrArg some
      (listed.identified other (List.mem_of_find?_eq_some found) symbol member same)

theorem namesOf_enum (listed : Symbol.Listed symbols scope.table) {symbol : Symbol}
    (member : symbol ∈ symbols) :
    scope.namesOf symbols (.enum symbol.serial) = scope.namesFrom [] symbol.item.enumerators := by
  simp only [namesOf, find?_listed listed member]

theorem enumerators_agree (listed : Symbol.Listed symbols scope.table) {symbol : Symbol}
    (member : symbol ∈ symbols)
    (asks : scope.AsksRightly symbols pursued (.enum symbol.serial)) :
    Ensures (scope.Faithful symbols (.enum symbol.serial :: pursued))
      (scope.enumeratorsFrom (scope.resolve (.enum symbol.serial :: pursued)) [] (some 0)
        symbol.item.enumerators) fun result =>
        scope.Grounded symbols (.enum symbol.serial) →
          result = scope.enumeratorsUnder
            (scope.meaningIn (scope.final symbols) (.enum symbol.serial)) [] (some 0)
            symbol.item.enumerators := by
  refine enumeratorsFrom_ensures [] (some 0) fun n named => ?_
  have inside : n ∈ scope.namesOf symbols (.enum symbol.serial) :=
    namesOf_enum listed member ▸ named
  exact (asks n inside fun _ valued => valued.2.elim).mono
    fun result right grounded => right (grounded.clear inside)

theorem enumerators_numbered (listed : Symbol.Listed symbols scope.table) {symbol : Symbol}
    (member : symbol ∈ symbols)
    (asks : scope.AsksRightly symbols pursued (.enum symbol.serial)) :
    Ensures (scope.Faithful symbols (.enum symbol.serial :: pursued))
      (scope.enumeratorsFrom (scope.resolve (.enum symbol.serial :: pursued)) [] (some 0)
        symbol.item.enumerators) (scope.Numbered symbols symbol) :=
  numbering_ensures fun n named =>
    asks n (namesOf_enum listed member ▸ named) fun _ valued => valued.2.elim

theorem fresh_constant {words : List String} (declared : scope.table.constant? name = some words) :
    (scope.fresh symbols).constant name =
      (scope.value (scope.resolve [.constant name]) (tokenize (" ".intercalate words)) {}).1 := by
  have lacks : ({} : ConstantMemo).Lacks (.constant name) := rfl
  change (scope.constantBy (scope.follow []) name {}).1 = _
  rw [constantBy_lacking lacks, newConstant_found declared List.not_mem_nil]
  rfl

theorem fresh_enum (listed : Symbol.Listed symbols scope.table) {symbol : Symbol}
    (member : symbol ∈ symbols) :
    (scope.fresh symbols).enum symbol.serial =
      (scope.enumeratorsFrom (scope.resolve [.enum symbol.serial]) [] (some 0)
        symbol.item.enumerators {}).1 := by
  have lacks : ({} : ConstantMemo).Lacks (.enum symbol.serial) := rfl
  simp only [fresh, find?_listed listed member]
  rw [evaluateEnum_lacking lacks]
  rfl

/-- `alone` is needed for a constant that an enumerator stands in for: its value in the end is the
one that it gets when nothing else is pursued. -/
theorem constant_settles (new : .constant name ∉ pursued)
    (asks : scope.AsksRightly symbols pursued (.constant name))
    (alone : scope.Grounded symbols (.constant name) → scope.Recovers (.constant name) →
      scope.AsksRightly symbols [] (.constant name)) :
    scope.Settles symbols pursued (.constant name) := by
  intro words declared memo faithful
  obtain ⟨agrees, still⟩ := value_agrees declared asks memo faithful
  have right : scope.Grounded symbols (.constant name) →
      (scope.value (scope.resolve (.constant name :: pursued))
        (tokenize (" ".intercalate words)) memo).1 = (scope.final symbols).constant name := by
    intro grounded
    rw [agrees grounded]
    change _ = scope.limit (scope.fresh symbols) name
    cases found : scope.table.enumerator? name with
    | none => exact (limit_eq found declared).symm
    | some entry =>
      have shadowed : (scope.table.enumerator? name).isSome := by rw [found]; rfl
      have first := value_agrees declared (alone grounded shadowed) {} (.empty _)
      rw [limit_recovers shadowed, fresh_constant declared]
      exact (first.1 grounded).symm
  exact ⟨right, still.learn_constant new declared right⟩

theorem enum_settles (listed : Symbol.Listed symbols scope.table) {serial : Nat}
    (new : .enum serial ∉ pursued) (asks : scope.AsksRightly symbols pursued (.enum serial))
    (alone : scope.Grounded symbols (.enum serial) →
      scope.AsksRightly symbols [] (.enum serial)) :
    scope.Settles symbols pursued (.enum serial) := by
  rintro symbol member rfl memo faithful
  obtain ⟨agrees, still⟩ := enumerators_agree listed member asks memo faithful
  have right : scope.Grounded symbols (.enum symbol.serial) →
      (scope.enumeratorsFrom (scope.resolve (.enum symbol.serial :: pursued)) [] (some 0)
        symbol.item.enumerators memo).1 = (scope.final symbols).enum symbol.serial := by
    intro grounded
    have first := enumerators_agree listed member (alone grounded) {} (.empty _)
    rw [agrees grounded, ← first.1 grounded]
    exact (fresh_enum listed member).symm
  refine ⟨right, still.learn_enum new right fun other among same => ?_⟩
  obtain rfl := listed.identified other among symbol member same
  exact (enumerators_numbered listed member asks memo faithful).1

/-! ### All of them -/

/-- On the way to what is asked for next either less can be reached or less is left to pursue. -/
theorem next_descends (candidate : p ∈ scope.candidates symbols) (new : p ∉ pursued)
    (refers : scope.Refers symbols p q) :
    Prod.Lex (· < ·) (· < ·)
      (scope.weight symbols q, unseen scope.pursuits (p :: pursued))
      (scope.weight symbols p, unseen scope.pursuits pursued) := by
  by_cases back : scope.Reaches symbols q p
  · have member : p ∈ scope.pursuits := by
      rcases back.cases_tail with same | ⟨last, -, step⟩
      · exact absurd same refers.1
      · exact mem_pursuits step
    have less := unseen_cons_lt member new
    rcases Nat.lt_or_eq_of_le (weight_le (.single refers)) with lighter | equal
    · exact .left _ _ lighter
    · rw [equal]
      exact .right _ less
  · exact .left _ _ (weight_lt candidate refers back)

theorem mem_candidates (listed : Symbol.Listed symbols scope.table)
    (refers : scope.Refers symbols p q) : q ∈ scope.candidates symbols := by
  obtain ⟨-, name, -, stands⟩ := refers
  cases q with
  | constant other =>
    obtain ⟨rfl, declared⟩ := stands
    obtain ⟨words, found⟩ := Option.isSome_iff_exists.mp declared
    exact List.mem_append_left _
      (List.mem_map_of_mem (SymbolTable.mem_names_of_constant? found))
  | enum serial =>
    obtain ⟨found, entry, rfl⟩ := stands
    exact List.mem_append_right _ (List.mem_map.mpr ⟨found.1, listed.indexed name found entry, rfl⟩)

theorem settles (listed : Symbol.Listed symbols scope.table) (p : Pursuit)
    (candidate : p ∈ scope.candidates symbols) (pursued : List Pursuit)
    (ready : scope.Ready symbols pursued p) (new : p ∉ pursued) :
    scope.Settles symbols pursued p := by
  have asks : scope.AsksRightly symbols pursued p := by
    intro name named hoped
    refine resolve_ensures ready named hoped (fun q refers newToo readyToo => ?_) listed
    exact settles listed q (mem_candidates listed refers) (p :: pursued) readyToo newToo
  have alone : scope.Grounded symbols p → scope.Recovers p → scope.AsksRightly symbols [] p := by
    intro grounded recovers name named hoped
    refine resolve_ensures .nil named hoped (fun q refers newToo readyToo => ?_) listed
    have ahead : ¬ scope.Reaches symbols q p :=
      fun back => (grounded.not_recovers refers back).1 recovers
    have lighter := weight_lt candidate refers ahead
    exact settles listed q (mem_candidates listed refers) [p] readyToo newToo
  cases p with
  | constant name => exact constant_settles new asks alone
  | enum serial => exact enum_settles listed new asks fun grounded => alone grounded trivial
termination_by (scope.weight symbols p, unseen scope.pursuits pursued)
decreasing_by
  · exact next_descends candidate new refers
  · exact .left _ _ lighter

end ConstantScope

end CBindings
