import CBindings.Proofs.SymbolTable.Emitted

/-! What a refused insertion leaves behind. No entry changes and no name changes its holder, but an
enum that is refused may have put enumerators into the index before the clash was found. -/

namespace CBindings

namespace SymbolTable

variable {table before after : SymbolTable} {symbol held other : Symbol} {key name header : String}
  {declaration : Declaration} {value : Enumerator} {values left : List Enumerator}
  {changes : List Change} {error : TableError}

structure SameAnswers (before after : SymbolTable) : Prop where
  names : after.names = before.names
  get? : ∀ name, after.get? name = before.get? name
  enumerator? : ∀ name, after.enumerator? name = before.enumerator? name
  emitsEnumerator : ∀ symbol name,
    after.emitsEnumerator symbol name = before.emitsEnumerator symbol name
  winners : ∀ header, after.winners header = before.winners header

def claimedFirst (table : SymbolTable) (symbol : Symbol) (values : List Enumerator) :
    List Enumerator :=
  (values.takeWhile fun value => (table.holder? value.name).all (·.agrees symbol)).filter
    fun value => (table.holder? value.name).isNone

/-- The enumerators that a refused declaration has put into the index. An enum with a name brings
all that are not there yet before its name is looked at, one without a name claims them one by one. -/
def leftovers (table : SymbolTable) (declaration : Declaration) : List Enumerator :=
  match declaration.item.qualifiedName with
  | some _ => declaration.item.enumerators.filter fun value =>
      !table.enumerators.contains value.name
  | none => table.claimedFirst ⟨table.inserted, declaration⟩ declaration.item.enumerators

/-! ### A claim on one name -/

theorem settle_refused (strict : table.policy = .error)
    (refused : (table.settle key symbol).2 = .error error) :
    (table.settle key symbol).1 = table := by
  unfold settle at refused ⊢
  cases entry : table.get? key with
  | none => simp [entry] at refused
  | some existing =>
    simp only [entry, clash, strict] at refused ⊢
    split
    · rfl
    · next differs =>
      rw [if_neg differs] at refused
      split
      · rfl
      · next shown =>
        rw [if_neg shown] at refused
        split
        · next waiting => simp [waiting] at refused
        · rfl

theorem claimName_refused (strict : table.policy = .error)
    (refused : (table.claimName key symbol).2 = .error error) :
    (table.claimName key symbol).1 = table := by
  unfold claimName at refused ⊢
  cases owned : table.free.get? key with
  | none =>
    simp only [owned] at refused
    exact settle_refused strict refused
  | some owner => simp only [clash, strict]

/-- What a refused declaration leaves: enumerators in the index, and if it is an enum without a name
the constants that it owns by then. -/
structure Leaves (symbol : Symbol) (left : List Enumerator) (before after : SymbolTable) : Prop where
  entries : after.entries = before.entries
  contributed : after.contributed = before.contributed
  free : ∀ name, after.free.get? name =
    if symbol.item.qualifiedName = none ∧ (left.find? (·.name = name)).isSome then some symbol
    else before.free.get? name
  enumerator? : ∀ name, after.enumerator? name =
    ((left.find? (·.name = name)).map (symbol, ·)).or (before.enumerator? name)

theorem Leaves.nothing (symbol : Symbol) (table : SymbolTable) : Leaves symbol [] table table :=
  ⟨rfl, rfl, fun _ => by simp, fun _ => rfl⟩

theorem unheld_iff : table.holder? name = none ↔
    table.get? name = none ∧ table.free.get? name = none := by
  simp [holder?]

/-! ### An enum without a name -/

/-- Once a constant is owned, the enum passes over further enumerators with its name. -/
theorem claimedFirst_own (vacant : table.holder? value.name = none) (values : List Enumerator) :
    (table.own symbol value).claimedFirst symbol values =
      (table.claimedFirst symbol values).filter fun later => later.name ≠ value.name := by
  have free : (fun later : Enumerator =>
        ((table.own symbol value).holder? later.name).all (·.agrees symbol)) =
      fun later => (table.holder? later.name).all (·.agrees symbol) := by
    funext later
    by_cases same : later.name = value.name
    · simp [holder?_own, same, vacant, symbol.agrees_self]
    · simp [holder?_own, same]
  simp only [claimedFirst, free, List.filter_filter]
  congr 1
  funext later
  by_cases same : later.name = value.name
  · simp [holder?_own, same]
  · simp [holder?_own, same]

theorem find?_without {name other : String} (different : name ≠ other)
    (values : List Enumerator) :
    (values.filter fun value => value.name ≠ other).find? (·.name = name) =
      values.find? (·.name = name) := by
  rw [List.find?_filter]
  congr 1
  funext value
  by_cases here : value.name = name
  · simp [here, different]
  · simp [here]

theorem Leaves.own_cons (anonymous : symbol.item.qualifiedName = none)
    (vacant : table.holder? value.name = none)
    (leaves : Leaves symbol (left.filter fun later => later.name ≠ value.name)
      (table.own symbol value) after) :
    Leaves symbol (value :: left) table after where
  entries := by
    have unused : table.entries.get? value.name = none := (unheld_iff.mp vacant).1
    exact leaves.entries.trans (OrderedMap.erase_of_absent unused)
  contributed := leaves.contributed
  free name := by
    rw [leaves.free]
    by_cases same : name = value.name
    · simp [anonymous, own, same]
    · rw [find?_without same, List.find?_cons_of_neg (by simpa using Ne.symm same)]
      simp only [own, OrderedMap.get?_insert_ne _ _ same]
  enumerator? name := by
    rw [leaves.enumerator?]
    by_cases same : name = value.name
    · have passed : (left.filter fun later => later.name ≠ value.name).find? (·.name = name) =
          none := by
        simp [same]
      rw [passed]
      simp [own, SymbolTable.enumerator?, same]
    · rw [find?_without same, List.find?_cons_of_neg (by simpa using Ne.symm same)]
      simp only [own, SymbolTable.enumerator?, OrderedMap.get?_insert_ne _ _ same]

theorem claimAll_refused (strict : table.policy = .error)
    (anonymous : symbol.item.qualifiedName = none)
    (refused : (table.claimAll symbol values).2 = .error error) :
    Leaves symbol (table.claimedFirst symbol values) table (table.claimAll symbol values).1 := by
  induction values generalizing table with
  | nil => cases refused
  | cons value rest ih =>
    rw [claimAll, claim] at refused ⊢
    cases holder : table.holder? value.name with
    | none =>
      simp only [holder] at refused ⊢
      have owns : table.claimedFirst symbol (value :: rest) =
          value :: table.claimedFirst symbol rest := by
        simp [claimedFirst, holder]
      have later : Leaves symbol ((table.own symbol value).claimedFirst symbol rest)
          (table.own symbol value) ((table.own symbol value).claimAll symbol rest).1 :=
        ih strict refused
      rw [claimedFirst_own holder] at later
      exact owns ▸ later.own_cons anonymous holder
    | some rival =>
      simp only [holder] at refused ⊢
      by_cases agrees : rival.agrees symbol
      · simp only [agrees, if_true] at refused ⊢
        have passes : table.claimedFirst symbol (value :: rest) =
            table.claimedFirst symbol rest := by
          simp [claimedFirst, holder, agrees]
        exact passes ▸ ih strict refused
      · have stops : table.claimedFirst symbol (value :: rest) = [] := by
          simp [claimedFirst, holder, agrees]
        simp only [agrees, Bool.false_eq_true, if_false, clash, strict]
        exact stops ▸ .nothing symbol table

/-! ### An enum with a name -/

/-- The index takes the first enumerator of each name that it does not have. -/
theorem get?_foldl_index (index : OrderedMap String (Symbol × Enumerator))
    (values : List Enumerator) (name : String) :
    (values.foldl (fun index value =>
      if index.contains value.name then index else index.insert value.name (symbol, value))
      index).get? name =
    (index.get? name).or ((values.find? (·.name = name)).map (symbol, ·)) := by
  induction values generalizing index with
  | nil => simp
  | cons value rest ih =>
    rw [List.foldl_cons, ih]
    by_cases same : value.name = name
    · subst same
      cases found : index.get? value.name with
      | none => simp [OrderedMap.contains, found]
      | some pair => simp [OrderedMap.contains, found]
    · rw [List.find?_cons_of_neg (by simpa using same)]
      split
      · rfl
      · rw [OrderedMap.get?_insert_ne _ _ (Ne.symm same)]

theorem leaves_index (known : symbol.item.qualifiedName = some key) (values : List Enumerator) :
    Leaves symbol (values.filter fun value => !table.enumerators.contains value.name) table
      (table.indexEnumerators symbol values) where
  entries := rfl
  contributed := rfl
  free name := by simp [known, indexEnumerators]
  enumerator? name := by
    have foundAs : (table.indexEnumerators symbol values).enumerator? name =
        (table.enumerators.get? name).or ((values.find? (·.name = name)).map (symbol, ·)) :=
      get?_foldl_index table.enumerators values name
    rw [foundAs, SymbolTable.enumerator?]
    cases found : table.enumerators.get? name with
    | none =>
      have new : (values.filter fun value => !table.enumerators.contains value.name).find?
          (·.name = name) = values.find? (·.name = name) := by
        rw [List.find?_filter]
        congr 1
        funext value
        by_cases here : value.name = name
        · simp [here, OrderedMap.contains, found]
        · simp [here]
      simp [new]
    | some pair =>
      have old : (values.filter fun value => !table.enumerators.contains value.name).find?
          (·.name = name) = none := by
        refine List.find?_eq_none.mpr fun value member here => ?_
        have unknown := (List.mem_filter.mp member).2
        simp [of_decide_eq_true here, OrderedMap.contains, found] at unknown
      simp [old]

/-! ### A whole insertion -/

theorem contributed_of_leaves (leaves : Leaves symbol left (table.enlist symbol) after)
    (header : String) : after.contributedBy header =
      if header = symbol.header then table.contributedBy header ++ [symbol]
      else table.contributedBy header := by
  rw [← contributedBy_enlist]
  simp only [contributedBy, leaves.contributed]

theorem leftovers_of_key (known : declaration.item.qualifiedName = some key) :
    table.leftovers declaration = declaration.item.enumerators.filter fun value =>
      !table.enumerators.contains value.name := by
  simp only [leftovers, known]

theorem leftovers_of_anonymous (anonymous : declaration.item.qualifiedName = none) :
    table.leftovers declaration =
      table.claimedFirst ⟨table.inserted, declaration⟩ declaration.item.enumerators := by
  simp only [leftovers, anonymous]

theorem leaves_of_refused (opened : table.isFinal = false) (strict : table.policy = .error)
    (refused : (table.insert declaration).2 = .error error) :
    Leaves ⟨table.inserted, declaration⟩ (table.leftovers declaration)
      (table.enlist ⟨table.inserted, declaration⟩) (table.insert declaration).1 := by
  let symbol : Symbol := ⟨table.inserted, declaration⟩
  simp only [insert, opened, Bool.false_eq_true, if_false] at refused ⊢
  cases known : declaration.item.qualifiedName with
  | some key =>
    have listed : (table.enlist symbol).policy = .error := strict
    have indexed (values : List Enumerator) :
        ((table.enlist symbol).indexEnumerators symbol values).policy = .error := strict
    have keyed : symbol.item.qualifiedName = some key := known
    rw [leftovers_of_key known]
    rw [known] at refused
    cases item : declaration.item with
    | enum name values isTypedef =>
      simp only [item] at refused ⊢
      rw [claimName_refused (indexed values) refused]
      have left : Leaves symbol _ (table.enlist symbol) _ := leaves_index keyed values
      exact left
    | struct | union | function | typedef | object | constant =>
      simp only [item] at refused ⊢
      rw [claimName_refused listed refused]
      exact .nothing symbol _
  | none =>
    have anonymous : symbol.item.qualifiedName = none := known
    have listed : (table.enlist symbol).policy = .error := strict
    rw [leftovers_of_anonymous known]
    rw [known] at refused
    cases item : declaration.item with
    | enum name values isTypedef =>
      simp only [item] at refused ⊢
      have claims (refused : ((table.enlist symbol).claimAll symbol values).2 = .error error) :=
        claimAll_refused listed anonymous refused
      generalize (table.enlist symbol).claimAll symbol values = outcome at refused claims
      obtain ⟨settled, answer⟩ := outcome
      cases answer with
      | ok done => cases refused
      | error other => exact claims (by simpa using refused)
    | struct | union | function | typedef | object | constant =>
      simp only [item] at refused
      cases refused

/-! ### What a caller sees -/

theorem isEmitted_congr (entries : ∀ name, after.get? name = before.get? name)
    (free : ∀ name, after.free.get? name = before.free.get? name) :
    after.isEmitted = before.isEmitted := by
  funext symbol
  simp only [isEmitted, ownsFree, entries, free]

theorem Coherent.not_isEmitted {symbols : List Symbol} (coherent : Coherent symbols table)
    (new : ∀ held ∈ symbols, held.serial ≠ symbol.serial) : table.isEmitted symbol = false := by
  have unheld : ∀ name held, table.holder? name = some held → held.serial ≠ symbol.serial :=
    fun name held holds => new held (coherent.listed name held holds)
  have entries (name : String) :
      ¬ (table.get? name).any (·.serial = symbol.serial) := by
    intro entered
    obtain ⟨held, entry, same⟩ := (Option.any_eq_true _ _).mp entered
    exact unheld name held (holder?_of_entry entry) (of_decide_eq_true same)
  have owners (name : String) : ¬ table.ownsFree symbol name := by
    intro owns
    obtain ⟨held, owner, same⟩ := (Option.any_eq_true _ _).mp owns
    exact unheld name held (coherent.holder?_of_owner owner) (of_decide_eq_true same)
  unfold isEmitted
  split
  · exact Bool.eq_false_iff.mpr (entries _)
  · exact List.any_eq_false.mpr fun value _ => owners value.name
  · rfl

/-- Where nothing is left behind, only the list of contributions has grown, by a declaration that is
not emitted. -/
theorem sameAnswers_of_leaves_nothing {symbols : List Symbol} (coherent : Coherent symbols table)
    (new : ∀ held ∈ symbols, held.serial ≠ symbol.serial)
    (leaves : Leaves symbol [] (table.enlist symbol) after) : SameAnswers table after := by
  have get? : ∀ name, after.get? name = table.get? name := fun name => by
    rw [SymbolTable.get?, leaves.entries]
    rfl
  have free : ∀ name, after.free.get? name = table.free.get? name := fun name => by
    rw [leaves.free]
    simp [enlist]
  have emits : after.isEmitted = table.isEmitted := isEmitted_congr get? free
  constructor
  · rw [names, leaves.entries]
    rfl
  · exact get?
  · exact leaves.enumerator?
  · intro other name
    simp only [emitsEnumerator, ownsFree, free]
  · intro header
    rw [winners, winners, emits, contributed_of_leaves leaves]
    split
    · rw [List.filter_append, List.filter_singleton, coherent.not_isEmitted new]
      simp
    · rfl

theorem policy_ofChanges (policy : DuplicatePolicy) (changes : List Change) :
    (ofChanges policy changes).policy = policy := by
  induction changes using List.reverseRecOn with
  | nil => rfl
  | append_singleton changes change ih =>
    rw [ofChanges_append]
    cases change with
    | header name =>
      have same := (ledger_addHeader (ofChanges policy changes) name).1
      exact (congrArg SymbolTable.policy same).trans ih
    | declaration declaration =>
      have steps := (sameSettings_stepwise
        ⟨(ofChanges policy changes).inserted, declaration⟩).insert
          (counted_ofChanges policy changes).1
      exact steps.policy.trans ih

theorem serial_ne_inserted (policy : DuplicatePolicy) (changes : List Change) :
    ∀ held ∈ symbolsOf (declared changes), held.serial ≠ (ofChanges policy changes).inserted := by
  intro held member
  obtain ⟨earlier, -⟩ := List.getElem?_eq_some_iff.mp (mem_symbolsOf.mp member)
  rw [(counted_ofChanges policy changes).2]
  exact Nat.ne_of_lt earlier

/-- A refused insertion leaves all entries as they are, and the index of enumerators finds just the
leftovers besides what it found before. So all answers are the same exactly if the refused declaration
is not an enum that brought enumerators before the clash was found. -/
theorem answers_after_refusal (changes : List Change) (declaration : Declaration)
    (name previous header : String)
    (refused : ((ofChanges .error changes).insert declaration).2 =
      .error (.duplicate name previous header)) :
    let table := ofChanges .error changes
    let after := (table.insert declaration).1
    let left := table.leftovers declaration
    after.names = table.names ∧
    (∀ name, after.get? name = table.get? name) ∧
    (∀ name, after.enumerator? name =
      ((left.find? (·.name = name)).map (⟨table.inserted, declaration⟩, ·)).or
        (table.enumerator? name)) ∧
    (SameAnswers table after ↔ left = []) := by
  intro table after left
  have coherent : Coherent (symbolsOf (declared changes)) table := coherent_ofChanges _ _
  have new : ∀ held ∈ symbolsOf (declared changes), held.serial ≠ table.inserted :=
    serial_ne_inserted .error changes
  have leaves : Leaves ⟨table.inserted, declaration⟩ left
      (table.enlist ⟨table.inserted, declaration⟩) after :=
    leaves_of_refused (counted_ofChanges _ _).1 (policy_ofChanges _ _) refused
  have get? (name : String) : after.get? name = table.get? name := by
    rw [SymbolTable.get?, leaves.entries]
    rfl
  refine ⟨?_, get?, leaves.enumerator?, ?_, ?_⟩
  · rw [names, leaves.entries]
    rfl
  · intro same
    cases found : left with
    | nil => rfl
    | cons value rest =>
      -- The first leftover is found now, and its enum was not known to the index before.
      have now : after.enumerator? value.name = some (⟨table.inserted, declaration⟩, value) := by
        rw [leaves.enumerator?, found]
        simp
      rw [same.enumerator?] at now
      exact absurd rfl (new _ (enumerator?_ofChanges now))
  · intro nothing
    exact sameAnswers_of_leaves_nothing coherent new (nothing ▸ leaves)

/-- An enum that is declared again with one enumerator more, and two constants of which the second is
one of an enum without a name. -/
def refusedEnums : List (Declaration × Declaration) :=
  [({ item := .enum (some "E") [⟨"A", .number 1⟩] false },
    { item := .enum (some "E") [⟨"A", .number 1⟩, ⟨"B", .number 2⟩] false }),
   ({ item := .constant "D" ["1"] },
    { item := .enum none [⟨"C", .number 1⟩, ⟨"D", .number 2⟩] false })]

/-- Both enums are refused. The new enumerator of the first is found from then on, and so is the
enumerator of the second that did not clash, for which that enum is even emitted. -/
theorem refused_enums_found :
    (let table := ofChanges .error [.declaration refusedEnums[0].1]
      let after := (table.insert refusedEnums[0].2).1
      (table.insert refusedEnums[0].2).2 =
          .error (.duplicate "enum E" "<unknown>" "<unknown>") ∧
        table.enumerator? "B" = none ∧
        after.enumerator? "B" = some (⟨1, refusedEnums[0].2⟩, ⟨"B", .number 2⟩)) ∧
    (let table := ofChanges .error [.declaration refusedEnums[1].1]
      let after := (table.insert refusedEnums[1].2).1
      (table.insert refusedEnums[1].2).2 = .error (.duplicate "D" "<unknown>" "<unknown>") ∧
        table.enumerator? "C" = none ∧
        after.enumerator? "C" = some (⟨1, refusedEnums[1].2⟩, ⟨"C", .number 1⟩) ∧
        (⟨1, refusedEnums[1].2⟩ : Symbol) ∉ table.winners "<unknown>" ∧
        (⟨1, refusedEnums[1].2⟩ : Symbol) ∈ after.winners "<unknown>") := by
  decide

/-- A refused constant changes no answer. -/
theorem answers_after_refused_constant :
    let table := ofChanges .error [.declaration { item := .constant "A" ["1"] }]
    (table.insert { item := .constant "A" ["2"] }).2 =
        .error (.duplicate "A" "<unknown>" "<unknown>") ∧
      SameAnswers table (table.insert { item := .constant "A" ["2"] }).1 := by
  intro table
  have refused : (table.insert { item := .constant "A" ["2"] }).2 =
    .error (.duplicate "A" "<unknown>" "<unknown>") := by decide
  obtain ⟨-, -, -, same⟩ := answers_after_refusal _ _ _ _ _ refused
  exact ⟨refused, same.mpr rfl⟩

end SymbolTable

end CBindings
