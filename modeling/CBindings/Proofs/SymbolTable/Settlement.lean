import CBindings.Proofs.SymbolTable.Holder

/-! How a claim on a name ends, however names are spelled: who holds the name then, and what is
recorded of who does not. -/

namespace CBindings

namespace SymbolTable

variable {table before middle after : SymbolTable} {symbol held : Symbol} {key name : String}
  {value : Enumerator} {names : List String}

def Apart (table : SymbolTable) : Prop :=
  ∀ name, table.get? name = none ∨ table.free.get? name = none

def ledger (table : SymbolTable) : SymbolTable where
  policy := table.policy
  entries := table.entries
  free := table.free
  duplicates := table.duplicates
  diagnostics := table.diagnostics

/-- A symbol becomes the holder of a name, as an entry if it goes by the name, else as the enum that
owns the constant. -/
structure Awards (symbol : Symbol) (name : String) (before after : SymbolTable) : Prop where
  policy : after.policy = before.policy
  duplicates : after.duplicates = before.duplicates
  diagnostics : after.diagnostics = before.diagnostics
  entries : ∀ other, after.get? other =
    if other = name then (if symbol.item.qualifiedName = some name then some symbol else none)
    else before.get? other
  free : ∀ other, after.free.get? other =
    if other = name then (if symbol.item.qualifiedName = some name then none else some symbol)
    else before.free.get? other

inductive Settlement (symbol : Symbol) (name : String) (before : SymbolTable) :
    SymbolTable → Prop where
  | stays (held : Symbol) (found : before.holder? name = some held)
      (without : held.agrees symbol ∨ symbol.item.isOpaque) : Settlement symbol name before before
  | takes (after : SymbolTable)
      (gives : ∀ held, before.holder? name = some held → held.item.isOpaque)
      (awards : Awards symbol name before after) : Settlement symbol name before after
  | loses (held : Symbol) (found : before.holder? name = some held)
      (policy : before.policy = .first) :
      Settlement symbol name before (before.recordClash name held symbol false)
  | replaces (held : Symbol) (after : SymbolTable) (found : before.holder? name = some held)
      (policy : before.policy = .last)
      (awards : Awards symbol name (before.recordClash name held symbol true) after) :
      Settlement symbol name before after
  | refused (policy : before.policy = .error) : Settlement symbol name before before

inductive Settlements (symbol : Symbol) : SymbolTable → List String → SymbolTable → Prop where
  | nil (table : SymbolTable) : Settlements symbol table [] table
  | cons {before middle after : SymbolTable} {name : String} {names : List String}
      (first : Settlement symbol name before middle)
      (others : Settlements symbol middle names after) :
      Settlements symbol before (name :: names) after

/-! ### What follows from it -/

theorem Awards.holder? (awards : Awards symbol name before after) (other : String) :
    after.holder? other = if other = name then some symbol else before.holder? other := by
  rw [SymbolTable.holder?, awards.entries, awards.free]
  by_cases same : other = name
  · by_cases known : symbol.item.qualifiedName = some name
    · simp [same, known]
    · simp [same, known]
  · simp only [same, if_false]
    rfl

theorem Awards.apart (awards : Awards symbol name before after) (apart : before.Apart) :
    after.Apart := by
  intro other
  rw [awards.entries, awards.free]
  by_cases same : other = name
  · by_cases known : symbol.item.qualifiedName = some name
    · simp [same, known]
    · simp [same, known]
  · simp only [same, if_false]
    exact apart other

theorem Settlement.policy_eq (settled : Settlement symbol name before after) :
    after.policy = before.policy := by
  cases settled with
  | stays | loses | refused => rfl
  | takes after gives awards => exact awards.policy
  | replaces held after found policy awards => exact awards.policy

theorem Settlements.keep {keeps : SymbolTable → Prop} (settled : Settlements symbol before names after)
    (each : ∀ name ∈ names, ∀ before after, Settlement symbol name before after → keeps before →
      keeps after)
    (start : keeps before) : keeps after := by
  induction settled with
  | nil table => exact start
  | cons first others ih =>
    apply ih
    · intro name member
      exact each name (List.mem_cons_of_mem _ member)
    · exact each _ List.mem_cons_self _ _ first start

theorem Settlements.refused (policy : table.policy = .error) (names : List String) :
    Settlements symbol table names table := by
  induction names with
  | nil => exact .nil table
  | cons name names ih => exact .cons (.refused policy) ih

/-! ### How a table settles claims -/

theorem awards_own (anonymous : symbol.item.qualifiedName = none) (value : Enumerator) :
    Awards symbol value.name table.ledger (table.own symbol value).ledger where
  policy := rfl
  duplicates := rfl
  diagnostics := rfl
  entries other := by
    simp only [ledger, own, get?, OrderedMap.get?_erase, anonymous, reduceCtorEq, if_false]
  free other := by
    simp only [ledger, own, OrderedMap.get?_insert, anonymous, reduceCtorEq, if_false]

theorem awards_place (unowned : table.free.get? key = none)
    (known : symbol.item.qualifiedName = some key) :
    Awards symbol key table.ledger (table.place key symbol).ledger where
  policy := rfl
  duplicates := rfl
  diagnostics := rfl
  entries other := by
    simp only [ledger, place, get?, OrderedMap.get?_insert, OrderedMap.get?_erase, known, if_true]
    split
    · rfl
    · rfl
  free other := by
    simp only [ledger, place, known, if_true]
    split
    · next same => rw [same, unowned]
    · rfl

theorem awards_move (known : symbol.item.qualifiedName = some key) :
    Awards symbol key table.ledger ((table.release key).place key symbol).ledger where
  policy := rfl
  duplicates := rfl
  diagnostics := rfl
  entries := by
    have placed : Awards symbol key _ ((table.release key).place key symbol).ledger :=
      awards_place (OrderedMap.get?_erase_self _ _) known
    exact placed.entries
  free other := by
    simp only [ledger, place, release, OrderedMap.get?_erase, known, if_true]

theorem settlement_of_clash {α : Type} {answer : α} {next : SymbolTable → Outcome α}
    (found : table.holder? name = some held)
    (awards : Awards symbol name (table.recordClash name held symbol true).ledger
      (next (table.recordClash name held symbol true)).1.ledger) :
    Settlement symbol name table.ledger (match table.clash name held symbol with
      | (settled, .ok true) => next settled
      | (settled, .ok false) => (settled, .ok answer)
      | (settled, .error error) => (settled, .error error)).1.ledger := by
  cases policy : table.policy with
  | first =>
    simp only [clash, policy]
    exact .loses held found policy
  | last =>
    simp only [clash, policy]
    exact .replaces held _ found policy awards
  | error =>
    simp only [clash, policy]
    exact .refused policy

theorem claim_settles (anonymous : symbol.item.qualifiedName = none) :
    Settlement symbol value.name table.ledger (table.claim symbol value).1.ledger := by
  unfold claim
  cases found : table.holder? value.name with
  | none =>
    apply Settlement.takes
    · intro held other
      cases found.symm.trans other
    · exact awards_own anonymous value
  | some rival =>
    by_cases agrees : rival.agrees symbol
    · simp only [agrees, if_true]
      exact .stays rival found (.inl agrees)
    · simp only [agrees, Bool.false_eq_true, if_false]
      exact settlement_of_clash found (awards_own anonymous value)

theorem settle_settles (unowned : table.free.get? key = none)
    (known : symbol.item.qualifiedName = some key) :
    Settlement symbol key table.ledger (table.settle key symbol).1.ledger := by
  have holder : table.holder? key = table.get? key := by simp [SymbolTable.holder?, unowned]
  unfold settle
  cases entry : table.get? key with
  | none =>
    apply Settlement.takes
    · intro held other
      cases (holder.trans entry).symm.trans other
    · exact awards_place unowned known
  | some existing =>
    have found : table.holder? key = some existing := holder.trans entry
    simp only
    split
    · next agrees => exact .stays existing found (.inl agrees)
    · split
      · next hidden => exact .stays existing found (.inr hidden.1)
      · split
        · next waiting =>
          apply Settlement.takes
          · intro held other
            cases found.symm.trans other
            exact waiting.1
          · exact awards_place unowned known
        · exact settlement_of_clash found (awards_place unowned known)

theorem claimName_settles (apart : table.Apart) (known : symbol.item.qualifiedName = some key) :
    Settlement symbol key table.ledger (table.claimName key symbol).1.ledger := by
  unfold claimName
  cases owned : table.free.get? key with
  | none => exact settle_settles owned known
  | some owner =>
    have unused : table.get? key = none := by
      rcases apart key with unused | unowned
      · exact unused
      · cases unowned.symm.trans owned
    have found : table.holder? key = some owner := by
      simp [SymbolTable.holder?, unused, owned]
    apply settlement_of_clash found
    -- The constant was taken from its enum, and no entry had the name besides.
    have vacant : ((table.recordClash key owner symbol true).release key).get? key = none := unused
    simp only [settle, vacant]
    exact awards_move known

theorem policy_of_claim_error {error : TableError}
    (refused : table.claim symbol value = (after, .error error)) : after.policy = .error := by
  unfold claim at refused
  split at refused
  · cases refused
  · split at refused
    · cases refused
    · unfold clash at refused
      cases policy : table.policy with
      | first | last => simp [policy] at refused
      | error =>
        simp only [policy, Prod.mk.injEq] at refused
        exact refused.1 ▸ policy

theorem claimAll_settles (anonymous : symbol.item.qualifiedName = none) (values : List Enumerator) :
    Settlements symbol table.ledger (values.map Enumerator.name)
      (table.claimAll symbol values).1.ledger := by
  induction values generalizing table with
  | nil => exact .nil table.ledger
  | cons value values ih =>
    have first : Settlement symbol value.name table.ledger (table.claim symbol value).1.ledger :=
      claim_settles anonymous
    rw [claimAll]
    cases outcome : table.claim symbol value with
    | mk settled answer =>
      rw [outcome] at first
      cases answer with
      | ok done => exact .cons first ih
      | error error =>
        have policy : settled.policy = .error := policy_of_claim_error outcome
        exact .cons first (.refused (show settled.ledger.policy = .error from policy) _)

theorem insert_settles (apart : table.Apart) (opened : table.isFinal = false)
    (declaration : Declaration) :
    Settlements ⟨table.inserted, declaration⟩ table.ledger declaration.item.claimed
      (table.insert declaration).1.ledger := by
  let symbol : Symbol := ⟨table.inserted, declaration⟩
  have enlisted : (table.enlist symbol).Apart := apart
  simp only [insert, opened, Bool.false_eq_true, if_false]
  cases known : declaration.item.qualifiedName with
  | some key =>
    rw [Item.claimed_of_key known]
    have plain : Settlement symbol key (table.enlist symbol).ledger
        ((table.enlist symbol).claimName key symbol).1.ledger := claimName_settles enlisted known
    have indexed (values : List Enumerator) :
        Settlement symbol key ((table.enlist symbol).indexEnumerators symbol values).ledger
          (((table.enlist symbol).indexEnumerators symbol values).claimName key symbol).1.ledger :=
      claimName_settles enlisted known
    cases declaration.item with
    | enum name values isTypedef => exact .cons (indexed values) (.nil _)
    | struct | union | function | typedef | object | constant => exact .cons plain (.nil _)
  | none =>
    rw [Item.claimed_of_anonymous known]
    cases item : declaration.item with
    | enum name values isTypedef =>
      have anonymous : symbol.item.qualifiedName = none := known
      have all : Settlements symbol (table.enlist symbol).ledger (values.map Enumerator.name)
          ((table.enlist symbol).claimAll symbol values).1.ledger :=
        claimAll_settles anonymous values
      simp only [Item.enumerators]
      generalize (table.enlist symbol).claimAll symbol values = outcome at all
      obtain ⟨settled, answer⟩ := outcome
      cases answer with
      | ok done => exact all
      | error error => exact all
    | struct | union | function | typedef | object | constant => exact .nil _

end SymbolTable

end CBindings
