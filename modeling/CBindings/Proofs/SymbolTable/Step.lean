import CBindings.SymbolTable.Insertion

/-! An insertion is a run of small steps. What each step keeps, a whole insertion keeps. -/

namespace CBindings

namespace SymbolTable

/-- A relation between tables that holds over every step of inserting a symbol. Tags are placed and
indexed, and enums without a name own free constants. -/
structure Stepwise (symbol : Symbol) (related : SymbolTable → SymbolTable → Prop) : Prop where
  refl : ∀ table, related table table
  trans : ∀ {before middle after}, related before middle → related middle after →
    related before after
  record : ∀ table name existing replaces,
    related table (table.recordClash name existing symbol replaces)
  place : ∀ table key, related table (table.place key symbol)
  release : ∀ table name, related table (table.release name)
  own : ∀ table value, symbol.item.qualifiedName = none → value ∈ symbol.item.enumerators →
    related table (table.own symbol value)
  index : ∀ table, symbol.item.qualifiedName ≠ none →
    related table (table.indexEnumerators symbol symbol.item.enumerators)
  keep : ∀ table : SymbolTable,
    related table { table with anonymous := table.anonymous ++ [symbol] }

namespace Stepwise

variable {symbol : Symbol} {related : SymbolTable → SymbolTable → Prop} {table : SymbolTable}

theorem clash (stepwise : Stepwise symbol related) (name : String) (existing : Symbol) :
    related table (table.clash name existing symbol).1 := by
  unfold SymbolTable.clash
  split
  · exact stepwise.record table name existing false
  · exact stepwise.record table name existing true
  · exact stepwise.refl table

theorem after_clash {α : Type} {answer : α} {next : SymbolTable → Outcome α}
    (stepwise : Stepwise symbol related) (follows : ∀ settled, related settled (next settled).1)
    (name : String) (existing : Symbol) :
    related table (match table.clash name existing symbol with
      | (settled, .ok true) => next settled
      | (settled, .ok false) => (settled, .ok answer)
      | (settled, .error error) => (settled, .error error)).1 := by
  have clashes : related table (table.clash name existing symbol).1 :=
    stepwise.clash name existing
  generalize table.clash name existing symbol = outcome at clashes
  obtain ⟨settled, result⟩ := outcome
  cases result with
  | error error => exact clashes
  | ok replaces =>
    cases replaces with
    | false => exact clashes
    | true => exact stepwise.trans clashes (follows settled)

theorem claim (stepwise : Stepwise symbol related) {value : Enumerator}
    (anonymous : symbol.item.qualifiedName = none) (member : value ∈ symbol.item.enumerators) :
    related table (table.claim symbol value).1 := by
  unfold SymbolTable.claim
  split
  · exact stepwise.own table value anonymous member
  · next rival found =>
    split
    · exact stepwise.refl table
    · exact stepwise.after_clash (fun settled => stepwise.own settled value anonymous member)
        value.name rival

theorem claimAll (stepwise : Stepwise symbol related) {values : List Enumerator}
    (anonymous : symbol.item.qualifiedName = none)
    (members : ∀ value ∈ values, value ∈ symbol.item.enumerators) :
    related table (table.claimAll symbol values).1 := by
  induction values generalizing table with
  | nil => exact stepwise.refl table
  | cons value rest ih =>
    have first : related table (table.claim symbol value).1 :=
      stepwise.claim anonymous (members value List.mem_cons_self)
    rw [SymbolTable.claimAll]
    split
    · next settled outcome =>
      rw [outcome] at first
      exact stepwise.trans first (ih fun other member => members other (List.mem_cons_of_mem _ member))
    · next settled error outcome =>
      rw [outcome] at first
      exact first

theorem settle (stepwise : Stepwise symbol related) (key : String) :
    related table (table.settle key symbol).1 := by
  unfold SymbolTable.settle
  split
  · exact stepwise.place table key
  · next existing found =>
    simp only
    split
    · exact stepwise.refl table
    · split
      · exact stepwise.refl table
      · split
        · exact stepwise.place table key
        · exact stepwise.after_clash (fun settled => stepwise.place settled key) key existing

theorem claimName (stepwise : Stepwise symbol related) (key : String) :
    related table (table.claimName key symbol).1 := by
  unfold SymbolTable.claimName
  split
  · exact stepwise.settle key
  · next owner found =>
    refine stepwise.after_clash (fun settled => ?_) key owner
    exact stepwise.trans (stepwise.release settled key) (stepwise.settle key)

/-- After a declaration is listed under its header, only such steps follow. -/
theorem insert {declaration : Declaration}
    (stepwise : Stepwise ⟨table.inserted, declaration⟩ related) (opened : table.isFinal = false) :
    related (table.enlist ⟨table.inserted, declaration⟩) (table.insert declaration).1 := by
  simp only [SymbolTable.insert, opened, Bool.false_eq_true, if_false]
  split
  · next key name values isTypedef known item =>
    have enumerators : declaration.item.enumerators = values := by rw [item]; rfl
    have indexed := stepwise.index (table.enlist ⟨table.inserted, declaration⟩)
      (show declaration.item.qualifiedName ≠ none by simp [known])
    rw [show (Symbol.mk table.inserted declaration).item.enumerators = values from enumerators]
      at indexed
    exact stepwise.trans indexed (stepwise.claimName key)
  · next key known plain => exact stepwise.claimName key
  · next name values isTypedef known item =>
    have enumerators : declaration.item.enumerators = values := by rw [item]; rfl
    have claims : related (table.enlist ⟨table.inserted, declaration⟩)
        ((table.enlist ⟨table.inserted, declaration⟩).claimAll ⟨table.inserted, declaration⟩
          values).1 :=
      stepwise.claimAll known fun value member => enumerators.symm ▸ member
    split
    · next settled outcome =>
      rw [outcome] at claims
      exact stepwise.trans claims (stepwise.keep settled)
    · next settled error outcome =>
      rw [outcome] at claims
      exact claims
  · exact stepwise.refl _

end Stepwise

end SymbolTable

end CBindings
