import CBindings.Proofs.SymbolTable.Holder
import CBindings.Proofs.SymbolTable.Step

/-! Every entry of a table is among what its header contributed and is emitted. -/

namespace CBindings

namespace SymbolTable

variable {table before middle after : SymbolTable} {symbol held : Symbol} {key name : String}

/-- A step that makes no entries but of one symbol, and leaves the contributions as they are. -/
structure Admits (symbol : Symbol) (before after : SymbolTable) : Prop where
  entries : ∀ name found, after.get? name = some found →
    before.get? name = some found ∨ found = symbol
  contributed : after.contributed = before.contributed

theorem Admits.refl (symbol : Symbol) (table : SymbolTable) : Admits symbol table table :=
  ⟨fun _ _ found => .inl found, rfl⟩

theorem Admits.trans (first : Admits symbol before middle) (second : Admits symbol middle after) :
    Admits symbol before after where
  entries name found entry := by
    rcases second.entries name found entry with earlier | new
    · exact first.entries name found earlier
    · exact .inr new
  contributed := second.contributed.trans first.contributed

theorem admits_stepwise (symbol : Symbol) : Stepwise symbol (Admits symbol) where
  refl := .refl symbol
  trans := .trans
  record _ _ _ _ := ⟨fun _ _ found => .inl found, rfl⟩
  release _ _ := ⟨fun _ _ found => .inl found, rfl⟩
  index _ _ := ⟨fun _ _ found => .inl found, rfl⟩
  keep _ := ⟨fun _ _ found => .inl found, rfl⟩
  place table key := by
    refine ⟨fun name found entry => ?_, rfl⟩
    simp only [SymbolTable.place, get?, OrderedMap.get?_insert, OrderedMap.get?_erase] at entry
    split at entry
    · cases entry
      exact .inr rfl
    · exact .inl entry
  own table value _ _ := by
    refine ⟨fun name found entry => ?_, rfl⟩
    simp only [SymbolTable.own, get?, OrderedMap.get?_erase] at entry
    split at entry
    · cases entry
    · exact .inl entry

/-- After a declaration is listed under its header, only it becomes an entry. -/
theorem admits_insert (opened : table.isFinal = false) (declaration : Declaration) :
    Admits ⟨table.inserted, declaration⟩ (table.enlist ⟨table.inserted, declaration⟩)
      (table.insert declaration).1 :=
  (admits_stepwise _).insert opened

/-! ### Whole tables -/

/-- Every entry stands under its header, and under a header stands only what it contributed. -/
structure Listed (table : SymbolTable) : Prop where
  entries : ∀ name symbol, table.get? name = some symbol →
    symbol ∈ table.contributedBy symbol.header
  headers : ∀ header, ∀ symbol ∈ table.contributedBy header, symbol.header = header

theorem contributedBy_enlist (symbol : Symbol) (header : String) :
    (table.enlist symbol).contributedBy header =
      if header = symbol.header then table.contributedBy header ++ [symbol]
      else table.contributedBy header := by
  simp only [contributedBy, enlist, OrderedMap.get?_insert]
  by_cases same : header = symbol.header
  · simp [same]
  · simp [same]

theorem Listed.enlist (listed : table.Listed) (symbol : Symbol) : (table.enlist symbol).Listed where
  entries name found entry := by
    have member := listed.entries name found entry
    rw [contributedBy_enlist]
    split
    · exact List.mem_append_left _ member
    · exact member
  headers header found member := by
    rw [contributedBy_enlist] at member
    split at member
    · next same =>
      rcases List.mem_append.mp member with earlier | new
      · exact listed.headers header found earlier
      · rw [List.mem_singleton.mp new, same]
    · exact listed.headers header found member

theorem Listed.insert (listed : table.Listed) (declaration : Declaration) :
    (table.insert declaration).1.Listed := by
  cases opened : table.isFinal with
  | true =>
    have refused : (table.insert declaration).1 = table := by simp [SymbolTable.insert, opened]
    rw [refused]
    exact listed
  | false =>
    have enlisted := listed.enlist ⟨table.inserted, declaration⟩
    have admits := admits_insert opened declaration
    have same : ∀ header, (table.insert declaration).1.contributedBy header =
        (table.enlist ⟨table.inserted, declaration⟩).contributedBy header := by
      intro header
      simp only [contributedBy, admits.contributed]
    constructor
    · intro name found entry
      rw [same]
      rcases admits.entries name found entry with earlier | new
      · exact enlisted.entries name found earlier
      · subst new
        rw [contributedBy_enlist, if_pos rfl]
        exact List.mem_append_right _ (List.mem_singleton_self _)
    · intro header found member
      rw [same] at member
      exact enlisted.headers header found member

theorem contributedBy_addHeader (header other : String) :
    (table.addHeader header).1.contributedBy other = table.contributedBy other := by
  unfold addHeader
  split
  · rfl
  · split
    · rfl
    · next new =>
      have absent : table.contributed.get? header = none := by
        simpa [OrderedMap.contains] using new
      simp only [contributedBy, OrderedMap.get?_insert]
      by_cases same : other = header
      · simp [same, absent]
      · simp [same]

theorem get?_addHeader (header name : String) :
    (table.addHeader header).1.get? name = table.get? name := by
  unfold addHeader
  split
  · rfl
  · split
    · rfl
    · rfl

/-- A table that declarations and headers have been put into, in any order. A refused insertion
does not end it. -/
inductive Built : SymbolTable → Prop where
  | empty (policy : DuplicatePolicy) : Built { policy := policy }
  | insert {table : SymbolTable} (built : Built table) {declaration : Declaration}
      (unspaced : declaration.item.Unspaced) : Built (table.insert declaration).1
  | addHeader {table : SymbolTable} (built : Built table) (header : String) :
      Built (table.addHeader header).1
  | finalize {table : SymbolTable} (built : Built table) : Built table.finalize

theorem Built.insertAll (built : table.Built) {declarations : List Declaration}
    (unspaced : ∀ declaration ∈ declarations, declaration.item.Unspaced) :
    (table.insertAll declarations).1.Built := by
  induction declarations generalizing table with
  | nil => exact built
  | cons declaration rest ih =>
    have first : (table.insert declaration).1.Built := built.insert (unspaced _ List.mem_cons_self)
    rw [SymbolTable.insertAll]
    generalize table.insert declaration = outcome at first
    obtain ⟨next, answer⟩ := outcome
    cases answer with
    | error error => exact first
    | ok held =>
      have others := ih first fun other member => unspaced other (List.mem_cons_of_mem _ member)
      simp only
      generalize next.insertAll rest = outcome at others
      obtain ⟨last, answers⟩ := outcome
      cases answers with
      | error error => exact others
      | ok others' => exact others

theorem Built.listed (built : table.Built) : table.Listed := by
  induction built with
  | empty policy => exact ⟨fun _ _ entry => (by cases entry), fun _ _ member => (by cases member)⟩
  | insert built unspaced ih => exact ih.insert _
  | @addHeader table built header ih =>
    constructor
    · intro name found entry
      rw [contributedBy_addHeader]
      exact ih.entries name found ((get?_addHeader header name).symm.trans entry)
    · intro other found member
      rw [contributedBy_addHeader] at member
      exact ih.headers other found member
  | finalize built ih => exact ⟨ih.entries, ih.headers⟩

theorem Built.consistent (built : table.Built) : table.Consistent := by
  induction built with
  | empty policy =>
    exact ⟨fun _ _ entry => (by cases entry), fun _ _ owned => (by cases owned), fun _ => .inl rfl⟩
  | @insert table built declaration unspaced ih =>
    cases opened : table.isFinal with
    | true =>
      have refused : (table.insert declaration).1 = table := by simp [SymbolTable.insert, opened]
      rw [refused]
      exact ih
    | false =>
      have claim := insert_spec ih opened unspaced
      generalize table.insert declaration = outcome at claim
      cases claim with
      | granted after answer kept free holder => exact kept.consistent
      | refused after name held kept strict member found clashes => exact kept.consistent
  | @addHeader table built header ih =>
    unfold SymbolTable.addHeader
    split
    · exact ih
    · split
      · exact ih
      · exact ⟨ih.named, ih.owned, ih.apart⟩
  | finalize built ih => exact ⟨ih.named, ih.owned, ih.apart⟩

theorem Built.mem_winners (built : table.Built) (entry : table.get? name = some symbol) :
    symbol ∈ table.winners symbol.header := by
  refine List.mem_filter.mpr ⟨built.listed.entries name symbol entry, ?_⟩
  have known := (built.consistent.named name symbol entry).1
  simp [isEmitted, known, entry]

theorem header_mem_headers {header : String} (contributes : symbol ∈ table.contributedBy header) :
    header ∈ table.headers := by
  apply OrderedMap.mem_keys_iff.mpr
  unfold contributedBy at contributes
  cases found : table.contributed.get? header with
  | none =>
    rw [found] at contributes
    cases contributes
  | some symbols => exact ⟨symbols, rfl⟩

def symbols (table : SymbolTable) : List Symbol := table.headers.flatMap table.contributedBy

theorem mem_symbols_iff : symbol ∈ table.symbols ↔ ∃ header, symbol ∈ table.contributedBy header := by
  rw [symbols, List.mem_flatMap]
  exact exists_congr fun header => and_iff_right_of_imp header_mem_headers

theorem mem_symbols_of_winners {header : String} (wins : symbol ∈ table.winners header) :
    symbol ∈ table.symbols :=
  mem_symbols_iff.mpr ⟨header, (List.mem_filter.mp wins).1⟩

end SymbolTable

end CBindings
