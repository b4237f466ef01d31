import CBindings.Proofs.SymbolTable.Enumerator
import CBindings.Proofs.SymbolTable.Settlement
import Mathlib.Data.List.Nodup

/-! What a table emits after any changes: the holders of names, each once and under its own header. -/

namespace CBindings

namespace SymbolTable

/-- A change of a table. -/
inductive Change where
  | header (name : String)
  | declaration (declaration : Declaration)
  deriving DecidableEq, Repr

variable {table before after : SymbolTable} {symbol held : Symbol} {key name header : String}
  {symbols more : List Symbol} {policy : DuplicatePolicy} {changes : List Change}

/-! ### Holders -/

/-- Every holder is one of some symbols. An entry goes by its own name, a free constant belongs to an
enum without a name that has it, and no name is both. -/
structure Coherent (symbols : List Symbol) (table : SymbolTable) : Prop where
  named : ∀ name symbol, table.get? name = some symbol → symbol.item.qualifiedName = some name
  owned : ∀ name symbol, table.free.get? name = some symbol →
    symbol.item.qualifiedName = none ∧ name ∈ symbol.item.claimed
  apart : table.Apart
  listed : ∀ name symbol, table.holder? name = some symbol → symbol ∈ symbols

theorem Coherent.mono (coherent : Coherent symbols table) (part : symbols ⊆ more) :
    Coherent more table :=
  ⟨coherent.named, coherent.owned, coherent.apart,
    fun name symbol found => part (coherent.listed name symbol found)⟩

theorem Coherent.of_ledger (same : after.ledger = before.ledger)
    (coherent : Coherent symbols before) : Coherent symbols after := by
  have entries : after.ledger.entries = before.ledger.entries := by rw [same]
  have free : after.ledger.free = before.ledger.free := by rw [same]
  simp only [ledger] at entries free
  have get? : after.get? = before.get? := by
    funext name
    rw [SymbolTable.get?, entries]
    rfl
  have holder? : after.holder? = before.holder? := by
    funext name
    rw [SymbolTable.holder?, get?, free]
    rfl
  constructor
  · rw [get?]
    exact coherent.named
  · rw [free]
    exact coherent.owned
  · rw [Apart, get?, free]
    exact coherent.apart
  · rw [holder?]
    exact coherent.listed

theorem Awards.coherent (awards : Awards symbol name before after)
    (claims : name ∈ symbol.item.claimed) (member : symbol ∈ symbols)
    (coherent : Coherent symbols before) : Coherent symbols after where
  named other found entry := by
    rw [awards.entries] at entry
    split at entry
    · next same =>
      split at entry
      · next known =>
        cases entry
        rw [known, same]
      · cases entry
    · exact coherent.named other found entry
  owned other found owner := by
    rw [awards.free] at owner
    split at owner
    · next same =>
      split at owner
      · cases owner
      · next unknown =>
        cases owner
        have anonymous : symbol.item.qualifiedName = none := by
          cases known : symbol.item.qualifiedName with
          | none => rfl
          | some key =>
            rw [Item.claimed_of_key known, List.mem_singleton] at claims
            exact absurd (claims ▸ known) unknown
        exact ⟨anonymous, same ▸ claims⟩
    · exact coherent.owned other found owner
  apart := awards.apart coherent.apart
  listed other found holds := by
    rw [awards.holder?] at holds
    split at holds
    · cases holds
      exact member
    · exact coherent.listed other found holds

theorem Settlement.coherent (settled : Settlement symbol name before after)
    (claims : name ∈ symbol.item.claimed) (member : symbol ∈ symbols)
    (coherent : Coherent symbols before) : Coherent symbols after := by
  cases settled with
  | stays | refused => exact coherent
  | loses => exact ⟨coherent.named, coherent.owned, coherent.apart, coherent.listed⟩
  | takes after gives awards => exact awards.coherent claims member coherent
  | replaces held after found policy awards =>
    apply awards.coherent claims member
    exact ⟨coherent.named, coherent.owned, coherent.apart, coherent.listed⟩

theorem Coherent.insert (coherent : Coherent symbols table) (opened : table.isFinal = false)
    (declaration : Declaration) :
    Coherent (symbols ++ [⟨table.inserted, declaration⟩]) (table.insert declaration).1 := by
  have start := coherent.mono (List.subset_append_left symbols [⟨table.inserted, declaration⟩])
  have after : Coherent (symbols ++ [⟨table.inserted, declaration⟩])
      (table.insert declaration).1.ledger := by
    apply (insert_settles coherent.apart opened declaration).keep
    · intro name claims before after settled
      exact settled.coherent claims (List.mem_append_right _ List.mem_cons_self)
    · exact start.of_ledger (by rfl)
  exact after.of_ledger (by rfl)

theorem holder?_of_entry (entry : table.get? name = some held) :
    table.holder? name = some held := by
  simp [SymbolTable.holder?, entry]

theorem Coherent.holder?_of_owner (coherent : Coherent symbols table)
    (owner : table.free.get? name = some held) : table.holder? name = some held := by
  rcases coherent.apart name with unused | unowned
  · simp [SymbolTable.holder?, unused, owner]
  · cases unowned.symm.trans owner

/-- Of symbols with different serial numbers those are emitted that hold a name. -/
theorem Coherent.isEmitted_iff (coherent : Coherent symbols table)
    (different : ∀ first ∈ symbols, ∀ second ∈ symbols, first.serial = second.serial →
      first = second)
    (member : symbol ∈ symbols) :
    table.isEmitted symbol ↔ ∃ name, table.holder? name = some symbol := by
  constructor
  · intro emitted
    unfold isEmitted at emitted
    split at emitted
    · next item key known =>
      obtain ⟨held, entry, same⟩ := (Option.any_eq_true _ _).mp emitted
      have holds : table.holder? key = some held := holder?_of_entry entry
      have known := coherent.listed key held holds
      rw [different held known symbol member (of_decide_eq_true same)] at holds
      exact ⟨key, holds⟩
    · next anonymous item =>
      obtain ⟨value, -, owns⟩ := List.any_eq_true.mp emitted
      obtain ⟨held, owner, same⟩ := (Option.any_eq_true _ _).mp owns
      have holds := coherent.holder?_of_owner owner
      have known := coherent.listed value.name held holds
      rw [different held known symbol member (of_decide_eq_true same)] at holds
      exact ⟨value.name, holds⟩
    · cases emitted
  · rintro ⟨name, holds⟩
    unfold isEmitted
    rcases get?_or_free_of_holder? holds with entry | owner
    · simp [coherent.named name symbol entry, entry]
    · obtain ⟨anonymous, claims⟩ := coherent.owned name symbol owner
      rw [Item.claimed_of_anonymous anonymous] at claims
      obtain ⟨value, inside, rfl⟩ := List.mem_map.mp claims
      cases item : symbol.item with
      | enum tag values isTypedef =>
        rw [item] at anonymous inside
        simp only [anonymous, List.any_eq_true]
        exact ⟨value, inside, by simp [ownsFree, owner]⟩
      | _ => simp [item, Item.enumerators] at inside

/-! ### After any changes -/

def apply (table : SymbolTable) : Change → SymbolTable
  | .header name => (table.addHeader name).1
  | .declaration declaration => (table.insert declaration).1

/-- The table that some changes leave. One that is refused does not end them. -/
def ofChanges (policy : DuplicatePolicy) (changes : List Change) : SymbolTable :=
  changes.foldl apply { policy := policy }

def declared (changes : List Change) : List Declaration :=
  changes.filterMap fun
    | .header _ => none
    | .declaration declaration => some declaration

theorem ofChanges_append (policy : DuplicatePolicy) (changes : List Change) (change : Change) :
    ofChanges policy (changes ++ [change]) = (ofChanges policy changes).apply change := by
  simp [ofChanges]

theorem declared_header (changes : List Change) (name : String) :
    declared (changes ++ [.header name]) = declared changes := by
  simp [declared]

theorem declared_declaration (changes : List Change) (declaration : Declaration) :
    declared (changes ++ [.declaration declaration]) = declared changes ++ [declaration] := by
  simp [declared]

theorem ledger_addHeader (table : SymbolTable) (header : String) :
    (table.addHeader header).1.ledger = table.ledger ∧
      (table.addHeader header).1.isFinal = table.isFinal ∧
      (table.addHeader header).1.inserted = table.inserted := by
  unfold addHeader
  split
  · exact ⟨rfl, rfl, rfl⟩
  · split
    · exact ⟨rfl, rfl, rfl⟩
    · exact ⟨rfl, rfl, rfl⟩

theorem counted_ofChanges (policy : DuplicatePolicy) (changes : List Change) :
    (ofChanges policy changes).isFinal = false ∧
      (ofChanges policy changes).inserted = (declared changes).length := by
  induction changes using List.reverseRecOn with
  | nil => exact ⟨rfl, rfl⟩
  | append_singleton changes change ih =>
    obtain ⟨opened, counted⟩ := ih
    rw [ofChanges_append]
    cases change with
    | header name =>
      obtain ⟨-, isFinal, inserted⟩ := ledger_addHeader (ofChanges policy changes) name
      rw [declared_header]
      exact ⟨isFinal.trans opened, inserted.trans counted⟩
    | declaration declaration =>
      have steps := (sameSettings_stepwise
        ⟨(ofChanges policy changes).inserted, declaration⟩).insert opened
      rw [declared_declaration]
      constructor
      · exact steps.isFinal.trans opened
      · rw [List.length_append, List.length_singleton, ← counted]
        exact steps.inserted

theorem contributedBy_ofChanges (policy : DuplicatePolicy) (changes : List Change)
    (header : String) : (ofChanges policy changes).contributedBy header =
      (symbolsOf (declared changes)).filter fun symbol => header = symbol.header := by
  induction changes using List.reverseRecOn with
  | nil => rfl
  | append_singleton changes change ih =>
    obtain ⟨opened, counted⟩ := counted_ofChanges policy changes
    rw [ofChanges_append]
    cases change with
    | header name =>
      rw [declared_header, apply, contributedBy_addHeader]
      exact ih
    | declaration declaration =>
      have same : ((ofChanges policy changes).insert declaration).1.contributedBy header =
          ((ofChanges policy changes).enlist
            ⟨(declared changes).length, declaration⟩).contributedBy header := by
        rw [← counted]
        simp only [contributedBy, (admits_insert opened declaration).contributed]
      rw [apply, same, contributedBy_enlist, declared_declaration, symbolsOf_append,
        List.filter_append, ih]
      by_cases here : header = (Symbol.mk (declared changes).length declaration).header
      · simp [here]
      · simp [here]

theorem coherent_ofChanges (policy : DuplicatePolicy) (changes : List Change) :
    Coherent (symbolsOf (declared changes)) (ofChanges policy changes) := by
  induction changes using List.reverseRecOn with
  | nil =>
    constructor
    · intro name symbol entry
      cases entry
    · intro name symbol owner
      cases owner
    · intro name
      exact .inl rfl
    · intro name symbol found
      cases found
  | append_singleton changes change ih =>
    obtain ⟨opened, counted⟩ := counted_ofChanges policy changes
    rw [ofChanges_append]
    cases change with
    | header name =>
      obtain ⟨same, -, -⟩ := ledger_addHeader (ofChanges policy changes) name
      rw [declared_header]
      exact ih.of_ledger same
    | declaration declaration =>
      rw [declared_declaration, symbolsOf_append, ← counted]
      exact ih.insert opened declaration

theorem enumerator?_ofChanges {found : Symbol × Enumerator}
    (indexed : (ofChanges policy changes).enumerator? name = some found) :
    found.1 ∈ symbolsOf (declared changes) := by
  induction changes using List.reverseRecOn with
  | nil => cases indexed
  | append_singleton changes change ih =>
    obtain ⟨opened, counted⟩ := counted_ofChanges policy changes
    rw [ofChanges_append] at indexed
    cases change with
    | header other =>
      have same : ((ofChanges policy changes).addHeader other).1.enumerators =
          (ofChanges policy changes).enumerators := by
        unfold addHeader
        split
        · rfl
        · split <;> rfl
      rw [declared_header]
      rw [apply, enumerator?, same] at indexed
      exact ih indexed
    | declaration declaration =>
      have indexes := indexes_insert opened declaration
      rw [declared_declaration, symbolsOf_append]
      rcases indexes.found name found.1 found.2 indexed with earlier | ⟨here, -, -⟩
      · exact List.mem_append_left _ (ih earlier)
      · rw [here, counted]
        exact List.mem_append_right _ List.mem_cons_self

theorem mem_winners_iff_holds : symbol ∈ (ofChanges policy changes).winners header ↔
    header = symbol.header ∧ ∃ name, (ofChanges policy changes).holder? name = some symbol := by
  have coherent := coherent_ofChanges policy changes
  have different : ∀ first ∈ symbolsOf (declared changes), ∀ second ∈ symbolsOf (declared changes),
      first.serial = second.serial → first = second :=
    fun first one second other => eq_of_serial one other
  rw [winners, contributedBy_ofChanges, List.mem_filter, List.mem_filter, decide_eq_true_iff]
  constructor
  · rintro ⟨⟨member, under⟩, emitted⟩
    exact ⟨under, (coherent.isEmitted_iff different member).mp emitted⟩
  · rintro ⟨under, name, holds⟩
    have member := coherent.listed name symbol holds
    exact ⟨⟨member, under⟩, (coherent.isEmitted_iff different member).mpr ⟨name, holds⟩⟩

theorem mem_emitted_iff_holds : symbol ∈ (ofChanges policy changes).emitted ↔
    ∃ name, (ofChanges policy changes).holder? name = some symbol := by
  rw [emitted, List.mem_flatMap]
  constructor
  · rintro ⟨header, -, wins⟩
    exact (mem_winners_iff_holds.mp wins).2
  · intro holds
    have wins := mem_winners_iff_holds.mpr ⟨rfl, holds⟩
    exact ⟨symbol.header, header_mem_headers (List.mem_filter.mp wins).1, wins⟩

theorem nodup_symbolsOf (history : List Declaration) : (symbolsOf history).Nodup := by
  have serials : (symbolsOf history).map Symbol.serial = List.range' 0 history.length := by
    rw [symbolsOf, List.map_map]
    exact List.zipIdx_map_snd 0 history
  apply List.Nodup.of_map Symbol.serial
  rw [serials]
  exact List.nodup_range'

theorem nodup_emitted (policy : DuplicatePolicy) (changes : List Change) :
    (ofChanges policy changes).emitted.Nodup := by
  rw [emitted, List.nodup_flatMap]
  constructor
  · intro header _
    rw [winners, contributedBy_ofChanges]
    exact ((nodup_symbolsOf _).filter _).filter _
  · have headers : (ofChanges policy changes).headers.Nodup :=
      (ofChanges policy changes).contributed.distinct
    apply headers.imp
    intro first second different symbol one other
    have under := (mem_winners_iff_holds.mp one).1
    exact different (under.trans (mem_winners_iff_holds.mp other).1.symm)

/-- After any changes, each symbol is emitted once at most, and under its own header. Emitted is what
is the entry for its name, and what is an enum without a name that owns a constant; no name is
both. -/
theorem emitted_exactly_once (policy : DuplicatePolicy) (changes : List Change) :
    let table := ofChanges policy changes
    (table.emitted.map Symbol.serial).Nodup ∧
    (∀ symbol ∈ table.emitted, symbol ∈ symbolsOf (declared changes)) ∧
    (∀ symbol key, symbol.item.qualifiedName = some key →
      (symbol ∈ table.emitted ↔ table.get? key = some symbol)) ∧
    (∀ symbol, symbol.item.qualifiedName = none →
      (symbol ∈ table.emitted ↔ ∃ name, table.free.get? name = some symbol)) ∧
    (∀ name symbol, table.get? name = some symbol ∨ table.free.get? name = some symbol →
      symbol.header ∈ table.headers ∧
        ∀ header, symbol ∈ table.winners header ↔ header = symbol.header) ∧
    ∀ name, table.get? name = none ∨ table.free.get? name = none := by
  intro table
  have coherent : Coherent (symbolsOf (declared changes)) table := coherent_ofChanges policy changes
  have emits : ∀ symbol, symbol ∈ table.emitted ↔ ∃ name, table.holder? name = some symbol :=
    fun symbol => mem_emitted_iff_holds
  have inserted : ∀ symbol ∈ table.emitted, symbol ∈ symbolsOf (declared changes) := by
    intro symbol member
    obtain ⟨name, holds⟩ := (emits symbol).mp member
    exact coherent.listed name symbol holds
  refine ⟨?_, inserted, ?_, ?_, ?_, coherent.apart⟩
  · apply (nodup_emitted policy changes).map_on
    intro first one second other
    exact eq_of_serial (inserted first one) (inserted second other)
  · intro symbol key known
    rw [emits]
    constructor
    · rintro ⟨name, holds⟩
      rcases get?_or_free_of_holder? holds with entry | owner
      · cases known.symm.trans (coherent.named name symbol entry)
        exact entry
      · cases known.symm.trans (coherent.owned name symbol owner).1
    · intro entry
      exact ⟨key, holder?_of_entry entry⟩
  · intro symbol anonymous
    rw [emits]
    constructor
    · rintro ⟨name, holds⟩
      rcases get?_or_free_of_holder? holds with entry | owner
      · cases anonymous.symm.trans (coherent.named name symbol entry)
      · exact ⟨name, owner⟩
    · rintro ⟨name, owner⟩
      exact ⟨name, coherent.holder?_of_owner owner⟩
  · intro name symbol held
    have holds : table.holder? name = some symbol := by
      rcases held with entry | owner
      · exact holder?_of_entry entry
      · exact coherent.holder?_of_owner owner
    have wins : ∀ header, symbol ∈ table.winners header ↔ header = symbol.header := by
      intro header
      rw [mem_winners_iff_holds]
      exact and_iff_left ⟨name, holds⟩
    have contributes := (List.mem_filter.mp ((wins symbol.header).mpr rfl)).1
    exact ⟨header_mem_headers contributes, wins⟩

end SymbolTable

end CBindings
