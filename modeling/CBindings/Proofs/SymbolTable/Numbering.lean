import CBindings.Proofs.SymbolTable.Enumerator

/-! The serial number of a declaration tells it from all others in a table, so that an emitted
declaration is the entry for its name. -/

namespace CBindings

namespace SymbolTable

variable {table : SymbolTable} {symbol : Symbol} {declaration : Declaration} {key header : String}

structure Numbered (table : SymbolTable) : Prop where
  counted : ∀ header, ∀ symbol ∈ table.contributedBy header, symbol.serial < table.inserted
  apart : ∀ header other, ∀ first ∈ table.contributedBy header,
    ∀ second ∈ table.contributedBy other, first.serial = second.serial → first = second

theorem mem_contributedBy_enlist
    (member : symbol ∈ (table.enlist ⟨table.inserted, declaration⟩).contributedBy header) :
    symbol = ⟨table.inserted, declaration⟩ ∨ symbol ∈ table.contributedBy header := by
  rw [contributedBy_enlist] at member
  split at member
  · exact (List.mem_append.mp member).symm.imp_left List.mem_singleton.mp
  · exact .inr member

theorem Numbered.enlist (numbered : table.Numbered) (declaration : Declaration) :
    (table.enlist ⟨table.inserted, declaration⟩).Numbered where
  counted header symbol member := by
    change symbol.serial < table.inserted + 1
    rcases mem_contributedBy_enlist member with rfl | earlier
    · exact Nat.lt_succ_self _
    · exact Nat.lt_succ_of_lt (numbered.counted header symbol earlier)
  apart header other first one second two same := by
    rcases mem_contributedBy_enlist one with rfl | earlier
    · rcases mem_contributedBy_enlist two with rfl | earlier'
      · rfl
      · exact absurd same.symm (Nat.ne_of_lt (numbered.counted _ _ earlier'))
    · rcases mem_contributedBy_enlist two with rfl | earlier'
      · exact absurd same (Nat.ne_of_lt (numbered.counted _ _ earlier))
      · exact numbered.apart header other first earlier second earlier' same

theorem Numbered.insert (numbered : table.Numbered) (declaration : Declaration) :
    (table.insert declaration).1.Numbered := by
  cases opened : table.isFinal with
  | true =>
    have refused : (table.insert declaration).1 = table := by simp [SymbolTable.insert, opened]
    rw [refused]
    exact numbered
  | false =>
    have enlisted := numbered.enlist declaration
    have settings := (sameSettings_stepwise ⟨table.inserted, declaration⟩).insert opened
    have same : ∀ header, (table.insert declaration).1.contributedBy header =
        (table.enlist ⟨table.inserted, declaration⟩).contributedBy header := by
      intro header
      simp only [contributedBy, (admits_insert opened declaration).contributed]
    constructor
    · intro header symbol member
      rw [settings.inserted]
      exact enlisted.counted header symbol (same header ▸ member)
    · intro header other first one second two
      exact enlisted.apart header other first (same header ▸ one) second (same other ▸ two)

theorem Built.numbered (built : table.Built) : table.Numbered := by
  induction built with
  | empty policy => exact ⟨fun _ _ member => (by cases member), fun _ _ _ member => (by cases member)⟩
  | insert built unspaced ih => exact ih.insert _
  | @addHeader table built header ih =>
    have inserted : (table.addHeader header).1.inserted = table.inserted := by
      unfold SymbolTable.addHeader
      split
      · rfl
      · split
        · rfl
        · rfl
    constructor
    · intro other symbol member
      rw [inserted]
      exact ih.counted other symbol (contributedBy_addHeader header other ▸ member)
    · intro one two first member second member'
      exact ih.apart one two first (contributedBy_addHeader header one ▸ member) second
        (contributedBy_addHeader header two ▸ member')
  | finalize built ih => exact ⟨ih.counted, ih.apart⟩

theorem Built.entry_of_mem_winners (built : table.Built) (wins : symbol ∈ table.winners header)
    (named : symbol.item.qualifiedName = some key) : table.get? key = some symbol := by
  obtain ⟨contributes, emitted⟩ := List.mem_filter.mp wins
  simp only [isEmitted, named] at emitted
  cases entry : table.get? key with
  | none =>
    rw [entry] at emitted
    cases emitted
  | some held =>
    have same : held.serial = symbol.serial := by simpa [entry] using emitted
    have listed := built.listed.entries key held entry
    rw [built.numbered.apart _ _ held listed symbol contributes same]

end SymbolTable

end CBindings
