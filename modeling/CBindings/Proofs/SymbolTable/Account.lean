import CBindings.Proofs.SymbolTable.Emitted

/-! Under a policy that refuses nothing every claim on a name is accounted for, and every clash is
reported. -/

namespace CBindings

theorem Item.key_of_hidden {item : Item} {name : String} (hidden : item.isOpaque)
    (claims : name ∈ item.claimed) : item.qualifiedName = some name := by
  cases known : item.qualifiedName with
  | none =>
    rw [(Item.not_opaque_of_enumerator known claims).1] at hidden
    cases hidden
  | some key =>
    rw [Item.claimed_of_key known, List.mem_singleton] at claims
    rw [claims]

theorem Item.unspaced_of_hidden {item : Item} (hidden : item.isOpaque) : item.Unspaced := by
  cases item with
  | struct | union => simp [Unspaced, plainNames]
  | _ => simp [isOpaque] at hidden

namespace SymbolTable

variable {table before after : SymbolTable} {symbol new held : Symbol} {name other : String}
  {names : List String} {policy : DuplicatePolicy} {history : List Declaration}

/-! ### Claims -/

/-- What a table tells of a symbol that claims a name. Either the symbol, or one that declares the
same, gave way in a clash; or the name has a holder that declares the same, or any holder if the
symbol is opaque. -/
def Accounted (table : SymbolTable) (symbol : Symbol) (name : String) : Prop :=
  (∃ clash ∈ table.duplicates, clash.name = name ∧ clash.discarded.agrees symbol) ∨
    ∃ held, table.holder? name = some held ∧ (held.agrees symbol ∨ symbol.item.isOpaque)

/-- An opaque holder that another completes is only missed by opaque symbols. -/
theorem Accounted.of_takes (accounted : Accounted before symbol other)
    (gives : ∀ held, before.holder? name = some held → held.item.isOpaque)
    (awards : Awards new name before after) : Accounted after symbol other := by
  rcases accounted with ⟨clash, recorded, about⟩ | ⟨held, found, without⟩
  · exact .inl ⟨clash, awards.duplicates ▸ recorded, about⟩
  · by_cases same : other = name
    · have hidden : symbol.item.isOpaque := by
        rcases without with agrees | hidden
        · rw [← Symbol.agrees_iff.mp agrees]
          exact gives held (same ▸ found)
        · exact hidden
      exact .inr ⟨new, by rw [awards.holder?, if_pos same], .inr hidden⟩
    · exact .inr ⟨held, by rw [awards.holder?, if_neg same, found], without⟩

/-- A holder that gives way in a clash is recorded for all that declare the same. -/
theorem Accounted.of_replaces (accounted : Accounted before symbol other)
    (found : before.holder? name = some held)
    (awards : Awards new name (before.recordClash name held new true) after) :
    Accounted after symbol other := by
  have records : after.duplicates = before.duplicates ++ [⟨name, new, held⟩] := awards.duplicates
  rcases accounted with ⟨clash, recorded, about⟩ | ⟨holder, holds, without⟩
  · exact .inl ⟨clash, records ▸ List.mem_append_left _ recorded, about⟩
  · by_cases same : other = name
    · cases (same ▸ holds).symm.trans found
      rcases without with agrees | hidden
      · left
        exact ⟨_, records ▸ List.mem_append_right _ List.mem_cons_self, same.symm, agrees⟩
      · exact .inr ⟨new, by rw [awards.holder?, if_pos same], .inr hidden⟩
    · have stays : after.holder? other = before.holder? other := by
        rw [awards.holder?, if_neg same]
        rfl
      exact .inr ⟨holder, stays.trans holds, without⟩

theorem Settlement.accounted (settled : Settlement new name before after)
    (accounted : Accounted before symbol other) : Accounted after symbol other := by
  cases settled with
  | stays | refused => exact accounted
  | loses held found policy =>
    rcases accounted with ⟨clash, recorded, about⟩ | holds
    · exact .inl ⟨clash, List.mem_append_left _ recorded, about⟩
    · exact .inr holds
  | takes after gives awards => exact accounted.of_takes gives awards
  | replaces held after found policy awards => exact accounted.of_replaces found awards

theorem Settlement.accounts (settled : Settlement symbol name before after)
    (lenient : before.policy ≠ .error) : Accounted after symbol name := by
  cases settled with
  | stays held found without => exact .inr ⟨held, found, without⟩
  | loses held found policy =>
    left
    exact ⟨_, List.mem_append_right _ List.mem_cons_self, rfl, symbol.agrees_self⟩
  | takes after gives awards =>
    exact .inr ⟨symbol, by rw [awards.holder?, if_pos rfl], .inl symbol.agrees_self⟩
  | replaces held after found policy awards =>
    exact .inr ⟨symbol, by rw [awards.holder?, if_pos rfl], .inl symbol.agrees_self⟩
  | refused policy => exact absurd policy lenient

theorem Settlements.accounts (settled : Settlements symbol before names after)
    (lenient : before.policy ≠ .error) : ∀ name ∈ names, Accounted after symbol name := by
  induction settled with
  | nil table =>
    intro name member
    cases member
  | cons first others ih =>
    intro name member
    rcases List.mem_cons.mp member with rfl | later
    · apply others.keep
      · intro other _ before after settled
        exact settled.accounted
      · exact first.accounts lenient
    · exact ih (first.policy_eq ▸ lenient) name later

/-! ### Reports -/

def Reported (table : SymbolTable) : Prop :=
  (table.diagnostics.filter fun diagnostic => diagnostic.kind = Diagnostic.duplicateSymbol).length =
    table.duplicates.length

theorem Reported.recordClash (reported : before.Reported) (replaces : Bool) :
    (before.recordClash name held new replaces).Reported := by
  unfold Reported at reported ⊢
  simp [SymbolTable.recordClash, reported]

theorem Settlement.reported (settled : Settlement new name before after)
    (reported : before.Reported) : after.Reported := by
  cases settled with
  | stays | refused => exact reported
  | loses => exact reported.recordClash false
  | takes after gives awards =>
    rw [Reported, awards.diagnostics, awards.duplicates]
    exact reported
  | replaces held after found policy awards =>
    rw [Reported, awards.diagnostics, awards.duplicates]
    exact reported.recordClash true

/-! ### A whole history -/

theorem ofHistory_eq_ofChanges (policy : DuplicatePolicy) (history : List Declaration) :
    ofHistory policy history = ofChanges policy (history.map .declaration) := by
  rw [ofHistory, ofChanges, List.foldl_map]
  rfl

theorem declared_map (history : List Declaration) :
    declared (history.map .declaration) = history := by
  simp [declared, List.filterMap_map]

theorem coherent_ofHistory (policy : DuplicatePolicy) (history : List Declaration) :
    Coherent (symbolsOf history) (ofHistory policy history) := by
  have coherent := coherent_ofChanges policy (history.map .declaration)
  rwa [← ofHistory_eq_ofChanges, declared_map] at coherent

theorem Coherent.claims {symbols : List Symbol} (coherent : Coherent symbols table)
    (holds : table.holder? name = some held) : name ∈ held.item.claimed := by
  rcases get?_or_free_of_holder? holds with entry | owner
  · rw [Item.claimed_of_key (coherent.named name held entry)]
    exact List.mem_cons_self
  · exact (coherent.owned name held owner).2

theorem policy_ofHistory (policy : DuplicatePolicy) (history : List Declaration) :
    (ofHistory policy history).policy = policy := by
  induction history using List.reverseRecOn with
  | nil => rfl
  | append_singleton history declaration ih =>
    have steps := (sameSettings_stepwise ⟨(ofHistory policy history).inserted, declaration⟩).insert
      (counted_ofHistory policy history).1
    rw [ofHistory_append, steps.policy]
    exact ih

theorem settles_ofHistory (policy : DuplicatePolicy) (history : List Declaration)
    (declaration : Declaration) :
    Settlements ⟨history.length, declaration⟩ (ofHistory policy history).ledger
      declaration.item.claimed (ofHistory policy (history ++ [declaration])).ledger := by
  obtain ⟨opened, counted⟩ := counted_ofHistory policy history
  rw [ofHistory_append, ← counted]
  exact insert_settles (coherent_ofHistory policy history).apart opened declaration

theorem accounted_ofHistory (lenient : policy ≠ .error) (history : List Declaration) :
    ∀ symbol ∈ symbolsOf history, ∀ name ∈ symbol.item.claimed,
      Accounted (ofHistory policy history) symbol name := by
  induction history using List.reverseRecOn with
  | nil =>
    intro symbol member
    cases member
  | append_singleton history declaration ih =>
    have settled := settles_ofHistory policy history declaration
    intro symbol member name claims
    rw [symbolsOf_append, List.mem_append] at member
    rcases member with earlier | new
    · have before : Accounted (ofHistory policy history).ledger symbol name :=
        ih symbol earlier name claims
      exact settled.keep (fun _ _ _ _ settled => settled.accounted) before
    · cases List.mem_singleton.mp new
      have unrefused : (ofHistory policy history).ledger.policy ≠ .error := by
        rw [show (ofHistory policy history).ledger.policy = policy from policy_ofHistory ..]
        exact lenient
      exact settled.accounts unrefused name claims

theorem reported_ofHistory (policy : DuplicatePolicy) (history : List Declaration) :
    (ofHistory policy history).Reported := by
  induction history using List.reverseRecOn with
  | nil => rfl
  | append_singleton history declaration ih =>
    have before : (ofHistory policy history).ledger.Reported := ih
    exact (settles_ofHistory policy history declaration).keep
      (fun _ _ _ _ settled => settled.reported) before

theorem mem_emitted_of_holder? (holds : (ofHistory policy history).holder? name = some held) :
    held ∈ (ofHistory policy history).emitted := by
  rw [ofHistory_eq_ofChanges] at holds ⊢
  exact mem_emitted_iff_holds.mpr ⟨name, holds⟩

theorem kind_eq_of_claims (claims : name ∈ symbol.item.claimed) (hidden : symbol.item.isOpaque)
    (heldClaims : name ∈ held.item.claimed) (waiting : held.item.isOpaque) :
    held.item.kind = symbol.item.kind :=
  Item.kind_eq_of_hidden hidden (Item.key_of_hidden hidden claims)
    (Item.key_of_hidden waiting heldClaims) (Item.unspaced_of_hidden waiting)

/-- Of every contributed declaration and every name it claims the table tells what became: it, or
one that declares the same, gave way in a clash on the name; or what is emitted for the name
declares the same; or it is opaque, and either what is emitted for the name is so too or something
that claims the name is not. Every clash is reported. -/
theorem claims_accounted (policy : DuplicatePolicy) (lenient : policy ≠ .error)
    (history : List Declaration) :
    let table := ofHistory policy history
    (∀ header, ∀ symbol ∈ table.contributedBy header, ∀ name ∈ symbol.item.claimed,
      (∃ clash ∈ table.duplicates, clash.name = name ∧ clash.discarded.agrees symbol) ∨
      (∃ held ∈ table.emitted, table.holder? name = some held ∧
        (held.agrees symbol ∨
          symbol.item.isOpaque ∧ held.item.isOpaque ∧ held.item.kind = symbol.item.kind)) ∨
      symbol.item.isOpaque ∧ ∃ header, ∃ other ∈ table.contributedBy header,
        name ∈ other.item.claimed ∧ other.item.isOpaque = false) ∧
    (table.diagnostics.filter fun diagnostic =>
      diagnostic.kind = Diagnostic.duplicateSymbol).length = table.duplicates.length := by
  intro table
  have coherent : Coherent (symbolsOf history) table := coherent_ofHistory policy history
  refine ⟨?_, reported_ofHistory policy history⟩
  intro header symbol contributed name claims
  rw [contributedBy_ofHistory, List.mem_filter] at contributed
  rcases accounted_ofHistory lenient history symbol contributed.1 name claims with
    recorded | ⟨held, holds, without⟩
  · exact .inl recorded
  · have heldClaims : name ∈ held.item.claimed := coherent.claims holds
    have emits : held ∈ table.emitted := mem_emitted_of_holder? holds
    rcases without with agrees | hidden
    · exact .inr (.inl ⟨held, emits, holds, .inl agrees⟩)
    · by_cases waiting : held.item.isOpaque
      · have kinds := kind_eq_of_claims claims hidden heldClaims waiting
        exact .inr (.inl ⟨held, emits, holds, .inr ⟨hidden, waiting, kinds⟩⟩)
      · have listed : held ∈ table.contributedBy held.header := by
          rw [contributedBy_ofHistory, List.mem_filter]
          exact ⟨coherent.listed name held holds, decide_eq_true rfl⟩
        have shown : held.item.isOpaque = false := Bool.eq_false_iff.mpr waiting
        exact .inr (.inr ⟨hidden, held.header, held, listed, heldClaims, shown⟩)

def forwardHistory : List Declaration :=
  [{ item := .struct (some "X") none false },
   { item := .struct (some "X") none true },
   { item := .struct none (some []) false }]

/-- The second declaration is not emitted. No clash was recorded in which it gave way, what is emitted
for its name differs, and nothing completes it. The third is not emitted either, and has no name to be
recorded under. -/
theorem forward_unaccounted :
    let table := ofHistory .first forwardHistory
    let second : Symbol := ⟨1, forwardHistory[1]⟩
    let third : Symbol := ⟨2, forwardHistory[2]⟩
    (second ∈ table.contributedBy "<unknown>" ∧ second ∉ table.emitted ∧
      second.item.qualifiedName = some "struct X" ∧
      ¬ ((∃ clash ∈ table.duplicates,
            clash.name = "struct X" ∧ clash.discarded.agrees second) ∨
          (∃ held ∈ table.emitted, table.get? "struct X" = some held ∧ held.agrees second) ∨
          second.item.isOpaque ∧ ∃ other ∈ table.contributedBy "<unknown>",
            "struct X" ∈ other.item.claimed ∧ other.item.isOpaque = false)) ∧
    third ∈ table.contributedBy "<unknown>" ∧ third ∉ table.emitted ∧
      third.item.qualifiedName = none ∧ third.item.isOpaque = false := by
  decide

/-- Of two constants with one name the second is recorded and reported. -/
theorem clash_accounted :
    let history := [{ item := .constant "A" ["1"] }, { item := .constant "A" ["2"] }]
    DuplicatePolicy.first ≠ .error ∧
    (∃ clash ∈ (ofHistory .first history).duplicates,
      clash.name = "A" ∧ clash.discarded.agrees ⟨1, history[1]⟩) ∧
    ((ofHistory .first history).diagnostics.filter fun diagnostic =>
      diagnostic.kind = Diagnostic.duplicateSymbol).length = 1 := by
  intro history
  obtain ⟨accounted, reported⟩ := claims_accounted .first (by decide) history
  have holder : (ofHistory .first history).holder? "A" = some ⟨0, history[0]⟩ := by decide
  refine ⟨by decide, ?_, reported⟩
  rcases accounted "<unknown>" ⟨1, history[1]⟩ (by decide) "A" (by decide) with
    recorded | ⟨held, -, holds, agrees | ⟨hidden, -⟩⟩ | ⟨hidden, -⟩
  · exact recorded
  · cases holds.symm.trans holder
    exact absurd agrees (by decide)
  · cases hidden
  · cases hidden

end SymbolTable

end CBindings
