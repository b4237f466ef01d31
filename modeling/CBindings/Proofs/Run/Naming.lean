import CBindings.Proofs.Declaration.RoundTrip
import CBindings.Proofs.Header.Naming
import CBindings.Proofs.SymbolTable.Emitted

/-! The names that the items of a run have in Rust, and which of them are the same. -/

namespace CBindings

variable {policy : DuplicatePolicy} {name : String}

/-! ### Tables -/

namespace Item

variable {item : Item}

theorem isKey_of_tagName {word : String} {tag : Option String} (known : word ∈ tagWords)
    (isTag : tagName word tag = some name) : IsKey name := by
  obtain ⟨written, some, rfl⟩ := Option.map_eq_some_iff.mp isTag
  have filled : written ≠ "" := by
    rintro rfl
    simp at some
  exact .tag known filled

theorem isKey_of_qualifiedName (unmarked : ∀ plain ∈ item.plainNames, Unmarked plain)
    (known : item.qualifiedName = some name) : IsKey name := by
  cases item with
  | struct | union | enum => exact isKey_of_tagName (by decide) known
  | function | typedef | object | constant =>
    cases known
    exact .plain (unmarked _ List.mem_cons_self)

theorem isKey_of_claimed (unmarked : ∀ plain ∈ item.plainNames, Unmarked plain)
    (claims : name ∈ item.claimed) : IsKey name := by
  cases known : item.qualifiedName with
  | some key =>
    rw [claimed_of_key known, List.mem_singleton] at claims
    exact claims ▸ isKey_of_qualifiedName unmarked known
  | none =>
    rw [claimed_of_anonymous known] at claims
    cases item with
    | enum tag values isTypedef => exact .plain (unmarked name claims)
    | _ => cases claims

end Item

namespace SymbolTable

variable {table : SymbolTable} {changes : List Change}

/-- The C names of all items of a table: its entries and the free constants. -/
def itemNames (table : SymbolTable) : List String := table.names ++ table.free.keys

/-- Different items have different names in Rust, but for pairs of which one is renamed to what the
other is called in C. -/
def NamesApart (table : SymbolTable) : Prop :=
  ∀ a ∈ table.itemNames, ∀ b ∈ table.itemNames, a ≠ b →
    (Rust.declaredName a = Rust.declaredName b ↔ Rust.Renames a b ∨ Rust.Renames b a)

theorem Coherent.claimed_of_mem {symbols : List Symbol} (coherent : Coherent symbols table)
    (member : name ∈ table.itemNames) : ∃ symbol ∈ symbols, name ∈ symbol.item.claimed := by
  rcases List.mem_append.mp member with isEntry | isFree
  · obtain ⟨symbol, entry⟩ := OrderedMap.mem_keys_iff.mp isEntry
    have known := coherent.named name symbol entry
    refine ⟨symbol, coherent.listed name symbol (holder?_of_entry entry), ?_⟩
    rw [Item.claimed_of_key known]
    exact List.mem_cons_self
  · obtain ⟨symbol, owner⟩ := OrderedMap.mem_keys_iff.mp isFree
    exact ⟨symbol, coherent.listed name symbol (coherent.holder?_of_owner owner),
      (coherent.owned name symbol owner).2⟩

def FilledBy (property : Declaration → Prop) (table : SymbolTable) : Prop :=
  ∃ policy changes, table = ofChanges policy changes ∧ ∀ d ∈ declared changes, property d

namespace FilledBy

variable {property : Declaration → Prop}

theorem empty (property : Declaration → Prop) (policy : DuplicatePolicy) :
    FilledBy property { policy := policy } := ⟨policy, [], rfl, List.forall_mem_nil _⟩

theorem addHeader (filled : table.FilledBy property) (name : String) :
    (table.addHeader name).1.FilledBy property := by
  obtain ⟨policy, changes, rfl, all⟩ := filled
  have step : ofChanges policy (changes ++ [.header name]) =
      ((ofChanges policy changes).addHeader name).1 := ofChanges_append policy changes _
  exact ⟨policy, _, step.symm, by rwa [declared_header]⟩

theorem insert (filled : table.FilledBy property) {d : Declaration} (own : property d) :
    (table.insert d).1.FilledBy property := by
  obtain ⟨policy, changes, rfl, all⟩ := filled
  have step : ofChanges policy (changes ++ [.declaration d]) =
      ((ofChanges policy changes).insert d).1 := ofChanges_append policy changes _
  refine ⟨policy, _, step.symm, ?_⟩
  rw [declared_declaration]
  exact List.forall_mem_append.mpr ⟨all, List.forall_mem_singleton.mpr own⟩

theorem insertAll (filled : table.FilledBy property) {declarations : List Declaration}
    (all : ∀ d ∈ declarations, property d) : (table.insertAll declarations).1.FilledBy property := by
  induction declarations generalizing table with
  | nil => exact filled
  | cons d rest ih =>
    obtain ⟨own, others⟩ := List.forall_mem_cons.mp all
    have first := filled.insert own
    rw [SymbolTable.insertAll]
    split
    · next outcome => rwa [outcome] at first
    · next outcome =>
      rw [outcome] at first
      have later := ih first others
      split
      · next outcome => rwa [outcome] at later
      · next outcome => rwa [outcome] at later

theorem collect (filled : table.FilledBy property) {headers : List Header}
    (all : ∀ header ∈ headers, ∀ d ∈ header.declarations, property d) :
    (Run.collect table headers).1.FilledBy property := by
  induction headers generalizing table with
  | nil => exact filled
  | cons header rest ih =>
    obtain ⟨own, others⟩ := List.forall_mem_cons.mp all
    have named := filled.addHeader header.name
    rw [Run.collect]
    split
    · next outcome => rwa [outcome] at named
    · next outcome =>
      rw [outcome] at named
      have inserted := named.insertAll own
      split
      · next outcome => rwa [outcome] at inserted
      · next outcome =>
        rw [outcome] at inserted
        exact ih inserted others

theorem isKey (filled : table.FilledBy Declaration.IsRead) :
    ∀ name ∈ table.itemNames, IsKey name := by
  obtain ⟨policy, changes, rfl, isRead⟩ := filled
  intro name member
  obtain ⟨symbol, listed, claims⟩ := (coherent_ofChanges policy changes).claimed_of_mem member
  have inserted : symbol.declaration ∈ declared changes := mem_history listed
  exact Item.isKey_of_claimed (isRead _ inserted).unmarked claims

end FilledBy

end SymbolTable

/-! ### Runs -/

theorem Except.eq_ok_of_mapError {ε ε' α : Type} {f : ε → ε'} {result : Except ε α} {a : α}
    (mapped : result.mapError f = .ok a) : result = .ok a := by
  cases result with
  | error error => cases mapped
  | ok b =>
    cases mapped
    rfl

/-- The table of a run is filled with declarations that are read, and then closed. -/
theorem Run.table_filled {tree : FileTree} {environment : String} {entry : Path}
    {config : RunConfig} {run : Run}
    (made : Run.generate tree environment entry config = .ok run) :
    ∃ table : SymbolTable, run.table = table.finalize ∧ table.FilledBy Declaration.IsRead := by
  unfold Run.generate at made
  obtain ⟨settings, -, made⟩ := Except.bind_eq_ok.mp made
  obtain ⟨path, -, made⟩ := Except.bind_eq_ok.mp made
  obtain ⟨walk, reads, made⟩ := Except.bind_eq_ok.mp made
  have read := Except.eq_ok_of_mapError reads
  have filled := (SymbolTable.FilledBy.empty Declaration.IsRead settings.duplicates).collect
    (isRead_of_readHeaders read (MacroTable.named_ofPredefined _))
  generalize Run.collect { policy := settings.duplicates } walk.finished = outcome at made filled
  obtain ⟨table, answer⟩ := outcome
  obtain ⟨-, -, made⟩ := Except.bind_eq_ok.mp made
  cases made
  exact ⟨table, rfl, filled⟩

/-- The items of a table that is filled with declarations that are read, and those of the table of a
run, are told apart by their names in Rust, unless one is renamed to what another is called in C. -/
theorem items_namesApart (table : SymbolTable)
    (origin : table.FilledBy Declaration.IsRead ∨ ∃ tree environment entry config run,
      Run.generate tree environment entry config = .ok run ∧ run.table = table) :
    table.NamesApart := by
  have apart (table : SymbolTable) (filled : table.FilledBy Declaration.IsRead) :
      table.NamesApart :=
    fun a first b second => Rust.declaredName_eq_iff (filled.isKey a first) (filled.isKey b second)
  rcases origin with filled | ⟨tree, environment, entry, config, run, made, rfl⟩
  · exact apart table filled
  · obtain ⟨source, closed, filled⟩ := Run.table_filled made
    rw [closed]
    exact apart source filled

def structA : Declaration := ⟨.struct (some "A") none false, some ⟨"a.h", 1⟩⟩

def aliasName : String := "struct_A"

def aliasA : Declaration :=
  ⟨.typedef aliasName (.named ⟨.primitive, some "int", []⟩), some ⟨"a.h", 1⟩⟩

def tableWithA : SymbolTable := .ofChanges .first [.declaration structA, .declaration aliasA]

theorem tableWithA_filled : tableWithA.FilledBy Declaration.IsRead := by
  have opaqueTag : structA.IsRead := by
    refine ⟨tokenize "struct A;" 1, "a.h", [], ?_, named_of_mem_tokensOf, List.forall_mem_nil _⟩
    have read : (declarationsOf (tokenize "struct A;" 1) "a.h").1 = [structA] := by cbv
    rw [read]
    exact List.mem_cons_self
  have definition : aliasA.IsRead := by
    refine ⟨tokenize "typedef int struct_A;" 1, "a.h", [], ?_, named_of_mem_tokensOf,
      List.forall_mem_nil _⟩
    have written : (tokenize "typedef int struct_A;" 1).map Token.lexeme =
        typedefLexemes false aliasName (.named ⟨.primitive, some "int", []⟩) := by cbv
    have line : ((tokenize "typedef int struct_A;" 1).head?.map Token.line).getD 0 = 1 := by cbv
    have writable : CType.Writable (.named ⟨.primitive, some "int", []⟩) :=
      ⟨by simp, "int", rfl, show "int" ∈ Primitive.names by decide⟩
    have plain : PlainWord aliasName := by decide +kernel
    have read := declarationsOf_typedefLexemes false "a.h" aliasName _ writable plain _ written
    rw [read, line]
    exact List.mem_cons_self
  refine ⟨.first, _, rfl, ?_⟩
  exact List.forall_mem_cons.mpr ⟨opaqueTag, List.forall_mem_singleton.mpr definition⟩

theorem tableWithA_namesApart :
    tableWithA.FilledBy Declaration.IsRead ∧ tableWithA.NamesApart :=
  ⟨tableWithA_filled, items_namesApart tableWithA (.inl tableWithA_filled)⟩

/-- Two entries of one table that have the same name in Rust. -/
theorem struct_and_typedef_collide :
    tableWithA.FilledBy Declaration.IsRead ∧ "struct A" ∈ tableWithA.names ∧
      "struct_A" ∈ tableWithA.names ∧ "struct A" ≠ "struct_A" ∧
      Rust.declaredName "struct A" = Rust.declaredName "struct_A" :=
  ⟨tableWithA_filled, by decide +kernel, by decide +kernel, by decide, by decide +kernel⟩

end CBindings
