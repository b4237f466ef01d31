import CBindings.Output.Module
import CBindings.Proofs.SymbolTable.Winner
import Mathlib.Data.List.Nodup
import Mathlib.Data.List.Perm.Subperm

/-! Modules have names of their own, and the module of a declaration is found by its name. -/

namespace CBindings

theorem toString_injective {first second : Nat} (same : toString first = toString second) :
    first = second := by
  have digits : Nat.toDigits 10 first = Nat.toDigits 10 second := by
    rw [← Nat.toList_repr, ← Nat.toList_repr]
    exact congrArg String.toList same
  calc first = Nat.ofDigitChars 10 (Nat.toDigits 10 first) 0 := Nat.ofDigitChars_ten_toDigits.symm
    _ = Nat.ofDigitChars 10 (Nat.toDigits 10 second) 0 := by rw [digits]
    _ = second := Nat.ofDigitChars_ten_toDigits

theorem append_left_injective {before first second : String}
    (same : before ++ first = before ++ second) : first = second := by
  have lists := congrArg String.toList same
  rw [String.toList_append, String.toList_append] at lists
  exact String.toList_inj.mp (List.append_cancel_left lists)

theorem append_right_injective {after first second : String}
    (same : first ++ after = second ++ after) : first = second := by
  have lists := congrArg String.toList same
  rw [String.toList_append, String.toList_append] at lists
  exact String.toList_inj.mp (List.append_cancel_right lists)

namespace OutputModule

variable {header base name : String} {taken headers : List String} {table : SymbolTable}

/-! ### Names -/

theorem candidates_nodup (base : String) (taken : List String) : (candidates base taken).Nodup := by
  refine List.nodup_cons.mpr ⟨?_, ?_⟩
  · intro member
    obtain ⟨k, -, same⟩ := List.mem_map.mp member
    have lengths := congrArg String.length same
    simp only [String.length_append] at lengths
    have mark : ("_" : String).length = 1 := by decide
    omega
  · refine List.Nodup.map ?_ List.nodup_range
    intro first second same
    have numbers := toString_injective (append_left_injective same)
    omega

theorem exists_candidate (base : String) (taken : List String) :
    ∃ name ∈ candidates base taken, name ∉ taken := by
  by_contra all
  have within : candidates base taken ⊆ taken := by
    intro name member
    by_contra new
    exact all ⟨name, member, new⟩
  have few := ((candidates_nodup base taken).subperm within).length_le
  have many : (candidates base taken).length = taken.length + 1 := by simp [candidates]
  omega

theorem nameFor_spec (header : String) (taken : List String) :
    nameFor header taken ∈ candidates (baseName header) taken ∧ nameFor header taken ∉ taken := by
  have available := exists_candidate (baseName header) taken
  simp only [nameFor]
  cases found : (candidates (baseName header) taken).find? fun name => !taken.contains name with
  | some name =>
    have new := List.find?_some found
    exact ⟨List.mem_of_find?_eq_some found, by simpa using new⟩
  | none =>
    obtain ⟨name, member, new⟩ := available
    have used := List.find?_eq_none.mp found name member
    simp [new] at used

theorem baseName_ne_lib (header : String) : baseName header ≠ "lib" := by
  have unreserved : ∀ base : String,
      (if reservedNames.contains base then base ++ "_h" else base) ≠ "lib" := by
    intro base
    split
    · intro same
      have last := congrArg (fun text => text.toList.getLast?) same
      simp at last
    · next free =>
      intro same
      rw [same] at free
      exact free (by decide)
  exact unreserved _

theorem baseName_of_unnumbered (plain : '_' ∉ name.toList) (named : nameFor header taken = name) :
    baseName header = name := by
  have member := (nameFor_spec header taken).1
  rw [named] at member
  rcases List.mem_cons.mp member with here | numbered
  · exact here.symm
  · obtain ⟨k, -, written⟩ := List.mem_map.mp numbered
    refine absurd ?_ plain
    rw [← written, String.toList_append, String.toList_append]
    simp

theorem nameFor_ne_lib (header : String) (taken : List String) : nameFor header taken ≠ "lib" :=
  fun same => baseName_ne_lib header (baseName_of_unnumbered (by decide) same)

theorem nameFor_of_free (free : baseName header ∉ taken) :
    nameFor header taken = baseName header := by
  simp [nameFor, candidates, free]

theorem namesFor_spec (taken headers : List String) :
    (namesFor taken headers).Nodup ∧ ∀ name ∈ namesFor taken headers,
      name ∉ taken ∧ name ≠ "lib" := by
  induction headers generalizing taken with
  | nil => simp [namesFor]
  | cons header rest ih =>
    obtain ⟨distinct, others⟩ := ih (nameFor header taken :: taken)
    have new := (nameFor_spec header taken).2
    refine ⟨List.nodup_cons.mpr ⟨?_, distinct⟩, ?_⟩
    · intro member
      exact (others _ member).1 List.mem_cons_self
    · intro name member
      rcases List.mem_cons.mp member with here | later
      · rw [here]
        exact ⟨new, nameFor_ne_lib header taken⟩
      · obtain ⟨fresh, different⟩ := others name later
        exact ⟨fun old => fresh (List.mem_cons_of_mem _ old), different⟩

/-- A name without a number is given as soon as a header asks for it, and only then. -/
theorem mem_namesFor_iff (taken headers : List String) (plain : '_' ∉ name.toList) :
    name ∈ taken ∨ name ∈ namesFor taken headers ↔
      name ∈ taken ∨ ∃ header ∈ headers, baseName header = name := by
  induction headers generalizing taken with
  | nil => simp [namesFor]
  | cons header rest ih =>
    have step := ih (nameFor header taken :: taken)
    have first : name = nameFor header taken ∨ name ∈ taken ↔
        baseName header = name ∨ name ∈ taken := by
      by_cases used : name ∈ taken
      · simp [used]
      · simp only [used, or_false]
        constructor
        · exact fun same => baseName_of_unnumbered plain same.symm
        · rintro rfl
          exact (nameFor_of_free used).symm
    have asked : (∃ other ∈ header :: rest, baseName other = name) ↔
        baseName header = name ∨ ∃ other ∈ rest, baseName other = name := by simp
    rw [List.mem_cons] at step
    rw [namesFor, List.mem_cons, asked]
    calc
      _ ↔ (name = nameFor header taken ∨ name ∈ taken) ∨
          name ∈ namesFor (nameFor header taken :: taken) rest := by rw [or_left_comm, or_assoc]
      _ ↔ (name = nameFor header taken ∨ name ∈ taken) ∨
          ∃ other ∈ rest, baseName other = name := step
      _ ↔ (baseName header = name ∨ name ∈ taken) ∨
          ∃ other ∈ rest, baseName other = name := by rw [first]
      _ ↔ _ := by rw [or_left_comm, or_assoc]

theorem length_namesFor (taken headers : List String) :
    (namesFor taken headers).length = headers.length := by
  induction headers generalizing taken with
  | nil => rfl
  | cons header rest ih => simp [namesFor, ih]

/-! ### Modules -/

def emitting (table : SymbolTable) : List String :=
  table.headers.filter fun header => !(table.winners header).isEmpty

theorem names_ofTable (table : SymbolTable) :
    (ofTable table).map OutputModule.name = namesFor [] (emitting table) := by
  have lengths := length_namesFor [] (emitting table)
  simp only [ofTable, List.map_map]
  exact List.map_snd_zip (Nat.le_of_eq lengths)

theorem headers_ofTable (table : SymbolTable) :
    (ofTable table).map OutputModule.header = emitting table := by
  have lengths := length_namesFor [] (emitting table)
  simp only [ofTable, List.map_map]
  exact List.map_fst_zip (Nat.le_of_eq lengths.symm)

theorem names_nodup (table : SymbolTable) : ((ofTable table).map OutputModule.name).Nodup := by
  rw [names_ofTable]
  exact (namesFor_spec [] (emitting table)).1

/-- A module has a name without a number just if a header that emits something asks for it. -/
theorem exists_named_iff (plain : '_' ∉ name.toList) :
    (∃ module ∈ ofTable table, module.name = name) ↔
      ∃ header ∈ emitting table, baseName header = name := by
  have given : name ∈ (ofTable table).map OutputModule.name ↔ _ := List.mem_map
  have names := mem_namesFor_iff [] (emitting table) plain
  simp only [List.not_mem_nil, false_or] at names
  rw [← given, names_ofTable, names]

theorem name_ne_lib {module : OutputModule} (member : module ∈ ofTable table) :
    module.name ≠ "lib" := by
  have named : module.name ∈ (ofTable table).map OutputModule.name := List.mem_map_of_mem member
  rw [names_ofTable] at named
  exact ((namesFor_spec [] (emitting table)).2 _ named).2

theorem eq_of_header {first second : OutputModule} (here : first ∈ ofTable table)
    (there : second ∈ ofTable table) (same : first.header = second.header) : first = second := by
  have distinct : ((ofTable table).map OutputModule.header).Nodup := by
    rw [headers_ofTable]
    exact table.contributed.distinct.filter _
  exact List.inj_on_of_nodup_map distinct here there same

theorem symbols_of_mem {module : OutputModule} (member : module ∈ ofTable table) :
    module.symbols = table.winners module.header := by
  obtain ⟨pair, -, rfl⟩ := List.mem_map.mp member
  rfl

theorem symbols_listed {module : OutputModule} (member : module ∈ ofTable table) {symbol : Symbol}
    (holds : symbol ∈ module.symbols) : symbol ∈ table.symbols :=
  SymbolTable.mem_symbols_of_winners (symbols_of_mem member ▸ holds)

theorem exists_module (contributes : header ∈ table.headers) (emits : table.winners header ≠ []) :
    ∃ module ∈ ofTable table, module.header = header := by
  have emitting' : header ∈ emitting table := by simp [emitting, contributes, emits]
  rw [← headers_ofTable] at emitting'
  obtain ⟨module, member, same⟩ := List.mem_map.mp emitting'
  exact ⟨module, member, same⟩

/-- The module that the name of an entry leads to holds the entry, and no other module does. -/
theorem exists_owner {symbol : Symbol} (built : table.Built)
    (entry : table.get? name = some symbol) :
    ∃ owner ∈ ofTable table, owner? (ofTable table) table name = some owner.name ∧
      ∀ module ∈ ofTable table, symbol ∈ module.symbols ↔ module = owner := by
  have wins := built.mem_winners entry
  have contributes := (List.mem_filter.mp wins).1
  obtain ⟨owner, member, same⟩ := exists_module (SymbolTable.header_mem_headers contributes)
    (List.ne_nil_of_mem wins)
  refine ⟨owner, member, ?_, ?_⟩
  · unfold owner? SymbolTable.ownerOf?
    rw [entry, Option.map_some, Option.bind_some]
    cases found : (ofTable table).find? fun module => module.header = symbol.header with
    | none =>
      have missing := List.find?_eq_none.mp found owner member
      simp [same] at missing
    | some module =>
      have first : module.header = symbol.header := by simpa using List.find?_some found
      have there := List.mem_of_find?_eq_some found
      rw [eq_of_header there member (first.trans same.symm)]
      rfl
  · intro module there
    rw [symbols_of_mem there]
    constructor
    · intro holds
      have header := built.listed.headers module.header symbol (List.mem_filter.mp holds).1
      exact eq_of_header there member (header.symm.trans same.symm)
    · intro here
      rw [here, same]
      exact wins

end OutputModule

end CBindings
