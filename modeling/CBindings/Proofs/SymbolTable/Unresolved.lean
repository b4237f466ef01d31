import CBindings.Proofs.SymbolTable.Emitted
import CBindings.SymbolTable.Reference

/-! Which type names a table reports as missing, and which it takes for declared. -/

namespace CBindings

/-! ### One item for each key -/

section

variable {α κ : Type} [BEq κ] {key : α → κ}

theorem eraseDupsBy_sublist (items : List α) :
    (items.eraseDupsBy fun later earlier => key later == key earlier).Sublist items := by
  match items with
  | [] => exact List.Sublist.refl []
  | first :: rest =>
    rw [List.eraseDupsBy_cons]
    exact .cons_cons first ((eraseDupsBy_sublist _).trans List.filter_sublist)
termination_by items.length
decreasing_by exact Nat.lt_succ_of_le (List.length_filter_le _ _)

variable [LawfulBEq κ]

theorem exists_mem_eraseDupsBy {item : α} (items : List α) (member : item ∈ items) :
    ∃ kept ∈ items.eraseDupsBy fun later earlier => key later == key earlier,
      key kept = key item := by
  match items with
  | [] => cases member
  | first :: rest =>
    rw [List.eraseDupsBy_cons]
    by_cases same : key item = key first
    · exact ⟨first, List.mem_cons_self, same.symm⟩
    · have inside : item ∈ rest.filter fun item => (key item == key first) = false := by
        rcases List.mem_cons.mp member with rfl | member
        · exact absurd rfl same
        · exact List.mem_filter.mpr ⟨member, by simp [same]⟩
      obtain ⟨kept, member, agrees⟩ := exists_mem_eraseDupsBy _ inside
      exact ⟨kept, List.mem_cons_of_mem _ member, agrees⟩
termination_by items.length
decreasing_by exact Nat.lt_succ_of_le (List.length_filter_le _ _)

theorem nodup_map_eraseDupsBy (items : List α) :
    ((items.eraseDupsBy fun later earlier => key later == key earlier).map key).Nodup := by
  match items with
  | [] => exact List.nodup_nil
  | first :: rest =>
    rw [List.eraseDupsBy_cons, List.map_cons, List.nodup_cons]
    refine ⟨?_, nodup_map_eraseDupsBy _⟩
    intro repeated
    obtain ⟨later, member, same⟩ := List.mem_map.mp repeated
    have other := (List.mem_filter.mp ((eraseDupsBy_sublist _).mem member)).2
    simp [same] at other
termination_by items.length
decreasing_by exact Nat.lt_succ_of_le (List.length_filter_le _ _)

end

/-! ### Names in types -/

namespace CType

inductive Mentions (name : TypeName) : CType → Prop where
  | here : Mentions name (.named name)
  | target {target : CType} {qualifiers : List String} :
    Mentions name target → Mentions name (.pointer target qualifiers)
  | element {element : CType} {extent : Extent} :
    Mentions name element → Mentions name (.array element extent)
  | result {result : CType} {parameters : List Parameter} {variadic : Bool}
      {convention : Option String} :
    Mentions name result → Mentions name (.function result parameters variadic convention)
  | parameter {result : CType} {parameters : List Parameter} {variadic : Bool}
      {convention : Option String} {parameter : Parameter} :
    parameter ∈ parameters → Mentions name parameter.2 →
      Mentions name (.function result parameters variadic convention)

mutual

theorem mem_names_iff (name : TypeName) (type : CType) :
    name ∈ type.names ↔ type.Mentions name := by
  cases type with
  | named other =>
    rw [names, List.mem_singleton]
    constructor
    · rintro rfl
      exact .here
    · rintro ⟨⟩
      rfl
  | pointer target qualifiers =>
    rw [names, mem_names_iff name target]
    constructor
    · exact .target
    · rintro ⟨⟩
      assumption
  | array element extent =>
    rw [names, mem_names_iff name element]
    constructor
    · exact .element
    · rintro ⟨⟩
      assumption
  | function result parameters variadic convention =>
    rw [names, List.mem_append, mem_names_iff name result, mem_parameterNames_iff name parameters]
    constructor
    · rintro (mentions | ⟨parameter, member, mentions⟩)
      · exact .result mentions
      · exact .parameter member mentions
    · intro mentions
      cases mentions with
      | result mentions => exact .inl mentions
      | parameter member mentions => exact .inr ⟨_, member, mentions⟩

theorem mem_parameterNames_iff (name : TypeName) (parameters : List Parameter) :
    name ∈ parameterNames parameters ↔
      ∃ parameter ∈ parameters, parameter.2.Mentions name := by
  cases parameters with
  | nil => simp [parameterNames]
  | cons first rest =>
    obtain ⟨label, type⟩ := first
    rw [parameterNames, List.mem_append, mem_names_iff name type, mem_parameterNames_iff name rest,
      List.exists_mem_cons_iff]

end

end CType

def Item.Mentions (item : Item) (name : TypeName) : Prop :=
  ∃ type ∈ item.types, type.Mentions name

theorem Item.mem_names_iff (item : Item) (name : TypeName) :
    name ∈ item.types.flatMap CType.names ↔ item.Mentions name := by
  simp only [List.mem_flatMap, CType.mem_names_iff, Item.Mentions]

/-- Whether a declaration is one of a type that a name can refer to: a typedef for a plain name, and
a struct, an enum or a union for a tag. -/
def TypeName.isDeclaredBy (name : TypeName) : Item → Bool
  | .typedef .. => !name.kind.isTag
  | .struct .. | .union .. | .enum .. => name.kind.isTag
  | .function .. | .object .. | .constant .. => false

/-! ### Missing types -/

namespace SymbolTable

variable {table : SymbolTable} {name : TypeName}

/-- No type declaration of a table stands behind a name, and the name is not one of those that need
none. -/
structure Missing (table : SymbolTable) (name : TypeName) : Prop where
  refers : name.kind ≠ .primitive
  other : name.qualifiedName ∉ Primitive.names
  unknown : name.kind = .typedef → name.qualifiedName ∉ Target.wellKnown
  undeclared : ∀ symbol, table.get? name.qualifiedName = some symbol →
    ¬name.isDeclaredBy symbol.item

/-- What keeps a missing type from being reported: any declaration under its name, also one that is
not of a type, and a tag that is spelled like a primitive type. -/
inductive Overlooked (table : SymbolTable) (name : TypeName) : Prop where
  | held (symbol : Symbol) : table.get? name.qualifiedName = some symbol → Overlooked table name
  | tag : name.kind.isTag → name.spelling ∈ Primitive.names → Overlooked table name

theorem any_contains_iff {names : List String} (lacks : "None" ∉ names) :
    name.name.any names.contains ↔ name.spelling ∈ names := by
  cases spelled : name.name with
  | none => simpa [TypeName.spelling, spelled] using lacks
  | some text => simp [TypeName.spelling, spelled]

theorem tag_not_primitive (isTag : name.kind.isTag) : name.qualifiedName ∉ Primitive.names := by
  intro member
  have start : name.qualifiedName.toList.take 3 ∈ Primitive.names.map fun text =>
      text.toList.take 3 := List.mem_map_of_mem member
  rw [TypeName.qualifiedName, if_pos isTag, String.toList_append, String.toList_append,
    List.append_assoc, List.take_append_of_le_length (by cases name.kind <;> decide)] at start
  revert isTag start
  generalize name.kind = kind
  cases kind <;> decide

theorem plain_qualifiedName (plain : ¬name.kind.isTag) : name.qualifiedName = name.spelling := by
  simp [TypeName.qualifiedName, plain]

theorem isUnresolved_iff_lacks : table.isUnresolved name ↔
    (name.kind ≠ .primitive ∧ name.spelling ∉ Primitive.names) ∧
      (name.kind = .typedef → name.spelling ∉ Target.wellKnown) ∧
        ∀ symbol, table.get? name.qualifiedName ≠ some symbol := by
  have primitive : name.name.any Primitive.names.contains ↔ name.spelling ∈ Primitive.names :=
    any_contains_iff (by decide)
  have wellKnown : name.name.any Target.wellKnown.contains ↔ name.spelling ∈ Target.wellKnown :=
    any_contains_iff (by decide)
  have held : table.entries.contains name.qualifiedName ↔
      ∃ symbol, table.get? name.qualifiedName = some symbol := Option.isSome_iff_exists
  rw [isUnresolved, Bool.and_eq_true, Bool.and_eq_true, and_assoc]
  simp only [Bool.not_eq_true', ← Bool.not_eq_true, Bool.or_eq_true, Bool.and_eq_true,
    decide_eq_true_eq, primitive, wellKnown, held, not_or, not_and, not_exists, ne_eq]

theorem isUnresolved_iff :
    table.isUnresolved name ↔ table.Missing name ∧ ¬table.Overlooked name := by
  rw [isUnresolved_iff_lacks]
  by_cases isTag : name.kind.isTag
  · have notTypedef : name.kind ≠ .typedef := by
      intro plain
      simp [plain, NameKind.isTag] at isTag
    constructor
    · rintro ⟨⟨refers, other⟩, unknown, free⟩
      refine ⟨⟨refers, tag_not_primitive isTag, fun plain => absurd plain notTypedef,
        fun symbol entry => absurd entry (free symbol)⟩, ?_⟩
      rintro (⟨symbol, entry⟩ | ⟨-, primitive⟩)
      · exact free symbol entry
      · exact other primitive
    · rintro ⟨missing, seen⟩
      exact ⟨⟨missing.refers, fun primitive => seen (.tag isTag primitive)⟩,
        fun plain => absurd plain notTypedef, fun symbol entry => seen (.held symbol entry)⟩
  · have spelled := plain_qualifiedName isTag
    constructor
    · rintro ⟨⟨refers, other⟩, unknown, free⟩
      refine ⟨⟨refers, spelled ▸ other, fun plain => spelled ▸ unknown plain,
        fun symbol entry => absurd entry (free symbol)⟩, ?_⟩
      rintro (⟨symbol, entry⟩ | ⟨tagged, -⟩)
      · exact free symbol entry
      · exact isTag tagged
    · rintro ⟨missing, seen⟩
      exact ⟨⟨missing.refers, spelled ▸ missing.other⟩,
        fun plain => spelled ▸ missing.unknown plain,
        fun symbol entry => seen (.held symbol entry)⟩

/-! ### What is reported -/

/-- A declaration uses a type that is missing and not overlooked. -/
def Lacks (table : SymbolTable) (symbol : Symbol) (key : String) : Prop :=
  ∃ name, symbol.item.Mentions name ∧ name.qualifiedName = key ∧ table.Missing name ∧
    ¬table.Overlooked name

theorem mem_referencesOf_iff {symbol : Symbol} {reference : UnresolvedReference} :
    reference ∈ table.referencesOf symbol ↔
      table.Lacks symbol reference.name ∧ reference.user = userName symbol.item ∧
        reference.header = symbol.header := by
  simp only [referencesOf, List.mem_map, List.mem_filter, Item.mem_names_iff, isUnresolved_iff]
  constructor
  · rintro ⟨name, ⟨mentions, missing, seen⟩, rfl⟩
    exact ⟨⟨name, mentions, rfl, missing, seen⟩, rfl, rfl⟩
  · rintro ⟨⟨name, mentions, known, missing, seen⟩, user, header⟩
    obtain ⟨_, _, _⟩ := reference
    subst known user header
    exact ⟨name, ⟨mentions, missing, seen⟩, rfl⟩

/-- A table reports each missing name once for each emitted declaration that uses it, and nothing
else. Left out are the names that are overlooked. -/
theorem unresolvedReferences_exactly (table : SymbolTable) :
    (table.unresolvedReferences.map UnresolvedReference.pair).Nodup ∧
    (∀ key user, (key, user) ∈ table.unresolvedReferences.map UnresolvedReference.pair ↔
      ∃ symbol ∈ table.emitted, userName symbol.item = user ∧ table.Lacks symbol key) ∧
    ∀ reference ∈ table.unresolvedReferences, ∃ symbol ∈ table.emitted,
      userName symbol.item = reference.user ∧ symbol.header = reference.header ∧
        table.Lacks symbol reference.name := by
  have reported : ∀ reference ∈ table.unresolvedReferences, ∃ symbol ∈ table.emitted,
      userName symbol.item = reference.user ∧ symbol.header = reference.header ∧
        table.Lacks symbol reference.name := by
    intro reference member
    obtain ⟨symbol, emitted, member⟩ := List.mem_flatMap.mp ((eraseDupsBy_sublist _).mem member)
    obtain ⟨lacks, user, header⟩ := mem_referencesOf_iff.mp member
    exact ⟨symbol, emitted, user.symm, header.symm, lacks⟩
  refine ⟨nodup_map_eraseDupsBy _, ?_, reported⟩
  intro key user
  constructor
  · intro paired
    obtain ⟨reference, member, same⟩ := List.mem_map.mp paired
    cases same
    obtain ⟨symbol, emitted, user, -, lacks⟩ := reported reference member
    exact ⟨symbol, emitted, user, lacks⟩
  · rintro ⟨symbol, emitted, rfl, lacks⟩
    have member : ⟨key, userName symbol.item, symbol.header⟩ ∈
        table.emitted.flatMap table.referencesOf :=
      List.mem_flatMap.mpr ⟨symbol, emitted, mem_referencesOf_iff.mpr ⟨lacks, rfl, rfl⟩⟩
    obtain ⟨kept, member, same⟩ : ∃ kept ∈ table.unresolvedReferences,
        kept.pair = (key, userName symbol.item) := exists_mem_eraseDupsBy _ member
    exact List.mem_map.mpr ⟨kept, member, same⟩

/-- A function with the name of a type passes for a declaration of it. -/
theorem function_passes_for_type :
    let void : CType := .named { kind := .primitive, name := some "void" }
    let handle : TypeName := { kind := .typedef, name := some "Handle" }
    let function : Declaration := { item := .function "Handle" void [] false none }
    let user : Declaration :=
      { item := .struct (some "S") (some [{ name := "h", type := .named handle }]) false }
    let table := ofChanges .first [.declaration function, .declaration user]
    (∃ symbol ∈ table.emitted,
      userName symbol.item = "struct S" ∧ symbol.item.Mentions handle) ∧
      table.Missing handle ∧ table.unresolvedReferences = [] := by
  intro void handle function user table
  have entry : table.get? "Handle" = some ⟨0, function⟩ := by decide
  have missing : table.Missing handle := by
    refine ⟨by decide, by decide, by decide, ?_⟩
    intro symbol held
    cases entry.symm.trans held
    decide
  have mentions : user.item.Mentions handle := ⟨.named handle, List.mem_cons_self, .here⟩
  exact ⟨⟨⟨1, user⟩, by decide, by decide, mentions⟩, missing, by decide⟩

end SymbolTable

end CBindings
