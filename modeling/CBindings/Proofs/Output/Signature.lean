import CBindings.Proofs.Output.Declared
import CBindings.Proofs.Output.FunctionLine
import CBindings.Proofs.Rust.Unaliasing
import CBindings.Proofs.SymbolTable.Numbering

/-! Type aliases in the generated files do not change the signatures of functions, but for arrays
and void that C treats by what they are. -/

namespace CBindings

open MappingMemo SymbolTable TypeMapper

variable (target : Target) (policy : NamespacePolicy) (crateName : CrateName) {table : SymbolTable}

def OutputModule.aliases (mapper : TypeMapper) (memo : MappingMemo) (module : OutputModule) :
    List (ItemPlace × RustType) :=
  module.symbols.filterMap fun symbol =>
    match symbol.item with
    | .typedef name type =>
      if (mapper.map module.name type memo).1.isOk then
        some ((module.name, Rust.identifier name), mapper.written memo module.name type)
      else none
    | _ => none

def EmittedFiles.viewpoint (emitted : EmittedFiles) (mapper : TypeMapper) (module : String) :
    Viewpoint where
  aliases := emitted.modules.flatMap (·.aliases mapper emitted.memo)
  ownTypes := Rust.ownTypes mapper.scope.target
  module := module

/-- The signature of a function as a module has it, with all aliases replaced. -/
def EmittedFiles.unaliased (emitted : EmittedFiles) (mapper : TypeMapper) (module : String)
    (result : CType) (parameters : List Parameter) (variadic : Bool) (convention : Option String) :
    RustType :=
  (emitted.viewpoint mapper module).unalias module
    (.function (Rust.abi convention)
      ((mapper.writtenParameters emitted.memo module parameters).map Prod.snd) variadic
      (mapper.writtenResult emitted.memo module result))

/-- No declaration has the Rust name of one of Rust's own types, and none but a typedef itself that
of a typedef in its module. -/
structure SymbolTable.Distinct (table : SymbolTable) (target : Target) : Prop where
  notOwn : ∀ name ∈ table.names, Rust.declaredName name ∉ Rust.ownTypes target
  apart : ∀ name ∈ table.names, ∀ other ∈ table.names, (table.typedef? name).isSome →
    (TypeMapper.ofTable target table).placeOf name =
      (TypeMapper.ofTable target table).placeOf other → name = other

instance (table : SymbolTable) (target : Target) : Decidable (table.Distinct target) :=
  decidable_of_iff
    ((∀ name ∈ table.names, Rust.declaredName name ∉ Rust.ownTypes target) ∧
      ∀ name ∈ table.names, ∀ other ∈ table.names, (table.typedef? name).isSome →
        (TypeMapper.ofTable target table).placeOf name =
          (TypeMapper.ofTable target table).placeOf other → name = other)
    ⟨fun both => ⟨both.1, both.2⟩, fun distinct => ⟨distinct.notOwn, distinct.apart⟩⟩

namespace EmittedFiles

theorem mem_aliases {mapper : TypeMapper} {memo : MappingMemo} {module : OutputModule}
    {place : ItemPlace} {type : RustType} :
    (place, type) ∈ module.aliases mapper memo ↔
      ∃ symbol ∈ module.symbols, ∃ name underlying, symbol.item = .typedef name underlying ∧
        (mapper.map module.name underlying memo).1.problems = [] ∧
        place = (module.name, Rust.identifier name) ∧
        type = mapper.written memo module.name underlying := by
  unfold OutputModule.aliases
  rw [List.mem_filterMap]
  constructor
  · rintro ⟨symbol, member, same⟩
    cases item : symbol.item with
    | typedef name underlying =>
      rw [item] at same
      simp only [Option.ite_none_right_eq_some, Option.some.injEq, Prod.mk.injEq] at same
      obtain ⟨ok, rfl, rfl⟩ := same
      exact ⟨symbol, member, name, underlying, item, by simpa [Mapping.isOk] using ok, rfl, rfl⟩
    | _ =>
      rw [item] at same
      cases same
  · rintro ⟨symbol, member, name, underlying, item, ok, rfl, rfl⟩
    refine ⟨symbol, member, ?_⟩
    have isOk : (mapper.map module.name underlying memo).1.isOk = true := by
      simp [Mapping.isOk, ok]
    simp only [item, isOk, if_true]

theorem typedef_mapped (acyclic : table.Acyclic) {owner : OutputModule}
    (member : owner ∈ OutputModule.ofTable table) {symbol : Symbol} (holds : symbol ∈ owner.symbols)
    {name : String} {underlying : CType} (item : symbol.item = .typedef name underlying) :
    ∃ state : EmissionState, ∃ lines,
      (ofTable .rust target policy crateName table).files.get? (owner.name ++ ".rs") =
        some (Rust.text lines) ∧
      ((TypeMapper.ofTable target table).map owner.name underlying state.memo).2.Extends
        (ofTable .rust target policy crateName table).memo ∧
      (((TypeMapper.ofTable target table).map owner.name underlying state.memo).1.problems = [] →
        "pub type " ++ Rust.identifier name ++ " = " ++
          ((TypeMapper.ofTable target table).map owner.name underlying state.memo).1.text ++ ";" ∈
            lines) := by
  obtain ⟨state, file, after⟩ := exists_text target policy crateName member
  obtain ⟨middle, listed, later⟩ :=
    Rust.mem_pieces ⟨.ofTable target table, policy, crateName⟩ member holds state
  have remembered := (later.gains acyclic).adds.trans (after.gains acyclic).adds
  rw [Rust.piece_memo item] at remembered
  refine ⟨middle, _, file, remembered, fun ok => List.mem_append_right _ ?_⟩
  have lines : (Rust.piece ⟨.ofTable target table, policy, crateName⟩ owner symbol middle).1 =
      .lines ["pub type " ++ Rust.identifier name ++ " = " ++
        ((TypeMapper.ofTable target table).map owner.name underlying middle.memo).1.text ++
          ";"] := by
    have run : ∀ lines : Emission (List String),
        ((Rust.Piece.lines <$> lines) middle).1 = .lines (lines middle).1 := fun lines => rfl
    simp only [Rust.piece, item, run]
    rw [Rust.typedLines_isOk ok]
  rw [lines] at listed
  exact Rust.mem_assemble List.mem_cons_self _ listed

theorem owner_of_entry (built : table.Built) {name : String} {symbol : Symbol}
    (entry : table.get? name = some symbol) :
    ∃ owner ∈ OutputModule.ofTable table, symbol ∈ owner.symbols ∧
      (TypeMapper.ofTable target table).moduleOf name = some owner.name := by
  obtain ⟨owner, member, found, only⟩ := OutputModule.exists_owner built entry
  exact ⟨owner, member, (only owner member).mpr rfl, found⟩

theorem entry_of_symbol (built : table.Built) {owner : OutputModule}
    (member : owner ∈ OutputModule.ofTable table) {symbol : Symbol} (holds : symbol ∈ owner.symbols)
    {name : String} (named : symbol.item.qualifiedName = some name) :
    table.get? name = some symbol ∧
      (TypeMapper.ofTable target table).moduleOf name = some owner.name := by
  have wins : symbol ∈ table.winners owner.header := OutputModule.symbols_of_mem member ▸ holds
  have entry := built.entry_of_mem_winners wins named
  obtain ⟨other, there, found, only⟩ := OutputModule.exists_owner built entry
  have same : owner = other := (only owner member).mp holds
  exact ⟨entry, same ▸ found⟩

theorem memo_sound (acyclic : table.Acyclic) :
    (ofTable .rust target policy crateName table).memo.Sound (.ofTable target table) := by
  have leads : Leads (.ofTable target table) {}
      (ofTable .rust target policy crateName table).memo := ofTable_leads
  exact (leads.gains acyclic).sound (sound_empty _)

theorem placeOf_typedef (built : table.Built) {name : String} {underlying : CType}
    (found : table.typedef? name = some underlying) {owner : String}
    (owned : (TypeMapper.ofTable target table).moduleOf name = some owner) :
    (TypeMapper.ofTable target table).placeOf name = (owner, Rust.identifier name) := by
  obtain ⟨symbol, other, entry, item⟩ := typedef?_eq_some.mp found
  obtain ⟨known, unspaced⟩ := built.consistent.named name symbol entry
  rw [item] at known unspaced
  cases known
  rw [placeOf, owned, Rust.declaredName_of_unspaced (unspaced _ (List.mem_singleton_self _))]
  rfl

/-- A typedef that has no problems in the end had none when its alias was written. -/
theorem settled_of_typedef (acyclic : table.Acyclic) {owner : OutputModule}
    (member : owner ∈ OutputModule.ofTable table) {symbol : Symbol} (holds : symbol ∈ owner.symbols)
    {name : String} {underlying : CType} (item : symbol.item = .typedef name underlying)
    (ok : ((TypeMapper.ofTable target table).map owner.name underlying
      (ofTable .rust target policy crateName table).memo).1.problems = []) :
    (TypeMapper.ofTable target table).Settled (ofTable .rust target policy crateName table).memo
      underlying := by
  obtain ⟨state, -, -, remembered, -⟩ :=
    typedef_mapped target policy crateName acyclic member holds item
  have proper := (memo_sound target policy crateName acyclic).constants
  have again := (map_steady acyclic _ underlying).replays _ _ proper remembered
  rw [again] at ok
  exact settled_of_map acyclic proper remembered ok

theorem source_of_alias (built : table.Built) (acyclic : table.Acyclic) {module : String}
    {place : ItemPlace} {type : RustType}
    (member : (place, type) ∈ ((ofTable .rust target policy crateName table).viewpoint
      (.ofTable target table) module).aliases) :
    ∃ name underlying, table.typedef? name = some underlying ∧
      (TypeMapper.ofTable target table).Settled (ofTable .rust target policy crateName table).memo
        underlying ∧
      place = (TypeMapper.ofTable target table).placeOf name ∧
      type = (TypeMapper.ofTable target table).written
        (ofTable .rust target policy crateName table).memo (some place.1) underlying := by
  obtain ⟨owner, there, inside⟩ := List.mem_flatMap.mp member
  obtain ⟨symbol, holds, name, underlying, item, ok, rfl, rfl⟩ := mem_aliases.mp inside
  have named : symbol.item.qualifiedName = some name := by rw [item]; rfl
  obtain ⟨entry, owned⟩ := entry_of_symbol target built there holds named
  have found := typedef?_eq_some.mpr ⟨symbol, name, entry, item⟩
  refine ⟨name, underlying, found, ?_, (placeOf_typedef target built found owned).symm, rfl⟩
  exact settled_of_typedef target policy crateName acyclic there holds item ok

theorem kind_of_typedef (built : table.Built) {t : TypeName} (reference : t.IsReference)
    {underlying : CType} (found : table.typedef? t.qualifiedName = some underlying) :
    t.kind = .typedef := by
  obtain ⟨symbol, other, entry, item⟩ := typedef?_eq_some.mp found
  obtain ⟨known, unspaced⟩ := built.consistent.named _ symbol entry
  rw [item] at known unspaced
  cases known
  have plain : ' ' ∉ t.qualifiedName.toList := unspaced _ (List.mem_singleton_self _)
  cases kind : t.kind with
  | primitive => exact absurd kind reference.1
  | union => exact absurd kind reference.2
  | typedef => rfl
  | struct => simp [TypeName.qualifiedName, kind, NameKind.isTag] at plain
  | enum => simp [TypeName.qualifiedName, kind, NameKind.isTag] at plain

theorem alias_of_typedef (built : table.Built) (acyclic : table.Acyclic)
    (distinct : table.Distinct target) (module : String) {t : TypeName} {underlying : CType}
    (found : table.underlying? t = some underlying)
    (settled : (TypeMapper.ofTable target table).Settled
      (ofTable .rust target policy crateName table).memo (.named t)) :
    (TypeMapper.ofTable target table).Settled (ofTable .rust target policy crateName table).memo
        underlying ∧
      ((ofTable .rust target policy crateName table).viewpoint (.ofTable target table)
          module).alias? ((TypeMapper.ofTable target table).placeOf t.spelling) =
        some ((TypeMapper.ofTable target table).written
          (ofTable .rust target policy crateName table).memo
          (some ((TypeMapper.ofTable target table).placeOf t.spelling).1) underlying) := by
  obtain ⟨typedef, found'⟩ := underlying?_eq_some.mp found
  obtain ⟨symbol, other, entry, item⟩ := typedef?_eq_some.mp found'
  have known := (built.consistent.named _ symbol entry).1
  rw [item] at known
  cases known
  obtain ⟨owner, there, holds, owned⟩ := owner_of_entry target built entry
  have place := placeOf_typedef target built found' owned
  obtain ⟨state, -, -, remembered, -⟩ :=
    typedef_mapped target policy crateName acyclic there holds item
  have sound := memo_sound target policy crateName acyclic
  have reference : t.IsReference := by simp [TypeName.IsReference, typedef]
  have key : t.qualifiedName = t.spelling := qualifiedName_of_typedef typedef
  have nothing := typedefProblems_of_settled settled reference (key ▸ found')
  rw [key] at nothing
  have ok := underlying_isOk acyclic found' sound nothing remembered
  have settled' := settled_of_map acyclic sound.constants remembered ok
  refine ⟨settled', ?_⟩
  have fine : ((TypeMapper.ofTable target table).map owner.name underlying
      (ofTable .rust target policy crateName table).memo).1.problems = [] := by
    rw [map_settled settled' owner.name]
  have listed := mem_aliases.mpr ⟨symbol, holds, t.spelling, underlying, item, fine, rfl, rfl⟩
  have inside := List.mem_flatMap.mpr ⟨owner, there, listed⟩
  obtain ⟨type, isAlias⟩ := Viewpoint.exists_alias?_of_mem
    ((ofTable .rust target policy crateName table).viewpoint (.ofTable target table) module) inside
  rw [place, isAlias]
  obtain ⟨name, underlying', found'', -, same, rfl⟩ :=
    source_of_alias target policy crateName built acyclic (Viewpoint.mem_of_alias? _ isAlias)
  have isTypedef : (table.typedef? t.spelling).isSome = true := by rw [found']; rfl
  cases distinct.apart t.spelling (mem_names_of_typedef? found') name
    (mem_names_of_typedef? found'') isTypedef (place.trans same)
  cases found'.symm.trans found''
  rfl

/-- What is known of the generated files fits the table that they were made from. -/
theorem viewpoint_faithful (built : table.Built) (acyclic : table.Acyclic)
    (distinct : table.Distinct target) (module : String) :
    ((ofTable .rust target policy crateName table).viewpoint (.ofTable target table)
      module).Faithful (.ofTable target table)
        (ofTable .rust target policy crateName table).memo where
  ownTypes := rfl
  owned name symbol entry := by
    obtain ⟨owner, -, -, owned⟩ := owner_of_entry target built entry
    exact ⟨owner.name, owned⟩
  notOwn name symbol entry := distinct.notOwn name (OrderedMap.mem_keys_iff.mpr ⟨symbol, entry⟩)
  apart name other symbol isTypedef entry same := by
    obtain ⟨underlying, found⟩ := Option.isSome_iff_exists.mp isTypedef
    have other' := OrderedMap.mem_keys_iff.mpr ⟨symbol, entry⟩
    exact distinct.apart name (mem_names_of_typedef? found) other other' isTypedef same
  untagged t reference isTypedef := by
    obtain ⟨underlying, found⟩ := Option.isSome_iff_exists.mp isTypedef
    exact kind_of_typedef built reference found
  listed t underlying found settled := by
    exact alias_of_typedef target policy crateName built acyclic distinct module found settled
  source place type found := by
    have member := Viewpoint.mem_of_alias? _ found
    exact source_of_alias target policy crateName built acyclic member

theorem alias_written (acyclic : table.Acyclic) {module : String} {place : ItemPlace} {type : RustType}
    (member : (place, type) ∈ ((ofTable .rust target policy crateName table).viewpoint
      (.ofTable target table) module).aliases) :
    ∃ lines, (ofTable .rust target policy crateName table).files.get? (place.1 ++ ".rs") =
        some (Rust.text lines) ∧
      "pub type " ++ place.2 ++ " = " ++ type.text ++ ";" ∈ lines := by
  obtain ⟨owner, there, inside⟩ := List.mem_flatMap.mp member
  obtain ⟨symbol, holds, name, underlying, item, ok, rfl, rfl⟩ := mem_aliases.mp inside
  have settled := settled_of_typedef target policy crateName acyclic there holds item ok
  obtain ⟨state, lines, file, remembered, listed⟩ :=
    typedef_mapped target policy crateName acyclic there holds item
  have proper := (memo_sound target policy crateName acyclic).constants
  have again := (map_steady acyclic _ underlying).replays _ _ proper remembered
  rw [map_settled settled owner.name] at again
  have same := congrArg Prod.fst again
  rw [← same] at listed
  exact ⟨lines, file, listed rfl⟩

def DeclaresFunction (emitted : EmittedFiles) (owner : OutputModule) (abi line : String) : Prop :=
  ∃ lines functions, emitted.files.get? (owner.name ++ ".rs") = some (Rust.text lines) ∧
    line ∈ functions ∧ Rust.block abi functions <:+: lines

/-- A function that has no problems in the end had none when it was written. -/
theorem function_written (acyclic : table.Acyclic) {owner : OutputModule}
    (there : owner ∈ OutputModule.ofTable table) {symbol : Symbol} (holds : symbol ∈ owner.symbols)
    {name : String} {result : CType} {parameters : List Parameter} {variadic : Bool}
    {convention : Option String}
    (item : symbol.item = .function name result parameters variadic convention)
    (ok : ((TypeMapper.ofTable target table).mapParameterList owner.name parameters variadic
      (ofTable .rust target policy crateName table).memo).1.problems = [])
    (ok' : ((TypeMapper.ofTable target table).mapResult owner.name result
      (ofTable .rust target policy crateName table).memo).1.problems = []) :
    let memo := (ofTable .rust target policy crateName table).memo
    (TypeMapper.ofTable target table).Settled memo
        (.function result parameters variadic convention) ∧
      (ofTable .rust target policy crateName table).DeclaresFunction owner (Rust.abi convention)
        (Rust.functionLine name
          ((TypeMapper.ofTable target table).writtenParameters memo owner.name parameters) variadic
          ((TypeMapper.ofTable target table).writtenResult memo owner.name result)) := by
  intro memo
  obtain ⟨state, file, after⟩ := exists_text target policy crateName there
  obtain ⟨middle, listed, later⟩ :=
    Rust.mem_pieces ⟨.ofTable target table, policy, crateName⟩ there holds state
  have remembered := (later.gains acyclic).adds.trans (after.gains acyclic).adds
  have proper := (memo_sound target policy crateName acyclic).constants
  have run : Rust.piece ⟨.ofTable target table, policy, crateName⟩ owner symbol =
      Rust.functionPiece ⟨.ofTable target table, policy, crateName⟩ owner name result parameters
        variadic convention := by
    simp only [Rust.piece, item]
  rw [run] at listed remembered
  let list := (TypeMapper.ofTable target table).mapParameterList owner.name parameters variadic
    middle.memo
  let returned := (TypeMapper.ofTable target table).mapResult owner.name result list.2
  obtain ⟨known, written⟩ := Rust.functionPiece_mapped ⟨.ofTable target table, policy, crateName⟩
    owner name result parameters variadic convention middle
  have whole : returned.2.Extends memo := known ▸ remembered
  have steady := @mapResult_steady (.ofTable target table) acyclic owner.name result
  have early : list.2.Extends memo := (steady.gains list.2).adds.trans whole
  -- asked once more at the end, the mapper gives the answers that it gave then
  have again := (mapParameterList_steady acyclic owner.name parameters variadic).replays _ _ proper
    early
  have again' := steady.replays _ _ proper whole
  have fine : list.1.problems = [] := by rwa [again] at ok
  have fine' : returned.1.problems = [] := by rwa [again'] at ok'
  have each := allSettled_of_mapParameterList acyclic proper early fine
  have value := settled_of_mapResult acyclic proper whole fine'
  rw [mapParameterList_settled each] at again
  rw [mapResult_settled value] at again'
  have listText := congrArg (fun done => done.1.text) again
  have resultText := congrArg (fun done => done.1.text) again'
  have piece := written fine fine'
  rw [← listText, ← resultText] at piece
  rw [piece] at listed
  obtain ⟨functions, inside, part⟩ := Rust.exists_block _ listed
  refine ⟨⟨each, value⟩, _, functions, file, inside, ?_⟩
  exact part.trans (List.suffix_append _ _).isInfix

/-- A function that is written without problems stands in the file of its module, and so do all
aliases. When the aliases in its signature are replaced by what they stand for, it is, up to what
pointers may change, the signature that is written for the function with its typedefs written out,
just if no typedef hides an array that is a parameter or a void result. -/
theorem signature_without_aliases_iff (built : table.Built) (acyclic : table.Acyclic)
    (distinct : table.Distinct target) {owner : OutputModule}
    (there : owner ∈ OutputModule.ofTable table) {symbol : Symbol} (holds : symbol ∈ owner.symbols)
    {name : String} {result : CType} {parameters : List Parameter} {variadic : Bool}
    {convention : Option String}
    (item : symbol.item = .function name result parameters variadic convention)
    (ok : ((TypeMapper.ofTable target table).mapParameterList owner.name parameters variadic
      (ofTable .rust target policy crateName table).memo).1.problems = [])
    (ok' : ((TypeMapper.ofTable target table).mapResult owner.name result
      (ofTable .rust target policy crateName table).memo).1.problems = []) :
    let emitted := ofTable .rust target policy crateName table
    let mapper := TypeMapper.ofTable target table
    let type := CType.function result parameters variadic convention
    let inputs := mapper.writtenParameters emitted.memo owner.name parameters
    let output := mapper.writtenResult emitted.memo owner.name result
    let unaliased := emitted.unaliased mapper owner.name result parameters variadic convention
    let plain := mapper.written emitted.memo owner.name (table.expand type)
    emitted.DeclaresFunction owner (Rust.abi convention)
        (Rust.functionLine name inputs variadic output) ∧
      (∀ place right, (place, right) ∈ (emitted.viewpoint mapper owner.name).aliases →
        ∃ lines, emitted.files.get? (place.1 ++ ".rs") = some (Rust.text lines) ∧
          "pub type " ++ place.2 ++ " = " ++ right.text ++ ";" ∈ lines) ∧
      mapper.map owner.name (table.expand type) emitted.memo =
        (⟨plain.text, []⟩, emitted.memo) ∧
      (unaliased.mutable = plain.mutable ↔ table.Overt type) := by
  intro emitted mapper type inputs output unaliased plain
  obtain ⟨settled, declared⟩ :=
    function_written target policy crateName acyclic there holds item ok ok'
  have faithful := viewpoint_faithful target policy crateName built acyclic distinct owner.name
  have whole : mapper.written emitted.memo owner.name type =
      .function (Rust.abi convention) (inputs.map Prod.snd) variadic output :=
    written_function result parameters variadic convention
  refine ⟨declared, fun place right member => ?_, ?_, ?_⟩
  · exact alias_written target policy crateName acyclic member
  · exact map_settled (faithful.settled_expand acyclic settled) owner.name
  · change ((emitted.viewpoint mapper owner.name).unalias owner.name _).mutable = _ ↔ _
    rw [← whole]
    exact faithful.unalias_mutable_iff acyclic settled owner.name

end EmittedFiles

def walkCount : CType := .named ⟨.typedef, some "Count", []⟩

def walkParameters : List Parameter :=
  [(some "visit", .named ⟨.typedef, some "Visit", []⟩),
   (some "start", .pointer (.named ⟨.typedef, some "Count", ["const"]⟩) [])]

def walkDeclarations : List Declaration :=
  let void : CType := .named ⟨.primitive, some "void", []⟩
  let count := "Count"
  let visit := "Visit"
  [⟨.typedef count (.named ⟨.primitive, some "int", []⟩), some ⟨"count.h", 1⟩⟩,
   ⟨.typedef visit (.function void [(none, walkCount)] false none), some ⟨"count.h", 2⟩⟩,
   ⟨.function "walk" walkCount walkParameters false none, some ⟨"walk.h", 1⟩⟩]

def walkTable : SymbolTable := (SymbolTable.insertAll {} walkDeclarations).1.finalize

def walkMapper : TypeMapper := .ofTable firstTarget walkTable

def walkFiles : EmittedFiles := .ofTable .rust firstTarget .flat (.named "walk") walkTable

theorem walk_signature_kept :
    walkTable.Built ∧ walkTable.Acyclic ∧ walkTable.Distinct firstTarget ∧
    ∃ owner ∈ OutputModule.ofTable walkTable, ∃ symbol ∈ owner.symbols,
      symbol.item = .function "walk" walkCount walkParameters false none ∧
      (walkMapper.mapParameterList owner.name walkParameters false walkFiles.memo).1.problems = [] ∧
      (walkMapper.mapResult owner.name walkCount walkFiles.memo).1.problems = [] ∧
      (walkFiles.unaliased walkMapper owner.name walkCount walkParameters false none).mutable =
        (walkMapper.written walkFiles.memo owner.name
          (walkTable.expand (.function walkCount walkParameters false none))).mutable := by
  have built : walkTable.Built := by
    apply Built.finalize
    apply Built.insertAll (.empty .first)
    decide
  have acyclic : walkTable.Acyclic := by
    apply acyclic_of_entries fun name => ["int", "void", "Count", "Visit", "walk"].idxOf name
    decide +kernel
  have distinct : walkTable.Distinct firstTarget := by decide +kernel
  have listed : ∃ owner ∈ OutputModule.ofTable walkTable, owner.name = "walk" ∧
      ∃ symbol ∈ owner.symbols,
        symbol.item = .function "walk" walkCount walkParameters false none := by
    decide +kernel
  obtain ⟨owner, there, named, symbol, holds, item⟩ := listed
  have ok : (walkMapper.mapParameterList "walk" walkParameters false walkFiles.memo).1.problems =
      [] := by
    decide +kernel
  have ok' : (walkMapper.mapResult "walk" walkCount walkFiles.memo).1.problems = [] := by
    decide +kernel
  rw [← named] at ok ok'
  have kept := EmittedFiles.signature_without_aliases_iff firstTarget .flat (.named "walk") built
    acyclic distinct there holds item ok ok'
  refine ⟨built, acyclic, distinct, owner, there, symbol, holds, item, ok, ok', ?_⟩
  have count : walkTable.underlying? ⟨.typedef, some "Count", []⟩ =
      some (.named ⟨.primitive, some "int", []⟩) := by decide +kernel
  have overt : walkTable.Overt walkCount := .typedef count (.plain (by decide +kernel))
  have each : ∀ parameter ∈ walkParameters, walkTable.Overt parameter.2 := by
    intro parameter member
    rcases List.mem_pair.mp member with rfl | rfl
    · have visit : walkTable.underlying? ⟨.typedef, some "Visit", []⟩ =
          some (.function (.named ⟨.primitive, some "void", []⟩) [(none, walkCount)] false
            none) := by
        decide +kernel
      refine .typedef visit (.function (.plain (by decide +kernel)) (fun _ => by decide) ?_ ?_)
      · exact List.forall_mem_singleton.mpr overt
      · decide +kernel
    · have fixed : walkTable.underlying? ⟨.typedef, some "Count", ["const"]⟩ =
          some (.named ⟨.primitive, some "int", []⟩) := by decide +kernel
      exact .pointer (.typedef fixed (.plain (by decide +kernel)))
  exact kept.2.2.2.mpr (.function overt (by decide +kernel) each (by decide +kernel))

def veiledDeclarations : List Declaration :=
  let int : CType := .named ⟨.primitive, some "int", []⟩
  let void : CType := .named ⟨.primitive, some "void", []⟩
  let row := "Row"
  let nothing := "Nothing"
  [⟨.typedef row (.array int (.count 3)), some ⟨"veil.h", 1⟩⟩,
   ⟨.typedef nothing void, some ⟨"veil.h", 2⟩⟩,
   ⟨.function "fill" void [(some "row", .named ⟨.typedef, some row, []⟩)] false none,
     some ⟨"veil.h", 3⟩⟩,
   ⟨.function "reset" (.named ⟨.typedef, some nothing, []⟩) [] false none,
     some ⟨"veil.h", 4⟩⟩]

def veiledTable : SymbolTable := (SymbolTable.insertAll {} veiledDeclarations).1.finalize

def veiledMapper : TypeMapper := .ofTable firstTarget veiledTable

def veiledFiles : EmittedFiles := .ofTable .rust firstTarget .flat (.named "veil") veiledTable

/-- A typedef lets an array be passed by value, and a function without a result give a value. -/
theorem veiled_signatures_change :
    veiledTable.Built ∧ veiledTable.Acyclic ∧ veiledTable.Distinct firstTarget ∧
    ∃ owner ∈ OutputModule.ofTable veiledTable, owner.name = "veil" ∧
      (∃ symbol ∈ owner.symbols, ∃ result parameters,
        symbol.item = .function "fill" result parameters false none ∧
        (veiledMapper.mapParameterList "veil" parameters false veiledFiles.memo).1 =
          ⟨"row: Row", []⟩ ∧
        (veiledMapper.mapResult "veil" result veiledFiles.memo).1 = ⟨"", []⟩ ∧
        (veiledFiles.unaliased veiledMapper "veil" result parameters false none).mutable.text =
          "Option<unsafe extern \"C\" fn([i32; 3])>" ∧
        (veiledMapper.written veiledFiles.memo "veil"
          (veiledTable.expand (.function result parameters false none))).mutable.text =
          "Option<unsafe extern \"C\" fn(*mut i32)>") ∧
      ∃ symbol ∈ owner.symbols, ∃ result parameters,
        symbol.item = .function "reset" result parameters false none ∧
        (veiledMapper.mapParameterList "veil" parameters false veiledFiles.memo).1 = ⟨"", []⟩ ∧
        (veiledMapper.mapResult "veil" result veiledFiles.memo).1 = ⟨"Nothing", []⟩ ∧
        (veiledFiles.unaliased veiledMapper "veil" result parameters false none).mutable.text =
          "Option<unsafe extern \"C\" fn() -> ::core::ffi::c_void>" ∧
        (veiledMapper.written veiledFiles.memo "veil"
          (veiledTable.expand (.function result parameters false none))).mutable.text =
          "Option<unsafe extern \"C\" fn()>" := by
  have built : veiledTable.Built := by
    apply Built.finalize
    apply Built.insertAll (.empty .first)
    decide
  have acyclic : veiledTable.Acyclic := by
    apply acyclic_of_entries fun name =>
      ["int", "void", "Row", "Nothing", "fill", "reset"].idxOf name
    decide +kernel
  have listed : ∃ owner ∈ OutputModule.ofTable veiledTable, owner.name = "veil" ∧
      (∃ symbol ∈ owner.symbols, symbol.item = .function "fill"
        (.named ⟨.primitive, some "void", []⟩)
        [(some "row", .named ⟨.typedef, some "Row", []⟩)] false none) ∧
      ∃ symbol ∈ owner.symbols, symbol.item = .function "reset"
        (.named ⟨.typedef, some "Nothing", []⟩) [] false none := by
    decide +kernel
  obtain ⟨owner, there, named, ⟨fill, holds, item⟩, reset, holds', item'⟩ := listed
  refine ⟨built, acyclic, by decide +kernel, owner, there, named, ?_, ?_⟩
  · refine ⟨fill, holds, _, _, item, ?_, ?_, ?_, ?_⟩ <;> decide +kernel
  · refine ⟨reset, holds', _, _, item', ?_, ?_, ?_, ?_⟩ <;> decide +kernel

end CBindings
