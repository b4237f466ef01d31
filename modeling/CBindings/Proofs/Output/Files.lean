import CBindings.Proofs.Output.Emission

/-! The files of a run: each module has one with the text that was written for it, and the
aggregator has one more. A module overwrites nothing unless it is named like a JSON index. -/

namespace CBindings

section

variable {σ α β γ : Type}

/-- In a row of steps, one in the middle starts where those before it end. -/
theorem mapM_append_cons (f : α → StateM σ β) (before : List α) (a : α) (after : List α)
    (state : σ) :
    ((before ++ a :: after).mapM f state).1 =
      (before.mapM f state).1 ++ (f a (before.mapM f state).2).1 ::
        (after.mapM f (f a (before.mapM f state).2).2).1 := by
  induction before generalizing state with
  | nil =>
    rw [List.nil_append, List.mapM_cons]
    rfl
  | cons b rest ih =>
    rw [List.cons_append, List.mapM_cons, List.mapM_cons]
    exact congrArg ((f b state).1 :: ·) (ih (f b state).2)

theorem state_mapM_labelled (f : α → StateM σ β) (label : α → β → γ) (as : List α) (state : σ) :
    (as.mapM (fun a => label a <$> f a) state).2 = (as.mapM f state).2 := by
  induction as generalizing state with
  | nil => rfl
  | cons a rest ih =>
    rw [List.mapM_cons, List.mapM_cons]
    exact ih (f a state).2

end

namespace EmittedFiles

open OutputModule

variable {writer : Writer} {target : Target} {policy : NamespacePolicy} {crateName : CrateName}
  {table : SymbolTable} {context : EmissionContext} {modules before after : List OutputModule}
  {module : OutputModule}

/-! ### Texts -/

def stateAfter (writer : Writer) (context : EmissionContext) (modules written : List OutputModule) :
    EmissionState :=
  let ready := ((modules.forM fun module => evaluateConstants context module.symbols) {}).2
  (written.mapM (writer.moduleText context) ready).2

def moduleFiles (writer : Writer) (context : EmissionContext) (modules : List OutputModule) :
    List (String × String) := (writeModules writer context modules {}).1

def writeModule (writer : Writer) (context : EmissionContext) (module : OutputModule) :
    Emission (String × String) := (fileName writer module, ·) <$> writer.moduleText context module

theorem moduleFiles_eq (writer : Writer) (context : EmissionContext) (modules : List OutputModule) :
    moduleFiles writer context modules =
      (modules.mapM (writeModule writer context) (stateAfter writer context modules [])).1 := rfl

theorem moduleFiles_names (writer : Writer) (context : EmissionContext)
    (modules : List OutputModule) :
    (moduleFiles writer context modules).map Prod.fst = modules.map (fileName writer) := by
  have named : ∀ module state, (writeModule writer context module state).1.1 =
      fileName writer module := fun _ _ => rfl
  exact map_mapM named modules _

theorem mem_moduleFiles (parts : modules = before ++ module :: after) :
    (fileName writer module,
        (writer.moduleText context module (stateAfter writer context modules before)).1) ∈
      moduleFiles writer context modules := by
  let ready := stateAfter writer context modules []
  have reached : (before.mapM (writeModule writer context) ready).2 =
      stateAfter writer context modules before := state_mapM_labelled _ _ before ready
  have written : moduleFiles writer context modules = _ :=
    (moduleFiles_eq writer context modules).trans
      (congrArg (fun list => (list.mapM (writeModule writer context) ready).1) parts)
  rw [written, mapM_append_cons, reached]
  exact List.mem_append_right _ List.mem_cons_self

/-! ### Files -/

/-- Every module has a file with the text that was written when its turn came, the aggregator has
a file, and these are all. -/
structure Separate (writer : Writer) (context : EmissionContext) (emitted : EmittedFiles) :
    Prop where
  modules : ∀ before module after, emitted.modules = before ++ module :: after →
    emitted.files.get? (fileName writer module) =
      some (writer.moduleText context module (stateAfter writer context emitted.modules before)).1
  aggregator : emitted.files.get? emitted.aggregator =
    some (writer.aggregatorText context emitted.modules)
  size : emitted.files.size = emitted.modules.length + 1

/-- The aggregator is written last, in the place of a module whose file has its name. -/
theorem files_ofTable (writer : Writer) (target : Target) (policy : NamespacePolicy)
    (crateName : CrateName) (table : SymbolTable) :
    let context : EmissionContext := ⟨.ofTable target table, policy, crateName⟩
    (ofTable writer target policy crateName table).files =
      (OrderedMap.ofList (moduleFiles writer context (OutputModule.ofTable table))).insert
        writer.aggregatorName (writer.aggregatorText context (OutputModule.ofTable table)) :=
  OrderedMap.ofList_concat _ _ _

theorem moduleFiles_keys (writer : Writer) (context : EmissionContext) (table : SymbolTable) :
    (OrderedMap.ofList (moduleFiles writer context (OutputModule.ofTable table))).keys =
      (OutputModule.ofTable table).map (fileName writer) := by
  have distinct := fileNames_nodup writer table
  rw [← moduleFiles_names writer context] at distinct
  rw [OrderedMap.keys_ofList distinct, moduleFiles_names]

theorem size_files (writer : Writer) (target : Target) (policy : NamespacePolicy)
    (crateName : CrateName) (table : SymbolTable) :
    (ofTable writer target policy crateName table).files.size =
      if writer.aggregatorName ∈ (OutputModule.ofTable table).map (fileName writer) then
        (OutputModule.ofTable table).length
      else (OutputModule.ofTable table).length + 1 := by
  have size : (ofTable writer target policy crateName table).files.keys.length =
      (ofTable writer target policy crateName table).files.size := List.length_map _
  rw [← size, files_ofTable, OrderedMap.keys_insert, moduleFiles_keys]
  split
  · exact List.length_map _
  · rw [List.length_append, List.length_map, List.length_singleton]

theorem get?_fileName (parts : OutputModule.ofTable table = before ++ module :: after)
    (apart : fileName writer module ≠ writer.aggregatorName) :
    (ofTable writer target policy crateName table).files.get? (fileName writer module) =
      some (writer.moduleText ⟨.ofTable target table, policy, crateName⟩ module
        (stateAfter writer ⟨.ofTable target table, policy, crateName⟩
          (OutputModule.ofTable table) before)).1 := by
  have distinct := fileNames_nodup writer table
  rw [← moduleFiles_names writer ⟨.ofTable target table, policy, crateName⟩] at distinct
  rw [files_ofTable, OrderedMap.get?_insert_ne _ _ apart]
  exact OrderedMap.get?_ofList distinct (mem_moduleFiles parts)

theorem fileName_eq_aggregatorName_iff (member : module ∈ OutputModule.ofTable table) :
    fileName writer module = writer.aggregatorName ↔ writer ≠ .rust ∧ module.name = "index" := by
  cases writer with
  | rust =>
    refine ⟨fun same => ?_, fun json => absurd rfl json.1⟩
    have ended : module.name ++ ".rs" = "lib" ++ ".rs" := same
    exact absurd (append_right_injective ended) (name_ne_lib member)
  | json indent =>
    refine ⟨fun same => ?_, fun json => congrArg (· ++ ".json") json.2⟩
    have ended : module.name ++ ".json" = "index" ++ ".json" := same
    exact ⟨Writer.noConfusion, append_right_injective ended⟩

theorem overwritten_iff :
    writer.aggregatorName ∈ (OutputModule.ofTable table).map (fileName writer) ↔
      writer ≠ .rust ∧ ∃ header ∈ emitting table, baseName header = "index" := by
  rw [List.mem_map, ← exists_named_iff (by decide)]
  constructor
  · rintro ⟨module, member, same⟩
    obtain ⟨json, named⟩ := (fileName_eq_aggregatorName_iff member).mp same
    exact ⟨json, module, member, named⟩
  · rintro ⟨json, module, member, named⟩
    exact ⟨module, member, (fileName_eq_aggregatorName_iff member).mpr ⟨json, named⟩⟩

/-- Nothing is overwritten in Rust, and in JSON nothing just if no header that emits something has
`index` as the name of its module. -/
theorem separate_iff (writer : Writer) (target : Target) (policy : NamespacePolicy)
    (crateName : CrateName) (table : SymbolTable) :
    Separate writer ⟨.ofTable target table, policy, crateName⟩
        (ofTable writer target policy crateName table) ↔
      writer = .rust ∨ ∀ header ∈ emitting table, baseName header ≠ "index" := by
  have size := size_files writer target policy crateName table
  constructor
  · intro separate
    have whole := separate.size
    rw [size] at whole
    split at whole
    · exact absurd whole (Nat.ne_of_lt (Nat.lt_succ_self _))
    · next kept =>
      by_cases rust : writer = .rust
      · exact .inl rust
      · exact .inr fun header emits same => kept (overwritten_iff.mpr ⟨rust, header, emits, same⟩)
  · intro safe
    have kept : writer.aggregatorName ∉ (OutputModule.ofTable table).map (fileName writer) := by
      intro overwritten
      obtain ⟨json, header, emits, same⟩ := overwritten_iff.mp overwritten
      exact safe.elim json fun unnamed => unnamed header emits same
    refine ⟨?_, ?_, ?_⟩
    · intro before module after parts
      have member : module ∈ OutputModule.ofTable table := by
        have listed : module ∈ before ++ module :: after :=
          List.mem_append_right _ List.mem_cons_self
        rwa [← parts] at listed
      exact get?_fileName parts fun same => kept (List.mem_map.mpr ⟨module, member, same⟩)
    · have written := files_ofTable writer target policy crateName table
      exact written ▸ OrderedMap.get?_insert_self _ _ _
    · rw [size, if_neg kept]
      rfl

def indexTable : SymbolTable :=
  (({} : SymbolTable).insert
    { item := .constant "A" ["1"], location := some ⟨"index.h", 1⟩ }).1.finalize

/-- The index takes the place of the only module, whose text is lost. -/
theorem index_overwritten :
    let target : Target := { name := "x86", pointerWidth := 32, longWidth := 32, predefined := ∅ }
    let context : EmissionContext := ⟨.ofTable target indexTable, .flat, .named "bindings"⟩
    let emitted := ofTable (.json (some 2)) target .flat (.named "bindings") indexTable
    emitted.modules.map OutputModule.name = ["index"] ∧ emitted.files.keys = ["index.json"] ∧
      ¬Separate (.json (some 2)) context emitted := by
  intro target context emitted
  have names : (OutputModule.ofTable indexTable).map OutputModule.name = ["index"] := by
    decide +kernel
  have files : (OutputModule.ofTable indexTable).map (fileName (.json (some 2))) = ["index.json"] := by
    decide +kernel
  have keys : emitted.files.keys = ["index.json"] := by
    rw [files_ofTable, OrderedMap.keys_insert, moduleFiles_keys, files]
    decide
  refine ⟨names, keys, fun separate => ?_⟩
  have few : emitted.files.keys.length = emitted.files.size := List.length_map _
  have many : emitted.modules.length = 1 := by
    rw [← List.length_map OutputModule.name]
    exact congrArg List.length names
  rw [keys, separate.size, many] at few
  exact absurd few (by decide)

end EmittedFiles

end CBindings
