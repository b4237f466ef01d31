import CBindings.Output.Writer
import CBindings.Proofs.Output.Module
import CBindings.Proofs.Rust.Replay

/-! Writing modules asks a mapper for types, constants and enums, and what it has learned for one
piece it still knows at the end. -/

namespace CBindings

open TypeMapper

variable {mapper : TypeMapper} {σ α β : Type} {memo : σ → MappingMemo}

/-- A computation that changes the memo in its state by questions to the mapper alone. -/
structure Asks (mapper : TypeMapper) (memo : σ → MappingMemo) (x : StateM σ α) : Prop where
  leads : ∀ state, Leads mapper (memo state) (memo (x state).2)

namespace Asks

theorem pure (a : α) : Asks mapper memo (Pure.pure a : StateM σ α) := ⟨fun _ => .start⟩

theorem bind {x : StateM σ α} {f : α → StateM σ β} (first : Asks mapper memo x)
    (second : ∀ a, Asks mapper memo (f a)) : Asks mapper memo (x >>= f) := by
  constructor
  intro state
  have before := first.leads state
  have after := (second (x state).1).leads (x state).2
  exact before.trans after

theorem map {x : StateM σ α} (f : α → β) (asks : Asks mapper memo x) :
    Asks mapper memo (f <$> x) :=
  asks.bind fun a => .pure (f a)

theorem mapM {f : α → StateM σ β} {xs : List α} (asks : ∀ a ∈ xs, Asks mapper memo (f a)) :
    Asks mapper memo (xs.mapM f) := by
  induction xs with
  | nil =>
    rw [List.mapM_nil]
    exact .pure []
  | cons a rest ih =>
    rw [List.forall_mem_cons] at asks
    rw [List.mapM_cons]
    exact asks.1.bind fun b => (ih asks.2).bind fun bs => .pure (b :: bs)

theorem forM {f : α → StateM σ PUnit} (asks : ∀ a, Asks mapper memo (f a)) (xs : List α) :
    Asks mapper memo (xs.forM f) := by
  induction xs with
  | nil => exact .pure PUnit.unit
  | cons a rest ih => exact (asks a).bind fun _ => ih

theorem mem_mapM {f : α → StateM σ β} {xs : List α} (asks : ∀ a ∈ xs, Asks mapper memo (f a))
    {a : α} (member : a ∈ xs) (state : σ) :
    ∃ middle, (f a middle).1 ∈ (xs.mapM f state).1 ∧
      Leads mapper (memo (f a middle).2) (memo (xs.mapM f state).2) := by
  induction xs generalizing state with
  | nil => cases member
  | cons b rest ih =>
    rw [List.forall_mem_cons] at asks
    have step : ((b :: rest).mapM f) state =
        ((f b state).1 :: (rest.mapM f (f b state).2).1, (rest.mapM f (f b state).2).2) := by
      rw [List.mapM_cons]
      rfl
    rw [step]
    rcases List.mem_cons.mp member with here | later
    · subst here
      exact ⟨state, List.mem_cons_self, (mapM asks.2).leads _⟩
    · obtain ⟨middle, result, leads⟩ := ih asks.2 later (f b state).2
      exact ⟨middle, List.mem_cons_of_mem _ result, leads⟩

end Asks

/-- Results that are named by what they come from keep their names in order. -/
theorem map_mapM {γ : Type} {f : α → StateM σ β} {g : β → γ} {h : α → γ}
    (named : ∀ a state, g (f a state).1 = h a) (xs : List α) (state : σ) :
    (xs.mapM f state).1.map g = xs.map h := by
  induction xs generalizing state with
  | nil => rfl
  | cons a rest ih =>
    rw [List.mapM_cons]
    change g (f a state).1 :: (rest.mapM f (f a state).2).1.map g = h a :: rest.map h
    rw [named, ih]

abbrev MapAsks (mapper : TypeMapper) (x : MappingM α) : Prop := Asks mapper id x

abbrev Grows (mapper : TypeMapper) (x : Emission α) : Prop := Asks mapper EmissionState.memo x

namespace Grows

theorem report (diagnostic : Diagnostic) : Grows mapper (Emission.report diagnostic) :=
  ⟨fun _ => .start⟩

theorem mapping {x : MappingM α} (asks : MapAsks mapper x) : Grows mapper (Emission.mapping x) :=
  ⟨fun state => asks.leads state.memo⟩

theorem constant (name : String) :
    Grows mapper (Emission.constants (mapper.scope.evaluateConstant name)) :=
  ⟨fun _ => .constant .start name⟩

theorem enum {symbol : Symbol} (listed : symbol ∈ mapper.scope.table.symbols) :
    Grows mapper (Emission.constants (mapper.scope.evaluateEnum symbol)) :=
  ⟨fun _ => .enum .start listed⟩

end Grows

namespace TypeMapper

variable {module : Option String}

theorem map_asks (module : Option String) (type : CType) :
    MapAsks mapper (mapper.map module type) :=
  ⟨fun _ => .map .start module type⟩

theorem mapField_asks (f : Field) : MapAsks mapper (mapper.mapField module f) := by
  unfold mapField
  refine (map_asks module f.type).bind fun mapped => ?_
  split
  · exact .pure _
  · exact .pure _

theorem mapResult_asks (type : CType) : MapAsks mapper (mapper.mapResult module type) := by
  unfold mapResult
  split
  · exact .pure _
  · exact map_asks module type

theorem mapParameterList_asks (parameters : List Parameter) (variadic : Bool) :
    MapAsks mapper (mapper.mapParameterList module parameters variadic) := by
  unfold mapParameterList
  refine Asks.bind (.mapM fun entry _ => ?_) fun mapped => .pure _
  exact (map_asks module entry.1.2).bind fun mapped => .pure _

end TypeMapper

namespace Rust

open TypeMapper

variable {context : EmissionContext} {module : OutputModule}

theorem reportType_grows (symbol : String) (problems : List String) :
    Grows mapper (reportType module symbol problems) := .report _

theorem reportConstant_grows (name text : String) :
    Grows mapper (reportConstant module name text) := .report _

theorem fieldLine_grows (owner : String) (f : Field) :
    Grows context.mapper (fieldLine context module owner f) := by
  refine (Grows.mapping (mapField_asks f)).bind fun mapped => ?_
  split
  · exact .pure _
  · exact (reportType_grows _ _).bind fun done => .pure _

theorem structLines_grows (qualifiedName : Option String) (fields : Option (List Field)) :
    Grows context.mapper (structLines context module qualifiedName fields) := by
  unfold structLines
  cases fields with
  | none => exact .pure _
  | some fields =>
    exact (Asks.mapM fun f _ => fieldLine_grows _ f).bind fun lines => .pure _

theorem enumeratorLine_grows (constant : Int → String) (e : Enumerator) (value : Option Int) :
    Grows mapper (enumeratorLine module constant e value) := by
  unfold enumeratorLine
  cases value with
  | some n => exact .pure _
  | none => exact (reportConstant_grows _ _).bind fun done => .pure _

theorem freeLines_grows {symbol : Symbol} (listed : symbol ∈ context.mapper.scope.table.symbols) :
    Grows context.mapper (freeLines context module symbol) := by
  refine (Grows.enum listed).bind fun values => ?_
  exact Asks.mapM fun entry _ => enumeratorLine_grows _ _ _

theorem enumLines_grows {symbol : Symbol} (listed : symbol ∈ context.mapper.scope.table.symbols) :
    Grows context.mapper (enumLines context module symbol) := by
  refine (Grows.enum listed).bind fun values => ?_
  refine Asks.bind (.mapM fun entry _ => ?_) fun lines => .pure _
  exact (enumeratorLine_grows _ _ _).bind fun line => .pure _

theorem functionPiece_grows (name : String) (result : CType) (parameters : List Parameter)
    (variadic : Bool) (convention : Option String) :
    Grows context.mapper (functionPiece context module name result parameters variadic convention) := by
  refine (Grows.mapping (mapParameterList_asks parameters variadic)).bind fun list => ?_
  refine (Grows.mapping (mapResult_asks result)).bind fun result => ?_
  simp only
  split
  · exact .pure _
  · exact (reportType_grows _ _).bind fun done => .pure _

theorem typedLines_grows (what name : String) (type : CType) (lines : String → List String) :
    Grows context.mapper (typedLines context module what name type lines) := by
  refine (Grows.mapping (map_asks _ type)).bind fun mapped => ?_
  split
  · exact .pure _
  · exact (reportType_grows _ _).bind fun done => .pure _

theorem constantLines_grows (name : String) (tokens : List String) :
    Grows context.mapper (constantLines context module name tokens) := by
  refine (Grows.constant name).bind fun value => ?_
  split
  · exact .pure _
  · exact (reportConstant_grows _ _).bind fun done => .pure _

theorem piece_grows {symbol : Symbol} (listed : symbol ∈ context.mapper.scope.table.symbols) :
    Grows context.mapper (piece context module symbol) := by
  unfold piece
  split
  · exact (structLines_grows _ _).map _
  · exact .pure _
  · exact (freeLines_grows listed).map _
  · exact (enumLines_grows listed).map _
  · exact functionPiece_grows _ _ _ _ _
  · exact (typedLines_grows _ _ _ _).map _
  · exact (typedLines_grows _ _ _ _).map _
  · exact (constantLines_grows _ _).map _

theorem moduleText_grows (member : module ∈ OutputModule.ofTable context.mapper.scope.table) :
    Grows context.mapper (moduleText context module) :=
  (Asks.mapM fun _ holds => piece_grows (OutputModule.symbols_listed member holds)).bind
    fun _ => .pure _

/-- What is written for a symbol of a module is written at some moment on the way to the end. -/
theorem mem_pieces (context : EmissionContext) {owner : OutputModule}
    (member : owner ∈ OutputModule.ofTable context.mapper.scope.table) {symbol : Symbol}
    (holds : symbol ∈ owner.symbols) (state : EmissionState) :
    ∃ middle, (piece context owner symbol middle).1 ∈
        (owner.symbols.mapM (piece context owner) state).1 ∧
      Leads context.mapper (piece context owner symbol middle).2.memo
        (owner.symbols.mapM (piece context owner) state).2.memo :=
  Asks.mem_mapM (fun _ here => piece_grows (OutputModule.symbols_listed member here)) holds state

end Rust

namespace EmittedFiles

variable {target : Target} {policy : NamespacePolicy} {crateName : CrateName}
  {table : SymbolTable}

theorem evaluateConstants_grows (context : EmissionContext) (symbols : List Symbol) :
    Grows context.mapper (evaluateConstants context symbols) := by
  refine .forM (fun symbol => ?_) symbols
  split
  · exact (Grows.constant _).bind fun value => .pure _
  · exact .pure _

theorem writeModule_grows {context : EmissionContext} {module : OutputModule}
    (member : module ∈ OutputModule.ofTable context.mapper.scope.table) :
    Grows context.mapper (do
      return (fileName .rust module, ← Writer.rust.moduleText context module)) :=
  (Rust.moduleText_grows member).bind fun _ => .pure _

theorem writeModules_grows (context : EmissionContext) :
    Grows context.mapper
      (writeModules .rust context (OutputModule.ofTable context.mapper.scope.table)) := by
  have first := Asks.forM (fun module : OutputModule =>
    evaluateConstants_grows context module.symbols) (OutputModule.ofTable context.mapper.scope.table)
  exact first.bind fun _ => .mapM fun _ member => writeModule_grows member

theorem ofTable_leads :
    Leads (.ofTable target table) {} (ofTable .rust target policy crateName table).memo :=
  (writeModules_grows ⟨.ofTable target table, policy, crateName⟩).leads {}

theorem fileNames_nodup (writer : Writer) (table : SymbolTable) :
    ((OutputModule.ofTable table).map (fileName writer)).Nodup := by
  have named : (OutputModule.ofTable table).map (fileName writer) =
      ((OutputModule.ofTable table).map OutputModule.name).map (· ++ writer.extension) := by
    rw [List.map_map]
    rfl
  rw [named]
  exact (OutputModule.names_nodup table).map fun first second => append_right_injective

theorem rustFileNames_nodup (table : SymbolTable) :
    ((OutputModule.ofTable table).map (fileName .rust) ++ ["lib.rs"]).Nodup := by
  apply List.nodup_append.mpr
  refine ⟨fileNames_nodup .rust table, List.nodup_singleton _, ?_⟩
  intro file member other root same
  obtain ⟨module, there, rfl⟩ := List.mem_map.mp member
  have lib : module.name ++ ".rs" = "lib" ++ ".rs" :=
    same.trans (List.mem_singleton.mp root)
  exact OutputModule.name_ne_lib there (append_right_injective lib)

theorem exists_text (target : Target) (policy : NamespacePolicy) (crateName : CrateName)
    {owner : OutputModule} (member : owner ∈ OutputModule.ofTable table) :
    ∃ state, (ofTable .rust target policy crateName table).files.get? (owner.name ++ ".rs") =
        some (Rust.moduleText ⟨.ofTable target table, policy, crateName⟩ owner state).1 ∧
      Leads (.ofTable target table)
        (Rust.moduleText ⟨.ofTable target table, policy, crateName⟩ owner state).2.memo
        (ofTable .rust target policy crateName table).memo := by
  let context : EmissionContext := ⟨.ofTable target table, policy, crateName⟩
  let modules := OutputModule.ofTable table
  let write (module : OutputModule) : Emission (String × String) := do
    return (fileName .rust module, ← Writer.rust.moduleText context module)
  let ready : EmissionState :=
    ((modules.forM fun module => evaluateConstants context module.symbols) {}).2
  have grows : ∀ module ∈ modules, Grows context.mapper (write module) :=
    fun _ there => writeModule_grows there
  obtain ⟨state, listed, leads⟩ := Asks.mem_mapM grows member ready
  refine ⟨state, ?_, leads⟩
  have names : (modules.mapM write ready).1.map Prod.fst = modules.map (fileName .rust) := by
    apply map_mapM
    intro module state
    rfl
  have files : (ofTable .rust target policy crateName table).files =
      .ofList ((modules.mapM write ready).1 ++
        [("lib.rs", Writer.rust.aggregatorText context modules)]) := rfl
  rw [files]
  refine OrderedMap.get?_ofList ?_ (List.mem_append_left _ listed)
  rw [List.map_append, names]
  exact rustFileNames_nodup table

end EmittedFiles

end CBindings
