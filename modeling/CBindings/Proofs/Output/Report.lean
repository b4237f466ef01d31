import CBindings.Proofs.Output.Declared

/-! What a run reports about its output. The Rust writer reports every declaration, field and
enumerator that it cannot translate, and the JSON writer reports none. -/

namespace CBindings

open TypeMapper

variable {mapper : TypeMapper} {context : EmissionContext} {module : OutputModule} {α β : Type}

/-- A computation that reports what can be told from any memo that knows what it has learned. -/
structure Records (mapper : TypeMapper) (x : Emission α)
    (found : MappingMemo → List Diagnostic) : Prop where
  grows : Grows mapper x
  records : ∀ (state : EmissionState) (last : MappingMemo),
    last.constants.Proper mapper.scope.table → (x state).2.memo.Extends last →
      (x state).2.diagnostics = state.diagnostics ++ found last

namespace Records

variable {found later : MappingMemo → List Diagnostic}

theorem pure (a : α) : Records mapper (Pure.pure a : Emission α) fun _ => [] where
  grows := .pure a
  records _ _ _ _ := (List.append_nil _).symm

theorem report (diagnostic : Diagnostic) :
    Records mapper (Emission.report diagnostic) fun _ => [diagnostic] where
  grows := .report diagnostic
  records _ _ _ _ := rfl

theorem congr {x : Emission α} (records : Records mapper x found)
    (same : ∀ last, found last = later last) : Records mapper x later := by
  rw [← funext same]
  exact records

variable (acyclic : mapper.scope.table.Acyclic)

include acyclic

theorem bind {x : Emission α} {f : α → Emission β} (first : Records mapper x found)
    (second : ∀ a, Records mapper (f a) later) :
    Records mapper (x >>= f) fun last => found last ++ later last where
  grows := first.grows.bind fun a => (second a).grows
  records state last proper known := by
    have adds := (((second (x state).1).grows.leads (x state).2).gains acyclic).adds
    have before := first.records state last proper (adds.trans known)
    have after := (second (x state).1).records (x state).2 last proper known
    change (f (x state).1 (x state).2).2.diagnostics = _
    rw [after, before, List.append_assoc]

theorem followed {x : Emission α} {f : α → Emission β} (first : Records mapper x found)
    (second : ∀ a, Records mapper (f a) fun _ => []) : Records mapper (x >>= f) found :=
  (first.bind acyclic second).congr fun _ => List.append_nil _

theorem map {x : Emission α} (f : α → β) (records : Records mapper x found) :
    Records mapper (f <$> x) found :=
  records.followed acyclic fun a => .pure (f a)

theorem ask {question : MappingM α} {f : α → Emission β}
    {found : α → MappingMemo → List Diagnostic}
    (steady : Steady mapper (fun _ => True) question) (asks : MapAsks mapper question)
    (second : ∀ a, Records mapper (f a) (found a)) :
    Records mapper (Emission.mapping question >>= f) fun last => found (question last).1 last where
  grows := (Grows.mapping asks).bind fun a => (second a).grows
  records state last proper known := by
    let answered : EmissionState := { state with memo := (question state.memo).2 }
    have tail := second (question state.memo).1
    have adds := ((tail.grows.leads answered).gains acyclic).adds
    have again := steady.replays state.memo last proper (adds.trans known)
    rw [again]
    exact tail.records answered last proper known

theorem mapM {f : α → Emission β} {found : α → MappingMemo → List Diagnostic} {xs : List α}
    (records : ∀ a ∈ xs, Records mapper (f a) (found a)) :
    Records mapper (xs.mapM f) fun last => xs.flatMap fun a => found a last := by
  induction xs with
  | nil =>
    rw [List.mapM_nil]
    exact .pure []
  | cons a rest ih =>
    rw [List.forall_mem_cons] at records
    rw [List.mapM_cons]
    exact records.1.bind acyclic fun b => (ih records.2).map acyclic (b :: ·)

end Records

namespace Rust

def typeIssue (module : OutputModule) (symbol : String) (problems : List String) : Diagnostic where
  kind := Diagnostic.unsupportedType
  message := symbol ++ ": " ++ "; ".intercalate problems
  header := some module.header
  symbol := some symbol

def constantIssue (module : OutputModule) (name text : String) : Diagnostic where
  kind := Diagnostic.unevaluatedConstant
  message := name ++ " = " ++ text ++ " could not be evaluated"
  header := some module.header
  symbol := some name

def typeIssues (module : OutputModule) (symbol : String) (problems : List String) :
    List Diagnostic :=
  if problems.isEmpty then [] else [typeIssue module symbol problems]

def enumeratorIssues (module : OutputModule) (entry : Enumerator × String × Option Int) :
    List Diagnostic :=
  if entry.2.2.isSome then [] else [constantIssue module entry.1.name entry.1.value.render]

def freeEnumerators (context : EmissionContext) (symbol : Symbol)
    (values : List (String × Option Int)) : List (Enumerator × String × Option Int) :=
  (symbol.item.enumerators.zip values).filter fun pair =>
    context.table.emitsEnumerator symbol pair.1.name

def issues (context : EmissionContext) (module : OutputModule) (memo : MappingMemo)
    (symbol : Symbol) : List Diagnostic :=
  let mapper := context.mapper
  match symbol.item with
  | .struct _ fields _ =>
    let owner := symbol.item.qualifiedName.getD "None"
    (fields.getD []).flatMap fun f => typeIssues module (owner ++ "." ++ f.name)
      (mapper.mapField module.name f memo).1.problems
  | .union .. => []
  | .enum name _ _ =>
    let values := (context.scope.evaluateEnum symbol memo.constants).1
    let emitted := if name.isSome then symbol.item.enumerators.zip values
      else freeEnumerators context symbol values
    emitted.flatMap (enumeratorIssues module)
  | .function name result parameters variadic _ =>
    typeIssues module name
      ((mapper.mapParameterList module.name parameters variadic memo).1.problems ++
        (mapper.mapResult module.name result memo).1.problems)
  | .typedef name type => typeIssues module name (mapper.map module.name type memo).1.problems
  | .object name type => typeIssues module name (mapper.map module.name type memo).1.problems
  | .constant name tokens =>
    let value := (context.scope.evaluateConstant name memo.constants).1
    if (value.bind literal?).isSome then []
    else [constantIssue module name (" ".intercalate tokens)]

section

variable (acyclic : context.mapper.scope.table.Acyclic)

include acyclic

theorem unlessMapped_records (module : OutputModule) (symbol : String) (problems : List String)
    (line stub : α) :
    Records context.mapper (if problems.isEmpty then pure line else do
      reportType module symbol problems
      return stub) fun _ => typeIssues module symbol problems := by
  unfold typeIssues
  split
  · exact .pure line
  · exact (Records.report _).followed acyclic fun _ => .pure stub

theorem fieldLine_records (owner : String) (f : Field) :
    Records context.mapper (fieldLine context module owner f) fun last =>
      typeIssues module (owner ++ "." ++ f.name)
        (context.mapper.mapField module.name f last).1.problems :=
  .ask acyclic (mapField_steady acyclic _ f) (mapField_asks f)
    fun _ => unlessMapped_records acyclic _ _ _ _ _

theorem structLines_records (qualifiedName : Option String) (fields : Option (List Field)) :
    Records context.mapper (structLines context module qualifiedName fields) fun last =>
      (fields.getD []).flatMap fun f =>
        typeIssues module (qualifiedName.getD "None" ++ "." ++ f.name)
          (context.mapper.mapField module.name f last).1.problems := by
  unfold structLines
  cases fields with
  | none => exact .pure _
  | some fields =>
    exact (Records.mapM acyclic fun f _ => fieldLine_records acyclic _ f).followed acyclic
      fun lines => .pure _

theorem enumeratorLine_records (constant : Int → String)
    (entry : Enumerator × String × Option Int) :
    Records context.mapper (enumeratorLine module constant entry.1 entry.2.2) fun _ =>
      enumeratorIssues module entry := by
  unfold enumeratorLine enumeratorIssues
  cases entry.2.2 with
  | some n => exact .pure _
  | none => exact (Records.report _).followed acyclic fun _ => .pure _

theorem enumerators_records {symbol : Symbol}
    (listed : symbol ∈ context.mapper.scope.table.symbols)
    {f : List (String × Option Int) → Emission β}
    (found : List (String × Option Int) → List Diagnostic)
    (records : ∀ values, Records context.mapper (f values) fun _ => found values) :
    Records context.mapper (context.enumerators symbol >>= f) fun last =>
      found (context.scope.evaluateEnum symbol last.constants).1 :=
  .ask acyclic (.constants (ConstantScope.evaluateEnum_tame symbol)) ⟨fun _ => .enum .start listed⟩
    records

theorem freeLines_records {symbol : Symbol}
    (listed : symbol ∈ context.mapper.scope.table.symbols) :
    Records context.mapper (freeLines context module symbol) fun last =>
      (freeEnumerators context symbol (context.scope.evaluateEnum symbol last.constants).1).flatMap
        (enumeratorIssues module) :=
  enumerators_records acyclic listed
    (fun values => (freeEnumerators context symbol values).flatMap (enumeratorIssues module))
    fun _ => .mapM acyclic fun entry _ => enumeratorLine_records acyclic _ entry

theorem enumLines_records {symbol : Symbol}
    (listed : symbol ∈ context.mapper.scope.table.symbols) :
    Records context.mapper (enumLines context module symbol) fun last =>
      (symbol.item.enumerators.zip (context.scope.evaluateEnum symbol last.constants).1).flatMap
        (enumeratorIssues module) :=
  enumerators_records acyclic listed
    (fun values => (symbol.item.enumerators.zip values).flatMap (enumeratorIssues module))
    fun _ => (Records.mapM acyclic fun entry _ => (enumeratorLine_records acyclic _ entry).followed
      acyclic fun _ => .pure _).followed acyclic fun _ => .pure _

theorem functionPiece_records (name : String) (result : CType) (parameters : List Parameter)
    (variadic : Bool) (convention : Option String) :
    Records context.mapper
      (functionPiece context module name result parameters variadic convention) fun last =>
        typeIssues module name
          ((context.mapper.mapParameterList module.name parameters variadic last).1.problems ++
            (context.mapper.mapResult module.name result last).1.problems) := by
  have ends (list : Mapping) := Records.ask acyclic
    (mapResult_steady acyclic module.name result) (mapResult_asks result) fun result =>
      unlessMapped_records acyclic module name (list.problems ++ result.problems)
        (Piece.function (abi convention) ("pub fn " ++ identifier name ++ "(" ++ list.text ++ ")" ++
          (if result.text.isEmpty then "" else " -> " ++ result.text) ++ ";"))
        (Piece.lines [stub ("fn " ++ name) (list.problems ++ result.problems)])
  exact Records.ask acyclic (mapParameterList_steady acyclic _ parameters variadic)
    (mapParameterList_asks parameters variadic) ends

theorem typedLines_records (what name : String) (type : CType) (lines : String → List String) :
    Records context.mapper (typedLines context module what name type lines) fun last =>
      typeIssues module name (context.mapper.map module.name type last).1.problems :=
  .ask acyclic (map_steady acyclic _ type) (map_asks _ type)
    fun _ => unlessMapped_records acyclic _ _ _ _ _

theorem constantLines_records (name : String) (tokens : List String) :
    Records context.mapper (constantLines context module name tokens) fun last =>
      if ((context.scope.evaluateConstant name last.constants).1.bind literal?).isSome then []
      else [constantIssue module name (" ".intercalate tokens)] := by
  have reported : Records context.mapper (do
      reportConstant module name (" ".intercalate tokens)
      return ["// unsupported: #define " ++ name ++ " " ++ " ".intercalate tokens])
      fun _ => [constantIssue module name (" ".intercalate tokens)] :=
    (Records.report _).followed acyclic fun _ => .pure _
  unfold constantLines
  let found (value : Option ConstantValue) (_ : MappingMemo) : List Diagnostic :=
    if (value.bind literal?).isSome then []
    else [constantIssue module name (" ".intercalate tokens)]
  refine @Records.ask _ _ _ acyclic _ _ found
    (.constants (ConstantScope.evaluateConstant_tame name)) ⟨fun _ => .constant .start name⟩
    fun value => ?_
  cases value with
  | none => exact reported
  | some value =>
    rcases Option.eq_none_or_eq_some (literal? value) with unwritten | ⟨literal, written⟩
    · simp only [found, Option.bind_some, unwritten]
      exact reported
    · simp only [found, Option.bind_some, written]
      exact .pure _

theorem piece_records {symbol : Symbol} (listed : symbol ∈ context.mapper.scope.table.symbols) :
    Records context.mapper (piece context module symbol) fun last =>
      issues context module last symbol := by
  obtain ⟨serial, item, location⟩ := symbol
  cases item with
  | struct name fields isTypedef => exact (structLines_records acyclic _ fields).map acyclic _
  | union name fields => exact .pure _
  | enum name enumerators isTypedef =>
    cases name with
    | none => exact (freeLines_records acyclic listed).map acyclic _
    | some name => exact (enumLines_records acyclic listed).map acyclic _
  | function name result parameters variadic convention =>
    exact functionPiece_records acyclic name result parameters variadic convention
  | typedef name type => exact (typedLines_records acyclic _ name type _).map acyclic _
  | object name type => exact (typedLines_records acyclic _ name type _).map acyclic _
  | constant name tokens => exact (constantLines_records acyclic name tokens).map acyclic _

theorem moduleText_records (member : module ∈ OutputModule.ofTable context.mapper.scope.table) :
    Records context.mapper (moduleText context module) fun last =>
      module.symbols.flatMap (issues context module last) :=
  (Records.mapM acyclic fun _ holds =>
    piece_records acyclic (OutputModule.symbols_listed member holds)).followed acyclic
      fun _ => .pure _

end

end Rust

/-! ### The JSON view -/

def Silent (x : Emission α) : Prop := ∀ state, (x state).2.diagnostics = state.diagnostics

namespace Silent

theorem pure (a : α) : Silent (Pure.pure a : Emission α) := fun _ => rfl

theorem mapping (x : MappingM α) : Silent (Emission.mapping x) := fun _ => rfl

theorem bind {x : Emission α} {f : α → Emission β} (first : Silent x)
    (second : ∀ a, Silent (f a)) : Silent (x >>= f) :=
  fun state => (second _ _).trans (first state)

theorem mapM {f : α → Emission β} (silent : ∀ a, Silent (f a)) (xs : List α) :
    Silent (xs.mapM f) := by
  induction xs with
  | nil =>
    rw [List.mapM_nil]
    exact pure []
  | cons a rest ih =>
    rw [List.mapM_cons]
    exact (silent a).bind fun b => ih.bind fun bs => pure _

theorem forM {f : α → Emission PUnit} (silent : ∀ a, Silent (f a)) (xs : List α) :
    Silent (xs.forM f) := by
  induction xs with
  | nil => exact pure PUnit.unit
  | cons a rest ih => exact (silent a).bind fun _ => ih

end Silent

theorem Records.of_silent {x : Emission α} (grows : Grows mapper x) (silent : Silent x) :
    Records mapper x fun _ => [] where
  grows := grows
  records state _ _ _ := (silent state).trans (List.append_nil _).symm

namespace JsonView

variable {view : View}

theorem inRun_silent {x : EmissionContext → Emission (List (String × Json))}
    (silent : ∀ context, Silent (x context)) : Silent (inRun view x) := by
  unfold inRun
  split
  · exact silent _
  · exact .pure []

theorem rustSide_silent (t : CType) : Silent (rustSide view t) :=
  inRun_silent fun _ => (Silent.mapping _).bind fun _ => .pure _

mutual

theorem type_silent (view : View) : (t : CType) → Silent (type view t)
  | .named t => by
    rw [type]
    exact .pure _
  | .pointer target qualifiers => by
    rw [type]
    exact (type_silent view target).bind fun _ => .pure _
  | .array element extent => by
    rw [type]
    exact (type_silent view element).bind fun _ => .pure _
  | .function result parameters variadic convention => by
    rw [type]
    exact (type_silent view result).bind fun _ =>
      (slots_silent view parameters).bind fun _ => .pure _

theorem slots_silent (view : View) : (parameters : List (Option String × CType)) →
    Silent (slots view parameters)
  | [] => by
    rw [slots]
    exact .pure _
  | (name, t) :: rest => by
    rw [slots]
    exact (type_silent view t).bind fun _ => (rustSide_silent t).bind fun _ =>
      (slots_silent view rest).bind fun _ => .pure _

end

theorem field_silent (f : Field) : Silent (field view f) :=
  (inRun_silent fun _ => (Silent.mapping _).bind fun _ => .pure _).bind fun _ =>
    (type_silent view f.type).bind fun _ => .pure _

theorem record_silent (kind : String) (name : Option String) (fields : Option (List Field))
    (isTypedef : Bool) : Silent (record view kind name fields isTypedef) :=
  (Silent.mapM field_silent _).bind fun _ => .pure _

theorem enum_silent (symbol : Symbol) (name : Option String) (isTypedef : Bool) :
    Silent (enum view symbol name isTypedef) := by
  have values : Silent (enumValues view symbol) := by
    unfold enumValues
    split
    · exact .mapping _
    · exact .pure _
  exact values.bind fun _ => .pure _

theorem function_silent (name : String) (result : CType) (parameters : List Parameter)
    (variadic : Bool) (convention : Option String) :
    Silent (function view name result parameters variadic convention) := by
  have returned : Silent (inRun view fun context => do
      let m ← .mapping (context.mapper.mapResult view.module.name result)
      if m.isOk then
        return [("rust_return_type", if m.text.isEmpty then .null else .string m.text)]
      else return [("problems", .strings m.problems)]) := by
    refine inRun_silent fun _ => (Silent.mapping _).bind fun m => ?_
    split
    · exact .pure _
    · exact .pure _
  exact (type_silent view result).bind fun _ => (slots_silent view parameters).bind fun _ =>
    returned.bind fun _ => .pure _

theorem typed_silent (kind name key : String) (t : CType) :
    Silent (typed view kind name key t) :=
  (type_silent view t).bind fun _ => (rustSide_silent t).bind fun _ => .pure _

theorem constant_silent (name : String) (tokens : List String) :
    Silent (constant view name tokens) := by
  unfold constant
  refine Silent.bind (inRun_silent fun context => ?_) fun _ => .pure _
  have asked : Silent (context.constant name) := .mapping _
  refine asked.bind fun value => ?_
  cases value with
  | none => exact .pure _
  | some value => exact .pure _

theorem declaration_silent (symbol : Symbol) : Silent (declaration view symbol) := by
  obtain ⟨serial, item, location⟩ := symbol
  cases item with
  | struct name fields isTypedef =>
    exact (record_silent "struct" name fields isTypedef).bind fun _ => .pure _
  | union name fields => exact (record_silent "union" name fields false).bind fun _ => .pure _
  | enum name values isTypedef => exact (enum_silent _ name isTypedef).bind fun _ => .pure _
  | function name result parameters variadic convention =>
    exact (function_silent name result parameters variadic convention).bind fun _ => .pure _
  | typedef name t =>
    exact (typed_silent "typedef" name "underlying_type" t).bind fun _ => .pure _
  | object name t => exact (typed_silent "variable" name "type" t).bind fun _ => .pure _
  | constant name tokens => exact (constant_silent name tokens).bind fun _ => .pure _

theorem module_silent (context : Option EmissionContext) (m : OutputModule) :
    Silent (JsonView.module context m) :=
  (Silent.mapM declaration_silent _).bind fun _ => .pure _

end JsonView

namespace EmittedFiles

variable {target : Target} {policy : NamespacePolicy} {crateName : CrateName}
  {table : SymbolTable}

theorem evaluateConstants_silent (context : EmissionContext) (symbols : List Symbol) :
    Silent (evaluateConstants context symbols) := by
  refine .forM (fun symbol => ?_) symbols
  split
  · exact Silent.bind (Silent.mapping _) fun value => .pure _
  · exact .pure _

theorem jsonModules_silent (indent : Option Nat) (context : EmissionContext)
    (modules : List OutputModule) : Silent (writeModules (.json indent) context modules) := by
  have first := Silent.forM (fun module : OutputModule =>
    evaluateConstants_silent context module.symbols) modules
  refine first.bind fun _ => .mapM (fun module => ?_) modules
  have text : Silent (Writer.moduleText (.json indent) context module) :=
    (JsonView.module_silent _ module).bind fun _ => .pure _
  exact text.bind fun _ => .pure _

theorem rustModules_records {context : EmissionContext}
    (acyclic : context.mapper.scope.table.Acyclic) :
    let modules := OutputModule.ofTable context.mapper.scope.table
    Records context.mapper (writeModules .rust context modules) fun last =>
      modules.flatMap fun module => module.symbols.flatMap (Rust.issues context module last) := by
  intro modules
  have grows := Asks.forM (fun module : OutputModule =>
    evaluateConstants_grows context module.symbols) modules
  have silent := Silent.forM (fun module : OutputModule =>
    evaluateConstants_silent context module.symbols) modules
  refine (Records.of_silent grows silent).bind acyclic fun _ => ?_
  exact .mapM acyclic fun module member =>
    (Rust.moduleText_records acyclic member).followed acyclic fun _ => .pure _

/-- What the Rust writer reports are the issues of all declarations that it writes, in order, as the
memo at the end of the run answers. -/
theorem rust_reports (acyclic : table.Acyclic) :
    let emitted := ofTable .rust target policy crateName table
    emitted.diagnostics = emitted.modules.flatMap fun module =>
      module.symbols.flatMap
        (Rust.issues ⟨.ofTable target table, policy, crateName⟩ module emitted.memo) := by
  let context : EmissionContext := ⟨.ofTable target table, policy, crateName⟩
  have leads : Leads context.mapper {} (ofTable .rust target policy crateName table).memo :=
    ofTable_leads
  have sound := (leads.gains acyclic).sound (MappingMemo.sound_empty context.mapper)
  exact (@rustModules_records context acyclic).records {} _
    sound.constants (.refl _)

/-- For every table the JSON writer reports nothing, so that both writers report the same issues only
where the Rust writer has none. Those of a table without cycles of typedefs are the issues of its
declarations. -/
theorem reports_agree_iff (target : Target) (policy : NamespacePolicy) (crateName : CrateName)
    (table : SymbolTable) (indent : Option Nat) :
    let rust := ofTable .rust target policy crateName table
    let json := ofTable (.json indent) target policy crateName table
    json.diagnostics = [] ∧
      (json.diagnostics.Perm rust.diagnostics ↔ rust.diagnostics = []) ∧
      (table.Acyclic → rust.diagnostics = rust.modules.flatMap fun module =>
        module.symbols.flatMap
          (Rust.issues ⟨.ofTable target table, policy, crateName⟩ module rust.memo)) := by
  intro rust json
  have silent : json.diagnostics = [] :=
    jsonModules_silent indent ⟨.ofTable target table, policy, crateName⟩ _ {}
  refine ⟨silent, ?_, rust_reports⟩
  rw [silent]
  exact List.nil_perm

end EmittedFiles

def shelfDeclarations : List Declaration :=
  let node : CType := .named ⟨.struct, some "Node", []⟩
  let handle := "Handle"
  let ref := "Ref"
  [⟨.struct (some "Node") none false, some ⟨"node.h", 1⟩⟩,
   ⟨.typedef handle (.pointer node []), some ⟨"node.h", 2⟩⟩,
   ⟨.typedef ref (.named ⟨.typedef, some handle, []⟩), some ⟨"shelf.h", 1⟩⟩]

def shelfTable : SymbolTable := (SymbolTable.insertAll {} shelfDeclarations).1.finalize

def shelfFiles : EmittedFiles := .ofTable .rust firstTarget .flat (.named "shelf") shelfTable

theorem shelfTable_acyclic : shelfTable.Acyclic := by
  apply SymbolTable.acyclic_of_entries fun name =>
    if name = "Ref" then 2 else if name = "Handle" then 1 else 0
  decide +kernel

/-- Where every declaration has a Rust form, both writers report nothing. -/
theorem shelf_reports_agree :
    shelfTable.Acyclic ∧
      (EmittedFiles.ofTable (.json none) Target.all[0] .flat (.named "shelf")
        shelfTable).diagnostics.Perm shelfFiles.diagnostics := by
  obtain ⟨-, agree, listed⟩ :=
    EmittedFiles.reports_agree_iff Target.all[0] .flat (.named "shelf") shelfTable none
  refine ⟨shelfTable_acyclic, agree.mpr ((listed shelfTable_acyclic).trans ?_)⟩
  decide +kernel

def flagsTable : SymbolTable :=
  let ready : Field := ⟨"ready", .named ⟨.primitive, some "int", []⟩, some 1⟩
  (SymbolTable.insertAll {}
    [⟨.struct (some "Flags") (some [ready]) false, some ⟨"flags.h", 1⟩⟩]).1.finalize

def flagsFiles (writer : Writer) : EmittedFiles :=
  .ofTable writer firstTarget .flat (.named "flags") flagsTable

/-- The field is reported in one format and not in the other. -/
theorem flags_reported_in_rust_only :
    (flagsFiles .rust).diagnostics.map Diagnostic.kind = [Diagnostic.unsupportedType] ∧
      (flagsFiles (.json none)).diagnostics = [] ∧
      ¬ (flagsFiles (.json none)).diagnostics.Perm (flagsFiles .rust).diagnostics := by
  have reported : (flagsFiles .rust).diagnostics.map Diagnostic.kind =
      [Diagnostic.unsupportedType] := by
    decide +kernel
  have silent : (flagsFiles (.json none)).diagnostics = [] := by decide +kernel
  refine ⟨reported, silent, fun agree => ?_⟩
  rw [silent, List.nil_perm] at agree
  rw [agree] at reported
  cases reported

end CBindings
