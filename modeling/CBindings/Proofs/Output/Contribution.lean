import CBindings.Proofs.Output.Balance
import CBindings.Proofs.Output.Files
import CBindings.Proofs.SymbolTable.Emitted

/-! Nothing is dropped from a Rust module: every declaration has its lines in the text, and there
are as many stubs as issues and unions. -/

namespace CBindings

open MappingMemo (Shaped)

variable {symbols : List Symbol}

namespace Rust

variable {context : EmissionContext} {module : OutputModule}

theorem forall_right {α β : Type} {related : α → β → Prop} {holds : β → Prop} {as : List α}
    {bs : List β} (each : List.Forall₂ related as bs) (implies : ∀ a b, related a b → holds b) :
    ∀ b ∈ bs, holds b := by
  induction each with
  | nil => simp
  | cons first others ih => exact List.forall_mem_cons.mpr ⟨implies _ _ first, ih⟩

theorem pieces_accounts (plain : context.mapper.IsPlain symbols)
    (among : ∀ symbol ∈ module.symbols, symbol ∈ symbols ∧ Unbroken symbol.item.texts) :
    Accounts symbols (module.symbols.mapM (piece context module)) fun reported pieces =>
      List.Forall₂ (fun symbol piece =>
        Shown (context.table.emitsEnumerator symbol) symbol.item piece.own ∧ piece.IsPlain)
        module.symbols pieces ∧
      Balanced (module.symbols.countP isUnion) reported (pieces.flatMap Piece.own) :=
  .mapM isUnion Piece.own fun symbol member =>
    piece_accounts plain (among symbol member).1 (among symbol member).2

/-! ### Modules -/

def moduleFront (header : String) : List String :=
  ["//! Bindings for `" ++ header ++ "`.", "//!", "//! Generated by headerbind. Do not edit.", "",
    allowLints]

theorem moduleFront_unbroken {header : String} (oneLine : OneLine header) :
    Unbroken (moduleFront header) := by
  refine unbroken_cons.mpr ⟨?_, by decide⟩
  exact .between (by decide) oneLine (by decide)

theorem moduleFront_entries (header : String) : (moduleFront header).filter isEntry = [] := by
  have first : isEntry ("//! Bindings for `" ++ header ++ "`.") = false := by
    rw [isEntry, isItem, isStub, opensWith, opensWith, String.append_assoc,
      unindented_append (by decide)]
    rfl
  rw [moduleFront, List.filter_cons, first, if_neg Bool.false_ne_true]
  decide

theorem moduleText_eq : moduleText context module = do
    let pieces ← module.symbols.mapM (piece context module)
    return text (moduleFront module.header ++ assemble pieces) := rfl

/-- The text has all lines of the declarations in their order and no other items or stubs. There is
a stub for each issue and for each union. -/
theorem moduleText_accounts (plain : context.mapper.IsPlain symbols)
    (among : ∀ symbol ∈ module.symbols, symbol ∈ symbols ∧ Unbroken symbol.item.texts)
    (header : OneLine module.header) :
    Accounts symbols (moduleText context module) fun reported text =>
      ∃ contributions : List (List String),
        List.Forall₂ (fun symbol lines =>
          Shown (context.table.emitsEnumerator symbol) symbol.item lines)
          module.symbols contributions ∧
        contributions.flatten.Sublist (linesOf text) ∧
        (linesOf text).filter isEntry = contributions.flatten.filter isEntry ∧
        (linesOf text).countP isStub = losses reported + module.symbols.countP isUnion := by
  rw [moduleText_eq]
  refine (pieces_accounts plain among).bind fun reported pieces written => .pure ?_
  obtain ⟨each, balanced⟩ := written
  have fine : ∀ piece ∈ pieces, piece.IsPlain := forall_right each fun _ _ shown => shown.2
  have unbroken : Unbroken (moduleFront module.header ++ assemble pieces) :=
    unbroken_append.mpr ⟨moduleFront_unbroken header, unbroken_assemble fine balanced.unbroken⟩
  have lines : linesOf (Rust.text (moduleFront module.header ++ assemble pieces)) =
      moduleFront module.header ++ assemble pieces ++ [""] :=
    linesOf_intercalate (by simp [moduleFront]) unbroken
  have empty : isEntry "" = false := by decide
  have entries : (moduleFront module.header ++ assemble pieces ++ [""]).filter isEntry =
      (pieces.flatMap Piece.own).filter isEntry := by
    simp [List.filter_append, moduleFront_entries, filter_assemble, empty]
  refine ⟨pieces.map Piece.own, ?_, ?_, ?_, ?_⟩
  · rw [List.forall₂_map_right_iff]
    exact each.imp fun _ _ shown => shown.1
  · rw [← List.flatMap_def, lines, List.append_assoc]
    refine (own_sublist_assemble pieces).trans ?_
    exact (List.sublist_append_left _ _).trans (List.sublist_append_right _ _)
  · rw [← List.flatMap_def, lines]
    exact entries
  · rw [List.append_nil, lines, countP_isStub, entries, ← countP_isStub, balanced.stubs]

end Rust

/-! ### Tables -/

namespace SymbolTable

/-- Some changes leave the table, and it may be final since. -/
def LeftBy (table : SymbolTable) (policy : DuplicatePolicy) (changes : List Change) : Prop :=
  table = ofChanges policy changes ∨ table = (ofChanges policy changes).finalize

variable {table : SymbolTable} {policy : DuplicatePolicy} {changes : List Change} {symbol : Symbol}

theorem LeftBy.listed (left : table.LeftBy policy changes) :
    Symbol.Listed (symbolsOf (declared changes)) table := by
  have listed : Symbol.Listed (symbolsOf (declared changes)) (ofChanges policy changes) :=
    ⟨fun _ _ => enumerator?_ofChanges, fun _ first _ second => eq_of_serial first second⟩
  rcases left with rfl | rfl
  · exact listed
  · exact ⟨listed.indexed, listed.identified⟩

theorem LeftBy.inserted (left : table.LeftBy policy changes) (emitted : symbol ∈ table.emitted) :
    symbol ∈ symbolsOf (declared changes) := by
  have same : table.emitted = (ofChanges policy changes).emitted := by
    rcases left with rfl | rfl <;> rfl
  rw [same, mem_emitted_iff_holds] at emitted
  obtain ⟨name, holds⟩ := emitted
  exact (coherent_ofChanges policy changes).listed name symbol holds

theorem LeftBy.emitted (left : table.LeftBy policy changes) {name : String}
    (entry : table.get? name = some symbol) : symbol ∈ table.emitted := by
  have same : table.emitted = (ofChanges policy changes).emitted ∧
      table.get? name = (ofChanges policy changes).get? name := by
    rcases left with rfl | rfl <;> exact ⟨rfl, rfl⟩
  rw [same.1, mem_emitted_iff_holds]
  exact ⟨name, holder?_of_entry (same.2 ▸ entry)⟩

end SymbolTable

theorem OutputModule.mem_emitted {table : SymbolTable} {module : OutputModule} {symbol : Symbol}
    (there : module ∈ ofTable table) (member : symbol ∈ module.symbols) :
    symbol ∈ table.emitted := by
  rw [symbols_of_mem there] at member
  have contributes := (List.mem_filter.mp member).1
  exact List.mem_flatMap.mpr ⟨_, SymbolTable.header_mem_headers contributes, member⟩

/-- An enum without a name is in a module for some enumerator that is emitted. -/
theorem OutputModule.exists_emitted {table : SymbolTable} {module : OutputModule} {symbol : Symbol}
    (there : module ∈ ofTable table) (member : symbol ∈ module.symbols) (values : List Enumerator)
    (isTypedef : Bool) (item : symbol.item = .enum none values isTypedef) :
    ∃ e ∈ values, table.emitsEnumerator symbol e.name = true := by
  rw [symbols_of_mem there] at member
  have emitted := (List.mem_filter.mp member).2
  simp only [SymbolTable.isEmitted, item, Item.qualifiedName, Item.tagName, Option.filter_none,
    Option.map_none, List.any_eq_true] at emitted
  obtain ⟨e, inside, owned⟩ := emitted
  refine ⟨e, inside, ?_⟩
  rw [SymbolTable.emitsEnumerator, owned, Bool.or_true]

theorem TypeMapper.isPlain_ofTable {table : SymbolTable} (listed : Symbol.Listed symbols table)
    (entries : ∀ name symbol, table.get? name = some symbol → Unbroken symbol.item.texts)
    (target : Target) : (TypeMapper.ofTable target table).IsPlain symbols where
  listed := listed
  owners name owner found := by
    obtain ⟨header, -, found⟩ := Option.bind_eq_some_iff.mp found
    obtain ⟨module, there, rfl⟩ := Option.map_eq_some_iff.mp found
    exact OutputModule.oneLine_name (List.mem_of_find?_eq_some there)
  typedefs name underlying found := by
    obtain ⟨symbol, other, entry, item⟩ := SymbolTable.typedef?_eq_some.mp found
    have unbroken := entries name symbol entry
    rw [item] at unbroken
    exact (unbroken_cons.mp unbroken).2

namespace EmittedFiles

variable {context : EmissionContext}

theorem evaluateConstants_accounts (plain : context.mapper.IsPlain symbols)
    (evaluated : List Symbol) :
    Accounts symbols (evaluateConstants context evaluated) fun _ _ => True := by
  refine .forM_any (fun symbol => ?_) evaluated
  split
  · refine Accounts.ask (.constants (ConstantScope.evaluateConstant_plain plain.listed _))
      fun value _ => .pure trivial
  · exact .pure trivial

/-- What is remembered has its shape whatever has been evaluated and written. -/
theorem shaped_stateAfter (plain : context.mapper.IsPlain symbols)
    (evaluated written : List OutputModule)
    (among : ∀ module ∈ written, ∀ symbol ∈ module.symbols,
      symbol ∈ symbols ∧ Unbroken symbol.item.texts) :
    (stateAfter .rust context evaluated written).memo.Shaped symbols := by
  have ready : Accounts symbols
      (evaluated.forM fun module => evaluateConstants context module.symbols) fun _ _ => True :=
    .forM_any (fun module => evaluateConstants_accounts plain module.symbols) evaluated
  have texts : Accounts symbols (written.mapM (Writer.moduleText .rust context)) fun _ _ => True :=
    .mapM_any fun module member =>
      (Rust.pieces_accounts plain (among module member)).bind fun _ _ _ => .pure trivial
  exact (texts _ (ready {} (Shaped.empty symbols)).1).1

end EmittedFiles

/-- For every table and each of its modules without line breaks in names and expressions, and
whatever has been written before, nothing is dropped from the module: every declaration has lines of
its own, an item or a stub among them, with one line for each field and for each enumerator that is
emitted. They stand in the text in order, with no other items or stubs. The stubs are as many as the
issues of types and constants that the module reports, and its unions. -/
theorem moduleText_drops_nothing {policy : DuplicatePolicy} {changes : List SymbolTable.Change}
    {table : SymbolTable} (left : table.LeftBy policy changes) (target : Target)
    (namespaces : NamespacePolicy) (crateName : CrateName)
    (unbroken : ∀ symbol ∈ table.emitted, Unbroken symbol.item.texts)
    (evaluated written : List OutputModule)
    (earlier : ∀ other ∈ written, other ∈ OutputModule.ofTable table) {module : OutputModule}
    (member : module ∈ OutputModule.ofTable table) (header : OneLine module.header) :
    let context : EmissionContext := ⟨.ofTable target table, namespaces, crateName⟩
    let before := EmittedFiles.stateAfter .rust context evaluated written
    let text := (Rust.moduleText context module before).1
    ∃ contributions : List (List String), ∃ reported : List Diagnostic,
      List.Forall₂ (fun symbol lines =>
        Rust.Shown (table.emitsEnumerator symbol) symbol.item lines ∧
          ∃ line ∈ lines, Rust.isEntry line = true) module.symbols contributions ∧
      contributions.flatten.Sublist (linesOf text) ∧
      (linesOf text).filter Rust.isEntry = contributions.flatten.filter Rust.isEntry ∧
      (Rust.moduleText context module before).2.diagnostics = before.diagnostics ++ reported ∧
      (linesOf text).countP Rust.isStub =
        reported.countP (·.kind = Diagnostic.unsupportedType) +
          reported.countP (·.kind = Diagnostic.unevaluatedConstant) +
          module.symbols.countP Rust.isUnion := by
  intro context before text
  have plain : context.mapper.IsPlain (SymbolTable.symbolsOf (SymbolTable.declared changes)) :=
    TypeMapper.isPlain_ofTable left.listed
      (fun name symbol entry => unbroken symbol (left.emitted entry)) target
  have among : ∀ other ∈ OutputModule.ofTable table, ∀ symbol ∈ other.symbols,
      symbol ∈ SymbolTable.symbolsOf (SymbolTable.declared changes) ∧
        Unbroken symbol.item.texts := by
    intro other there symbol inside
    have emitted := OutputModule.mem_emitted there inside
    exact ⟨left.inserted emitted, unbroken symbol emitted⟩
  have shaped := EmittedFiles.shaped_stateAfter plain evaluated written
    fun other there => among other (earlier other there)
  obtain ⟨-, reported, added, contributions, each, placed, entries, stubs⟩ :=
    Rust.moduleText_accounts plain (among module member) header before shaped
  refine ⟨contributions, reported, ?_, placed, entries, added, stubs⟩
  have emitted : ∀ symbol ∈ module.symbols, ∀ values isTypedef,
      symbol.item = .enum none values isTypedef →
        ∃ e ∈ values, table.emitsEnumerator symbol e.name = true :=
    fun symbol => OutputModule.exists_emitted member
  refine ((List.forall₂_and_left _ _).mpr ⟨emitted, each⟩).imp fun symbol lines both => ?_
  exact ⟨both.2, both.2.exists_line both.1⟩

def panelChanges : List SymbolTable.Change :=
  let int : CType := .named ⟨.primitive, some "int", []⟩
  let place : Option Location := some ⟨"panel.h", 1⟩
  [.declaration ⟨.struct (some "Panel") (some [⟨"ready", int, some 1⟩, ⟨"level", int, none⟩]) false,
    place⟩,
   .declaration ⟨.union (some "Value") none, place⟩,
   .declaration ⟨.constant "LIMIT" [], place⟩]

def panelTable : SymbolTable := (SymbolTable.ofChanges .first panelChanges).finalize

def panelModule : OutputModule := ⟨"panel", "panel.h", panelTable.emitted⟩

theorem panel_drops_nothing :
    let context : EmissionContext := ⟨.ofTable firstTarget panelTable, .flat, .named "panel"⟩
    let written := Rust.moduleText context panelModule {}
    panelTable.LeftBy .first panelChanges ∧ panelModule ∈ OutputModule.ofTable panelTable ∧
      (∀ symbol ∈ panelTable.emitted, Unbroken symbol.item.texts) ∧ OneLine panelModule.header ∧
      written.2.diagnostics.map Diagnostic.kind =
        [Diagnostic.unsupportedType, Diagnostic.unevaluatedConstant] ∧
      (linesOf written.1).countP Rust.isStub = 3 := by
  intro context written
  have left : panelTable.LeftBy .first panelChanges := .inr rfl
  have member : panelModule ∈ OutputModule.ofTable panelTable := by decide +kernel
  have unbroken : ∀ symbol ∈ panelTable.emitted, Unbroken symbol.item.texts := by decide +kernel
  have header : OneLine panelModule.header := by decide
  have kinds : written.2.diagnostics.map Diagnostic.kind =
      [Diagnostic.unsupportedType, Diagnostic.unevaluatedConstant] := by
    decide +kernel
  obtain ⟨-, reported, -, -, -, added, stubs⟩ := moduleText_drops_nothing left firstTarget .flat
    (.named "panel") unbroken [] [] (by simp) member header
  have told : reported.map Diagnostic.kind =
      [Diagnostic.unsupportedType, Diagnostic.unevaluatedConstant] :=
    (congrArg (List.map Diagnostic.kind) added).symm.trans kinds
  have unions : panelModule.symbols.countP Rust.isUnion = 1 := by decide +kernel
  have counted (kind : String) : reported.countP (·.kind = kind) =
      (reported.map Diagnostic.kind).countP (· = kind) := by
    rw [List.countP_map]
    rfl
  refine ⟨left, member, unbroken, header, kinds, stubs.trans ?_⟩
  rw [unions, counted, counted, told]
  decide

end CBindings
