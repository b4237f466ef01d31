import CBindings.Proofs.Output.Outline
import CBindings.Proofs.Output.Report
import CBindings.Proofs.Rust.Line

/-! Writing a declaration gives a stub for each issue that it reports, and a union has one more. -/

namespace CBindings

open MappingMemo (Shaped)

variable {α β : Type} {symbols : List Symbol}

/-! ### Accounts -/

def losses (reported : List Diagnostic) : Nat :=
  reported.countP (·.kind = Diagnostic.unsupportedType) +
    reported.countP (·.kind = Diagnostic.unevaluatedConstant)

theorem losses_append (reported others : List Diagnostic) :
    losses (reported ++ others) = losses reported + losses others := by
  simp only [losses, List.countP_append]
  omega

structure Balanced (more : Nat) (reported : List Diagnostic) (lines : List String) : Prop where
  unbroken : Unbroken lines
  stubs : lines.countP Rust.isStub = losses reported + more

namespace Balanced

variable {more more' : Nat} {reported others : List Diagnostic} {line : String}
  {lines lines' : List String}

theorem append (first : Balanced more reported lines) (second : Balanced more' others lines') :
    Balanced (more + more') (reported ++ others) (lines ++ lines') where
  unbroken := unbroken_append.mpr ⟨first.unbroken, second.unbroken⟩
  stubs := by
    rw [List.countP_append, first.stubs, second.stubs, losses_append]
    omega

theorem nil : Balanced 0 [] [] := ⟨unbroken_nil, rfl⟩

theorem plain (oneLine : OneLine line) (noStub : Rust.isStub line = false) :
    Balanced 0 [] [line] where
  unbroken := unbroken_cons.mpr ⟨oneLine, unbroken_nil⟩
  stubs := by simp [noStub, losses]

theorem item (oneLine : OneLine line) (item : Rust.isItem line = true) : Balanced 0 [] [line] :=
  .plain oneLine (Rust.isStub_of_isItem item)

theorem stub {issue : Diagnostic} (oneLine : OneLine line) (stub : Rust.isStub line = true)
    (lost : losses [issue] = 1) : Balanced 0 [issue] [line] where
  unbroken := unbroken_cons.mpr ⟨oneLine, unbroken_nil⟩
  stubs := by simp [stub, lost]

theorem cons (oneLine : OneLine line) (noStub : Rust.isStub line = false)
    (balanced : Balanced more reported lines) : Balanced more reported (line :: lines) := by
  have whole := (plain oneLine noStub).append balanced
  rwa [Nat.zero_add] at whole

theorem framed {front inner back : List String} (before : Balanced 0 [] front)
    (balanced : Balanced 0 reported inner) (after : Balanced 0 [] back) :
    Balanced 0 reported (front ++ inner ++ back) := by
  have whole := (before.append balanced).append after
  rwa [List.nil_append, List.append_nil] at whole

end Balanced

/-- A computation keeps the shape of the memo, and `ok` holds of what it reports and gives. -/
def Accounts (symbols : List Symbol) (x : Emission α) (ok : List Diagnostic → α → Prop) : Prop :=
  ∀ state : EmissionState, state.memo.Shaped symbols → (x state).2.memo.Shaped symbols ∧
    ∃ reported, (x state).2.diagnostics = state.diagnostics ++ reported ∧ ok reported (x state).1

namespace Accounts

variable {ok : List Diagnostic → α → Prop} {ok' : List Diagnostic → β → Prop}

theorem pure {a : α} (fine : ok [] a) : Accounts symbols (Pure.pure a) ok :=
  fun _ shaped => ⟨shaped, [], (List.append_nil _).symm, fine⟩

theorem mono {weaker : List Diagnostic → α → Prop} {x : Emission α}
    (accounts : Accounts symbols x ok)
    (implies : ∀ reported a, ok reported a → weaker reported a) : Accounts symbols x weaker := by
  intro state shaped
  obtain ⟨still, reported, added, fine⟩ := accounts state shaped
  exact ⟨still, reported, added, implies reported _ fine⟩

theorem bind {x : Emission α} {f : α → Emission β} (first : Accounts symbols x ok)
    (second : ∀ reported a, ok reported a →
      Accounts symbols (f a) fun others b => ok' (reported ++ others) b) :
    Accounts symbols (x >>= f) ok' := by
  intro state shaped
  obtain ⟨still, reported, added, fine⟩ := first state shaped
  obtain ⟨last, others, more, fine'⟩ := second reported _ fine (x state).2 still
  refine ⟨last, reported ++ others, ?_, fine'⟩
  rw [← List.append_assoc, ← added]
  exact more

theorem map {x : Emission α} (f : α → β) (accounts : Accounts symbols x ok)
    (implies : ∀ reported a, ok reported a → ok' reported (f a)) :
    Accounts symbols (f <$> x) ok' :=
  accounts.bind fun reported a fine => .pure (by simpa using implies reported a fine)

theorem ask {fine : α → Prop} {question : MappingM α} {f : α → Emission β}
    (ensures : MapEnsures symbols question fine)
    (second : ∀ a, fine a → Accounts symbols (f a) ok') :
    Accounts symbols (Emission.mapping question >>= f) ok' := by
  intro state shaped
  obtain ⟨answer, still⟩ := ensures state.memo shaped
  exact second _ answer { state with memo := (question state.memo).2 } still

theorem reported {issue : Diagnostic} {a : α} (fine : ok [issue] a) :
    Accounts symbols (Emission.report issue >>= fun _ => Pure.pure a) ok :=
  fun _ shaped => ⟨shaped, [issue], rfl, fine⟩

/-- Steps in a row: each result stands to its origin as told, and the lines of all are balanced if
those of each one are. -/
theorem mapM {related : α → β → Prop} (more : α → Bool) (view : β → List String)
    {f : α → Emission β} {as : List α}
    (each : ∀ a ∈ as, Accounts symbols (f a) fun reported b =>
      related a b ∧ Balanced (if more a then 1 else 0) reported (view b)) :
    Accounts symbols (as.mapM f) fun reported bs =>
      List.Forall₂ related as bs ∧ Balanced (as.countP more) reported (bs.flatMap view) := by
  induction as with
  | nil =>
    rw [List.mapM_nil]
    exact .pure ⟨.nil, .nil⟩
  | cons a rest ih =>
    rw [List.forall_mem_cons] at each
    rw [List.mapM_cons]
    refine each.1.bind fun reported b first => (ih each.2).bind fun others bs later => .pure ?_
    refine ⟨.cons first.1 later.1, ?_⟩
    rw [List.append_nil, List.countP_cons, List.flatMap_cons, Nat.add_comm]
    exact first.2.append later.2

theorem mapM_lines (related : α → String → Prop) {f : α → Emission String} {as : List α}
    (each : ∀ a ∈ as, Accounts symbols (f a) fun reported line =>
      related a line ∧ Balanced 0 reported [line]) :
    Accounts symbols (as.mapM f) fun reported lines =>
      List.Forall₂ related as lines ∧ Balanced 0 reported lines := by
  refine (mapM (fun _ => false) ([·]) each).mono fun reported lines accounts => ?_
  simpa using accounts

theorem mapM_any {f : α → Emission β} {as : List α}
    (each : ∀ a ∈ as, Accounts symbols (f a) fun _ _ => True) :
    Accounts symbols (as.mapM f) fun _ _ => True := by
  induction as with
  | nil => exact .pure trivial
  | cons a rest ih =>
    rw [List.forall_mem_cons] at each
    rw [List.mapM_cons]
    exact each.1.bind fun _ _ _ => (ih each.2).bind fun _ _ _ => .pure trivial

theorem forM_any {f : α → Emission PUnit} (each : ∀ a, Accounts symbols (f a) fun _ _ => True)
    (as : List α) : Accounts symbols (as.forM f) fun _ _ => True := by
  induction as with
  | nil => exact .pure trivial
  | cons a rest ih => exact (each a).bind fun _ _ _ => ih

end Accounts

namespace Rust

variable {context : EmissionContext} {module : OutputModule} {what name : String}
  {problems : List String}

/-! ### Lines -/

theorem oneLine_indent {line : String} (oneLine : OneLine line) : OneLine (indent line) :=
  oneLine_append.mpr ⟨by decide, oneLine⟩

theorem oneLine_stub (oneLine : OneLine what) (unbroken : Unbroken problems) :
    OneLine (stub what problems) := by
  have list : OneLine ("; ".intercalate problems) := .intercalate (by decide) unbroken
  exact oneLine_append.mpr ⟨.between (by decide) oneLine (by decide),
    list⟩

theorem losses_type (module : OutputModule) (symbol : String) (problems : List String) :
    losses [typeIssue module symbol problems] = 1 := rfl

theorem losses_constant (module : OutputModule) (name text : String) :
    losses [constantIssue module name text] = 1 := rfl

theorem fieldLine_accounts (plain : context.mapper.IsPlain symbols) (owner : String) {f : Field}
    (unbroken : Unbroken (f.name :: f.type.texts)) :
    Accounts symbols (fieldLine context module owner f) fun reported line =>
      FieldShown f line ∧ Balanced 0 reported [line] := by
  have named : OneLine f.name := (unbroken_cons.mp unbroken).1
  refine Accounts.ask (TypeMapper.mapField_isPlain plain module.name unbroken) fun mapped fine => ?_
  split
  · have shown : FieldShown f _ := .item mapped.text
    refine .pure ⟨shown, .item (oneLine_indent ?_) ?_⟩
    · simp only [oneLine_append, oneLine_identifier named, fine.text, and_true]
      decide
    · rw [isItem_indent]
      simp only [String.append_assoc]
      exact isItem_append (by decide) _
  · refine .reported ⟨.stub mapped.problems, .stub ?_ ?_ (losses_type _ _ _)⟩
    · exact oneLine_indent (oneLine_stub (oneLine_append.mpr ⟨by decide, named⟩) fine.problems)
    · rw [isStub_indent]
      exact isStub_stub _ _

theorem oneLine_itemName {item : Item} (unbroken : Unbroken item.texts) :
    OneLine (itemName item) := by
  refine oneLine_declaredName ?_
  cases known : item.qualifiedName with
  | none => decide
  | some key => exact item.oneLine_qualifiedName unbroken known

theorem structLines_accounts (plain : context.mapper.IsPlain symbols) {tag : Option String}
    {fields : Option (List Field)} {isTypedef : Bool} {emits : String → Bool}
    (unbroken : Unbroken (Item.struct tag fields isTypedef).texts) :
    Accounts symbols
      (structLines context module (Item.struct tag fields isTypedef).qualifiedName fields)
      fun reported lines => Shown emits (.struct tag fields isTypedef) lines ∧
        Balanced 0 reported lines := by
  have named := oneLine_itemName unbroken
  unfold structLines
  cases fields with
  | none =>
    refine .pure ⟨.wrapper tag isTypedef, .cons (by decide) (by decide) (.item ?_ ?_)⟩
    · exact .between (by decide) named (by decide)
    · exact isItem_append (isItem_append (by decide) _) _
  | some fields =>
    have each : ∀ f ∈ fields, Unbroken (f.name :: f.type.texts) := by
      intro f member text inside
      exact unbroken text (List.mem_append_right _ (List.mem_flatMap.mpr ⟨f, member, inside⟩))
    refine (Accounts.mapM_lines FieldShown fun f member =>
      fieldLine_accounts plain _ (each f member)).bind fun reported lines shown => .pure ?_
    rw [List.append_nil]
    refine ⟨.struct shown.1, .framed ?_ shown.2 (.plain (by decide) (by decide))⟩
    refine .cons (by decide) (by decide) (.cons (by decide) (by decide) (.item ?_ ?_))
    · exact .between (by decide) named (by decide)
    · exact isItem_append (isItem_append (by decide) _) _

theorem enumeratorLine_accounts {constant : Enumerator → Int → String} {e : Enumerator}
    (unbroken : Unbroken [e.name, e.value.render]) (oneLine : ∀ n, OneLine (constant e n))
    (items : ∀ n, isItem (constant e n) = true) (value : Option Int) :
    Accounts symbols (enumeratorLine module (constant e) e value) fun reported line =>
      EnumeratorShown constant e line ∧ Balanced 0 reported [line] := by
  simp only [unbroken_cons, unbroken_nil, and_true] at unbroken
  unfold enumeratorLine
  cases value with
  | some n => exact .pure ⟨.item n, .item (oneLine n) (items n)⟩
  | none =>
    refine .reported ⟨.stub, .stub (oneLine_stub ?_ ?_) (isStub_stub _ _) (losses_constant _ _ _)⟩
    · exact oneLine_append.mpr ⟨by decide, unbroken.1⟩
    · exact unbroken_cons.mpr ⟨oneLine_append.mpr ⟨by decide, unbroken.2⟩, unbroken_nil⟩

theorem oneLine_freeItem {e : Enumerator} (named : OneLine e.name) (n : Int) :
    OneLine (freeItem e n) := by
  unfold freeItem
  simp only [oneLine_append, oneLine_identifier named, oneLine_intRepr, and_true]
  decide

theorem oneLine_ownItem {e : Enumerator} (named : OneLine e.name) (n : Int) :
    OneLine (ownItem e n) := by
  unfold ownItem
  simp only [oneLine_append, oneLine_identifier named, oneLine_intRepr, and_true]
  decide

theorem unbroken_enumerator {tag : Option String} {values : List Enumerator} {isTypedef : Bool}
    (unbroken : Unbroken (Item.enum tag values isTypedef).texts) {e : Enumerator}
    (member : e ∈ values) : Unbroken [e.name, e.value.render] := by
  intro text inside
  exact unbroken text (List.mem_append_right _ (List.mem_flatMap.mpr ⟨e, member, inside⟩))

theorem fst_filter_zip {γ : Type} {values : List Enumerator} {results : List γ}
    (length : results.length = values.length) (emits : String → Bool) :
    ((values.zip results).filter fun pair => emits pair.1.name).map Prod.fst =
      values.filter (emits ·.name) := by
  have whole : (values.zip results).map Prod.fst = values :=
    List.map_fst_zip (Nat.le_of_eq length.symm)
  calc ((values.zip results).filter fun pair => emits pair.1.name).map Prod.fst
      = ((values.zip results).map Prod.fst).filter (emits ·.name) := by
        rw [List.filter_map]
        rfl
    _ = values.filter (emits ·.name) := by rw [whole]

theorem freeLines_accounts (plain : context.mapper.IsPlain symbols) {symbol : Symbol}
    (listed : symbol ∈ symbols) {values : List Enumerator} {isTypedef : Bool}
    (item : symbol.item = .enum none values isTypedef) (unbroken : Unbroken symbol.item.texts) :
    Accounts symbols (freeLines context module symbol) fun reported lines =>
      Shown (context.table.emitsEnumerator symbol) symbol.item lines ∧
        Balanced 0 reported lines := by
  rw [item] at unbroken
  refine Accounts.ask (.constants (ConstantScope.evaluateEnum_length plain.listed listed))
    fun results length => ?_
  rw [item] at length ⊢
  have whole : results.length = values.length := length
  refine (Accounts.mapM_lines (fun pair => EnumeratorShown freeItem pair.1)
    fun pair member => ?_).mono fun reported lines shown => ⟨.constants ?_, shown.2⟩
  · have inside : pair.1 ∈ values := (List.of_mem_zip (List.mem_filter.mp member).1).1
    have broken := unbroken_enumerator unbroken inside
    exact enumeratorLine_accounts broken (oneLine_freeItem (broken _ List.mem_cons_self))
      (isItem_freeItem pair.1) pair.2.2
  · rw [← fst_filter_zip whole, List.forall₂_map_left_iff]
    exact shown.1

theorem exists_unindented {values : List Enumerator} {lines : List String}
    (each : List.Forall₂ (fun e line => ∃ shown, EnumeratorShown ownItem e shown ∧
      line = indent shown) values lines) :
    ∃ inner : List String, lines = inner.map indent ∧
      List.Forall₂ (EnumeratorShown ownItem) values inner := by
  induction each with
  | nil => exact ⟨[], rfl, .nil⟩
  | cons first others ih =>
    obtain ⟨line, shown, rfl⟩ := first
    obtain ⟨inner, rfl, rest⟩ := ih
    exact ⟨line :: inner, rfl, .cons shown rest⟩

theorem enumItem_balanced (named : OneLine name) {reported : List Diagnostic} {lines : List String}
    (balanced : Balanced 0 reported lines) : Balanced 0 reported (enumItem name lines) := by
  have block : Balanced 0 reported
      (if lines.isEmpty then [] else ["impl " ++ name ++ " \x7b"] ++ lines ++ ["\x7d"]) := by
    split
    · next empty =>
      rw [List.isEmpty_iff.mp empty] at balanced
      exact balanced
    · refine .framed (.plain ?_ ?_) balanced (.plain (by decide) (by decide))
      · exact .between (by decide) named (by decide)
      · exact isStub_of_head (c := 'i') (head_append (head_append rfl _) _) (by decide)
  refine .cons (by decide) (by decide) (.cons (by decide) (by decide) (.cons ?_ ?_ block))
  · exact .between (by decide) named (by decide)
  · exact isStub_of_isItem (isItem_append (isItem_append (by decide) _) _)

theorem enumLines_accounts (plain : context.mapper.IsPlain symbols) {symbol : Symbol}
    (listed : symbol ∈ symbols) {tag : String} {values : List Enumerator} {isTypedef : Bool}
    (item : symbol.item = .enum (some tag) values isTypedef) (unbroken : Unbroken symbol.item.texts)
    (emits : String → Bool) :
    Accounts symbols (enumLines context module symbol) fun reported lines =>
      Shown emits symbol.item lines ∧ Balanced 0 reported lines := by
  have named := oneLine_itemName unbroken
  rw [item] at unbroken
  refine Accounts.ask (.constants (ConstantScope.evaluateEnum_length plain.listed listed))
    fun results length => ?_
  rw [item] at length named ⊢
  have whole : results.length = values.length := length
  refine (Accounts.mapM_lines (fun pair line => ∃ shown,
    EnumeratorShown ownItem pair.1 shown ∧ line = indent shown) fun pair member => ?_).bind
      fun reported lines shown => .pure ?_
  · have broken := unbroken_enumerator unbroken (List.of_mem_zip member).1
    refine (enumeratorLine_accounts broken (oneLine_ownItem (broken _ List.mem_cons_self))
      (isItem_ownItem pair.1) pair.2.2).bind fun reported line shown => .pure ?_
    refine ⟨⟨line, shown.1, rfl⟩, ?_, ?_⟩
    · exact unbroken_cons.mpr ⟨oneLine_indent (unbroken_cons.mp shown.2.unbroken).1, unbroken_nil⟩
    · have stubs := shown.2.stubs
      simp only [List.countP_cons, List.countP_nil] at stubs
      simpa using stubs
  · have each : List.Forall₂ (fun e line => ∃ shown, EnumeratorShown ownItem e shown ∧
        line = indent shown) values lines := by
      rw [← List.map_fst_zip (Nat.le_of_eq whole.symm), List.forall₂_map_left_iff]
      exact shown.1
    obtain ⟨inner, rfl, unindented⟩ := exists_unindented each
    rw [List.append_nil]
    exact ⟨.enum unindented, enumItem_balanced named shown.2⟩

theorem functionPiece_accounts (plain : context.mapper.IsPlain symbols) {name : String}
    {result : CType} {parameters : List Parameter} {variadic : Bool} {convention : Option String}
    (unbroken : Unbroken (Item.function name result parameters variadic convention).texts)
    (emits : String → Bool) :
    Accounts symbols (functionPiece context module name result parameters variadic convention)
      fun reported piece =>
        (Shown emits (.function name result parameters variadic convention) piece.own ∧
          piece.IsPlain) ∧ Balanced 0 reported piece.own := by
  simp only [Item.texts, List.cons_append, unbroken_cons, unbroken_append] at unbroken
  obtain ⟨named, returned, listed⟩ := unbroken
  have each : ∀ parameter ∈ parameters, Unbroken (parameter.1.toList ++ parameter.2.texts) :=
    fun parameter member text inside =>
      listed text (List.mem_flatMap.mpr ⟨parameter, member, inside⟩)
  refine Accounts.ask (TypeMapper.mapParameterList_isPlain plain module.name each variadic)
    fun list fine => ?_
  refine Accounts.ask (TypeMapper.mapResult_isPlain plain module.name returned)
    fun result fine' => ?_
  simp only
  split
  · refine .pure ⟨⟨?_, oneLine_abi convention⟩, .item (oneLine_indent ?_) ?_⟩
    · simp only [Piece.own, String.append_assoc]
      rw [← String.append_assoc]
      exact .function _
    · have arrow : OneLine (if result.text.isEmpty then "" else " -> " ++ result.text) := by
        split
        · decide
        · exact oneLine_append.mpr ⟨by decide, fine'.text⟩
      simp only [oneLine_append, oneLine_identifier named, fine.text, arrow, and_true]
      decide
    · rw [isItem_indent]
      simp only [String.append_assoc]
      exact isItem_append (by decide) _
  · refine .reported ⟨⟨.noFunction _, trivial⟩,
      .stub (oneLine_stub ?_ ?_) (isStub_stub _ _) (losses_type _ _ _)⟩
    · exact oneLine_append.mpr ⟨by decide, named⟩
    · exact unbroken_append.mpr ⟨fine.problems, fine'.problems⟩

theorem typedLines_accounts (plain : context.mapper.IsPlain symbols) {type : CType}
    {lines : String → List String} (whatPlain : OneLine what) (named : OneLine name)
    (unbroken : Unbroken type.texts)
    (balanced : ∀ text, OneLine text → Balanced 0 [] (lines text)) :
    Accounts symbols (typedLines context module what name type lines) fun reported shown =>
      ((∃ text, shown = lines text) ∨ ∃ problems, shown = [stub (what ++ " " ++ name) problems]) ∧
        Balanced 0 reported shown := by
  refine Accounts.ask (TypeMapper.map_isPlain plain module.name type unbroken) fun mapped fine => ?_
  split
  · exact .pure ⟨.inl ⟨mapped.text, rfl⟩, balanced mapped.text fine.text⟩
  · refine .reported ⟨.inr ⟨mapped.problems, rfl⟩,
      .stub (oneLine_stub ?_ fine.problems) (isStub_stub _ _) (losses_type _ _ _)⟩
    exact oneLine_append.mpr ⟨oneLine_append.mpr ⟨whatPlain, by decide⟩, named⟩

theorem typedefLines_accounts (plain : context.mapper.IsPlain symbols) {type : CType}
    (unbroken : Unbroken (name :: type.texts)) (emits : String → Bool) :
    Accounts symbols (typedLines context module "type" name type fun text =>
        ["pub type " ++ identifier name ++ " = " ++ text ++ ";"]) fun reported lines =>
      Shown emits (.typedef name type) lines ∧ Balanced 0 reported lines := by
  obtain ⟨named, typed⟩ := unbroken_cons.mp unbroken
  refine (typedLines_accounts plain (by decide) named typed fun text oneLine =>
    .item ?_ ?_).mono fun reported lines shown => ⟨?_, shown.2⟩
  · simp only [oneLine_append, oneLine_identifier named, oneLine, and_true]
    decide
  · simp only [String.append_assoc]
    exact isItem_append (by decide) _
  · rcases shown.1 with ⟨text, rfl⟩ | ⟨problems, rfl⟩
    · exact .typedef name type text
    · exact .noTypedef name type problems

theorem objectLines_accounts (plain : context.mapper.IsPlain symbols) {type : CType}
    (unbroken : Unbroken (name :: type.texts)) (emits : String → Bool) :
    Accounts symbols (typedLines context module "static" name type fun text =>
        ["extern \"C\" \x7b",
          indent ("pub static mut " ++ identifier name ++ ": " ++ text ++ ";"), "\x7d"])
      fun reported lines => Shown emits (.object name type) lines ∧ Balanced 0 reported lines := by
  obtain ⟨named, typed⟩ := unbroken_cons.mp unbroken
  have balanced (text : String) (oneLine : OneLine text) : Balanced 0 []
      [indent ("pub static mut " ++ identifier name ++ ": " ++ text ++ ";")] := by
    refine .item (oneLine_indent ?_) ?_
    · simp only [oneLine_append, oneLine_identifier named, oneLine, and_true]
      decide
    · rw [isItem_indent]
      simp only [String.append_assoc]
      exact isItem_append (by decide) _
  have opening : Balanced 0 [] ["extern \"C\" \x7b"] := .plain (by decide) (by decide)
  have closing : Balanced 0 [] ["\x7d"] := .plain (by decide) (by decide)
  refine (typedLines_accounts plain (by decide) named typed fun text oneLine =>
    opening.framed (balanced text oneLine) closing).mono fun reported lines shown => ⟨?_, shown.2⟩
  rcases shown.1 with ⟨text, rfl⟩ | ⟨problems, rfl⟩
  · exact .object name type text
  · exact .noObject name type problems

theorem oneLine_literal {value : ConstantValue} {literal : String} (fine : Plain (some value))
    (written : literal? value = some literal) : OneLine literal := by
  unfold literal? at written
  split at written
  · cases written
    simp only [oneLine_append, fine _ rfl]
    decide
  · cases written
    exact oneLine_render _
  · cases written
  · split at written
    · cases written
      exact oneLine_append.mpr ⟨by decide, oneLine_upperHex _⟩
    · cases written
      exact oneLine_intRepr _

theorem oneLine_rustType (value : ConstantValue) : OneLine value.rustType := by
  cases value with
  | integer value => exact oneLine_name _
  | float x => exact (by decide : OneLine "f64")
  | text body => exact (by decide : OneLine "&str")

theorem constantLines_accounts (plain : context.mapper.IsPlain symbols) {tokens : List String}
    (unbroken : Unbroken (name :: tokens)) (emits : String → Bool) :
    Accounts symbols (constantLines context module name tokens) fun reported lines =>
      Shown emits (.constant name tokens) lines ∧ Balanced 0 reported lines := by
  obtain ⟨named, spelled⟩ := unbroken_cons.mp unbroken
  have stub : Accounts symbols (do
      reportConstant module name (" ".intercalate tokens)
      return ["// unsupported: #define " ++ name ++ " " ++ " ".intercalate tokens])
      fun reported lines => Shown emits (.constant name tokens) lines ∧
        Balanced 0 reported lines := by
    have spelling : OneLine (" ".intercalate tokens) := .intercalate (by decide) spelled
    refine .reported ⟨.noConstant name tokens, .stub ?_ ?_ (losses_constant _ _ _)⟩
    · exact oneLine_append.mpr ⟨oneLine_append.mpr ⟨oneLine_append.mpr ⟨by decide, named⟩,
        by decide⟩, spelling⟩
    · exact isStub_append (isStub_append (isStub_append (by decide) _) _) _
  refine Accounts.ask (.constants (ConstantScope.evaluateConstant_plain plain.listed name))
    fun value fine => ?_
  cases value with
  | none => exact stub
  | some value =>
    rcases Option.eq_none_or_eq_some (literal? value) with unwritten | ⟨literal, written⟩
    · simp only [Option.bind_some, unwritten]
      exact stub
    · simp only [Option.bind_some, written]
      refine .pure ⟨.constant name tokens value.rustType literal, .item ?_ ?_⟩
      · have typed := oneLine_rustType value
        have spelled := oneLine_literal fine written
        simp only [oneLine_append, oneLine_identifier named, typed, spelled, and_true]
        decide
      · simp only [String.append_assoc]
        exact isItem_append (by decide) _

/-! ### Declarations -/

def isUnion (symbol : Symbol) : Bool := symbol.item.kind = "union"

theorem union_balanced {tag : Option String} (unbroken : Unbroken tag.toList) :
    Balanced 1 [] ["// unsupported: union " ++ tag.getD "None" ++ " is not translated"] where
  unbroken := by
    have named : OneLine (tag.getD "None") := by
      cases tag with
      | none => decide
      | some name => exact unbroken name List.mem_cons_self
    refine unbroken_cons.mpr ⟨?_, unbroken_nil⟩
    exact .between (by decide) named (by decide)
  stubs := by
    have stub : isStub ("// unsupported: union " ++ tag.getD "None") = true :=
      isStub_append (by decide) _
    rw [List.countP_singleton, isStub_append stub]
    rfl

theorem piece_accounts (plain : context.mapper.IsPlain symbols) {symbol : Symbol}
    (listed : symbol ∈ symbols) (unbroken : Unbroken symbol.item.texts) :
    Accounts symbols (piece context module symbol) fun reported piece =>
      (Shown (context.table.emitsEnumerator symbol) symbol.item piece.own ∧ piece.IsPlain) ∧
        Balanced (if isUnion symbol then 1 else 0) reported piece.own := by
  have lined {lines : Emission (List String)}
      (accounts : Accounts symbols lines fun reported lines =>
        Shown (context.table.emitsEnumerator symbol) symbol.item lines ∧
          Balanced 0 reported lines) :
      Accounts symbols (Piece.lines <$> lines) fun reported piece =>
        (Shown (context.table.emitsEnumerator symbol) symbol.item piece.own ∧ piece.IsPlain) ∧
          Balanced 0 reported piece.own :=
    accounts.map _ fun reported lines shown => ⟨⟨shown.1, trivial⟩, shown.2⟩
  have freed := @freeLines_accounts symbols context module plain symbol listed
  have owned := @enumLines_accounts symbols context module plain symbol listed
  obtain ⟨serial, ⟨item, location⟩⟩ := symbol
  change Unbroken item.texts at unbroken
  cases item with
  | struct tag fields isTypedef => exact lined (structLines_accounts plain unbroken)
  | union tag fields =>
    exact .pure ⟨⟨.union tag fields, trivial⟩, union_balanced unbroken⟩
  | enum tag values isTypedef =>
    cases tag with
    | none => exact lined (freed rfl unbroken)
    | some tag => exact lined (owned rfl unbroken _)
  | function name result parameters variadic convention =>
    exact functionPiece_accounts plain unbroken _
  | typedef name type => exact lined (typedefLines_accounts plain unbroken _)
  | object name type => exact lined (objectLines_accounts plain unbroken _)
  | constant name tokens => exact lined (constantLines_accounts plain unbroken _)

end Rust

end CBindings
