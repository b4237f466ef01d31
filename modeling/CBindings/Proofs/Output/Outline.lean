import CBindings.Proofs.Output.Declared
import CBindings.Proofs.Text.Line

/-! The outline of a Rust module: which lines are items and which are stubs, what lines each
declaration has, and that assembling pieces keeps these lines and adds neither items nor stubs. -/

namespace CBindings.Rust

/-! ### Kinds of lines -/

def unindented (line : String) : List Char := line.toList.dropWhile (· = ' ')

def opensWith (mark line : String) : Bool := mark.toList.isPrefixOf (unindented line)

def isItem (line : String) : Bool := opensWith "pub " line

def isStub (line : String) : Bool := opensWith "// unsupported:" line

def isEntry (line : String) : Bool := isItem line || isStub line

section

variable {mark front line : String} {c : Char}

theorem unindented_append (filled : unindented front ≠ []) (rest : String) :
    unindented (front ++ rest) = unindented front ++ rest.toList := by
  rw [unindented, String.toList_append, List.dropWhile_append, if_neg]
  · rfl
  · rw [List.isEmpty_iff]
    exact filled

theorem unindented_indent (line : String) : unindented (indent line) = unindented line := by
  have blanks : "    ".toList = [' ', ' ', ' ', ' '] := rfl
  rw [unindented, indent, String.toList_append, blanks]
  rfl

@[simp] theorem isItem_indent (line : String) : isItem (indent line) = isItem line := by
  simp only [isItem, opensWith, unindented_indent]

@[simp] theorem isStub_indent (line : String) : isStub (indent line) = isStub line := by
  simp only [isStub, opensWith, unindented_indent]

theorem opensWith_append (some : mark.toList ≠ []) (starts : opensWith mark front = true)
    (rest : String) : opensWith mark (front ++ rest) = true := by
  rw [opensWith, List.isPrefixOf_iff_prefix] at starts ⊢
  have filled : unindented front ≠ [] := fun empty => some (List.prefix_nil.mp (empty ▸ starts))
  rw [unindented_append filled]
  exact starts.trans (List.prefix_append _ _)

theorem isItem_append (starts : isItem front = true) (rest : String) :
    isItem (front ++ rest) = true := opensWith_append (by decide) starts rest

theorem isStub_append (starts : isStub front = true) (rest : String) :
    isStub (front ++ rest) = true := opensWith_append (by decide) starts rest

theorem head_append (head : (unindented front).head? = some c) (rest : String) :
    (unindented (front ++ rest)).head? = some c := by
  have filled : unindented front ≠ [] := by
    intro empty
    rw [empty] at head
    cases head
  rw [unindented_append filled, List.head?_append, head]
  rfl

/-- A line that starts with another character does not open with the mark. -/
theorem opensWith_of_head (head : (unindented line).head? = some c)
    (other : mark.toList.head? ≠ some c) (some : mark.toList ≠ []) :
    opensWith mark line = false := by
  rw [opensWith]
  cases marked : mark.toList with
  | nil => exact absurd marked some
  | cons first rest =>
    cases opened : unindented line with
    | nil => rfl
    | cons second others =>
      rw [opened] at head
      rw [marked] at other
      have different : (first == second) = false := by
        rw [beq_eq_false_iff_ne]
        rintro rfl
        exact other head
      rw [List.isPrefixOf, different, Bool.false_and]

theorem isStub_of_isItem (item : isItem line = true) : isStub line = false := by
  rw [isItem, opensWith, List.isPrefixOf_iff_prefix] at item
  obtain ⟨rest, whole⟩ := item
  have head : (unindented line).head? = some 'p' := by
    rw [← whole]
    rfl
  exact opensWith_of_head head (by decide) (by decide)

theorem isStub_of_head (head : (unindented line).head? = some c) (noStub : c ≠ '/') :
    isStub line = false :=
  opensWith_of_head head (fun same => noStub (Option.some.inj same).symm) (by decide)

theorem isEntry_of_head (head : (unindented line).head? = some c) (noItem : c ≠ 'p')
    (noStub : c ≠ '/') : isEntry line = false := by
  have item : isItem line = false :=
    opensWith_of_head head (fun same => noItem (Option.some.inj same).symm) (by decide)
  rw [isEntry, item, isStub_of_head head noStub]
  rfl

theorem isEntry_of_isItem (item : isItem line = true) : isEntry line = true := by
  rw [isEntry, item, Bool.true_or]

theorem isEntry_of_isStub (stub : isStub line = true) : isEntry line = true := by
  rw [isEntry, stub, Bool.or_true]

theorem countP_isStub (lines : List String) :
    lines.countP isStub = (lines.filter isEntry).countP isStub := by
  rw [List.countP_filter]
  refine List.countP_congr fun line _ => ?_
  rw [Bool.and_eq_true]
  exact ⟨fun stub => ⟨stub, isEntry_of_isStub stub⟩, And.left⟩

theorem isStub_stub (what : String) (problems : List String) : isStub (stub what problems) = true :=
  isStub_append (isStub_append (isStub_append (by decide) _) _) _

end

/-! ### Lines of declarations -/

inductive FieldShown (f : Field) : String → Prop
  | item (type : String) :
    FieldShown f (indent ("pub " ++ identifier f.name ++ ": " ++ type ++ ","))
  | stub (problems : List String) : FieldShown f (indent (stub ("field " ++ f.name) problems))

inductive EnumeratorShown (item : Enumerator → Int → String) (e : Enumerator) : String → Prop
  | item (n : Int) : EnumeratorShown item e (item e n)
  | stub : EnumeratorShown item e
      (stub ("enumerator " ++ e.name) ["cannot evaluate " ++ e.value.render])

def freeItem (e : Enumerator) (n : Int) : String :=
  "pub const " ++ identifier e.name ++ ": i32 = " ++ toString n ++ ";"

def ownItem (e : Enumerator) (n : Int) : String :=
  "pub const " ++ identifier e.name ++ ": Self = Self(" ++ toString n ++ ");"

def itemName (item : Item) : String := declaredName (item.qualifiedName.getD "")

/-- The lines of a declaration. A struct has one for each field and an enum one for each enumerator
that is emitted. -/
inductive Shown (emits : String → Bool) : Item → List String → Prop
  | wrapper (tag : Option String) (isTypedef : Bool) :
    Shown emits (.struct tag none isTypedef)
      ["#[repr(transparent)]",
        "pub struct " ++ itemName (.struct tag none isTypedef) ++ "(::core::ffi::c_void);"]
  | struct {tag : Option String} {fields : List Field} {isTypedef : Bool} {inner : List String}
      (each : List.Forall₂ FieldShown fields inner) :
    Shown emits (.struct tag (some fields) isTypedef)
      (["#[repr(C)]", "#[derive(Copy, Clone)]",
        "pub struct " ++ itemName (.struct tag (some fields) isTypedef) ++ " \x7b"] ++ inner ++
        ["\x7d"])
  | union (tag : Option String) (fields : Option (List Field)) :
    Shown emits (.union tag fields)
      ["// unsupported: union " ++ tag.getD "None" ++ " is not translated"]
  | constants {values : List Enumerator} {isTypedef : Bool} {lines : List String}
      (each : List.Forall₂ (EnumeratorShown freeItem) (values.filter (emits ·.name)) lines) :
    Shown emits (.enum none values isTypedef) lines
  | enum {tag : String} {values : List Enumerator} {isTypedef : Bool} {inner : List String}
      (each : List.Forall₂ (EnumeratorShown ownItem) values inner) :
    Shown emits (.enum (some tag) values isTypedef)
      (enumItem (itemName (.enum (some tag) values isTypedef)) (inner.map indent))
  | function {name : String} {result : CType} {parameters : List Parameter} {variadic : Bool}
      {convention : Option String} (signature : String) :
    Shown emits (.function name result parameters variadic convention)
      [indent ("pub fn " ++ identifier name ++ signature)]
  | noFunction {name : String} {result : CType} {parameters : List Parameter} {variadic : Bool}
      {convention : Option String} (problems : List String) :
    Shown emits (.function name result parameters variadic convention)
      [stub ("fn " ++ name) problems]
  | typedef (name : String) (type : CType) (text : String) :
    Shown emits (.typedef name type) ["pub type " ++ identifier name ++ " = " ++ text ++ ";"]
  | noTypedef (name : String) (type : CType) (problems : List String) :
    Shown emits (.typedef name type) [stub ("type" ++ " " ++ name) problems]
  | object (name : String) (type : CType) (text : String) :
    Shown emits (.object name type)
      ["extern \"C\" \x7b", indent ("pub static mut " ++ identifier name ++ ": " ++ text ++ ";"),
        "\x7d"]
  | noObject (name : String) (type : CType) (problems : List String) :
    Shown emits (.object name type) [stub ("static" ++ " " ++ name) problems]
  | constant (name : String) (tokens : List String) (type literal : String) :
    Shown emits (.constant name tokens)
      ["pub const " ++ identifier name ++ ": " ++ type ++ " = " ++ literal ++ ";"]
  | noConstant (name : String) (tokens : List String) :
    Shown emits (.constant name tokens)
      ["// unsupported: #define " ++ name ++ " " ++ " ".intercalate tokens]

section

variable {emits : String → Bool} {item : Item} {lines : List String}

theorem isItem_freeItem (e : Enumerator) (n : Int) : isItem (freeItem e n) = true := by
  unfold freeItem
  simp only [String.append_assoc]
  exact isItem_append (by decide) _

theorem isItem_ownItem (e : Enumerator) (n : Int) : isItem (ownItem e n) = true := by
  unfold ownItem
  simp only [String.append_assoc]
  exact isItem_append (by decide) _

theorem EnumeratorShown.isEntry {constant : Enumerator → Int → String} {e : Enumerator}
    {line : String} (items : ∀ n, isItem (constant e n) = true)
    (shown : EnumeratorShown constant e line) : isEntry line = true := by
  cases shown with
  | item n => exact isEntry_of_isItem (items n)
  | stub => exact isEntry_of_isStub (isStub_stub _ _)

/-- A declaration has an item or a stub, unless it is an enum without a name that emits nothing. -/
theorem Shown.exists_line (shown : Shown emits item lines)
    (emitted : ∀ values isTypedef, item = .enum none values isTypedef →
      ∃ e ∈ values, emits e.name = true) :
    ∃ line ∈ lines, isEntry line = true := by
  cases shown with
  | wrapper tag isTypedef =>
    refine ⟨_, List.mem_cons_of_mem _ List.mem_cons_self, isEntry_of_isItem ?_⟩
    exact isItem_append (isItem_append (by decide) _) _
  | @struct tag fields isTypedef inner each =>
    refine ⟨"pub struct " ++ itemName (.struct tag (some fields) isTypedef) ++ " \x7b", ?_,
      isEntry_of_isItem ?_⟩
    · simp
    · exact isItem_append (isItem_append (by decide) _) _
  | union tag fields =>
    refine ⟨_, List.mem_cons_self, isEntry_of_isStub ?_⟩
    exact isStub_append (isStub_append (by decide) _) _
  | @constants values isTypedef lines each =>
    obtain ⟨e, member, wins⟩ := emitted values isTypedef rfl
    have filled : values.filter (emits ·.name) ≠ [] :=
      List.ne_nil_of_mem (List.mem_filter.mpr ⟨member, wins⟩)
    generalize values.filter (emits ·.name) = kept at each filled
    cases each with
    | nil => exact absurd rfl filled
    | cons shown others =>
      exact ⟨_, List.mem_cons_self, shown.isEntry (isItem_freeItem _)⟩
  | @enum tag values isTypedef inner each =>
    refine ⟨"pub struct " ++ itemName (.enum (some tag) values isTypedef) ++ "(pub i32);", ?_,
      isEntry_of_isItem ?_⟩
    · simp [enumItem]
    · exact isItem_append (isItem_append (by decide) _) _
  | function signature =>
    refine ⟨_, List.mem_cons_self, isEntry_of_isItem ?_⟩
    rw [isItem_indent]
    exact isItem_append (isItem_append (by decide) _) _
  | noFunction problems => exact ⟨_, List.mem_cons_self, isEntry_of_isStub (isStub_stub _ _)⟩
  | typedef name type text =>
    refine ⟨_, List.mem_cons_self, isEntry_of_isItem ?_⟩
    exact isItem_append (isItem_append (isItem_append (isItem_append (by decide) _) _) _) _
  | noTypedef name type problems =>
    exact ⟨_, List.mem_cons_self, isEntry_of_isStub (isStub_stub _ _)⟩
  | object name type text =>
    refine ⟨_, List.mem_cons_of_mem _ List.mem_cons_self, isEntry_of_isItem ?_⟩
    rw [isItem_indent]
    exact isItem_append (isItem_append (isItem_append (isItem_append (by decide) _) _) _) _
  | noObject name type problems =>
    exact ⟨_, List.mem_cons_self, isEntry_of_isStub (isStub_stub _ _)⟩
  | constant name tokens type literal =>
    refine ⟨_, List.mem_cons_self, isEntry_of_isItem ?_⟩
    simp only [String.append_assoc]
    exact isItem_append (by decide) _
  | noConstant name tokens =>
    refine ⟨_, List.mem_cons_self, isEntry_of_isStub ?_⟩
    exact isStub_append (isStub_append (isStub_append (by decide) _) _) _

end

/-! ### Assembling pieces -/

def Piece.own : Piece → List String
  | .function _ line => [indent line]
  | .lines texts => texts

def Piece.IsPlain : Piece → Prop
  | .function abi _ => OneLine abi
  | .lines _ => True

section

variable {abi : String} {pieces : List Piece}

/-- Functions of one ABI at the start are seen before the pieces after them. -/
theorem flatMap_leading {α : Type} (view : Piece → List α) (abi : String) (pieces : List Piece) :
    pieces.flatMap view =
      ((leading abi pieces).flatMap fun line => view (.function abi line)) ++
        (afterLeading abi pieces).flatMap view := by
  induction pieces with
  | nil => rfl
  | cons piece rest ih =>
    cases piece with
    | lines lines => rfl
    | function other line =>
      by_cases same : other = abi
      · simp only [leading, afterLeading, same, if_true, List.flatMap_cons, ih, List.append_assoc]
      · simp only [leading, afterLeading, same, if_false]
        rfl

theorem own_function (abi line : String) (rest : List Piece) :
    (Piece.function abi line :: rest).flatMap Piece.own =
      (line :: leading abi rest).map indent ++ (afterLeading abi rest).flatMap Piece.own := by
  rw [List.flatMap_cons, flatMap_leading Piece.own abi rest, List.map_eq_flatMap]
  rfl

theorem own_sublist_assemble (pieces : List Piece) :
    (pieces.flatMap Piece.own).Sublist (assemble pieces) := by
  fun_induction assemble pieces with
  | case1 => exact .slnil
  | case2 rest ih => exact ih
  | case3 lines rest some ih => exact ((List.sublist_cons_self _ lines).append ih)
  | case4 abi line rest ih =>
    rw [own_function]
    refine List.Sublist.append ?_ ih
    exact (List.sublist_append_right _ _).trans (List.sublist_append_left _ _)

theorem filter_assemble (pieces : List Piece) :
    (assemble pieces).filter isEntry = (pieces.flatMap Piece.own).filter isEntry := by
  have empty : isEntry "" = false := by decide
  have closing : isEntry "\x7d" = false := by decide
  fun_induction assemble pieces with
  | case1 => rfl
  | case2 rest ih => exact ih
  | case3 lines rest some ih =>
    rw [List.filter_append, List.flatMap_cons, List.filter_append, ih, List.filter_cons_of_neg]
    · rfl
    · simp [empty]
  | case4 abi line rest ih =>
    have opening : isEntry ("extern \"" ++ abi ++ "\" \x7b") = false :=
      isEntry_of_head (c := 'e') (head_append (head_append rfl _) _) (by decide) (by decide)
    have framed (inner : List String) :
        (["", "extern \"" ++ abi ++ "\" \x7b"] ++ inner ++ ["\x7d"]).filter isEntry =
          inner.filter isEntry := by
      simp only [List.filter_append, List.filter_cons, empty, opening, closing, List.filter_nil,
        Bool.false_eq_true, if_false, List.nil_append, List.append_nil]
    rw [own_function, List.filter_append, List.filter_append, ih, block, framed]

theorem forall_afterLeading {holds : Piece → Prop} (all : ∀ piece ∈ pieces, holds piece) :
    ∀ piece ∈ afterLeading abi pieces, holds piece := by
  fun_induction afterLeading abi pieces with
  | case1 line rest ih => exact ih fun piece member => all piece (List.mem_cons_of_mem _ member)
  | case2 => exact all
  | case3 => exact all

theorem unbroken_assemble (plain : ∀ piece ∈ pieces, piece.IsPlain)
    (unbroken : Unbroken (pieces.flatMap Piece.own)) : Unbroken (assemble pieces) := by
  fun_induction assemble pieces with
  | case1 => exact unbroken_nil
  | case2 rest ih => exact ih (List.forall_mem_cons.mp plain).2 unbroken
  | case3 lines rest some ih =>
    rw [List.flatMap_cons, unbroken_append] at unbroken
    simp only [List.cons_append, unbroken_cons, unbroken_append]
    exact ⟨by decide, unbroken.1, ih (List.forall_mem_cons.mp plain).2 unbroken.2⟩
  | case4 abi line rest ih =>
    rw [own_function, unbroken_append] at unbroken
    obtain ⟨here, later⟩ := List.forall_mem_cons.mp plain
    have opening : OneLine ("extern \"" ++ abi ++ "\" \x7b") := by
      simp only [oneLine_append]
      exact ⟨⟨by decide, here⟩, by decide⟩
    have rest := ih (forall_afterLeading later) unbroken.2
    simp only [block, unbroken_append, unbroken_cons, unbroken_nil, and_true]
    exact ⟨⟨⟨⟨by decide, opening⟩, unbroken.1⟩, by decide⟩, rest⟩

end

end CBindings.Rust
