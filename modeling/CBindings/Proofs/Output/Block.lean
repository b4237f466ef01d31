import CBindings.Proofs.Output.Contribution
import CBindings.Proofs.Output.FunctionLine

/-! The functions of a Rust module are read back from its lines: each one that has a Rust form is
there once, in order, in a block of its own ABI, and every block is closed. -/

namespace CBindings

variable {α β : Type}

/-! ### Results from any state -/

def Gives (x : Emission α) (fine : α → Prop) : Prop := ∀ state, fine (x state).1

namespace Gives

variable {fine : α → Prop} {fine' : β → Prop} {x : Emission α} {f : α → Emission β}

theorem pure {a : α} (holds : fine a) : Gives (Pure.pure a) fine := fun _ => holds

theorem bind (first : Gives x fine) (second : ∀ a, fine a → Gives (f a) fine') :
    Gives (x >>= f) fine' := fun state => second _ (first state) (x state).2

theorem map (gives : Gives x fine) {f : α → β} (implies : ∀ a, fine a → fine' (f a)) :
    Gives (f <$> x) fine' := gives.bind fun a holds => .pure (implies a holds)

theorem after (second : ∀ a, Gives (f a) fine') : Gives (x >>= f) fine' :=
  fun state => second _ (x state).2

theorem mapM {as : List α} (each : ∀ a ∈ as, Gives (f a) fine') :
    Gives (as.mapM f) fun bs => ∀ b ∈ bs, fine' b := by
  induction as with
  | nil =>
    rw [List.mapM_nil]
    exact .pure (by simp)
  | cons a rest ih =>
    rw [List.forall_mem_cons] at each
    rw [List.mapM_cons]
    refine each.1.bind fun b first => (ih each.2).bind fun bs later => .pure ?_
    exact List.forall_mem_cons.mpr ⟨first, later⟩

end Gives

namespace Rust

variable {context : EmissionContext} {module : OutputModule} {abi line front mark : String}
  {inside : Option String} {lines : List String} {functions : List (String × String)}
  {pieces : List Piece}

/-! ### Reading functions -/

def declaresFunction (line : String) : Bool :=
  opensWith "pub fn " line && line.toList.getLast? ≠ some ','

def openedAbi? (line : String) : Option String :=
  if opensWith "extern \"" line then
    some (String.ofList (((unindented line).drop 8).takeWhile (· ≠ '"')))
  else none

/-- The functions of some lines, each with the ABI of the block around it; `inside` is the ABI of a
block that is open before. There is no result if a function stands outside a block, if something
else than a function or a variable stands inside one, or if one is not closed. -/
def functionsIn : (inside : Option String) → List String → Option (List (String × String))
  | none, [] => some []
  | some _, [] => none
  | none, line :: rest =>
    if declaresFunction line then none else functionsIn (openedAbi? line) rest
  | some abi, line :: rest =>
    if declaresFunction line then (functionsIn (some abi) rest).map ((abi, line) :: ·)
    else if line = "\x7d" then functionsIn none rest
    else if opensWith "pub static mut " line then functionsIn (some abi) rest
    else none

theorem filter_declaresFunction (read : functionsIn inside lines = some functions) :
    lines.filter declaresFunction = functions.map Prod.snd := by
  fun_induction functionsIn inside lines generalizing functions with
  | case1 => cases read; rfl
  | case2 => cases read
  | case3 => cases read
  | case4 line rest other ih => rw [List.filter_cons_of_neg other, ih read]
  | case5 abi line rest declares ih =>
    obtain ⟨later, known, rfl⟩ := Option.map_eq_some_iff.mp read
    rw [List.filter_cons_of_pos declares, ih known, List.map_cons]
  | case6 abi rest other ih => rw [List.filter_cons_of_neg other, ih read]
  | case7 abi line rest other _ _ ih => rw [List.filter_cons_of_neg other, ih read]
  | case8 => cases read

theorem functionsIn_append (read : functionsIn inside lines = some functions)
    (others : List String) :
    functionsIn inside (lines ++ others) = (functionsIn none others).map (functions ++ ·) := by
  fun_induction functionsIn inside lines generalizing functions with
  | case1 =>
    cases read
    simp
  | case2 => cases read
  | case3 => cases read
  | case4 line rest other ih =>
    rw [List.cons_append, functionsIn, if_neg other, ih read]
  | case5 abi line rest declares ih =>
    obtain ⟨later, known, rfl⟩ := Option.map_eq_some_iff.mp read
    rw [List.cons_append, functionsIn, if_pos declares, ih known, Option.map_map]
    rfl
  | case6 abi rest other ih =>
    rw [List.cons_append, functionsIn, if_neg other, if_pos rfl, ih read]
  | case7 abi line rest other noEnd object ih =>
    rw [List.cons_append, functionsIn, if_neg other, if_neg noEnd, if_pos object, ih read]
  | case8 => cases read

structure Quiet (line : String) : Prop where
  noFunction : declaresFunction line = false
  noBlock : openedAbi? line = none

theorem functionsIn_quiet (quiet : ∀ line ∈ lines, Quiet line) :
    functionsIn none lines = some [] := by
  induction lines with
  | nil => rfl
  | cons line rest ih =>
    obtain ⟨here, later⟩ := List.forall_mem_cons.mp quiet
    rw [functionsIn, here.noFunction, here.noBlock, if_neg Bool.false_ne_true, ih later]

theorem openedAbi?_opening (plain : '"' ∉ abi.toList) :
    openedAbi? ("extern \"" ++ abi ++ "\" \x7b") = some abi := by
  have whole : unindented ("extern \"" ++ abi ++ "\" \x7b") =
      "extern \"".toList ++ (abi.toList ++ "\" \x7b".toList) := by
    rw [String.append_assoc, unindented_append (by decide), String.toList_append]
    rfl
  have opens : opensWith "extern \"" ("extern \"" ++ abi ++ "\" \x7b") = true := by
    rw [opensWith, whole, List.isPrefixOf_iff_prefix]
    exact List.prefix_append _ _
  have unquoted : ∀ c ∈ abi.toList, decide (c ≠ '"') = true := by
    intro c member
    rw [decide_eq_true_eq]
    rintro rfl
    exact plain member
  have taken : (abi.toList ++ "\" \x7b".toList).takeWhile (· ≠ '"') = abi.toList := by
    rw [List.takeWhile_append_of_pos unquoted]
    simp
  have dropped : ("extern \"".toList ++ (abi.toList ++ "\" \x7b".toList)).drop 8 =
      abi.toList ++ "\" \x7b".toList := rfl
  rw [openedAbi?, if_pos opens, whole, dropped, taken, String.ofList_toList]

@[simp] theorem declaresFunction_indent (line : String) :
    declaresFunction (indent line) = declaresFunction line := by
  have last : (indent line).toList.getLast? = line.toList.getLast?.or (some ' ') := by
    rw [indent, String.toList_append, List.getLast?_append]
    rfl
  have ended : decide ((indent line).toList.getLast? ≠ some ',') =
      decide (line.toList.getLast? ≠ some ',') := by
    rw [last]
    cases line.toList.getLast? <;> simp
  rw [declaresFunction, declaresFunction, opensWith, opensWith, unindented_indent, ended]

@[simp] theorem openedAbi?_indent (line : String) : openedAbi? (indent line) = openedAbi? line := by
  rw [openedAbi?, openedAbi?, opensWith, opensWith, unindented_indent]

theorem functionsIn_block (plain : '"' ∉ abi.toList)
    (declare : ∀ line ∈ lines, declaresFunction line = true) :
    functionsIn none (block abi lines) = some (lines.map fun line => (abi, indent line)) := by
  have inner : functionsIn (some abi) (lines.map indent ++ ["\x7d"]) =
      some (lines.map fun line => (abi, indent line)) := by
    induction lines with
    | nil => rfl
    | cons line rest ih =>
      obtain ⟨here, later⟩ := List.forall_mem_cons.mp declare
      rw [List.map_cons, List.cons_append, functionsIn, declaresFunction_indent, if_pos here,
        ih later]
      rfl
  have opening : declaresFunction ("extern \"" ++ abi ++ "\" \x7b") = false := by
    have other : opensWith "pub fn " ("extern \"" ++ abi ++ "\" \x7b") = false :=
      opensWith_of_head (c := 'e') (head_append (head_append rfl _) _) (by decide) (by decide)
    rw [declaresFunction, other, Bool.false_and]
  calc functionsIn none (block abi lines)
      = functionsIn none
          (("extern \"" ++ abi ++ "\" \x7b") :: (lines.map indent ++ ["\x7d"])) := rfl
    _ = functionsIn (some abi) (lines.map indent ++ ["\x7d"]) := by
        rw [functionsIn, opening, if_neg Bool.false_ne_true, openedAbi?_opening plain]
    _ = some (lines.map fun line => (abi, indent line)) := inner

/-! ### Reading pieces -/

def Piece.declared : Piece → List (String × String)
  | .function abi line => [(abi, indent line)]
  | .lines _ => []

def Piece.IsReadable : Piece → Prop
  | .function abi line => '"' ∉ abi.toList ∧ declaresFunction line = true
  | .lines lines => functionsIn none lines = some []

theorem readable_leading (readable : ∀ piece ∈ pieces, piece.IsReadable) :
    ∀ line ∈ leading abi pieces, declaresFunction line = true := by
  fun_induction leading abi pieces with
  | case1 line rest ih =>
    obtain ⟨here, later⟩ := List.forall_mem_cons.mp readable
    exact List.forall_mem_cons.mpr ⟨here.2, ih later⟩
  | case2 => simp
  | case3 => simp

theorem functionsIn_assemble (readable : ∀ piece ∈ pieces, piece.IsReadable) :
    functionsIn none (assemble pieces) = some (pieces.flatMap Piece.declared) := by
  fun_induction assemble pieces with
  | case1 => rfl
  | case2 rest ih => exact ih (List.forall_mem_cons.mp readable).2
  | case3 lines rest some ih =>
    obtain ⟨here, later⟩ := List.forall_mem_cons.mp readable
    have read : functionsIn none ("" :: lines) = .some [] := here
    rw [functionsIn_append read, ih later]
    rfl
  | case4 abi line rest ih =>
    -- The block takes functions from the rest too, so what follows it are the pieces after those.
    obtain ⟨⟨plain, declares⟩, later⟩ := List.forall_mem_cons.mp readable
    have declare : ∀ line ∈ leading abi rest, declaresFunction line = true :=
      readable_leading later
    have read := functionsIn_block plain (List.forall_mem_cons.mpr ⟨declares, declare⟩)
    rw [functionsIn_append read, ih (forall_afterLeading later), List.flatMap_cons,
      flatMap_leading Piece.declared abi rest, List.map_eq_flatMap]
    rfl

/-! ### Lines without functions -/

theorem opensWith_of_apart (noStart : ¬unindented front <+: mark.toList)
    (noMark : ¬mark.toList <+: unindented front) (rest : String) :
    opensWith mark (front ++ rest) = false := by
  have filled : unindented front ≠ [] := by
    intro empty
    rw [empty] at noStart
    exact noStart List.nil_prefix
  rw [opensWith, unindented_append filled, Bool.eq_false_iff, ne_eq, List.isPrefixOf_iff_prefix]
  intro opens
  exact (List.prefix_or_prefix_of_prefix opens (List.prefix_append _ _)).elim noMark noStart

/-- A line is quiet if it differs from functions and blocks in its first letters. -/
theorem Quiet.starting (front : String)
    (apart : ∀ mark ∈ ["pub fn ", "extern \""],
      ¬unindented front <+: mark.toList ∧ ¬mark.toList <+: unindented front) (rest : String) :
    Quiet (front ++ rest) := by
  have other (mark : String) (member : mark ∈ ["pub fn ", "extern \""]) :
      opensWith mark (front ++ rest) = false :=
    opensWith_of_apart (apart mark member).1 (apart mark member).2 rest
  constructor
  · rw [declaresFunction, other _ List.mem_cons_self, Bool.false_and]
  · rw [openedAbi?, other _ (List.mem_cons_of_mem _ List.mem_cons_self),
      if_neg Bool.false_ne_true]

theorem Quiet.indent (quiet : Quiet line) : Quiet (Rust.indent line) where
  noFunction := by rw [declaresFunction_indent, quiet.noFunction]
  noBlock := by rw [openedAbi?_indent, quiet.noBlock]

theorem quiet_stub (what : String) (problems : List String) : Quiet (stub what problems) := by
  unfold stub
  simp only [String.append_assoc]
  exact .starting "// unsupported: " (by decide) _

theorem quiet_field (name type : String) :
    Quiet ("pub " ++ identifier name ++ ": " ++ type ++ ",") := by
  constructor
  · have ended (text : String) : (text ++ ",").toList.getLast? = some ',' := by
      rw [String.toList_append, List.getLast?_append]
      rfl
    rw [declaresFunction, ended]
    exact Bool.and_false _
  · have other (rest : String) : opensWith "extern \"" ("pub " ++ rest) = false :=
      opensWith_of_apart (by decide) (by decide) rest
    simp only [String.append_assoc]
    rw [openedAbi?, other, if_neg Bool.false_ne_true]

theorem quiet_struct (name rest : String) : Quiet ("pub struct " ++ name ++ rest) := by
  rw [String.append_assoc]
  exact .starting "pub struct " (by decide) _

theorem quiet_const (rest : String) : Quiet ("pub const " ++ rest) :=
  .starting "pub const " (by decide) rest

theorem quiet_enumItem (name : String) (quiet : ∀ line ∈ lines, Quiet line) :
    ∀ line ∈ enumItem name lines, Quiet line := by
  have opening : Quiet ("impl " ++ name ++ " \x7b") := by
    rw [String.append_assoc]
    exact .starting "impl " (by decide) _
  have fixed : Quiet "#[repr(transparent)]" ∧ Quiet "\x7d" ∧
      Quiet "#[derive(Copy, Clone, Debug, PartialEq, Eq, Hash)]" := by
    refine ⟨?_, ?_, ?_⟩ <;> constructor <;> decide
  unfold enumItem
  split
  · simp [fixed, quiet_struct]
  · simpa [fixed, quiet_struct, opening, or_imp, forall_and] using quiet

/-! ### Lines of declarations -/

theorem fieldLine_gives (owner : String) (f : Field) :
    Gives (fieldLine context module owner f) Quiet := by
  refine .after fun mapped => ?_
  split
  · exact .pure (quiet_field f.name mapped.text).indent
  · exact .after fun _ => .pure (quiet_stub _ _).indent

theorem structLines_gives (qualifiedName : Option String) (fields : Option (List Field)) :
    Gives (structLines context module qualifiedName fields) fun lines =>
      ∀ line ∈ lines, Quiet line := by
  have fixed : Quiet "#[repr(transparent)]" ∧ Quiet "#[repr(C)]" ∧
      Quiet "#[derive(Copy, Clone)]" ∧ Quiet "\x7d" := by
    refine ⟨?_, ?_, ?_, ?_⟩ <;> constructor <;> decide
  unfold structLines
  cases fields with
  | none => exact .pure (by simp [fixed, quiet_struct])
  | some fields =>
    refine (Gives.mapM fun f _ => fieldLine_gives _ f).bind fun lines quiet => .pure ?_
    simpa [fixed, quiet_struct, or_imp, forall_and] using quiet

theorem enumeratorLine_gives {constant : Int → String} (quiet : ∀ n, Quiet (constant n))
    (e : Enumerator) (value : Option Int) :
    Gives (enumeratorLine module constant e value) Quiet := by
  unfold enumeratorLine
  cases value with
  | some n => exact .pure (quiet n)
  | none => exact .after fun _ => .pure (quiet_stub _ _)

theorem freeLines_gives (symbol : Symbol) :
    Gives (freeLines context module symbol) fun lines => ∀ line ∈ lines, Quiet line := by
  refine .after fun values => .mapM fun entry _ => enumeratorLine_gives (fun n => ?_) _ _
  simp only [String.append_assoc]
  exact quiet_const _

theorem enumLines_gives (symbol : Symbol) :
    Gives (enumLines context module symbol) fun lines => ∀ line ∈ lines, Quiet line := by
  have own (e : Enumerator) (n : Int) :
      Quiet ("pub const " ++ identifier e.name ++ ": Self = Self(" ++ toString n ++ ");") := by
    simp only [String.append_assoc]
    exact quiet_const _
  have each (entry : Enumerator × String × Option Int) :=
    (@enumeratorLine_gives module _ (own entry.1) entry.1 entry.2.2).map
      fun line => Quiet.indent
  exact .after fun values => (Gives.mapM fun entry _ => each entry).bind
    fun lines quiet => .pure (quiet_enumItem _ quiet)

theorem typedLines_gives (what name : String) (type : CType) {lines : String → List String}
    (read : ∀ text, functionsIn none (lines text) = some []) :
    Gives (typedLines context module what name type lines) fun lines =>
      functionsIn none lines = some [] := by
  refine .after fun mapped => ?_
  split
  · exact .pure (read mapped.text)
  · exact .after fun _ => .pure (functionsIn_quiet (by simp [quiet_stub]))

theorem functionsIn_object (name text : String) :
    functionsIn none ["extern \"C\" \x7b",
      indent ("pub static mut " ++ identifier name ++ ": " ++ text ++ ";"), "\x7d"] = some [] := by
  simp only [String.append_assoc]
  generalize identifier name ++ (": " ++ (text ++ ";")) = rest
  have opening : declaresFunction "extern \"C\" \x7b" = false := by decide
  have opened : openedAbi? "extern \"C\" \x7b" = some "C" := by decide
  have quiet : Quiet (indent ("pub static mut " ++ rest)) :=
    (Quiet.starting "pub static mut " (by decide) rest).indent
  have object : opensWith "pub static mut " (indent ("pub static mut " ++ rest)) = true := by
    rw [opensWith, unindented_indent]
    exact opensWith_append (by decide) (by decide) rest
  have noEnd : indent ("pub static mut " ++ rest) ≠ "\x7d" := by
    intro same
    rw [same] at object
    cases object
  have closed : functionsIn (some "C") ["\x7d"] = some [] := by decide
  rw [functionsIn, opening, if_neg Bool.false_ne_true, opened, functionsIn, quiet.noFunction,
    if_neg Bool.false_ne_true, if_neg noEnd, if_pos object, closed]

theorem constantLines_gives (name : String) (tokens : List String) :
    Gives (constantLines context module name tokens) fun lines => ∀ line ∈ lines, Quiet line := by
  refine .after fun value => ?_
  split
  · refine .pure ?_
    simp only [String.append_assoc, List.forall_mem_singleton]
    exact quiet_const _
  · refine .after fun _ => .pure ?_
    simp only [String.append_assoc, List.forall_mem_singleton]
    exact .starting "// unsupported: #define " (by decide) _

/-! ### Functions of a module -/

theorem abi_unquoted (convention : Option String) : '"' ∉ (Rust.abi convention).toList := by
  unfold Rust.abi
  split <;> decide

theorem declaresFunction_line (rest : String) :
    declaresFunction ("pub fn " ++ rest ++ ";") = true := by
  have starts : opensWith "pub fn " ("pub fn " ++ rest ++ ";") = true := by
    rw [String.append_assoc]
    exact opensWith_append (by decide) (by decide) _
  rw [declaresFunction, starts, String.toList_append, List.getLast?_append]
  rfl

theorem functionPiece_gives (name : String) (result : CType) (parameters : List Parameter)
    (variadic : Bool) (convention : Option String) :
    Gives (functionPiece context module name result parameters variadic convention)
      Piece.IsReadable := by
  refine .after fun list => .after fun returned => ?_
  simp only
  split
  · refine .pure ⟨abi_unquoted convention, ?_⟩
    have declares := declaresFunction_line (identifier name ++ "(" ++ list.text ++ ")" ++
      if returned.text.isEmpty then "" else " -> " ++ returned.text)
    simpa only [String.append_assoc] using declares
  · exact .after fun _ => .pure (functionsIn_quiet (by simp [quiet_stub]))

theorem piece_gives (symbol : Symbol) : Gives (piece context module symbol) Piece.IsReadable := by
  have lined {lines : Emission (List String)}
      (gives : Gives lines fun lines => ∀ line ∈ lines, Quiet line) :
      Gives (Piece.lines <$> lines) Piece.IsReadable :=
    gives.map fun _ quiet => functionsIn_quiet quiet
  have read {lines : Emission (List String)}
      (gives : Gives lines fun lines => functionsIn none lines = some []) :
      Gives (Piece.lines <$> lines) Piece.IsReadable := gives.map fun _ read => read
  have freed := @freeLines_gives context module symbol
  have owned := @enumLines_gives context module symbol
  obtain ⟨serial, ⟨item, location⟩⟩ := symbol
  cases item with
  | struct tag fields isTypedef => exact lined (structLines_gives _ fields)
  | union tag fields =>
    refine .pure (functionsIn_quiet ?_)
    simp only [String.append_assoc, List.forall_mem_singleton]
    exact .starting "// unsupported: union " (by decide) _
  | enum tag values isTypedef =>
    cases tag with
    | none => exact lined freed
    | some tag => exact lined owned
  | function name result parameters variadic convention =>
    exact functionPiece_gives name result parameters variadic convention
  | typedef name type =>
    refine read (typedLines_gives "type" name type fun text => functionsIn_quiet ?_)
    simp only [String.append_assoc, List.forall_mem_singleton]
    exact .starting "pub type " (by decide) _
  | object name type => exact read (typedLines_gives "static" name type (functionsIn_object name))
  | constant name tokens => exact lined (constantLines_gives name tokens)

def declaredFunction (context : EmissionContext) (module : OutputModule) (item : Item)
    (memo : MappingMemo) : List (String × String) :=
  match item with
  | .function name result parameters variadic convention =>
    let list := context.mapper.mapParameterList module.name parameters variadic memo
    let returned := context.mapper.mapResult module.name result list.2
    if list.1.problems = [] ∧ returned.1.problems = [] then
      let arrow := if returned.1.text.isEmpty then "" else " -> " ++ returned.1.text
      [(Rust.abi convention,
        indent ("pub fn " ++ identifier name ++ "(" ++ list.1.text ++ ")" ++ arrow ++ ";"))]
    else []
  | _ => []

def declaredFunctions (context : EmissionContext) (module : OutputModule) :
    List Symbol → EmissionState → List (String × String)
  | [], _ => []
  | symbol :: rest, state =>
    declaredFunction context module symbol.item state.memo ++
      declaredFunctions context module rest (piece context module symbol state).2

theorem functionPiece_declared (name : String) (result : CType) (parameters : List Parameter)
    (variadic : Bool) (convention : Option String) (state : EmissionState) :
    (functionPiece context module name result parameters variadic convention state).1.declared =
      declaredFunction context module (.function name result parameters variadic convention)
        state.memo := by
  let list := context.mapper.mapParameterList module.name parameters variadic state.memo
  let returned := context.mapper.mapResult module.name result list.2
  have run : functionPiece context module name result parameters variadic convention state =
      (if (list.1.problems ++ returned.1.problems).isEmpty then _ else _ : Emission Piece)
        { state with memo := returned.2 } := rfl
  unfold declaredFunction
  by_cases fine : list.1.problems = [] ∧ returned.1.problems = []
  · have mapped := (functionPiece_mapped context module name result parameters variadic convention
      state).2 fine.1 fine.2
    rw [mapped]
    exact (if_pos fine).symm
  · have some : ¬(list.1.problems ++ returned.1.problems).isEmpty = true := by
      rwa [List.isEmpty_iff, List.append_eq_nil_iff]
    rw [run, if_neg some]
    exact (if_neg fine).symm

theorem piece_declared (symbol : Symbol) (state : EmissionState) :
    (piece context module symbol state).1.declared =
      declaredFunction context module symbol.item state.memo := by
  obtain ⟨serial, ⟨item, location⟩⟩ := symbol
  cases item with
  | enum tag values isTypedef => cases tag <;> rfl
  | function name result parameters variadic convention =>
    exact functionPiece_declared name result parameters variadic convention state
  | struct => rfl
  | union => rfl
  | typedef => rfl
  | object => rfl
  | constant => rfl

theorem pieces_declared (symbols : List Symbol) (state : EmissionState) :
    (symbols.mapM (piece context module) state).1.flatMap Piece.declared =
      declaredFunctions context module symbols state := by
  induction symbols generalizing state with
  | nil => rfl
  | cons symbol rest ih =>
    rw [List.mapM_cons, declaredFunctions, ← piece_declared, ← ih]
    rfl

def moduleLines (context : EmissionContext) (module : OutputModule) : Emission (List String) := do
  let pieces ← module.symbols.mapM (piece context module)
  return moduleFront module.header ++ assemble pieces

theorem quiet_moduleFront (header : String) : ∀ line ∈ moduleFront header, Quiet line := by
  have title : Quiet ("//! Bindings for `" ++ header ++ "`.") := by
    rw [String.append_assoc]
    exact .starting "//! Bindings for `" (by decide) _
  have fixed : ∀ line ∈ ["//!", "//! Generated by headerbind. Do not edit.", "", allowLints],
      declaresFunction line = false ∧ openedAbi? line = none := by decide
  exact List.forall_mem_cons.mpr ⟨title, fun line member => ⟨(fixed line member).1,
    (fixed line member).2⟩⟩

theorem unbroken_moduleLines {symbols : List Symbol} (plain : context.mapper.IsPlain symbols)
    {before : EmissionState} (shaped : before.memo.Shaped symbols) (header : OneLine module.header)
    (among : ∀ symbol ∈ module.symbols, symbol ∈ symbols ∧ Unbroken symbol.item.texts) :
    Unbroken (moduleLines context module before).1 := by
  obtain ⟨-, reported, -, each, balanced⟩ := pieces_accounts plain among before shaped
  have fine := forall_right each fun _ _ shown => shown.2
  exact unbroken_append.mpr ⟨moduleFront_unbroken header, unbroken_assemble fine balanced.unbroken⟩

/-- The functions of a module are read back from the lines of its text: those that map without
problems, each once and in order, and each in a block of its own ABI; all blocks are closed. The
lines that declare functions are theirs and no others. Where names and types have no line breaks,
the lines of the text are these and an empty one. -/
theorem moduleText_functions (context : EmissionContext) (module : OutputModule)
    (before : EmissionState) :
    let text := (moduleText context module before).1
    let lines := (moduleLines context module before).1
    let functions := declaredFunctions context module module.symbols before
    text = Rust.text lines ∧
      functionsIn none lines = some functions ∧
      lines.filter declaresFunction = functions.map Prod.snd ∧
      ∀ symbols, context.mapper.IsPlain symbols → before.memo.Shaped symbols →
        OneLine module.header →
        (∀ symbol ∈ module.symbols, symbol ∈ symbols ∧ Unbroken symbol.item.texts) →
        linesOf text = lines ++ [""] := by
  intro text lines functions
  have readable : ∀ written ∈ (module.symbols.mapM (piece context module) before).1,
      written.IsReadable := (Gives.mapM fun symbol _ => piece_gives symbol) before
  have front : functionsIn none (moduleFront module.header) = some [] :=
    functionsIn_quiet (quiet_moduleFront module.header)
  have read : functionsIn none lines = some functions := by
    calc functionsIn none lines
        = (functionsIn none
            (assemble (module.symbols.mapM (piece context module) before).1)).map ([] ++ ·) :=
          functionsIn_append front _
      _ = some functions := by
          rw [functionsIn_assemble readable, pieces_declared]
          rfl
  refine ⟨rfl, read, filter_declaresFunction read, fun symbols plain shaped header among => ?_⟩
  have filled : lines ≠ [] := List.append_ne_nil_of_left_ne_nil (List.cons_ne_nil _ _) _
  exact linesOf_intercalate filled (unbroken_moduleLines plain shaped header among)

def windowChanges : List SymbolTable.Change :=
  let int : CType := .named ⟨.primitive, some "int", []⟩
  let void : CType := .named ⟨.primitive, some "void", []⟩
  let value : CType := .named ⟨.union, some "Value", []⟩
  let place : Option Location := some ⟨"window.h", 1⟩
  let function (name : String) (parameters : List Parameter) (convention : Option String) :
      SymbolTable.Change := .declaration ⟨.function name void parameters false convention, place⟩
  [function "open" [(some "id", int)] none, function "close" [] none,
   function "paint" [(none, value)] none, function "show" [(none, int)] (some "stdcall"),
   .declaration ⟨.object "count" int, place⟩, function "hide" [] (some "stdcall"),
   function "move" [] (some "cdecl")]

def windowTable : SymbolTable := (SymbolTable.ofChanges .first windowChanges).finalize

def windowModule : OutputModule := ⟨"window", "window.h", windowTable.emitted⟩

theorem window_functions :
    let context : EmissionContext := ⟨.ofTable firstTarget windowTable, .flat, .named "window"⟩
    functionsIn none (linesOf (moduleText context windowModule {}).1) =
      some [("C", "    pub fn open(id: i32);"), ("C", "    pub fn close();"),
        ("system", "    pub fn show(__arg0: i32);"), ("system", "    pub fn hide();"),
        ("C", "    pub fn r#move();")] := by
  intro context
  have left : windowTable.LeftBy .first windowChanges := .inr rfl
  have unbroken : ∀ symbol ∈ windowTable.emitted, Unbroken symbol.item.texts := by decide +kernel
  have plain := TypeMapper.isPlain_ofTable left.listed
    (fun name symbol entry => unbroken symbol (left.emitted entry)) firstTarget
  obtain ⟨-, read, -, whole⟩ := moduleText_functions context windowModule {}
  rw [whole _ plain (MappingMemo.Shaped.empty _) (by decide) fun symbol member =>
    ⟨left.inserted member, unbroken symbol member⟩, functionsIn_append read]
  decide +kernel

end Rust

end CBindings
