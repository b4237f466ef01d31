import CBindings.Proofs.Output.Emission
import CBindings.Proofs.Rust.Naming
import CBindings.Proofs.Rust.Settling

/-! No generated type names a declaration that is not generated. -/

namespace CBindings

namespace Item

end Item

namespace Rust

/-! ### Items -/

theorem mem_afterLeading {abi : String} {lines : List String} {pieces : List Piece}
    (piece : .lines lines ∈ pieces) : .lines lines ∈ afterLeading abi pieces := by
  induction pieces with
  | nil => cases piece
  | cons first rest ih =>
    cases first with
    | lines others => exact piece
    | function other line =>
      have later : Piece.lines lines ∈ rest := by simpa using piece
      rw [afterLeading]
      split
      · exact ih later
      · exact List.mem_cons_of_mem _ later

theorem mem_assemble {line : String} {lines : List String} (member : line ∈ lines)
    (pieces : List Piece) (piece : .lines lines ∈ pieces) : line ∈ assemble pieces := by
  fun_induction assemble pieces with
  | case1 => cases piece
  | case2 rest ih =>
    rcases List.mem_cons.mp piece with here | later
    · cases here
      cases member
    · exact ih later
  | case3 rest others some ih =>
    rcases List.mem_cons.mp piece with here | later
    · cases here
      exact List.mem_append_left _ (List.mem_cons_of_mem _ member)
    · exact List.mem_append_right _ (ih later)
  | case4 abi first rest ih =>
    have later : Piece.lines lines ∈ rest := by simpa using piece
    exact List.mem_append_right _ (ih (mem_afterLeading later))

section

variable {context : EmissionContext} {module : OutputModule} {state : EmissionState}

theorem typedLines_isOk {what name : String} {type : CType} {lines : String → List String}
    (ok : (context.mapper.map module.name type state.memo).1.problems = []) :
    typedLines context module what name type lines state =
      (lines (context.mapper.map module.name type state.memo).1.text,
        { state with memo := (context.mapper.map module.name type state.memo).2 }) := by
  have isOk : (context.mapper.map module.name type state.memo).1.isOk = true := by
    simp [Mapping.isOk, ok]
  unfold typedLines
  change (if (context.mapper.map module.name type state.memo).1.isOk = true then _ else _ :
    Emission (List String)) _ = _
  rw [if_pos isOk]
  rfl

theorem typedLines_memo {what name : String} {type : CType} {lines : String → List String} :
    (typedLines context module what name type lines state).2.memo =
      (context.mapper.map module.name type state.memo).2 := by
  unfold typedLines
  change ((if (context.mapper.map module.name type state.memo).1.isOk = true then _ else _ :
    Emission (List String)) _).2.memo = _
  split
  · rfl
  · rfl

theorem piece_memo {symbol : Symbol} {name : String} {underlying : CType}
    (item : symbol.item = .typedef name underlying) :
    (piece context module symbol state).2.memo =
      (context.mapper.map module.name underlying state.memo).2 := by
  have run : ∀ (lines : Emission (List String)),
      ((Piece.lines <$> lines) state).2 = (lines state).2 := fun lines => rfl
  simp only [piece, item, run]
  exact typedLines_memo

end

end Rust

open MappingMemo SymbolTable TypeMapper

variable {target : Target} {policy : NamespacePolicy} {crateName : CrateName}
  {table : SymbolTable} {last : MappingMemo}

def Rust.path (module : Option String) (owner name : String) : String :=
  if some owner = module then name else "super::" ++ owner ++ "::" ++ name

def firstTarget : Target := Target.all[0]

end CBindings
