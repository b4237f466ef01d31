import CBindings.Rust.Item

/-! Rust source files: one for each module, and the root of the crate. -/

namespace CBindings.Rust

def allowLints : String :=
  "#![allow(non_camel_case_types, non_snake_case, non_upper_case_globals, dead_code)]"

def block (abi : String) (functions : List String) : List String :=
  ["", "extern \"" ++ abi ++ "\" \x7b"] ++ functions.map indent ++ ["\x7d"]

def leading (abi : String) : List Piece → List String
  | .function other line :: rest => if other = abi then line :: leading abi rest else []
  | _ => []

def afterLeading (abi : String) : List Piece → List Piece
  | .function other line :: rest =>
    if other = abi then afterLeading abi rest else .function other line :: rest
  | pieces => pieces

theorem afterLeading_length (abi : String) (pieces : List Piece) :
    (afterLeading abi pieces).length ≤ pieces.length := by
  fun_induction afterLeading abi pieces with
  | case1 line rest ih =>
    simp only [List.length_cons]
    omega
  | case2 => simp
  | case3 => simp

def assemble : List Piece → List String
  | [] => []
  | .lines [] :: rest => assemble rest
  | .lines lines :: rest => "" :: lines ++ assemble rest
  | .function abi line :: rest =>
    block abi (line :: leading abi rest) ++ assemble (afterLeading abi rest)
termination_by pieces => pieces.length
decreasing_by
  · simp
  · simp
  · exact Nat.lt_succ_of_le (afterLeading_length abi rest)

def text (lines : List String) : String := "\n".intercalate lines ++ "\n"

def moduleText (context : EmissionContext) (module : OutputModule) : Emission String := do
  let pieces ← module.symbols.mapM (piece context module)
  return text
    (["//! Bindings for `" ++ module.header ++ "`.",
      "//!",
      "//! Generated by headerbind. Do not edit.",
      "",
      allowLints] ++ assemble pieces)

def crateText (context : EmissionContext) (modules : List OutputModule) : String :=
  let exported := if context.policy.reexports then modules else []
  text
    (["//! `" ++ context.crateName.text ++ "`: generated bindings.",
      "//!",
      "//! Namespace policy: " ++ context.policy.name ++ ".",
      "",
      allowLints,
      ""] ++
      modules.map (fun m => "pub mod " ++ m.name ++ ";") ++
      (if exported.isEmpty then []
        else "" :: exported.map fun m => "pub use self::" ++ m.name ++ "::*;"))

end CBindings.Rust
