import CBindings.Output.Module
import CBindings.Output.Namespace
import CBindings.Rust.TypeMapping

/-! What writing modules needs and leaves behind. -/

namespace CBindings

/-- The name of a crate as it is asked for: a text, the null value, or no value at all. -/
inductive CrateName where
  | named (text : String)
  | null
  | nothing
  deriving DecidableEq, Repr

def CrateName.text : CrateName → String
  | named text => text
  | null => "None"
  | nothing => "[]"

def TypeMapper.ofTable (target : Target) (table : SymbolTable) : TypeMapper where
  scope := ⟨table, target⟩
  moduleOf := OutputModule.owner? (OutputModule.ofTable table) table

structure EmissionContext where
  mapper : TypeMapper
  policy : NamespacePolicy
  crateName : CrateName

/-- What is remembered and reported while modules are written. -/
structure EmissionState where
  memo : MappingMemo := {}
  diagnostics : List Diagnostic := []

abbrev Emission := StateM EmissionState

namespace Emission

def report (diagnostic : Diagnostic) : Emission Unit :=
  modify fun state => { state with diagnostics := state.diagnostics ++ [diagnostic] }

def mapping {α : Type} (x : MappingM α) : Emission α := fun state =>
  let (a, memo) := x.run state.memo
  (a, { state with memo := memo })

def constants {α : Type} (x : Remembering α) : Emission α := mapping (.constants x)

end Emission

namespace EmissionContext

def scope (context : EmissionContext) : ConstantScope := context.mapper.scope

def table (context : EmissionContext) : SymbolTable := context.scope.table

def constant (context : EmissionContext) (name : String) : Emission (Option ConstantValue) :=
  .constants (context.scope.evaluateConstant name)

def enumerators (context : EmissionContext) (symbol : Symbol) :
    Emission (List (String × Option Int)) :=
  .constants (context.scope.evaluateEnum symbol)

end EmissionContext

end CBindings
