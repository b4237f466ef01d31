import CBindings.Proofs.Output.Declared
import CBindings.Proofs.Rust.Written

/-! The line of a function in a file, and the types that are written in it. -/

namespace CBindings

open MappingMemo

namespace TypeMapper

variable {mapper : TypeMapper} {memo earlier : MappingMemo} {module : Option String}
  {parameters : List Parameter} {variadic : Bool} {result : CType}

def writtenParameters (mapper : TypeMapper) (memo : MappingMemo) (module : Option String)
    (parameters : List Parameter) : List (String × RustType) :=
  parameters.zipIdx.map fun ((name, type), index) =>
    (Rust.parameterName name index, mapper.written memo module type)

def writtenResult (mapper : TypeMapper) (memo : MappingMemo) (module : Option String)
    (result : CType) : RustType :=
  if result.isVoid then .unit else mapper.written memo module result

theorem written_function (result : CType) (parameters : List Parameter) (variadic : Bool)
    (convention : Option String) :
    mapper.written memo module (.function result parameters variadic convention) =
      .function (Rust.abi convention)
        ((mapper.writtenParameters memo module parameters).map Prod.snd) variadic
        (mapper.writtenResult memo module result) := by
  have types : (mapper.writtenParameters memo module parameters).map Prod.snd =
      parameters.map fun parameter => mapper.written memo module parameter.2 := by
    have firsts : parameters.zipIdx.map Prod.fst = parameters := List.zipIdx_map_fst 0 parameters
    conv_rhs => rw [← firsts]
    rw [writtenParameters, List.map_map, List.map_map]
    rfl
  rw [written, writtenAll_eq_map, types]
  rfl

def labelled (entry : Parameter × Nat) (mapped : Mapping) : Mapping :=
  { mapped with text := Rust.parameterName entry.1.1 entry.2 ++ ": " ++ mapped.text }

def listed (mapped : List Mapping) (variadic : Bool) : Mapping :=
  ⟨", ".intercalate (mapped.map Mapping.text ++ if variadic then ["..."] else []),
    mapped.flatMap Mapping.problems⟩

theorem mapParameterList_eq (parameters : List Parameter) (variadic : Bool) :
    mapper.mapParameterList module parameters variadic =
      (listed · variadic) <$> parameters.zipIdx.mapM fun entry =>
        labelled entry <$> mapper.map module entry.1.2 := rfl

def parametersText (parameters : List (String × RustType)) (variadic : Bool) : String :=
  ", ".intercalate
    (parameters.map (fun parameter => parameter.1 ++ ": " ++ parameter.2.text) ++
      if variadic then ["..."] else [])

theorem mapM_settled {α β : Type} {f : α → MappingM β} {g : α → β} {xs : List α}
    (each : ∀ a ∈ xs, f a memo = (g a, memo)) : xs.mapM f memo = (xs.map g, memo) := by
  induction xs with
  | nil => rfl
  | cons a rest ih =>
    have later := ih fun b member => each b (List.mem_cons_of_mem _ member)
    rw [List.mapM_cons]
    change ((f a memo).1 :: (rest.mapM f (f a memo).2).1, (rest.mapM f (f a memo).2).2) = _
    rw [each a List.mem_cons_self, later]
    rfl

theorem mapParameterList_settled (settled : mapper.AllSettled memo parameters)
    (module : Option String) (variadic : Bool) :
    mapper.mapParameterList module parameters variadic memo =
      (⟨parametersText (mapper.writtenParameters memo module parameters) variadic, []⟩, memo) := by
  have each : ∀ entry ∈ parameters.zipIdx, (labelled entry <$> mapper.map module entry.1.2) memo =
      (labelled entry ⟨(mapper.written memo module entry.1.2).text, []⟩, memo) := by
    intro entry member
    have one := (allSettled_iff parameters).mp settled _ (List.fst_mem_of_mem_zipIdx member)
    exact congrArg (fun done => (labelled entry done.1, done.2)) (map_settled one module)
  rw [mapParameterList_eq]
  refine (congrArg (fun done => (listed done.1 variadic, done.2)) (mapM_settled each)).trans ?_
  unfold listed parametersText writtenParameters
  have nothing : (parameters.zipIdx.flatMap fun entry => (labelled entry
      ⟨(mapper.written memo module entry.1.2).text, []⟩).problems) = [] :=
    List.flatMap_eq_nil_iff.mpr fun _ _ => rfl
  rw [List.map_map, List.map_map, List.flatMap_map, nothing]
  rfl

theorem mapResult_settled (settled : result.isVoid = true ∨ mapper.Settled memo result)
    (module : Option String) :
    mapper.mapResult module result memo =
      (⟨(mapper.writtenResult memo module result).text, []⟩, memo) := by
  unfold mapResult writtenResult
  by_cases void : result.isVoid = true
  · rw [if_pos void, if_pos void]
    rfl
  · rw [if_neg void, if_neg void]
    exact map_settled (settled.resolve_left void) module

theorem allSettled_of_mapParameterList (acyclic : mapper.scope.table.Acyclic)
    (proper : memo.constants.Proper mapper.scope.table)
    (extends' : (mapper.mapParameterList module parameters variadic earlier).2.Extends memo)
    (ok : (mapper.mapParameterList module parameters variadic earlier).1.problems = []) :
    mapper.AllSettled memo parameters := by
  rw [allSettled_iff]
  intro parameter member
  have firsts : parameters.zipIdx.map Prod.fst = parameters := List.zipIdx_map_fst 0 parameters
  obtain ⟨entry, inside, rfl⟩ := List.mem_map.mp (firsts ▸ member)
  have asks (entry : Parameter × Nat) :
      MapAsks mapper (labelled entry <$> mapper.map module entry.1.2) :=
    (map_asks module entry.1.2).map _
  obtain ⟨middle, there, leads⟩ := Asks.mem_mapM (fun entry _ => asks entry) inside earlier
  have known := (leads.gains acyclic).adds.trans extends'
  have fine := List.flatMap_eq_nil_iff.mp ok _ there
  exact settled_of_map acyclic proper known fine

theorem settled_of_mapResult (acyclic : mapper.scope.table.Acyclic)
    (proper : memo.constants.Proper mapper.scope.table)
    (extends' : (mapper.mapResult module result earlier).2.Extends memo)
    (ok : (mapper.mapResult module result earlier).1.problems = []) :
    result.isVoid = true ∨ mapper.Settled memo result := by
  unfold mapResult at extends' ok
  by_cases void : result.isVoid = true
  · exact .inl void
  · rw [if_neg void] at extends' ok
    exact .inr (settled_of_map acyclic proper extends' ok)

end TypeMapper

namespace Rust

/-! ### Functions in a file -/

theorem mem_leading_or_mem_afterLeading {convention line : String} (abi : String)
    {pieces : List Piece} (member : .function convention line ∈ pieces) :
    convention = abi ∧ line ∈ leading abi pieces ∨
      .function convention line ∈ afterLeading abi pieces := by
  induction pieces with
  | nil => cases member
  | cons first rest ih =>
    cases first with
    | lines lines => exact .inr member
    | function other text =>
      rw [leading, afterLeading]
      split
      · next same =>
        rcases List.mem_cons.mp member with here | later
        · cases here
          exact .inl ⟨same, List.mem_cons_self⟩
        · exact (ih later).imp_left (And.imp_right (List.mem_cons_of_mem _))
      · exact .inr member

theorem exists_block {abi line : String} (pieces : List Piece)
    (member : .function abi line ∈ pieces) :
    ∃ functions, line ∈ functions ∧ block abi functions <:+: assemble pieces := by
  fun_induction assemble pieces with
  | case1 => cases member
  | case2 rest ih =>
    obtain ⟨functions, inside, part⟩ := ih (by simpa using member)
    exact ⟨functions, inside, part⟩
  | case3 rest others some ih =>
    obtain ⟨functions, inside, part⟩ := ih (by simpa using member)
    exact ⟨functions, inside, part.trans (List.suffix_append _ _).isInfix⟩
  | case4 other first rest ih =>
    rcases List.mem_cons.mp member with here | later
    · cases here
      exact ⟨_, List.mem_cons_self, (List.prefix_append _ _).isInfix⟩
    · rcases mem_leading_or_mem_afterLeading other later with ⟨rfl, inside⟩ | after
      · exact ⟨_, List.mem_cons_of_mem _ inside, (List.prefix_append _ _).isInfix⟩
      · obtain ⟨functions, inside, part⟩ := ih after
        exact ⟨functions, inside, part.trans (List.suffix_append _ _).isInfix⟩

def functionLine (name : String) (parameters : List (String × RustType)) (variadic : Bool)
    (result : RustType) : String :=
  "pub fn " ++ identifier name ++ "(" ++ TypeMapper.parametersText parameters variadic ++ ")" ++
    (if result.text.isEmpty then "" else " -> " ++ result.text) ++ ";"

theorem functionPiece_mapped (context : EmissionContext) (module : OutputModule) (name : String)
    (result : CType) (parameters : List Parameter) (variadic : Bool) (convention : Option String)
    (state : EmissionState) :
    let list := context.mapper.mapParameterList module.name parameters variadic state.memo
    let returned := context.mapper.mapResult module.name result list.2
    let done := functionPiece context module name result parameters variadic convention state
    done.2.memo = returned.2 ∧ (list.1.problems = [] → returned.1.problems = [] →
      done.1 = .function (abi convention)
        ("pub fn " ++ identifier name ++ "(" ++ list.1.text ++ ")" ++
          (if returned.1.text.isEmpty then "" else " -> " ++ returned.1.text) ++ ";")) := by
  intro list returned done
  have run : done = (if (list.1.problems ++ returned.1.problems).isEmpty then _ else _ :
      Emission Piece) { state with memo := returned.2 } := rfl
  constructor
  · rw [run]
    split
    · rfl
    · rfl
  · intro fine fine'
    rw [run, fine, fine']
    rfl

end Rust

end CBindings
