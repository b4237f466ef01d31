import CBindings.Rust.TypeMapping
import Mathlib.Logic.Relation

/-! Typedefs that do not refer to each other in a cycle: what is pending has no part in their
problems. -/

namespace CBindings

def TypeName.IsReference (t : TypeName) : Prop := t.kind ≠ .primitive ∧ t.kind ≠ .union

namespace SymbolTable

variable {table : SymbolTable}

theorem typedef?_eq_some {name : String} {underlying : CType} :
    table.typedef? name = some underlying ↔
      ∃ symbol other, table.get? name = some symbol ∧ symbol.item = .typedef other underlying := by
  unfold typedef?
  constructor
  · intro found
    split at found
    · next serial other type location entry =>
      cases found
      exact ⟨_, other, entry, rfl⟩
    · cases found
  · rintro ⟨⟨serial, item, location⟩, other, entry, item'⟩
    cases (show item = _ from item')
    rw [entry]

def Consults (table : SymbolTable) (references : List TypeName) (name : String) : Prop :=
  ∃ t ∈ references, t.IsReference ∧ t.qualifiedName = name ∧
    ∃ underlying, table.typedef? name = some underlying

theorem Consults.append_left {name : String} {references : List TypeName}
    (consults : table.Consults references name) (others : List TypeName) :
    table.Consults (references ++ others) name := by
  obtain ⟨t, member, declared⟩ := consults
  exact ⟨t, List.mem_append_left _ member, declared⟩

theorem Consults.append_right {name : String} {references : List TypeName}
    (consults : table.Consults references name) (others : List TypeName) :
    table.Consults (others ++ references) name := by
  obtain ⟨t, member, declared⟩ := consults
  exact ⟨t, List.mem_append_right _ member, declared⟩

/-- Whether the type of one typedef names another one. -/
def Refers (table : SymbolTable) (name other : String) : Prop :=
  ∃ type, table.typedef? name = some type ∧ table.Consults type.names other

def Acyclic (table : SymbolTable) : Prop := ∀ name, ¬ Relation.TransGen table.Refers name name

/-- What holds of a typedef when it holds of those it refers to holds of all. -/
theorem Acyclic.induction (acyclic : table.Acyclic) {motive : String → Prop}
    (step : ∀ name, (∀ next, table.Refers name next → motive next) → motive name) (name : String) :
    motive name := by
  suffices walk : ∀ seen name, (∀ other ∈ seen, Relation.TransGen table.Refers other name) →
      motive name from walk [] name (by simp)
  intro seen
  -- the names on the way to `name` are all different, so they run out
  induction left : unseen table.names seen using Nat.strongRecOn generalizing seen with
  | ind left ih =>
    intro name behind
    refine step name fun next refers => ?_
    obtain ⟨type, found, -⟩ := id refers
    have new : name ∉ seen := fun member => acyclic name (behind name member)
    have fewer := unseen_cons_lt (mem_names_of_typedef? found) new
    refine ih _ (left ▸ fewer) (name :: seen) rfl next fun other member => ?_
    rcases List.mem_cons.mp member with rfl | member
    · exact .single refers
    · exact (behind other member).tail refers

/-- Typedefs that can be ranked above what they name do not refer to each other in a cycle. -/
theorem acyclic_of_rank (rank : String → Nat)
    (falls : ∀ name type, table.typedef? name = some type → ∀ t ∈ type.names,
      rank t.qualifiedName < rank name) : table.Acyclic := by
  have step : ∀ name other, table.Refers name other → rank other < rank name := by
    intro name other refers
    obtain ⟨type, found, t, member, -, rfl, -⟩ := refers
    exact falls name type found t member
  have run : ∀ name other, Relation.TransGen table.Refers name other → rank other < rank name := by
    intro name other way
    induction way with
    | single refers => exact step _ _ refers
    | tail before refers ih => exact Nat.lt_trans (step _ _ refers) ih
  intro name cycle
  exact Nat.lt_irrefl _ (run name name cycle)

theorem acyclic_of_entries (rank : String → Nat)
    (falls : ∀ entry ∈ table.entries.entries, ∀ type ∈ entry.2.item.types, ∀ t ∈ type.names,
      rank t.qualifiedName < rank entry.1) : table.Acyclic := by
  refine acyclic_of_rank rank fun name type found => ?_
  obtain ⟨symbol, other, entry, item⟩ := typedef?_eq_some.mp found
  refine falls (name, symbol) (OrderedMap.mem_of_get? entry) type ?_
  rw [item]
  exact List.mem_singleton_self type

end SymbolTable

namespace TypeMapper

open SymbolTable

variable {mapper : TypeMapper} {module : Option String} {type : CType} {t : TypeName}
  {inherited first second : String → MappingM (List String)}

/-! ### Names -/

def fixed (mapper : TypeMapper) (module : Option String) (t : TypeName) : Mapping :=
  match t.kind with
  | .primitive => mapper.primitive t.spelling
  | .union => unsupportedUnion t
  | _ =>
    match (mapper.scope.table.get? t.qualifiedName).map Symbol.item with
    | some (.union ..) => unsupportedUnion t
    | some _ => ⟨mapper.reference t.qualifiedName module, []⟩
    | none => mapper.undeclared t

def passedOn (mapper : TypeMapper) (module : Option String) (name : String)
    (problems : List String) : Mapping :=
  if problems.isEmpty then ⟨mapper.reference name module, []⟩
  else ⟨voidType, problems.map (· ++ " via " ++ name)⟩

theorem passedOn_problems (name : String) (problems : List String) :
    (mapper.passedOn module name problems).problems = problems.map (· ++ " via " ++ name) := by
  cases problems with
  | nil => rfl
  | cons problem rest => rfl

theorem named_typedef (reference : t.IsReference) {underlying : CType}
    (found : mapper.scope.table.typedef? t.qualifiedName = some underlying) :
    mapper.named inherited module t =
      mapper.passedOn module t.qualifiedName <$> inherited t.qualifiedName := by
  obtain ⟨symbol, other, entry, item⟩ := typedef?_eq_some.mp found
  have known : (mapper.scope.table.get? t.qualifiedName).map Symbol.item =
      some (.typedef other underlying) := by
    rw [entry, Option.map_some, item]
  rw [map_eq_pure_bind]
  unfold named
  split
  · next primitive => exact absurd primitive reference.1
  · next union => exact absurd union reference.2
  · rw [known]
    refine congrArg (inherited t.qualifiedName >>= ·) ?_
    funext problems
    unfold passedOn
    split
    · rfl
    · rfl

theorem fixed_reference (reference : t.IsReference) :
    mapper.fixed module t =
      match (mapper.scope.table.get? t.qualifiedName).map Symbol.item with
      | some (.union ..) => unsupportedUnion t
      | some _ => ⟨mapper.reference t.qualifiedName module, []⟩
      | none => mapper.undeclared t := by
  unfold fixed
  split
  · next primitive => exact absurd primitive reference.1
  · next union => exact absurd union reference.2
  · rfl

theorem named_fixed (plain : ¬ mapper.scope.table.Consults [t] t.qualifiedName) :
    mapper.named inherited module t = pure (mapper.fixed module t) := by
  unfold named
  split
  · next primitive => simp only [fixed, primitive]
  · next union => simp only [fixed, union]
  · next primitive union =>
    have reference : t.IsReference := ⟨primitive, union⟩
    rw [fixed_reference reference]
    cases entry : mapper.scope.table.get? t.qualifiedName with
    | none => rfl
    | some symbol =>
      simp only [Option.map_some]
      cases item : symbol.item with
      | typedef other underlying =>
        have found := typedef?_eq_some.mpr ⟨symbol, other, entry, item⟩
        exact absurd ⟨t, List.mem_singleton_self t, reference, rfl, underlying, found⟩ plain
      | _ => rfl

/-- A name is a typedef of the table, or its mapping does not ask for one. -/
theorem named_cases (mapper : TypeMapper) (t : TypeName) :
    (mapper.scope.table.Consults [t] t.qualifiedName ∧ ∀ inherited module,
      mapper.named inherited module t =
        mapper.passedOn module t.qualifiedName <$> inherited t.qualifiedName) ∨
    ∀ inherited module, mapper.named inherited module t = pure (mapper.fixed module t) := by
  by_cases consults : mapper.scope.table.Consults [t] t.qualifiedName
  · refine .inl ⟨consults, fun inherited module => ?_⟩
    obtain ⟨other, member, reference, -, underlying, found⟩ := consults
    cases (List.mem_singleton.mp member)
    exact named_typedef reference found
  · exact .inr fun inherited module => named_fixed consults

/-! ### Parts of types -/

def starred (target : CType) (inner : Mapping) : Mapping :=
  ⟨(if isConst target then "*const " else "*mut ") ++ inner.text, inner.problems⟩

def pointerTo (mapper : TypeMapper) (target : CType) (inner : Mapping) : Mapping :=
  match target with
  | .function .. => inner
  | .named t => if isFunctionTypedef mapper.scope.table [] t then inner else starred target inner
  | _ => starred target inner

theorem mapWith_named : mapper.mapWith inherited module (.named t) = mapper.named inherited module t := by
  simp only [mapWith]

theorem mapWith_pointer (target : CType) (qualifiers : List String) :
    mapper.mapWith inherited module (.pointer target qualifiers) =
      mapper.pointerTo target <$> mapper.mapWith inherited module target := by
  cases target with
  | named t =>
    simp only [mapWith]
    by_cases direct : isFunctionTypedef mapper.scope.table [] t = true
    · have same : mapper.pointerTo (.named t) = id := by
        funext inner
        simp only [pointerTo, direct, if_true, id]
      rw [if_pos direct, same, id_map]
    · have star : mapper.pointerTo (.named t) = starred (.named t) := by
        funext inner
        simp only [pointerTo, direct, Bool.false_eq_true, if_false]
      rw [if_neg direct, star, map_eq_pure_bind]
      rfl
  | function result parameters variadic convention =>
    have same : mapper.pointerTo (.function result parameters variadic convention) = id := rfl
    rw [same, id_map, mapWith]
  | pointer inner others =>
    simp only [mapWith, map_eq_pure_bind]
    rfl
  | array element extent =>
    simp only [mapWith, map_eq_pure_bind]
    rfl

theorem pointerTo_problems (target : CType) (inner : Mapping) :
    (mapper.pointerTo target inner).problems = inner.problems := by
  unfold pointerTo
  split
  · rfl
  · split
    · rfl
    · rfl
  · rfl

/-! ### Whole types -/

mutual

theorem mapWith_congr : (type : CType) →
    (∀ name, mapper.scope.table.Consults type.names name → first name = second name) →
    mapper.mapWith first module type = mapper.mapWith second module type
  | .named t, agree => by
    rw [mapWith_named, mapWith_named]
    rcases named_cases mapper t with ⟨consults, typedef⟩ | fixed
    · rw [typedef, typedef, agree _ consults]
    · rw [fixed, fixed]
  | .pointer target qualifiers, agree => by
    rw [mapWith_pointer, mapWith_pointer, mapWith_congr target agree]
  | .array element extent, agree => by
    simp only [mapWith]
    rw [mapWith_congr element agree]
  | .function result parameters variadic convention, agree => by
    have results := mapWith_congr result fun name consults => agree name (consults.append_left _)
    have others := mapParameters_congr parameters fun name consults =>
      agree name (consults.append_right _)
    simp only [mapWith, results, others]

theorem mapParameters_congr : (parameters : List Parameter) →
    (∀ name, mapper.scope.table.Consults (CType.parameterNames parameters) name →
      first name = second name) →
    mapper.mapParameters first module parameters = mapper.mapParameters second module parameters
  | [], _ => by simp only [mapParameters]
  | (_, type) :: rest, agree => by
    have here := mapWith_congr type fun name consults => agree name (consults.append_left _)
    have later := mapParameters_congr rest fun name consults => agree name (consults.append_right _)
    simp only [mapParameters, here, later]

end

theorem bind_alike {α β γ : Type} {f : α → γ} {x y : MappingM α} {g h : α → MappingM β}
    (alike : f <$> x = f <$> y) (next : ∀ a b, f a = f b → g a = h b) : x >>= g = y >>= h := by
  funext memo
  have both : (f (x memo).1, (x memo).2) = (f (y memo).1, (y memo).2) := congrFun alike memo
  obtain ⟨results, memos⟩ := Prod.mk.inj both
  change g (x memo).1 (x memo).2 = h (y memo).1 (y memo).2
  rw [next _ _ results, memos]

def extentProblems (extent : Extent) (length : Option Int) : List String :=
  match extent, length with
  | .text expression, none => ["array size " ++ Text.quoted expression ++ " could not be evaluated"]
  | _, _ => []

theorem sized_problems (element : Mapping) (extent : Extent) (length : Option Int) :
    (sized element extent length).problems = element.problems ++ extentProblems extent length := by
  cases extent with
  | flexible => cases length <;> simp [sized, extentProblems]
  | count n => cases length <;> simp [sized, extentProblems]
  | text expression => cases length <;> simp [sized, extentProblems]

theorem signature_problems (convention : Option String) (parameters : List Mapping)
    (variadic : Bool) (result : Option Mapping) :
    (signature convention parameters variadic result).problems =
      (parameters.map Mapping.problems).flatten ++ (result.map Mapping.problems).getD [] := by
  rw [← List.flatMap_def]
  rfl

mutual

/-- The module decides how names are written, not whether there are problems. -/
theorem mapWith_problems (module other : Option String) : (type : CType) →
    Mapping.problems <$> mapper.mapWith inherited module type =
      Mapping.problems <$> mapper.mapWith inherited other type
  | .named t => by
    rw [mapWith_named, mapWith_named]
    rcases named_cases mapper t with ⟨-, typedef⟩ | fixed
    · rw [typedef, typedef, ← comp_map, ← comp_map]
      congr 1
      funext problems
      exact (passedOn_problems _ _).trans (passedOn_problems _ _).symm
    · rw [fixed, fixed, map_pure, map_pure]
      congr 1
      unfold TypeMapper.fixed
      split
      · rfl
      · rfl
      · split <;> rfl
  | .pointer target qualifiers => by
    have same : Mapping.problems ∘ mapper.pointerTo target = Mapping.problems :=
      funext fun inner => pointerTo_problems target inner
    rw [mapWith_pointer, mapWith_pointer, ← comp_map, ← comp_map, same]
    exact mapWith_problems module other target
  | .array element extent => by
    simp only [mapWith, map_bind, map_pure, sized_problems]
    exact bind_alike (mapWith_problems module other element) fun a b same => by rw [same]
  | .function result parameters variadic convention => by
    simp only [mapWith, map_bind]
    refine bind_alike (mapParameters_problems module other parameters) fun a b same => ?_
    split
    · rw [map_pure, map_pure, signature_problems, signature_problems, same]
    · simp only [map_bind, map_pure, signature_problems, Option.map_some]
      exact bind_alike (mapWith_problems module other result) fun c d alike => by rw [same, alike]

theorem mapParameters_problems (module other : Option String) : (parameters : List Parameter) →
    List.map Mapping.problems <$> mapper.mapParameters inherited module parameters =
      List.map Mapping.problems <$> mapper.mapParameters inherited other parameters
  | [] => by simp only [mapParameters]
  | (_, type) :: rest => by
    simp only [mapParameters, map_bind, map_pure, List.map_cons]
    refine bind_alike (mapWith_problems module other type) fun a b same => ?_
    exact bind_alike (mapParameters_problems module other rest) fun c d alike => by
      rw [same, alike]

end

/-! ### Problems of typedefs -/

variable {name : String} {pending : List String} {memo : MappingMemo} {underlying : CType}

def freshProblems (mapper : TypeMapper) (inherited : String → MappingM (List String))
    (name : String) (underlying : CType) : MappingM (List String) := do
  let mapped ← mapper.mapWith inherited none underlying
  modify fun memo => { memo with typedefs := memo.typedefs.insert name mapped.problems }
  return mapped.problems

theorem freshProblems_fst (inherited : String → MappingM (List String)) (name : String)
    (underlying : CType) (memo : MappingMemo) :
    (mapper.freshProblems inherited name underlying memo).1 =
      (mapper.mapWith inherited none underlying memo).1.problems := rfl

theorem typedefProblems_known {problems : List String}
    (known : memo.typedefs.get? name = some problems) :
    mapper.typedefProblems pending name memo = (problems, memo) := by
  rw [typedefProblems]
  simp only [bind, StateT.bind, get, getThe, MonadStateOf.get, StateT.get, pure, known]
  rfl

theorem typedefProblems_lacking (lacks : memo.typedefs.get? name = none) :
    mapper.typedefProblems pending name memo =
      match mapper.scope.table.typedef? name with
      | none => ([], memo)
      | some underlying =>
        if name ∈ pending then ([], memo)
        else mapper.freshProblems (mapper.typedefProblems (name :: pending)) name underlying memo := by
  rw [typedefProblems]
  simp only [bind, StateT.bind, get, getThe, MonadStateOf.get, StateT.get, pure, lacks]
  by_cases looking : name ∈ pending
  · simp only [looking, dif_pos, if_true]
    split
    · next absent => rw [absent]; rfl
    · next underlying found => rw [found]; rfl
  · simp only [looking, not_false_eq_true, dif_neg, if_false]
    split
    · next absent => rw [absent]; rfl
    · next underlying found => rw [found]; rfl

theorem typedefProblems_absent (lacks : memo.typedefs.get? name = none)
    (absent : mapper.scope.table.typedef? name = none) :
    mapper.typedefProblems pending name memo = ([], memo) := by
  rw [typedefProblems_lacking lacks, absent]

theorem typedefProblems_new (lacks : memo.typedefs.get? name = none)
    (found : mapper.scope.table.typedef? name = some underlying) (new : name ∉ pending) :
    mapper.typedefProblems pending name memo =
      mapper.freshProblems (mapper.typedefProblems (name :: pending)) name underlying memo := by
  rw [typedefProblems_lacking lacks, found]
  exact if_neg new

/-- What is pending does not matter to a typedef from which nothing pending is reached. -/
theorem typedefProblems_apart (acyclic : mapper.scope.table.Acyclic) (name : String)
    (pending : List String)
    (apart : ∀ other ∈ pending, ¬ Relation.ReflTransGen mapper.scope.table.Refers name other) :
    mapper.typedefProblems pending name = mapper.typedefProblems [] name := by
  induction name using acyclic.induction generalizing pending with
  | step name ih =>
    funext memo
    cases known : memo.typedefs.get? name with
    | some problems => rw [typedefProblems_known known, typedefProblems_known known]
    | none =>
      cases found : mapper.scope.table.typedef? name with
      | none => rw [typedefProblems_absent known found, typedefProblems_absent known found]
      | some underlying =>
        have new : name ∉ pending := fun member => apart name member .refl
        have same : mapper.mapWith (mapper.typedefProblems (name :: pending)) none underlying =
            mapper.mapWith (mapper.typedefProblems [name]) none underlying := by
          refine mapWith_congr underlying fun next consults => ?_
          have refers : mapper.scope.table.Refers name next := ⟨underlying, found, consults⟩
          have open' : ∀ other, other = name →
              ¬ Relation.ReflTransGen mapper.scope.table.Refers next other :=
            fun other same back => acyclic name (.head' refers (same ▸ back))
          rw [ih next refers (name :: pending), ih next refers [name]]
          · exact fun other member => open' other (List.mem_singleton.mp member)
          · intro other member
            rcases List.mem_cons.mp member with here | member
            · exact open' other here
            · exact fun back => apart other member (.head refers back)
        rw [typedefProblems_new known found new, typedefProblems_new known found List.not_mem_nil]
        unfold freshProblems
        rw [same]

theorem typedefProblems_eq (acyclic : mapper.scope.table.Acyclic)
    (lacks : memo.typedefs.get? name = none)
    (found : mapper.scope.table.typedef? name = some underlying) :
    mapper.typedefProblems [] name memo =
      mapper.freshProblems (mapper.typedefProblems []) name underlying memo := by
  have same : mapper.mapWith (mapper.typedefProblems [name]) none underlying =
      mapper.mapWith (mapper.typedefProblems []) none underlying := by
    refine mapWith_congr underlying fun next consults => ?_
    refine typedefProblems_apart acyclic next [name] fun other member back => ?_
    cases List.mem_singleton.mp member
    exact acyclic name (.head' ⟨underlying, found, consults⟩ back)
  rw [typedefProblems_new lacks found List.not_mem_nil]
  unfold freshProblems
  rw [same]

end TypeMapper

end CBindings
