import CBindings.Proofs.CType.Expansion
import CBindings.Proofs.Rust.Reference

/-! Rust types in parts, and the one that a mapper writes for a C type. -/

namespace CBindings

/-- A Rust type as a module writes it. A path without an owner is a name of the module itself or one
of Rust's own types. The unit is the result of a function that has none. -/
inductive RustType where
  | unit
  | path (owner : Option String) (name : String)
  | pointer (toConst : Bool) (target : RustType)
  | array (element : RustType) (length : Int)
  | function (abi : String) (parameters : List RustType) (variadic : Bool) (result : RustType)
  deriving Repr

namespace RustType

def isUnit : RustType → Bool
  | unit => true
  | _ => false

def isArray : RustType → Bool
  | array .. => true
  | _ => false

def pathText (owner : Option String) (name : String) : String :=
  match owner with
  | none => name
  | some owner => "super::" ++ owner ++ "::" ++ name

def pointerText (toConst : Bool) (target : String) : String :=
  (if toConst then "*const " else "*mut ") ++ target

def arrayText (element : String) (length : Int) : String :=
  "[" ++ element ++ "; " ++ toString length ++ "]"

def functionText (abi : String) (parameters : List String) (variadic : Bool)
    (arrow : String) : String :=
  "Option<unsafe extern \"" ++ abi ++ "\" fn(" ++
    ", ".intercalate (parameters ++ if variadic then ["..."] else []) ++ ")" ++ arrow ++ ">"

mutual

def text : RustType → String
  | unit => ""
  | path owner name => pathText owner name
  | pointer toConst target => pointerText toConst (text target)
  | array element length => arrayText (text element) length
  | function abi parameters variadic result =>
    functionText abi (texts parameters) variadic
      (if result.isUnit then "" else " -> " ++ text result)

def texts : List RustType → List String
  | [] => []
  | type :: rest => text type :: texts rest

end

mutual

def mutable : RustType → RustType
  | unit => unit
  | path owner name => path owner name
  | pointer _ target => pointer false (mutable target)
  | array element length => array (mutable element) length
  | function abi parameters variadic result =>
    function abi (mutableAll parameters) variadic (mutable result)

def mutableAll : List RustType → List RustType
  | [] => []
  | type :: rest => mutable type :: mutableAll rest

end

theorem texts_eq_map (types : List RustType) : texts types = types.map text := by
  induction types with
  | nil => rfl
  | cons type rest ih => rw [texts, ih, List.map_cons]

theorem mutableAll_eq_map (types : List RustType) : mutableAll types = types.map mutable := by
  induction types with
  | nil => rfl
  | cons type rest ih => rw [mutableAll, ih, List.map_cons]

@[simp] theorem isUnit_mutable (type : RustType) : type.mutable.isUnit = type.isUnit := by
  cases type <;> rfl

@[simp] theorem isArray_mutable (type : RustType) : type.mutable.isArray = type.isArray := by
  cases type <;> rfl

end RustType

namespace TypeMapper

open SymbolTable

variable {mapper : TypeMapper} {memo : MappingMemo} {module : Option String} {t : TypeName}
  {type : CType}

def pathTo (mapper : TypeMapper) (qualifiedName : String) (module : Option String) : RustType :=
  .path ((mapper.moduleOf qualifiedName).filter fun owner => some owner ≠ module)
    (Rust.declaredName qualifiedName)

theorem pathTo_owned {qualifiedName owner : String}
    (owned : mapper.moduleOf qualifiedName = some owner) (module : String) :
    mapper.pathTo qualifiedName (some module) =
      .path (if owner = module then none else some owner) (Rust.declaredName qualifiedName) := by
  rw [pathTo, owned, Option.filter_some]
  by_cases here : owner = module
  · rw [if_pos here, if_neg (by simp [here])]
  · rw [if_neg here, if_pos (by simp [here])]

theorem pathTo_text (qualifiedName : String) (module : Option String) :
    (mapper.pathTo qualifiedName module).text = mapper.reference qualifiedName module := by
  unfold pathTo reference
  cases mapper.moduleOf qualifiedName with
  | none => rfl
  | some owner =>
    by_cases here : some owner = module
    · rw [Option.filter_some, if_neg (by simpa using here), RustType.text, RustType.pathText]
      exact (if_pos here).symm
    · rw [Option.filter_some, if_pos (by simpa using here), RustType.text, RustType.pathText]
      exact (if_neg here).symm

def writtenUndeclared (mapper : TypeMapper) (t : TypeName) : RustType :=
  if t.kind = .typedef ∧ t.name = some "va_list" then .pointer false (.path none voidType)
  else .path none (mapper.undeclared t).text

def writtenName (mapper : TypeMapper) (module : Option String) (t : TypeName) : RustType :=
  match t.kind with
  | .primitive => .path none (mapper.primitive t.spelling).text
  | _ =>
    if (mapper.scope.table.get? t.qualifiedName).isSome then
      mapper.pathTo t.qualifiedName module
    else mapper.writtenUndeclared t

def lengthOf (extent : Extent) (length : Option Int) : Int :=
  match extent, length with
  | .flexible, _ => 0
  | _, some n => n
  | .count n, none => n
  | .text _, none => 0

def lengthAt (mapper : TypeMapper) (memo : MappingMemo) (extent : Extent) : Int :=
  lengthOf extent (MappingM.constants (mapper.scope.evaluateExtent extent) memo).1

def pointing (mapper : TypeMapper) (target : CType) (inner : RustType) : RustType :=
  match target with
  | .function .. => inner
  | .named t =>
    if isFunctionTypedef mapper.scope.table [] t then inner else .pointer (isConst target) inner
  | _ => .pointer (isConst target) inner

mutual

/-- The type that is written for a C type when a memo has all the answers. -/
def written (mapper : TypeMapper) (memo : MappingMemo) (module : Option String) : CType → RustType
  | .named t => mapper.writtenName module t
  | .pointer target _ => mapper.pointing target (mapper.written memo module target)
  | .array element extent => .array (mapper.written memo module element) (mapper.lengthAt memo extent)
  | .function result parameters variadic convention =>
    .function (Rust.abi convention) (mapper.writtenAll memo module parameters) variadic
      (if result.isVoid then .unit else mapper.written memo module result)

def writtenAll (mapper : TypeMapper) (memo : MappingMemo) (module : Option String) :
    List (Option String × CType) → List RustType
  | [] => []
  | (_, type) :: rest => mapper.written memo module type :: mapper.writtenAll memo module rest

end

mutual

def Settled (mapper : TypeMapper) (memo : MappingMemo) : CType → Prop
  | .named t => (mapper.mapName none t memo).1.problems = [] ∧ (mapper.mapName none t memo).2 = memo
  | .pointer target _ => mapper.Settled memo target
  | .array element extent =>
    mapper.Settled memo element ∧ ∃ length,
      MappingM.constants (mapper.scope.evaluateExtent extent) memo = (length, memo) ∧
        extentProblems extent length = []
  | .function result parameters _ _ =>
    mapper.AllSettled memo parameters ∧ (result.isVoid = true ∨ mapper.Settled memo result)

def AllSettled (mapper : TypeMapper) (memo : MappingMemo) : List (Option String × CType) → Prop
  | [] => True
  | (_, type) :: rest => mapper.Settled memo type ∧ mapper.AllSettled memo rest

end

theorem writtenAll_eq_map (parameters : List Parameter) :
    mapper.writtenAll memo module parameters =
      parameters.map fun parameter => mapper.written memo module parameter.2 := by
  induction parameters with
  | nil => rfl
  | cons first rest ih => rw [writtenAll, ih, List.map_cons]

theorem allSettled_iff (parameters : List Parameter) :
    mapper.AllSettled memo parameters ↔
      ∀ parameter ∈ parameters, mapper.Settled memo parameter.2 := by
  induction parameters with
  | nil => simp [AllSettled]
  | cons first rest ih => rw [AllSettled, ih, List.forall_mem_cons]

/-! ### Names -/

theorem writtenName_undeclared (module : Option String)
    (absent : mapper.scope.table.get? t.qualifiedName = none) (reference : t.IsReference) :
    mapper.writtenName module t = mapper.writtenUndeclared t := by
  unfold writtenName
  split
  · next primitive => exact absurd primitive reference.1
  · rw [absent]
    rfl

theorem writtenUndeclared_text (t : TypeName) :
    (mapper.writtenUndeclared t).text = (mapper.undeclared t).text := by
  unfold writtenUndeclared undeclared
  split
  · next list =>
    rw [if_pos list.1, if_pos list.2]
    rfl
  · rfl

theorem declared_written (module : Option String) {symbol : Symbol}
    (entry : mapper.scope.table.get? t.qualifiedName = some symbol) (reference : t.IsReference) :
    mapper.writtenName module t = mapper.pathTo t.qualifiedName module := by
  unfold writtenName
  split
  · next primitive => exact absurd primitive reference.1
  · rw [entry]
    rfl

/-- A name that is no typedef of the table, if it has no problems for one module. -/
theorem fixed_written {other : Option String} (ok : (mapper.fixed other t).problems = [])
    (module : Option String) : mapper.fixed module t = ⟨(mapper.writtenName module t).text, []⟩ := by
  by_cases reference : t.IsReference
  · rw [fixed_reference reference] at ok ⊢
    cases entry : mapper.scope.table.get? t.qualifiedName with
    | none =>
      rw [entry] at ok
      rw [writtenName_undeclared module entry reference, writtenUndeclared_text]
      change (mapper.undeclared t).problems = [] at ok
      change mapper.undeclared t = _
      rw [← ok]
    | some symbol =>
      rw [entry, Option.map_some] at ok
      rw [declared_written module entry reference, pathTo_text, Option.map_some]
      split
      · next union =>
        rw [Option.some.inj union] at ok
        cases ok
      · rfl
      · next absent => cases absent
  · unfold fixed at ok ⊢
    unfold writtenName
    split at ok
    · next primitive =>
      simp only [primitive]
      change (mapper.primitive t.spelling).problems = [] at ok
      rw [RustType.text, RustType.pathText, ← ok]
    · cases ok
    · next primitive union => exact absurd ⟨primitive, union⟩ reference

theorem mapName_settled (settled : mapper.Settled memo (.named t)) (module : Option String) :
    mapper.mapName module t memo = (⟨(mapper.writtenName module t).text, []⟩, memo) := by
  obtain ⟨ok, still⟩ := settled
  unfold mapName at ok still ⊢
  rcases named_cases mapper t with ⟨consults, typedef⟩ | fixed
  · rw [typedef] at ok still ⊢
    obtain ⟨other, member, reference, -, underlying, found⟩ := consults
    cases List.mem_singleton.mp member
    obtain ⟨symbol, name, entry, -⟩ := typedef?_eq_some.mp found
    change (mapper.passedOn none t.qualifiedName
      (mapper.typedefProblems [] t.qualifiedName memo).1).problems = [] at ok
    change (mapper.typedefProblems [] t.qualifiedName memo).2 = memo at still
    change (mapper.passedOn module t.qualifiedName
      (mapper.typedefProblems [] t.qualifiedName memo).1,
        (mapper.typedefProblems [] t.qualifiedName memo).2) = _
    have nothing := List.map_eq_nil_iff.mp ((passedOn_problems _ _).symm.trans ok)
    rw [nothing, still, declared_written module entry reference, pathTo_text]
    rfl
  · rw [fixed] at ok ⊢
    exact congrArg (·, memo) (fixed_written ok module)

theorem typedefProblems_of_settled (settled : mapper.Settled memo (.named t))
    (reference : t.IsReference) {underlying : CType}
    (found : mapper.scope.table.typedef? t.qualifiedName = some underlying) :
    (mapper.typedefProblems [] t.qualifiedName memo).1 = [] := by
  obtain ⟨ok, -⟩ := settled
  unfold mapName at ok
  rw [named_typedef reference found] at ok
  exact List.map_eq_nil_iff.mp ((passedOn_problems _ _).symm.trans ok)

/-! ### Whole types -/

theorem pointerTo_written (target : CType) (inner : RustType) :
    mapper.pointerTo target ⟨inner.text, []⟩ = ⟨(mapper.pointing target inner).text, []⟩ := by
  have star : starred target ⟨inner.text, []⟩ =
      ⟨(RustType.pointer (isConst target) inner).text, []⟩ := rfl
  cases target with
  | function result parameters variadic convention => rfl
  | pointer inner' others => exact star
  | array element extent => exact star
  | named t =>
    unfold pointerTo pointing
    simp only
    split
    · rfl
    · exact star

theorem sized_written {extent : Extent} {length : Option Int}
    (ok : extentProblems extent length = []) (element : RustType) :
    sized ⟨element.text, []⟩ extent length =
      ⟨(RustType.array element (lengthOf extent length)).text, []⟩ := by
  cases extent with
  | flexible => cases length <;> rfl
  | count n => cases length <;> rfl
  | text expression =>
    cases length with
    | some n => rfl
    | none => cases ok

theorem isUnit_writtenName (module : Option String) (t : TypeName) :
    (mapper.writtenName module t).isUnit = false := by
  unfold writtenName writtenUndeclared
  split
  · rfl
  · split
    · rfl
    · split
      · rfl
      · rfl

theorem isArray_writtenName (module : Option String) (t : TypeName) :
    (mapper.writtenName module t).isArray = false := by
  unfold writtenName writtenUndeclared
  split
  · rfl
  · split
    · rfl
    · split
      · rfl
      · rfl

theorem isUnit_written (module : Option String) (type : CType) :
    (mapper.written memo module type).isUnit = false := by
  cases type with
  | named t =>
    rw [written]
    exact isUnit_writtenName module t
  | pointer target qualifiers =>
    cases target with
    | function result parameters variadic convention => rfl
    | pointer inner' others => rfl
    | array element extent => rfl
    | named t =>
      simp only [written, pointing]
      split
      · exact isUnit_writtenName module t
      · rfl
  | array element extent => rfl
  | function result parameters variadic convention => rfl

theorem signature_written (convention : Option String) (parameters : List RustType)
    (variadic : Bool) (result : RustType) (mapped : Option Mapping)
    (returned : mapped = if result.isUnit then none else some ⟨result.text, []⟩) :
    signature convention (parameters.map fun type => ⟨type.text, []⟩) variadic mapped =
      ⟨(RustType.function (Rust.abi convention) parameters variadic result).text, []⟩ := by
  have texts : (parameters.map fun type => (⟨type.text, []⟩ : Mapping)).map Mapping.text =
      RustType.texts parameters := by
    rw [RustType.texts_eq_map, List.map_map]
    rfl
  have fine : (parameters.map fun type => (⟨type.text, []⟩ : Mapping)).flatMap Mapping.problems =
      [] := by
    rw [List.flatMap_map]
    exact List.flatMap_eq_nil_iff.mpr fun _ _ => rfl
  subst returned
  unfold signature
  rw [texts, fine, RustType.text]
  unfold RustType.functionText
  cases unit : result.isUnit with
  | true => rfl
  | false => rfl

theorem mapAll_cons (first : Parameter) (rest : List Parameter) :
    mapper.mapAll module (first :: rest) =
      mapper.map module first.2 >>= fun mapping => (mapping :: ·) <$> mapper.mapAll module rest := by
  simp only [mapAll, mapParameters, map, map_eq_pure_bind]

theorem mapAll_settled {parameters : List Parameter}
    (mapped : ∀ parameter ∈ parameters, mapper.map module parameter.2 memo =
      (⟨(mapper.written memo module parameter.2).text, []⟩, memo)) :
    mapper.mapAll module parameters memo =
      ((mapper.writtenAll memo module parameters).map fun type => ⟨type.text, []⟩, memo) := by
  induction parameters with
  | nil => rfl
  | cons first rest ih =>
    have later := ih fun parameter member => mapped parameter (List.mem_cons_of_mem _ member)
    rw [mapAll_cons]
    change ((mapper.map module first.2 memo).1 ::
      (mapper.mapAll module rest (mapper.map module first.2 memo).2).1,
        (mapper.mapAll module rest (mapper.map module first.2 memo).2).2) = _
    rw [mapped first List.mem_cons_self, later]
    rfl

/-- A settled type is mapped to the text of the type that is written for it. -/
theorem map_settled (settled : mapper.Settled memo type) (module : Option String) :
    mapper.map module type memo = (⟨(mapper.written memo module type).text, []⟩, memo) := by
  induction type using CType.induction with
  | named t =>
    have same : mapper.map module (.named t) = mapper.mapName module t := mapWith_named
    rw [same, written]
    exact mapName_settled settled module
  | pointer target qualifiers ih =>
    rw [Settled] at settled
    have inner : mapper.map module (.pointer target qualifiers) =
        mapper.pointerTo target <$> mapper.map module target := mapWith_pointer target qualifiers
    rw [inner, written, ← pointerTo_written]
    exact congrArg (fun done => (mapper.pointerTo target done.1, done.2)) (ih settled)
  | array element extent ih =>
    rw [Settled] at settled
    obtain ⟨element', length, answer, ok⟩ := settled
    rw [map_array]
    change (sized (mapper.map module element memo).1 extent
      (MappingM.constants (mapper.scope.evaluateExtent extent) (mapper.map module element memo).2).1,
        (MappingM.constants (mapper.scope.evaluateExtent extent)
          (mapper.map module element memo).2).2) = _
    rw [ih element', answer, written, lengthAt, answer, sized_written ok]
  | function result parameters variadic convention ih ihs =>
    rw [Settled] at settled
    obtain ⟨parameters', result'⟩ := settled
    have each := (allSettled_iff parameters).mp parameters'
    have all := mapAll_settled fun parameter member => ihs parameter member (each parameter member)
    rw [map_function]
    change mapper.mapSignature module result variadic convention
      (mapper.mapAll module parameters memo).1 (mapper.mapAll module parameters memo).2 = _
    rw [all, written]
    unfold mapSignature
    by_cases void : result.isVoid = true
    · rw [if_pos void, if_pos void]
      exact congrArg (·, memo) (signature_written convention _ variadic .unit none rfl)
    · rw [if_neg void, if_neg void]
      change (signature convention _ variadic (some (mapper.map module result memo).1),
        (mapper.map module result memo).2) = _
      rw [ih (result'.resolve_left void)]
      refine congrArg (·, memo) (signature_written convention _ variadic _ _ ?_)
      rw [isUnit_written]
      rfl

/-! ### What has been mapped is settled -/

theorem allSettled_of_mapAll (acyclic : mapper.scope.table.Acyclic) {parameters : List Parameter}
    (each : ∀ parameter ∈ parameters, ∀ earlier,
      (mapper.map module parameter.2 earlier).2.Extends memo →
        (mapper.map module parameter.2 earlier).1.problems = [] → mapper.Settled memo parameter.2)
    {earlier : MappingMemo} (extends' : (mapper.mapAll module parameters earlier).2.Extends memo)
    (ok : ∀ mapping ∈ (mapper.mapAll module parameters earlier).1, mapping.problems = []) :
    mapper.AllSettled memo parameters := by
  induction parameters generalizing earlier with
  | nil => trivial
  | cons first rest ih =>
    rw [mapAll_cons] at extends' ok
    have early : (mapper.map module first.2 earlier).2.Extends memo :=
      extends_of_bind (fun mapping => (mapAll_steady acyclic rest).map _) extends'
    constructor
    · exact each first List.mem_cons_self earlier early (ok _ List.mem_cons_self)
    · have late : (mapper.mapAll module rest (mapper.map module first.2 earlier).2).2.Extends memo :=
        extends'
      refine ih (fun parameter member => each parameter (List.mem_cons_of_mem _ member)) late ?_
      exact fun mapping member => ok mapping (List.mem_cons_of_mem _ member)

theorem settled_of_map (acyclic : mapper.scope.table.Acyclic)
    (proper : memo.constants.Proper mapper.scope.table) {earlier : MappingMemo}
    (extends' : (mapper.map module type earlier).2.Extends memo)
    (ok : (mapper.map module type earlier).1.problems = []) : mapper.Settled memo type := by
  induction type using CType.induction generalizing earlier with
  | named t =>
    have again := (map_steady acyclic module (.named t)).replays earlier memo proper extends'
    have alike : ((mapper.map none (.named t) memo).1.problems, (mapper.map none (.named t) memo).2) =
        ((mapper.map module (.named t) memo).1.problems, (mapper.map module (.named t) memo).2) :=
      congrFun (mapWith_problems none module (.named t)) memo
    have same : mapper.mapName none t = mapper.map none (.named t) := mapWith_named.symm
    rw [again] at alike
    rw [Settled, same]
    obtain ⟨problems, still⟩ := Prod.mk.inj alike
    exact ⟨problems.trans ok, still⟩
  | pointer target qualifiers ih =>
    have inner : mapper.map module (.pointer target qualifiers) =
        mapper.pointerTo target <$> mapper.map module target := mapWith_pointer target qualifiers
    rw [inner] at extends' ok
    rw [Settled]
    exact ih extends' ((pointerTo_problems target _).symm.trans ok)
  | array element extent ih =>
    rw [map_array] at extends' ok
    have bound : Steady mapper (fun _ => True) (.constants (mapper.scope.evaluateExtent extent)) :=
      .constants (ConstantScope.evaluateExtent_tame extent)
    have early : (mapper.map module element earlier).2.Extends memo :=
      extends_of_bind (fun element => bound.map (sized element extent)) extends'
    obtain ⟨fine, known⟩ := List.append_eq_nil_iff.mp ((sized_problems _ _ _).symm.trans ok)
    rw [Settled]
    exact ⟨ih early fine, _, bound.replays _ memo proper extends', known⟩
  | function result parameters variadic convention ih ihs =>
    rw [map_function] at extends' ok
    have early : (mapper.mapAll module parameters earlier).2.Extends memo :=
      extends_of_bind (mapSignature_steady acyclic result variadic convention) extends'
    obtain ⟨parts, rest⟩ := mapSignature_parts ok
    rw [Settled]
    constructor
    · exact allSettled_of_mapAll acyclic (fun parameter member earlier => ihs parameter member)
        early fun mapping member => (parts mapping member).1
    · rcases rest with void | ⟨same, fine, -⟩
      · exact .inl void
      · exact .inr (ih (same ▸ extends') fine)

end TypeMapper

end CBindings
