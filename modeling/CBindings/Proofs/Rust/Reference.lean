import CBindings.Proofs.Rust.Replay

/-! The names in a type that has been mapped without problems. -/

namespace CBindings

/-- Whether a text is part of another one. -/
def Occurs (part whole : String) : Prop := ∃ before after, whole = before ++ part ++ after

namespace Occurs

variable {part whole : String}

theorem refl (text : String) : Occurs text text := ⟨"", "", by simp⟩

theorem prepend (occurs : Occurs part whole) (text : String) : Occurs part (text ++ whole) := by
  obtain ⟨before, after, rfl⟩ := occurs
  exact ⟨text ++ before, after, by simp only [String.append_assoc]⟩

theorem append (occurs : Occurs part whole) (text : String) : Occurs part (whole ++ text) := by
  obtain ⟨before, after, rfl⟩ := occurs
  exact ⟨before, after ++ text, by simp only [String.append_assoc]⟩

theorem intercalate {texts : List String} (occurs : Occurs part whole) (member : whole ∈ texts)
    (separator : String) : Occurs part (separator.intercalate texts) := by
  induction texts with
  | nil => cases member
  | cons first rest ih =>
    rcases List.mem_cons.mp member with rfl | later
    · cases rest with
      | nil => simpa using occurs
      | cons second others =>
        rw [String.intercalate_cons_cons]
        exact (occurs.append _).append _
    · rw [String.intercalate_cons_of_ne_nil (List.ne_nil_of_mem later)]
      exact (ih later).prepend _

end Occurs

namespace TypeMapper

open SymbolTable

variable {mapper : TypeMapper} {module : Option String} {type : CType} {t : TypeName}
  {memo later : MappingMemo}

def mapName (mapper : TypeMapper) (module : Option String) (t : TypeName) : MappingM Mapping :=
  mapper.named (mapper.typedefProblems []) module t

theorem mapName_steady (acyclic : mapper.scope.table.Acyclic) (module : Option String)
    (t : TypeName) : Steady mapper (fun _ => True) (mapper.mapName module t) := by
  have steady := map_steady acyclic module (.named t)
  unfold map at steady
  rwa [mapWith_named] at steady

structure Renders (mapper : TypeMapper) (module : Option String) (t : TypeName)
    (memo : MappingMemo) (text : String) : Prop where
  isOk : (mapper.mapName module t memo).1.problems = []
  occurs : Occurs (mapper.mapName module t memo).1.text text

theorem Renders.within {text whole : String} (renders : mapper.Renders module t memo text)
    (grows : ∀ part, Occurs part text → Occurs part whole) : mapper.Renders module t memo whole :=
  ⟨renders.isOk, grows _ renders.occurs⟩

theorem pointerTo_occurs {part : String} (target : CType) {inner : Mapping}
    (occurs : Occurs part inner.text) : Occurs part (mapper.pointerTo target inner).text := by
  have star : Occurs part (starred target inner).text := occurs.prepend _
  unfold pointerTo
  split
  · exact occurs
  · split
    · exact occurs
    · exact star
  · exact star

theorem sized_occurs {part : String} {element : Mapping} (occurs : Occurs part element.text)
    (extent : Extent) (length : Option Int) : Occurs part (sized element extent length).text := by
  have bracketed : ∀ size : String, Occurs part ("[" ++ element.text ++ "; " ++ size ++ "]") :=
    fun size => (((occurs.prepend _).append _).append _).append _
  unfold sized
  split
  · exact bracketed _
  · exact bracketed _
  · exact bracketed _
  · exact bracketed _

theorem signature_occurs_parameter {part : String} {parameter : Mapping}
    {parameters : List Mapping} (occurs : Occurs part parameter.text)
    (member : parameter ∈ parameters) (convention : Option String) (variadic : Bool)
    (result : Option Mapping) :
    Occurs part (signature convention parameters variadic result).text := by
  have listed : parameter.text ∈
      parameters.map Mapping.text ++ (if variadic then ["..."] else []) :=
    List.mem_append_left _ (List.mem_map_of_mem member)
  exact ((((occurs.intercalate listed ", ").prepend _).append _).append _).append _

theorem signature_occurs_result {part : String} {result : Mapping}
    (occurs : Occurs part result.text) (convention : Option String) (variadic : Bool)
    (parameters : List Mapping) :
    Occurs part (signature convention parameters variadic (some result)).text :=
  ((occurs.prepend _).prepend _).append _

/-- What is known when a part of a type has been mapped is known when all of it has been. -/
theorem extends_of_bind {α β : Type} {x : MappingM α} {f : α → MappingM β}
    (second : ∀ a, Steady mapper (fun _ => True) (f a))
    (extends' : ((x >>= f) memo).2.Extends later) : (x memo).2.Extends later := by
  have adds := ((second (x memo).1).gains (x memo).2).adds
  exact adds.trans extends'

def mapAll (mapper : TypeMapper) (module : Option String) (parameters : List Parameter) :
    MappingM (List Mapping) :=
  mapper.mapParameters (mapper.typedefProblems []) module parameters

theorem mapAll_steady (acyclic : mapper.scope.table.Acyclic) (parameters : List Parameter) :
    Steady mapper (fun _ => True) (mapper.mapAll module parameters) :=
  mapParameters_steady parameters (consulted_steady acyclic)

def mapSignature (mapper : TypeMapper) (module : Option String) (result : CType) (variadic : Bool)
    (convention : Option String) (parameters : List Mapping) : MappingM Mapping :=
  if result.isVoid then return signature convention parameters variadic none
  else return signature convention parameters variadic (some (← mapper.map module result))

theorem mapSignature_cases (mapper : TypeMapper) (module : Option String) (result : CType)
    (variadic : Bool) (convention : Option String) (parameters : List Mapping) :
    (result.isVoid = true ∧ mapper.mapSignature module result variadic convention parameters =
      pure (signature convention parameters variadic none)) ∨
    mapper.mapSignature module result variadic convention parameters =
      (fun result => signature convention parameters variadic (some result)) <$>
        mapper.map module result := by
  unfold mapSignature
  by_cases void : result.isVoid = true
  · exact .inl ⟨void, if_pos void⟩
  · right
    rw [if_neg void, map_eq_pure_bind]

theorem mapSignature_steady (acyclic : mapper.scope.table.Acyclic) (result : CType)
    (variadic : Bool) (convention : Option String) (parameters : List Mapping) :
    Steady mapper (fun _ => True)
      (mapper.mapSignature module result variadic convention parameters) := by
  rcases mapSignature_cases mapper module result variadic convention parameters with
    ⟨-, closed⟩ | ends
  · rw [closed]
    exact .pure _
  · rw [ends]
    exact (map_steady acyclic module result).map _

theorem signature_isOk {convention : Option String} {parameters : List Mapping} {variadic : Bool}
    {result : Option Mapping}
    (ok : (signature convention parameters variadic result).problems = []) :
    (∀ parameter ∈ parameters, parameter.problems = []) ∧
      ∀ mapping, result = some mapping → mapping.problems = [] := by
  rw [signature_problems, List.append_eq_nil_iff] at ok
  obtain ⟨parts, rest⟩ := ok
  constructor
  · intro parameter member
    exact List.flatten_eq_nil_iff.mp parts _ (List.mem_map_of_mem member)
  · intro mapping same
    subst same
    exact rest

/-- What has no problems as a whole has none in its parts, and holds their texts. -/
theorem mapSignature_parts {result : CType} {variadic : Bool} {convention : Option String}
    {parameters : List Mapping}
    (ok : (mapper.mapSignature module result variadic convention parameters memo).1.problems = []) :
    (∀ parameter ∈ parameters, parameter.problems = [] ∧ ∀ part, Occurs part parameter.text →
      Occurs part (mapper.mapSignature module result variadic convention parameters memo).1.text) ∧
    (result.isVoid = true ∨
      (mapper.mapSignature module result variadic convention parameters memo).2 =
        (mapper.map module result memo).2 ∧
      (mapper.map module result memo).1.problems = [] ∧
      ∀ part, Occurs part (mapper.map module result memo).1.text →
        Occurs part (mapper.mapSignature module result variadic convention parameters memo).1.text) := by
  rcases mapSignature_cases mapper module result variadic convention parameters with
    ⟨void, closed⟩ | ends
  · have whole : mapper.mapSignature module result variadic convention parameters memo =
        (signature convention parameters variadic none, memo) := congrFun closed memo
    rw [whole] at ok ⊢
    have fine : (signature convention parameters variadic none).problems = [] := ok
    have parts := (signature_isOk fine).1
    refine ⟨fun parameter member => ⟨parts parameter member, ?_⟩, .inl void⟩
    intro part occurs
    exact signature_occurs_parameter occurs member convention variadic none
  · have whole : mapper.mapSignature module result variadic convention parameters memo =
        (signature convention parameters variadic (some (mapper.map module result memo).1),
          (mapper.map module result memo).2) := congrFun ends memo
    rw [whole] at ok ⊢
    generalize mapper.map module result memo = done at ok ⊢
    have fine : (signature convention parameters variadic (some done.1)).problems = [] := ok
    obtain ⟨parts, rest⟩ := signature_isOk fine
    refine ⟨fun parameter member => ⟨parts parameter member, ?_⟩, .inr ⟨rfl, rest done.1 rfl, ?_⟩⟩
    · intro part occurs
      exact signature_occurs_parameter occurs member convention variadic (some done.1)
    · intro part occurs
      exact signature_occurs_result occurs convention variadic parameters

theorem map_function (result : CType) (parameters : List Parameter) (variadic : Bool)
    (convention : Option String) :
    mapper.map module (.function result parameters variadic convention) =
      mapper.mapAll module parameters >>=
        mapper.mapSignature module result variadic convention := by
  simp only [map, mapWith, mapAll]
  congr 1

theorem map_array (element : CType) (extent : Extent) :
    mapper.map module (.array element extent) =
      mapper.map module element >>= fun element =>
        sized element extent <$> .constants (mapper.scope.evaluateExtent extent) := by
  simp only [map, mapWith, map_eq_pure_bind]

theorem not_reference_of_void {result : CType} (void : result.isVoid = true)
    (member : t ∈ result.names) : ¬ t.IsReference := by
  intro reference
  cases result with
  | named other =>
    simp only [CType.isVoid, Bool.and_eq_true, decide_eq_true_eq] at void
    cases List.mem_singleton.mp member
    exact reference.1 void.1
  | pointer target qualifiers => cases void
  | array element extent => cases void
  | function result parameters variadic convention => cases void

mutual

theorem map_renders (acyclic : mapper.scope.table.Acyclic)
    (proper : later.constants.Proper mapper.scope.table) : (type : CType) → (memo : MappingMemo) →
    (mapper.map module type memo).2.Extends later →
    (mapper.map module type memo).1.problems = [] → ∀ t ∈ type.names, t.IsReference →
      mapper.Renders module t later (mapper.map module type memo).1.text
  | .named other, memo, extends', ok, t, member, reference => by
    have here : t = other := List.mem_singleton.mp member
    subst here
    have same : mapper.map module (.named t) = mapper.mapName module t := mapWith_named
    rw [same] at extends' ok ⊢
    have again := (mapName_steady acyclic module t).replays memo later proper extends'
    constructor
    · rw [again]
      exact ok
    · rw [again]
      exact .refl _
  | .pointer target qualifiers, memo, extends', ok, t, member, reference => by
    have inner : mapper.map module (.pointer target qualifiers) =
        mapper.pointerTo target <$> mapper.map module target := mapWith_pointer target qualifiers
    rw [inner] at extends' ok ⊢
    have fine : (mapper.map module target memo).1.problems = [] :=
      (pointerTo_problems target _).symm.trans ok
    have renders := map_renders acyclic proper target memo extends' fine t member reference
    exact renders.within fun part occurs => pointerTo_occurs target occurs
  | .array element extent, memo, extends', ok, t, member, reference => by
    rw [map_array] at extends' ok ⊢
    have bound : Steady mapper (fun _ => True) (.constants (mapper.scope.evaluateExtent extent)) :=
      .constants (ConstantScope.evaluateExtent_tame extent)
    have early : (mapper.map module element memo).2.Extends later :=
      extends_of_bind (fun element => bound.map (sized element extent)) extends'
    have fine : (mapper.map module element memo).1.problems = [] :=
      (List.append_eq_nil_iff.mp ((sized_problems _ _ _).symm.trans ok)).1
    have renders := map_renders acyclic proper element memo early fine t member reference
    exact renders.within fun part occurs => sized_occurs occurs extent _
  | .function result parameters variadic convention, memo, extends', ok, t, member, reference => by
    rw [map_function] at extends' ok ⊢
    have early : (mapper.mapAll module parameters memo).2.Extends later :=
      extends_of_bind (mapSignature_steady acyclic result variadic convention) extends'
    obtain ⟨parts, rest⟩ := mapSignature_parts ok
    rcases List.mem_append.mp member with returned | passed
    · rcases rest with void | ⟨same, fine, holds⟩
      · exact absurd reference (not_reference_of_void void returned)
      · have whole : (mapper.map module result (mapper.mapAll module parameters memo).2).2.Extends
            later := same ▸ extends'
        have renders := map_renders acyclic proper result _ whole fine t returned reference
        exact renders.within holds
    · obtain ⟨parameter, listed, renders⟩ := mapAll_renders acyclic proper parameters memo early
        (fun parameter listed => (parts parameter listed).1) t passed reference
      exact renders.within (parts parameter listed).2

theorem mapAll_renders (acyclic : mapper.scope.table.Acyclic)
    (proper : later.constants.Proper mapper.scope.table) : (parameters : List Parameter) →
    (memo : MappingMemo) → (mapper.mapAll module parameters memo).2.Extends later →
    (∀ parameter ∈ (mapper.mapAll module parameters memo).1, parameter.problems = []) →
    ∀ t ∈ CType.parameterNames parameters, t.IsReference →
      ∃ parameter ∈ (mapper.mapAll module parameters memo).1,
        mapper.Renders module t later parameter.text
  | [], memo, extends', ok, t, member, reference => by cases member
  | (name, type) :: rest, memo, extends', ok, t, member, reference => by
    have split : mapper.mapAll module ((name, type) :: rest) =
        mapper.map module type >>= fun first => (first :: ·) <$> mapper.mapAll module rest := by
      simp only [mapAll, mapParameters, map, map_eq_pure_bind]
    rw [split] at extends' ok ⊢
    have early : (mapper.map module type memo).2.Extends later :=
      extends_of_bind (fun first => (mapAll_steady acyclic rest).map _) extends'
    rcases List.mem_append.mp member with here | there
    · refine ⟨_, List.mem_cons_self, ?_⟩
      exact map_renders acyclic proper type memo early (ok _ List.mem_cons_self) t here reference
    · obtain ⟨parameter, listed, renders⟩ := mapAll_renders acyclic proper rest
        (mapper.map module type memo).2 extends'
        (fun parameter listed => ok parameter (List.mem_cons_of_mem _ listed)) t there reference
      exact ⟨parameter, List.mem_cons_of_mem _ listed, renders⟩

end

/-! ### Names without problems -/

/-- A text for a typedef that needs no declaration: a list of arguments or an integer of its width. -/
def IsWellKnown (target : Target) (t : TypeName) (text : String) : Prop :=
  t.kind = .typedef ∧ (t.name = some "va_list" ∧ text = "*mut " ++ voidType ∨
    ∃ bits signed, target.typedefWidth t.spelling = some (bits, signed) ∧
      text = integerText bits signed)

theorem undeclared_isOk (ok : (mapper.undeclared t).problems = []) :
    IsWellKnown mapper.scope.target t (mapper.undeclared t).text := by
  unfold undeclared at ok ⊢
  split at ok
  · next typedef =>
    rw [if_pos typedef]
    refine ⟨typedef, ?_⟩
    split at ok
    · next list =>
      rw [if_pos list]
      exact .inl ⟨list, rfl⟩
    · next plain =>
      rw [if_neg plain]
      split at ok
      · next bits signed width => exact .inr ⟨bits, signed, width, rfl⟩
      · cases ok
  · cases ok

theorem typedefProblems_remembered (acyclic : mapper.scope.table.Acyclic) {name : String}
    {underlying : CType} (found : mapper.scope.table.typedef? name = some underlying)
    (memo : MappingMemo) :
    (mapper.typedefProblems [] name memo).2.typedefs.get? name =
      some (mapper.typedefProblems [] name memo).1 := by
  cases known : memo.typedefs.get? name with
  | some problems =>
    rw [typedefProblems_known known]
    exact known
  | none =>
    rw [typedefProblems_eq acyclic known found]
    exact freshProblems_remembered _ name underlying memo

/-- The type of a typedef without problems is mapped without problems for any module. -/
theorem underlying_isOk (acyclic : mapper.scope.table.Acyclic) {name : String} {underlying : CType}
    (found : mapper.scope.table.typedef? name = some underlying) (sound : later.Sound mapper)
    (nothing : (mapper.typedefProblems [] name later).1 = [])
    (known : (mapper.map module underlying memo).2.Extends later) :
    (mapper.map module underlying memo).1.problems = [] := by
  -- after asking for the typedef once more its problems are remembered, and rightly so
  have gains := (typedefProblems_steady acyclic name found).gains later
  have remembered := typedefProblems_remembered acyclic found later
  generalize mapper.typedefProblems [] name later = asked at gains remembered nothing
  have sound' : asked.2.Sound mapper := gains.sound sound
  obtain ⟨type, found', holds⟩ := sound'.typedefs name asked.1 remembered
  cases found.symm.trans found'
  have plain := holds asked.2 sound'.constants (.refl asked.2)
  have alike : Mapping.problems <$> mapper.map module underlying =
      Mapping.problems <$> mapper.mapWith (mapper.typedefProblems []) none underlying :=
    mapWith_problems module none underlying
  have again := (map_steady acyclic module underlying).replays memo asked.2 sound'.constants
    (known.trans gains.adds)
  calc (mapper.map module underlying memo).1.problems
      = (mapper.map module underlying asked.2).1.problems := by rw [again]
    _ = (mapper.mapWith (mapper.typedefProblems []) none underlying asked.2).1.problems :=
        congrArg Prod.fst (congrFun alike asked.2)
    _ = [] := plain.trans nothing

end TypeMapper

end CBindings
