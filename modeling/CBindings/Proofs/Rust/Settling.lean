import CBindings.Proofs.Constant.Question
import CBindings.Proofs.Rust.Reference
import CBindings.Proofs.SymbolTable.Emitted

/-! What a mapper has been asked before does not change the problems of a typedef, unless the size of
an array in it leads to a cycle of constants and enums. -/

namespace CBindings

open Relation (ReflTransGen)

namespace CType

mutual

def extents : CType → List Extent
  | named _ => []
  | pointer target _ => extents target
  | array element extent => extent :: extents element
  | function result parameters _ _ => extents result ++ parameterExtents parameters

def parameterExtents : List Parameter → List Extent
  | [] => []
  | (_, type) :: rest => extents type ++ parameterExtents rest

end

end CType

variable {mapper : TypeMapper} {module : Option String} {name : String} {type : CType}
  {t : TypeName} {α : Type} {good : Prop} {inherited : String → MappingM (List String)}

namespace TypeMapper

def FirmExtent (mapper : TypeMapper) (extent : Extent) : Prop :=
  ∀ name ∈ mapper.scope.namesInExtent extent, mapper.scope.Firm mapper.scope.table.symbols name

/-- The same of all arrays in a typedef and in those that it refers to. -/
def FirmTypedef (mapper : TypeMapper) (name : String) : Prop :=
  ∀ next type, ReflTransGen mapper.scope.table.Refers name next →
    mapper.scope.table.typedef? next = some type → ∀ extent ∈ type.extents, mapper.FirmExtent extent

/-- The same of all typedefs in a type. The sizes in the type itself do not count. -/
def Firm (mapper : TypeMapper) (type : CType) : Prop :=
  ∀ name, mapper.scope.table.Consults type.names name → mapper.FirmTypedef name

theorem FirmTypedef.of_refers {next : String} (firm : mapper.FirmTypedef name)
    (refers : mapper.scope.table.Refers name next) : mapper.FirmTypedef next :=
  fun other type way => firm other type (.head refers way)

theorem Firm.of_mem (firm : mapper.Firm type) (member : t ∈ type.names) :
    mapper.Firm (.named t) := by
  rintro name ⟨other, listed, reference⟩
  cases List.mem_singleton.mp listed
  exact firm name ⟨t, member, reference⟩

end TypeMapper

open TypeMapper

/-- A memo knows what a mapper finds that has been asked nothing before. -/
structure MappingMemo.Faithful (mapper : TypeMapper) (memo : MappingMemo) : Prop where
  constants : mapper.scope.Faithful mapper.scope.table.symbols [] memo.constants
  typedefs : ∀ name problems, memo.typedefs.get? name = some problems → mapper.FirmTypedef name →
    problems = (mapper.typedefProblems [] name {}).1

namespace TypeMapper

open MappingMemo (Faithful)

theorem faithful_empty (mapper : TypeMapper) : Faithful mapper {} :=
  ⟨.empty [], fun _ _ known => (by cases known)⟩

theorem constants_ensures {x : Remembering α} {ok : α → Prop}
    (ensures : Ensures (mapper.scope.Faithful mapper.scope.table.symbols []) x ok) :
    Ensures (Faithful mapper) (MappingM.constants x) ok := by
  intro memo faithful
  obtain ⟨fine, still⟩ := ensures memo.constants faithful.constants
  exact ⟨fine, still, faithful.typedefs⟩

mutual

theorem mapWith_fresh (listed : Symbol.Listed mapper.scope.table.symbols mapper.scope.table) :
    (type : CType) →
    (good → ∀ extent ∈ type.extents, mapper.FirmExtent extent) →
    (∀ name, mapper.scope.table.Consults type.names name → Ensures (Faithful mapper)
      (inherited name) fun result => good → result = (inherited name {}).1) →
    Ensures (Faithful mapper) (mapper.mapWith inherited module type) fun result =>
      good → result = (mapper.mapWith inherited module type {}).1
  | .named t, _, inherits => by
    rw [mapWith_named]
    rcases named_cases mapper t with ⟨consults, typedef⟩ | fixed
    · rw [typedef]
      exact (inherits _ consults).mapFresh _ (faithful_empty mapper)
    · rw [fixed]
      exact .pure fun _ => rfl
  | .pointer target qualifiers, firm, inherits => by
    rw [mapWith_pointer]
    exact (mapWith_fresh listed target firm inherits).mapFresh _ (faithful_empty mapper)
  | .array element extent, firm, inherits => by
    have elements := mapWith_fresh listed element
      (fun isGood other member => firm isGood other (List.mem_cons_of_mem _ member)) inherits
    have length := constants_ensures ((ConstantScope.evaluateExtent_fresh listed extent).mono
      fun _ right isGood => right (firm isGood extent List.mem_cons_self))
    rw [mapWith]
    refine elements.bindFresh (faithful_empty mapper) fun element => ?_
    exact length.bindFresh (faithful_empty mapper) fun length => .pure fun _ => rfl
  | .function result parameters variadic convention, firm, inherits => by
    have others := mapParameters_fresh listed parameters
      (fun isGood other member => firm isGood other (List.mem_append_right _ member))
      fun name consults => inherits name (consults.append_right _)
    rw [mapWith]
    refine others.bindFresh (faithful_empty mapper) fun parameters => ?_
    split
    · exact .pure fun _ => rfl
    · have results := mapWith_fresh listed result
        (fun isGood other member => firm isGood other (List.mem_append_left _ member))
        fun name consults => inherits name (consults.append_left _)
      exact results.bindFresh (faithful_empty mapper) fun result => .pure fun _ => rfl

theorem mapParameters_fresh (listed : Symbol.Listed mapper.scope.table.symbols mapper.scope.table) :
    (parameters : List Parameter) →
    (good → ∀ extent ∈ CType.parameterExtents parameters, mapper.FirmExtent extent) →
    (∀ name, mapper.scope.table.Consults (CType.parameterNames parameters) name →
      Ensures (Faithful mapper) (inherited name) fun result =>
        good → result = (inherited name {}).1) →
    Ensures (Faithful mapper) (mapper.mapParameters inherited module parameters) fun result =>
      good → result = (mapper.mapParameters inherited module parameters {}).1
  | [], _, _ => by
    rw [mapParameters]
    exact .pure fun _ => rfl
  | (_, type) :: rest, firm, inherits => by
    have here := mapWith_fresh listed type
      (fun isGood other member => firm isGood other (List.mem_append_left _ member))
      fun name consults => inherits name (consults.append_left _)
    have later := mapParameters_fresh listed rest
      (fun isGood other member => firm isGood other (List.mem_append_right _ member))
      fun name consults => inherits name (consults.append_right _)
    rw [mapParameters]
    refine here.bindFresh (faithful_empty mapper) fun first => ?_
    exact later.bindFresh (faithful_empty mapper) fun rest => .pure fun _ => rfl

end

section

variable (listed : Symbol.Listed mapper.scope.table.symbols mapper.scope.table)
  (acyclic : mapper.scope.table.Acyclic)

include listed acyclic

theorem typedefProblems_fresh (name : String) :
    Ensures (Faithful mapper) (mapper.typedefProblems [] name) fun result =>
      mapper.FirmTypedef name → result = (mapper.typedefProblems [] name {}).1 := by
  induction name using acyclic.induction with
  | step name ih =>
    intro memo faithful
    cases known : memo.typedefs.get? name with
    | some problems =>
      rw [typedefProblems_known known]
      exact ⟨faithful.typedefs name problems known, faithful⟩
    | none =>
      cases found : mapper.scope.table.typedef? name with
      | none =>
        rw [typedefProblems_absent known found, typedefProblems_absent rfl found]
        exact ⟨fun _ => rfl, faithful⟩
      | some underlying =>
        have inner : Ensures (Faithful mapper)
            (mapper.mapWith (mapper.typedefProblems []) none underlying) fun result =>
              mapper.FirmTypedef name →
                result = (mapper.mapWith (mapper.typedefProblems []) none underlying {}).1 := by
          refine mapWith_fresh listed underlying (fun firm => firm name underlying .refl found) ?_
          intro next consults
          have refers : mapper.scope.table.Refers name next := ⟨underlying, found, consults⟩
          exact (ih next refers).mono fun _ right firm => right (firm.of_refers refers)
        obtain ⟨right, still⟩ := inner memo faithful
        have settled : mapper.FirmTypedef name →
            (mapper.mapWith (mapper.typedefProblems []) none underlying memo).1.problems =
              (mapper.typedefProblems [] name {}).1 := by
          intro firm
          rw [right firm, typedefProblems_eq acyclic rfl found, freshProblems_fst]
        rw [typedefProblems_eq acyclic known found]
        refine ⟨settled, still.constants, fun other problems entry => ?_⟩
        by_cases same : other = name
        · subst same
          cases (OrderedMap.get?_insert_self _ _ _).symm.trans entry
          exact settled
        · exact still.typedefs other problems ((OrderedMap.get?_insert_ne _ _ same).symm.trans entry)

theorem map_fresh (module : Option String) (type : CType) :
    Ensures (Faithful mapper) (mapper.map module type) fun result =>
      (mapper.Firm type ∧ ∀ extent ∈ type.extents, mapper.FirmExtent extent) →
        result = (mapper.map module type {}).1 := by
  refine mapWith_fresh listed type And.right fun name consults => ?_
  exact (typedefProblems_fresh listed acyclic name).mono fun _ right firm =>
    right (firm.1 name consults)

theorem Leads.faithful {memo : MappingMemo} (leads : Leads mapper {} memo) :
    Faithful mapper memo := by
  induction leads with
  | start => exact faithful_empty mapper
  | map before module type ih => exact (map_fresh listed acyclic module type _ ih).2
  | constant before name ih =>
    exact (constants_ensures (ConstantScope.evaluateConstant_ensures listed name) _ ih).2
  | enum before member ih =>
    exact (constants_ensures (ConstantScope.evaluateEnum_ensures listed member) _ ih).2
  | tokens before tokens ih =>
    exact (constants_ensures (ConstantScope.evaluate_fresh listed tokens) _ ih).2

end

end TypeMapper

end CBindings
