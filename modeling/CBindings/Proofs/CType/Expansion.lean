import CBindings.Proofs.CType.Definition
import CBindings.Proofs.Rust.Typedef

/-! C types with the names of typedefs replaced by what they stand for. -/

namespace CBindings

def SymbolTable.underlying? (table : SymbolTable) (t : TypeName) : Option CType :=
  if t.kind = .typedef then table.typedef? t.spelling else none

namespace CType

def qualified (qualifiers : List String) : CType → CType
  | named t => named { t with qualifiers := qualifiers ++ t.qualifiers }
  | pointer target others => pointer target (qualifiers ++ others)
  | array element extent => array (qualified qualifiers element) extent
  | function result parameters variadic convention =>
    function result parameters variadic convention

def isArray : CType → Bool
  | array .. => true
  | _ => false

def isFunction : CType → Bool
  | function .. => true
  | _ => false

@[simp] theorem isArray_qualified (qualifiers : List String) (type : CType) :
    (type.qualified qualifiers).isArray = type.isArray := by
  cases type with
  | named t => rfl
  | pointer target others => rfl
  | array element extent => rfl
  | function result parameters variadic convention => rfl

@[simp] theorem isFunction_qualified (qualifiers : List String) (type : CType) :
    (type.qualified qualifiers).isFunction = type.isFunction := by
  cases type with
  | named t => rfl
  | pointer target others => rfl
  | array element extent => rfl
  | function result parameters variadic convention => rfl

theorem eq_named_of_qualified {qualifiers : List String} {type : CType} {t : TypeName}
    (named : type.qualified qualifiers = .named t) :
    ∃ others, type = .named { t with qualifiers := others } := by
  cases type with
  | named t' =>
    cases named
    exact ⟨t'.qualifiers, rfl⟩
  | pointer target others => cases named
  | array element extent => cases named
  | function result parameters variadic convention => cases named

theorem mem_parameterNames {parameters : List Parameter} {parameter : Parameter} {t : TypeName}
    (member : parameter ∈ parameters) (inside : t ∈ parameter.2.names) :
    t ∈ parameterNames parameters := by
  induction parameters with
  | nil => cases member
  | cons first rest ih =>
    rcases List.mem_cons.mp member with rfl | later
    · exact List.mem_append_left _ inside
    · exact List.mem_append_right _ (ih later)

mutual

def expandedBy (table : SymbolTable) (meaning : String → CType) : CType → CType
  | named t =>
    if (table.underlying? t).isSome then (meaning t.spelling).qualified t.qualifiers else named t
  | pointer target qualifiers => pointer (expandedBy table meaning target) qualifiers
  | array element extent => array (expandedBy table meaning element) extent
  | function result parameters variadic convention =>
    function (expandedBy table meaning result) (expandParameters table meaning parameters) variadic
      convention

def expandParameters (table : SymbolTable) (meaning : String → CType) :
    List (Option String × CType) → List (Option String × CType)
  | [] => []
  | (name, type) :: rest =>
    (name, (expandedBy table meaning type).asParameter) :: expandParameters table meaning rest

end

theorem expandParameters_eq_map (table : SymbolTable) (meaning : String → CType)
    (parameters : List Parameter) :
    expandParameters table meaning parameters = parameters.map fun parameter =>
      (parameter.1, (expandedBy table meaning parameter.2).asParameter) := by
  induction parameters with
  | nil => rfl
  | cons first rest ih => rw [expandParameters, ih, List.map_cons]

end CType

namespace SymbolTable

open CType

variable {table : SymbolTable} {t : TypeName} {underlying : CType}

theorem qualifiedName_of_typedef (typedef : t.kind = .typedef) : t.qualifiedName = t.spelling := by
  simp [TypeName.qualifiedName, typedef, NameKind.isTag]

theorem underlying?_eq_some :
    table.underlying? t = some underlying ↔
      t.kind = .typedef ∧ table.typedef? t.spelling = some underlying := by
  unfold underlying?
  split
  · next typedef => rw [and_iff_right typedef]
  · next other => simp [other]

theorem consults_of_underlying? (found : table.underlying? t = some underlying)
    {references : List TypeName} (member : t ∈ references) :
    table.Consults references t.spelling := by
  obtain ⟨typedef, found'⟩ := underlying?_eq_some.mp found
  have reference : t.IsReference := by simp [TypeName.IsReference, typedef]
  exact ⟨t, member, reference, qualifiedName_of_typedef typedef, underlying, found'⟩

theorem Consults.of_parameter {name : String} {parameter : Parameter}
    (consults : table.Consults parameter.2.names name) {parameters : List Parameter}
    (member : parameter ∈ parameters) {result : CType} :
    table.Consults (result.names ++ parameterNames parameters) name := by
  obtain ⟨t, inside, found⟩ := consults
  exact ⟨t, List.mem_append_right _ (mem_parameterNames member inside), found⟩

theorem expandedBy_congr {first second : String → CType} (type : CType)
    (agree : ∀ name, table.Consults type.names name → first name = second name) :
    type.expandedBy table first = type.expandedBy table second := by
  induction type using CType.induction with
  | named t =>
    simp only [expandedBy]
    split
    · next isTypedef =>
      obtain ⟨underlying, found⟩ := Option.isSome_iff_exists.mp isTypedef
      rw [agree _ (consults_of_underlying? found (List.mem_singleton_self t))]
    · rfl
  | pointer target qualifiers ih => rw [expandedBy, expandedBy, ih agree]
  | array element extent ih => rw [expandedBy, expandedBy, ih agree]
  | function result parameters variadic convention ih ihs =>
    have results := ih fun name consults => agree name (consults.append_left _)
    have others : ∀ parameter ∈ parameters, parameter.2.expandedBy table first =
        parameter.2.expandedBy table second := by
      intro parameter member
      exact ihs parameter member fun name consults => agree name (consults.of_parameter member)
    rw [expandedBy, expandedBy, results, expandParameters_eq_map, expandParameters_eq_map]
    congr 1
    exact List.map_congr_left fun parameter member => by rw [others parameter member]

def definitions (table : SymbolTable) : Definitions String CType CType where
  names := table.names
  find := table.typedef?
  listed _ _ found := mem_names_of_typedef? found
  build _ underlying meaning := underlying.expandedBy table meaning
  leave name := .named ⟨.typedef, some name, []⟩

/-- A type as it is when all typedefs in it are written out. -/
def expand (table : SymbolTable) (type : CType) : CType :=
  type.expandedBy table table.definitions.meaning

theorem Acyclic.founded (acyclic : table.Acyclic) : WellFounded (Function.swap table.Refers) :=
  ⟨fun name => acyclic.induction (fun name accessible => .intro name accessible) name⟩

theorem expand_typedef (acyclic : table.Acyclic) (found : table.underlying? t = some underlying) :
    table.expand (.named t) = (table.expand underlying).qualified t.qualifiers := by
  have typedef : table.typedef? t.spelling = some underlying := (underlying?_eq_some.mp found).2
  have respects : table.definitions.Respects table.Refers := by
    intro name value defined first second agree
    exact expandedBy_congr value fun next consults => agree next ⟨value, defined, consults⟩
  have unfolded := Definitions.meaning_eq acyclic.founded respects typedef
  have isTypedef : (table.underlying? t).isSome = true := by rw [found]; rfl
  rw [expand, expandedBy, if_pos isTypedef, unfolded]
  rfl

theorem expand_plain (plain : table.underlying? t = none) :
    table.expand (.named t) = .named t := by
  rw [expand, expandedBy, plain]
  rfl

theorem exists_plain_of_isVoid (table : SymbolTable) {type : CType} (void : type.isVoid = true) :
    ∃ t, type = .named t ∧ table.underlying? t = none := by
  cases type with
  | named t =>
    simp only [CType.isVoid, Bool.and_eq_true, decide_eq_true_eq] at void
    exact ⟨t, rfl, if_neg (by simp [void.1])⟩
  | pointer target qualifiers => cases void
  | array element extent => cases void
  | function result parameters variadic convention => cases void

@[simp] theorem expand_pointer (target : CType) (qualifiers : List String) :
    table.expand (.pointer target qualifiers) = .pointer (table.expand target) qualifiers := by
  rw [expand, expandedBy, expand]

@[simp] theorem expand_array (element : CType) (extent : Extent) :
    table.expand (.array element extent) = .array (table.expand element) extent := by
  rw [expand, expandedBy, expand]

@[simp] theorem expand_function (result : CType) (parameters : List Parameter) (variadic : Bool)
    (convention : Option String) :
    table.expand (.function result parameters variadic convention) =
      .function (table.expand result)
        (parameters.map fun parameter => (parameter.1, (table.expand parameter.2).asParameter))
        variadic convention := by
  rw [expand, expandedBy, expandParameters_eq_map]
  rfl

theorem Acyclic.type_induction (acyclic : table.Acyclic) {motive : CType → Prop}
    (typedef : ∀ t underlying, table.underlying? t = some underlying → motive underlying →
      motive (.named t))
    (plain : ∀ t, table.underlying? t = none → motive (.named t))
    (pointer : ∀ target qualifiers, motive target → motive (.pointer target qualifiers))
    (array : ∀ element extent, motive element → motive (.array element extent))
    (function : ∀ result parameters variadic convention, motive result →
      (∀ parameter ∈ parameters, motive parameter.2) →
        motive (.function result parameters variadic convention)) (type : CType) :
    motive type := by
  have within : ∀ type : CType, (∀ name, table.Consults type.names name → ∀ underlying,
      table.typedef? name = some underlying → motive underlying) → motive type := by
    intro type known
    induction type using CType.induction with
    | named t =>
      cases found : table.underlying? t with
      | none => exact plain t found
      | some underlying =>
        have consults := consults_of_underlying? found (List.mem_singleton_self t)
        exact typedef t underlying found (known _ consults _ (underlying?_eq_some.mp found).2)
    | pointer target qualifiers ih => exact pointer target qualifiers (ih known)
    | array element extent ih => exact array element extent (ih known)
    | function result parameters variadic convention ih ihs =>
      refine function result parameters variadic convention ?_ fun parameter member => ?_
      · exact ih fun name consults => known name (consults.append_left _)
      · refine ihs parameter member fun name consults => known name ?_
        exact consults.of_parameter member
  have typedefs : ∀ name underlying, table.typedef? name = some underlying → motive underlying := by
    intro name
    induction name using acyclic.induction with
    | step name ih =>
      intro underlying found
      exact within underlying fun next consults => ih next ⟨underlying, found, consults⟩
  exact within type fun name _ underlying found => typedefs name underlying found

/-! ### What is left of names -/

theorem plain_of_expand_eq_named (acyclic : table.Acyclic) {type : CType}
    (named : table.expand type = .named t) : table.underlying? t = none := by
  induction type using acyclic.type_induction generalizing t with
  | typedef other underlying found ih =>
    rw [expand_typedef acyclic found] at named
    obtain ⟨qualifiers, inner⟩ := eq_named_of_qualified named
    exact (ih inner :)
  | plain other plain =>
    rw [expand_plain plain] at named
    cases named
    exact plain
  | pointer target qualifiers ih =>
    rw [expand_pointer] at named
    cases named
  | array element extent ih =>
    rw [expand_array] at named
    cases named
  | function result parameters variadic convention ih ihs =>
    rw [expand_function] at named
    cases named

theorem isFunctionTypedef_plain (plain : table.underlying? t = none) (seen : List String) :
    TypeMapper.isFunctionTypedef table seen t = false := by
  rw [TypeMapper.isFunctionTypedef]
  split
  · rfl
  · next typedef =>
    have absent : table.typedef? t.spelling = none := by
      rwa [underlying?, if_pos (not_not.mp typedef)] at plain
    split
    · rfl
    · split
      · next found => cases absent.symm.trans found
      · next found => cases absent.symm.trans found
      · rfl

theorem isFunctionTypedef_typedef (found : table.underlying? t = some underlying)
    {seen : List String} (new : t.spelling ∉ seen) :
    TypeMapper.isFunctionTypedef table seen t =
      match underlying with
      | .function .. => true
      | .named next => TypeMapper.isFunctionTypedef table (t.spelling :: seen) next
      | _ => false := by
  obtain ⟨typedef, found'⟩ := underlying?_eq_some.mp found
  rw [TypeMapper.isFunctionTypedef, if_neg (not_not.mpr typedef), dif_neg new]
  split
  · next function =>
    cases found'.symm.trans function
    rfl
  · next named =>
    cases found'.symm.trans named
    rfl
  · next functions names =>
    cases underlying with
    | named next => exact absurd found' (names _)
    | function result parameters variadic convention => exact absurd found' (functions _ _ _ _)
    | pointer target qualifiers => rfl
    | array element extent => rfl

theorem isFunctionTypedef_eq (acyclic : table.Acyclic) (t : TypeName) :
    TypeMapper.isFunctionTypedef table [] t = (table.expand (.named t)).isFunction := by
  suffices apart : ∀ name seen, (∀ other ∈ seen, ¬ Relation.ReflTransGen table.Refers name other) →
      ∀ t : TypeName, t.spelling = name →
        TypeMapper.isFunctionTypedef table seen t = (table.expand (.named t)).isFunction from
    apart t.spelling [] (by simp) t rfl
  intro name
  induction name using acyclic.induction with
  | step name ih =>
    intro seen apart t same
    cases found : table.underlying? t with
    | none =>
      rw [isFunctionTypedef_plain found, expand_plain found]
      rfl
    | some underlying =>
      have new : t.spelling ∉ seen := fun member => apart _ member (same ▸ .refl)
      rw [isFunctionTypedef_typedef found new, expand_typedef acyclic found, isFunction_qualified]
      cases underlying with
      | function result parameters variadic convention =>
        rw [expand_function]
        rfl
      | pointer target qualifiers =>
        rw [expand_pointer]
        rfl
      | array element extent =>
        rw [expand_array]
        rfl
      | named next =>
        cases further : table.underlying? next with
        | none =>
          rw [expand_plain further]
          exact isFunctionTypedef_plain further _
        | some deeper =>
          have refers : table.Refers name next.spelling :=
            ⟨.named next, same ▸ (underlying?_eq_some.mp found).2,
              consults_of_underlying? further (List.mem_singleton_self next)⟩
          refine ih next.spelling refers _ (fun other member way => ?_) next rfl
          rcases List.mem_cons.mp member with rfl | earlier
          · exact not_reached_back acyclic.founded (same ▸ refers) way
          · exact apart other earlier (.head refers way)

end SymbolTable

end CBindings
