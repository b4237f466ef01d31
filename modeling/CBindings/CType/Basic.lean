/-! C types as declarations use them. -/

namespace CBindings

inductive NameKind where
  | primitive
  | typedef
  | struct
  | enum
  | union
  deriving DecidableEq, Repr

namespace NameKind

def word : NameKind → String
  | primitive => "primitive"
  | typedef => "typedef"
  | struct => "struct"
  | enum => "enum"
  | union => "union"

def ofWord (text : String) : NameKind :=
  ([primitive, struct, enum, union].find? (·.word = text)).getD typedef

def isTag : NameKind → Bool
  | struct | enum | union => true
  | primitive | typedef => false

end NameKind

inductive Extent where
  | flexible
  | count (n : Int)
  | text (expression : String)
  deriving DecidableEq, Repr

structure TypeName where
  kind : NameKind
  name : Option String
  qualifiers : List String := []
  deriving DecidableEq, Repr

namespace TypeName

def spelling (t : TypeName) : String := t.name.getD "None"

def qualifiedName (t : TypeName) : String :=
  if t.kind.isTag then t.kind.word ++ " " ++ t.spelling else t.spelling

def isConst (t : TypeName) : Bool := t.qualifiers.contains "const"

def render (t : TypeName) : String := " ".intercalate (t.qualifiers ++ [t.qualifiedName])

end TypeName

/-- A type expression. The qualifiers of a pointer are those of the pointer itself, and a parameter
is a type with the name it may have. -/
inductive CType where
  | named (name : TypeName)
  | pointer (target : CType) (qualifiers : List String)
  | array (element : CType) (extent : Extent)
  | function (result : CType) (parameters : List (Option String × CType)) (variadic : Bool)
      (convention : Option String)
  deriving Repr

abbrev Parameter := Option String × CType

namespace CType

theorem induction {motive : CType → Prop} (named : ∀ t, motive (named t))
    (pointer : ∀ target qualifiers, motive target → motive (pointer target qualifiers))
    (array : ∀ element extent, motive element → motive (array element extent))
    (function : ∀ result parameters variadic convention, motive result →
      (∀ parameter ∈ parameters, motive parameter.2) →
        motive (function result parameters variadic convention)) (type : CType) : motive type :=
  @CType.rec motive (fun parameters => ∀ parameter ∈ parameters, motive parameter.2)
    (fun parameter => motive parameter.2) named pointer array function (List.forall_mem_nil _)
    (fun _ _ first rest => List.forall_mem_cons.mpr ⟨first, rest⟩) (fun _ _ inner => inner) type

mutual

def same : CType → CType → Bool
  | named a, named b => a = b
  | pointer a qualifiers, pointer b qualifiers' => qualifiers = qualifiers' && same a b
  | array a extent, array b extent' => extent = extent' && same a b
  | function a parameters variadic convention, function b parameters' variadic' convention' =>
    variadic = variadic' && convention = convention' && same a b &&
      sameParameters parameters parameters'
  | _, _ => false

def sameParameters : List (Option String × CType) → List (Option String × CType) → Bool
  | [], [] => true
  | (name, a) :: rest, (name', b) :: rest' => name = name' && same a b && sameParameters rest rest'
  | _, _ => false

end

mutual

theorem same_iff (a b : CType) : same a b = true ↔ a = b := by
  cases a <;> cases b <;> simp only [same, Bool.and_eq_true, decide_eq_true_eq, Bool.false_eq_true,
    reduceCtorEq, CType.named.injEq, CType.pointer.injEq, CType.array.injEq,
    CType.function.injEq]
  · rw [same_iff, and_comm]
  · rw [same_iff, and_comm]
  · rw [same_iff, sameParameters_iff]
    constructor
    · rintro ⟨⟨⟨rfl, rfl⟩, rfl⟩, rfl⟩
      exact ⟨rfl, rfl, rfl, rfl⟩
    · rintro ⟨rfl, rfl, rfl, rfl⟩
      exact ⟨⟨⟨rfl, rfl⟩, rfl⟩, rfl⟩

theorem sameParameters_iff (a b : List (Option String × CType)) :
    sameParameters a b = true ↔ a = b := by
  cases a with
  | nil => cases b <;> simp [sameParameters]
  | cons first rest =>
    cases b with
    | nil => simp [sameParameters]
    | cons first' rest' =>
      obtain ⟨name, type⟩ := first
      obtain ⟨name', type'⟩ := first'
      simp only [sameParameters, Bool.and_eq_true, decide_eq_true_eq, List.cons.injEq,
        Prod.mk.injEq]
      rw [same_iff, sameParameters_iff]

end

instance : DecidableEq CType := fun a b => decidable_of_iff _ (same_iff a b)

def isVoid : CType → Bool
  | named t => t.kind = .primitive && t.name = some "void"
  | _ => false

def asParameter : CType → CType
  | array element _ => pointer element []
  | function result parameters variadic convention =>
    pointer (function result parameters variadic convention) []
  | t => t

mutual

/-- Every name in a type, from the outside in and from the result to the last parameter. -/
def names : CType → List TypeName
  | named t => [t]
  | pointer target _ => names target
  | array element _ => names element
  | function result parameters _ _ => names result ++ parameterNames parameters

def parameterNames : List (Option String × CType) → List TypeName
  | [] => []
  | (_, type) :: rest => names type ++ parameterNames rest

end

def Extent.render : Extent → String
  | .flexible => ""
  | .count n => toString n
  | .text expression => expression

mutual

def render : CType → String
  | named t => t.render
  | pointer (function result parameters variadic convention) _ =>
    render (function result parameters variadic convention)
  | pointer target _ => render target ++ "*"
  | array element extent => render element ++ "[" ++ Extent.render extent ++ "]"
  | function result parameters variadic _ =>
    render result ++ " (*)(" ++
      ", ".intercalate (renderParameters parameters ++ if variadic then ["..."] else []) ++ ")"

def renderParameters : List (Option String × CType) → List String
  | [] => []
  | (name, type) :: rest => renderParameter (name, type) :: renderParameters rest

def renderParameter : Option String × CType → String
  | (some name, type) => if name.isEmpty then render type else render type ++ " " ++ name
  | (none, type) => render type

end

end CType

end CBindings
