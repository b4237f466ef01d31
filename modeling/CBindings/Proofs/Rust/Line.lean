import CBindings.Output.Emission
import CBindings.Proofs.Constant.Shape
import CBindings.Proofs.Output.Module
import CBindings.Proofs.Rust.Typedef

/-! Rust types without line breaks: if no name has one, then neither the text of a type nor what
stands in its way does. -/

namespace CBindings

/-! ### Names -/

namespace Rust

variable {name : String}

theorem oneLine_identifier (oneLine : OneLine name) : OneLine (identifier name) := by
  unfold identifier
  split
  · exact oneLine_append.mpr ⟨by decide, oneLine⟩
  · split
    · exact oneLine_append.mpr ⟨by decide, oneLine⟩
    · exact oneLine

theorem oneLine_declaredName (oneLine : OneLine name) : OneLine (declaredName name) := by
  have kind : '\n' ∉ name.toList.takeWhile (· != ' ') :=
    fun member => oneLine (List.takeWhile_subset _ member)
  unfold declaredName
  simp only
  split
  · next space c rest parts =>
    split
    · have tail : '\n' ∉ c :: rest := by
        intro member
        refine oneLine (List.dropWhile_subset (· != ' ') ?_)
        rw [parts]
        exact List.mem_cons_of_mem _ member
      exact .between (oneLine_ofList.mpr kind) (by decide) (oneLine_ofList.mpr tail)
    · exact oneLine_identifier oneLine
  · exact oneLine_identifier oneLine

@[simp] theorem oneLine_abi (convention : Option String) : OneLine (abi convention) := by
  unfold abi
  split <;> decide

theorem oneLine_parameterName {name : Option String} (oneLine : ∀ text ∈ name, OneLine text)
    (index : Nat) : OneLine (parameterName name index) := by
  unfold parameterName
  split
  · next text found =>
    exact oneLine_identifier (oneLine text (Option.eq_some_of_filter_eq_some found))
  · exact oneLine_append.mpr ⟨by decide, oneLine_natRepr index⟩

end Rust

namespace OutputModule

theorem oneLine_baseName (header : String) : OneLine (baseName header) := by
  have cleaned (text : List Char) :
      '\n' ∉ text.map fun c => if isNameChar c then c else '_' := by
    intro member
    obtain ⟨c, -, same⟩ := List.mem_map.mp member
    split at same
    · next plain =>
      subst same
      cases plain
    · cases same
  have started (text : List Char) (plain : '\n' ∉ text) :
      '\n' ∉ if text.head?.any Text.isAsciiDigit then '_' :: text else text := by
    split
    · simpa using plain
    · exact plain
  have reserved (base : String) (plain : OneLine base) :
      OneLine (if reservedNames.contains base then base ++ "_h" else base) := by
    split
    · exact oneLine_append.mpr ⟨plain, by decide⟩
    · exact plain
  refine reserved _ (oneLine_ofList.mpr (started _ ?_))
  split
  · decide
  · exact cleaned _

theorem oneLine_nameFor (header : String) (taken : List String) :
    OneLine (nameFor header taken) := by
  rcases List.mem_cons.mp (nameFor_spec header taken).1 with plain | numbered
  · exact plain ▸ oneLine_baseName header
  · obtain ⟨k, -, written⟩ := List.mem_map.mp numbered
    rw [← written]
    exact .between (oneLine_baseName header) (by decide) (oneLine_natRepr _)

theorem unbroken_namesFor (taken headers : List String) : Unbroken (namesFor taken headers) := by
  induction headers generalizing taken with
  | nil => exact unbroken_nil
  | cons header rest ih => exact unbroken_cons.mpr ⟨oneLine_nameFor header taken, ih _⟩

theorem oneLine_name {table : SymbolTable} {module : OutputModule}
    (member : module ∈ ofTable table) : OneLine module.name := by
  obtain ⟨⟨header, name⟩, paired, rfl⟩ := List.mem_map.mp member
  exact unbroken_namesFor [] _ name (List.of_mem_zip paired).2

end OutputModule

/-! ### Declarations -/

namespace CType

/-- The names in a type. What an array says of its bound is not written out as it is. -/
def texts (type : CType) : List String := type.names.map TypeName.spelling

end CType

namespace Item

/-- The names and expressions of a declaration that are written out as they are. -/
def texts : Item → List String
  | struct name fields _ =>
    name.toList ++ (fields.getD []).flatMap fun f => f.name :: f.type.texts
  | union name _ => name.toList
  | enum name values _ => name.toList ++ values.flatMap fun e => [e.name, e.value.render]
  | function name result parameters _ _ =>
    name :: result.texts ++ parameters.flatMap fun parameter =>
      parameter.1.toList ++ parameter.2.texts
  | typedef name type => name :: type.texts
  | object name type => name :: type.texts
  | constant name tokens => name :: tokens

theorem oneLine_tagName {kind : String} {name : Option String} {key : String}
    (plain : OneLine kind) (unbroken : Unbroken name.toList)
    (known : tagName kind name = some key) : OneLine key := by
  obtain ⟨tag, found, rfl⟩ := Option.map_eq_some_iff.mp known
  have given : name = some tag := Option.eq_some_of_filter_eq_some found
  exact .between plain (by decide) (unbroken tag (by simp [given]))

theorem oneLine_qualifiedName {item : Item} {key : String} (unbroken : Unbroken item.texts)
    (known : item.qualifiedName = some key) : OneLine key := by
  cases item with
  | struct name fields isTypedef =>
    exact oneLine_tagName (by decide) (unbroken_append.mp unbroken).1 known
  | union name fields => exact oneLine_tagName (by decide) unbroken known
  | enum name values isTypedef =>
    exact oneLine_tagName (by decide) (unbroken_append.mp unbroken).1 known
  | function name =>
    cases known
    exact unbroken _ List.mem_cons_self
  | typedef name =>
    cases known
    exact unbroken _ List.mem_cons_self
  | object name =>
    cases known
    exact unbroken _ List.mem_cons_self
  | constant name =>
    cases known
    exact unbroken _ List.mem_cons_self

end Item

theorem TypeName.oneLine_qualifiedName {t : TypeName} (plain : OneLine t.spelling) :
    OneLine t.qualifiedName := by
  unfold qualifiedName
  split
  · have word : OneLine t.kind.word := by cases t.kind <;> decide
    exact .between word (by decide) plain
  · exact plain

/-! ### Types -/

structure Mapping.IsPlain (mapped : Mapping) : Prop where
  text : OneLine mapped.text
  problems : Unbroken mapped.problems

/-- Remembered problems of typedefs have no line break, and constants are as they should be. -/
structure MappingMemo.Shaped (symbols : List Symbol) (memo : MappingMemo) : Prop where
  constants : memo.constants.Shaped symbols
  typedefs : ∀ name problems, memo.typedefs.get? name = some problems → Unbroken problems

theorem MappingMemo.Shaped.empty (symbols : List Symbol) : MappingMemo.Shaped symbols {} where
  constants := .empty symbols
  typedefs _ _ known := by cases known

def MapEnsures {α : Type} (symbols : List Symbol) (x : MappingM α) (ok : α → Prop) : Prop :=
  ∀ memo : MappingMemo, memo.Shaped symbols → ok (x memo).1 ∧ (x memo).2.Shaped symbols

namespace MapEnsures

variable {α β : Type} {symbols : List Symbol} {ok : α → Prop} {ok' : β → Prop}

theorem pure {a : α} (fine : ok a) : MapEnsures symbols (Pure.pure a) ok :=
  fun _ shaped => ⟨fine, shaped⟩

theorem bind {x : MappingM α} {f : α → MappingM β} (first : MapEnsures symbols x ok)
    (second : ∀ a, ok a → MapEnsures symbols (f a) ok') : MapEnsures symbols (x >>= f) ok' := by
  intro memo shaped
  obtain ⟨fine, still⟩ := first memo shaped
  exact second _ fine _ still

theorem map {x : MappingM α} (f : α → β) (first : MapEnsures symbols x ok)
    (fine : ∀ a, ok a → ok' (f a)) : MapEnsures symbols (f <$> x) ok' :=
  first.bind fun a known => .pure (fine a known)

theorem mapM (ok' : β → Prop) {f : α → MappingM β} {as : List α}
    (each : ∀ a ∈ as, MapEnsures symbols (f a) ok') :
    MapEnsures symbols (as.mapM f) fun bs => ∀ b ∈ bs, ok' b := by
  induction as with
  | nil =>
    rw [List.mapM_nil]
    exact .pure (by simp)
  | cons a rest ih =>
    rw [List.mapM_cons]
    rw [List.forall_mem_cons] at each
    refine each.1.bind fun b fine => (ih each.2).bind fun bs others => .pure ?_
    exact List.forall_mem_cons.mpr ⟨fine, others⟩

theorem constants {x : Remembering α} (ensures : Ensures (ConstantMemo.Shaped symbols) x ok) :
    MapEnsures symbols (.constants x) ok := by
  intro memo shaped
  obtain ⟨fine, still⟩ := ensures memo.constants shaped.constants
  exact ⟨fine, still, shaped.typedefs⟩

end MapEnsures

namespace TypeMapper

/-- Names that types are written with have no line break, and enums are found among `symbols`. -/
structure IsPlain (symbols : List Symbol) (mapper : TypeMapper) : Prop where
  listed : Symbol.Listed symbols mapper.scope.table
  owners : ∀ name owner, mapper.moduleOf name = some owner → OneLine owner
  typedefs : ∀ name underlying, mapper.scope.table.typedef? name = some underlying →
    Unbroken underlying.texts

open MappingMemo (Shaped)

variable {mapper : TypeMapper} {symbols : List Symbol} {module : Option String} {t : TypeName}
  {inherited : String → MappingM (List String)}

@[simp] theorem oneLine_voidType : OneLine voidType := by decide

theorem failed_isPlain {problem : String} (plain : OneLine problem) : (failed problem).IsPlain where
  text := oneLine_voidType
  problems := by simpa [failed] using plain

theorem oneLine_reference (plain : mapper.IsPlain symbols) {name : String} (oneLine : OneLine name)
    (module : Option String) : OneLine (mapper.reference name module) := by
  have declared := Rust.oneLine_declaredName oneLine
  unfold reference
  simp only
  split
  · exact declared
  · next owner found =>
    split
    · exact declared
    · simp only [oneLine_append]
      exact ⟨⟨⟨by decide, plain.owners _ _ found⟩, by decide⟩, declared⟩

theorem primitive_isPlain (mapper : TypeMapper) (name : String) :
    (mapper.primitive name).IsPlain := by
  unfold primitive
  split
  · exact ⟨by decide, unbroken_nil⟩
  · exact ⟨by decide, unbroken_nil⟩
  · exact ⟨by decide, unbroken_nil⟩
  · exact ⟨by decide, unbroken_nil⟩
  · exact ⟨by decide, unbroken_nil⟩
  · split
    · exact ⟨oneLine_name _, unbroken_nil⟩
    · refine failed_isPlain ?_
      simp only [oneLine_append, oneLine_quoted, and_true]
      decide

theorem unsupportedUnion_isPlain (plain : OneLine t.spelling) : (unsupportedUnion t).IsPlain :=
  failed_isPlain (.between (by decide) plain (by decide))

theorem undeclared_isPlain (mapper : TypeMapper) (plain : OneLine t.spelling) :
    (mapper.undeclared t).IsPlain := by
  have unresolved : (failed ("unresolved type " ++ t.qualifiedName)).IsPlain :=
    failed_isPlain (oneLine_append.mpr ⟨by decide, t.oneLine_qualifiedName plain⟩)
  unfold undeclared
  split
  · split
    · exact ⟨by decide, unbroken_nil⟩
    · split
      · exact ⟨oneLine_name _, unbroken_nil⟩
      · exact unresolved
  · exact unresolved

theorem fixed_isPlain (plain : mapper.IsPlain symbols) (oneLine : OneLine t.spelling) :
    (mapper.fixed module t).IsPlain := by
  unfold fixed
  split
  · exact primitive_isPlain mapper t.spelling
  · exact unsupportedUnion_isPlain oneLine
  · split
    · exact unsupportedUnion_isPlain oneLine
    · exact ⟨oneLine_reference plain (t.oneLine_qualifiedName oneLine) module, unbroken_nil⟩
    · exact undeclared_isPlain mapper oneLine

theorem passedOn_isPlain (plain : mapper.IsPlain symbols) {name : String} (oneLine : OneLine name)
    {problems : List String} (unbroken : Unbroken problems) :
    (mapper.passedOn module name problems).IsPlain where
  text := by
    unfold passedOn
    split
    · exact oneLine_reference plain oneLine module
    · exact oneLine_voidType
  problems := by
    rw [passedOn_problems]
    intro problem member
    obtain ⟨reason, listed, rfl⟩ := List.mem_map.mp member
    exact .between (unbroken reason listed) (by decide) oneLine

theorem pointerTo_isPlain (target : CType) {inner : Mapping} (plain : inner.IsPlain) :
    (mapper.pointerTo target inner).IsPlain := by
  have star : (starred target inner).IsPlain := by
    refine ⟨oneLine_append.mpr ⟨?_, plain.text⟩, plain.problems⟩
    split <;> decide
  unfold pointerTo
  split
  · exact plain
  · split
    · exact plain
    · exact star
  · exact star

theorem sized_isPlain {element : Mapping} (plain : element.IsPlain) (extent : Extent)
    (length : Option Int) : (sized element extent length).IsPlain where
  text := by
    have bounded (length : String) (oneLine : OneLine length) :
        OneLine ("[" ++ element.text ++ "; " ++ length ++ "]") := by
      simp only [oneLine_append]
      exact ⟨⟨⟨⟨by decide, plain.text⟩, by decide⟩, oneLine⟩, by decide⟩
    unfold sized
    split
    · exact bounded "0" (by decide)
    · exact bounded _ (oneLine_intRepr _)
    · exact bounded _ (oneLine_intRepr _)
    · exact bounded "0" (by decide)
  problems := by
    rw [sized_problems, unbroken_append]
    refine ⟨plain.problems, ?_⟩
    unfold extentProblems
    split
    · simp only [unbroken_cons, unbroken_nil, oneLine_append, oneLine_quoted, and_true]
      decide
    · exact unbroken_nil

theorem unbroken_dots (texts : List String) (variadic : Bool) (unbroken : Unbroken texts) :
    Unbroken (texts ++ if variadic then ["..."] else []) := by
  refine unbroken_append.mpr ⟨unbroken, ?_⟩
  split <;> decide

theorem unbroken_texts {mapped : List Mapping} (plain : ∀ m ∈ mapped, m.IsPlain) :
    Unbroken (mapped.map Mapping.text) :=
  List.forall_mem_map.mpr fun m member => (plain m member).text

theorem unbroken_problems {mapped : List Mapping} (plain : ∀ m ∈ mapped, m.IsPlain) :
    Unbroken (mapped.flatMap Mapping.problems) := by
  intro problem member
  obtain ⟨m, listed, inside⟩ := List.mem_flatMap.mp member
  exact (plain m listed).problems problem inside

theorem signature_isPlain (convention : Option String) {parameters : List Mapping}
    (plain : ∀ m ∈ parameters, m.IsPlain) (variadic : Bool) {result : Option Mapping}
    (plain' : ∀ m ∈ result, m.IsPlain) :
    (signature convention parameters variadic result).IsPlain where
  text := by
    have list := OneLine.intercalate (a := ", ") (by decide)
      (unbroken_dots _ variadic (unbroken_texts plain))
    have front : OneLine ("Option<unsafe extern \"" ++ Rust.abi convention ++ "\" fn(") := by
      simp only [oneLine_append, Rust.oneLine_abi, and_true]
      decide
    refine oneLine_append.mpr ⟨oneLine_append.mpr ⟨?_, ?_⟩, by decide⟩
    · exact oneLine_append.mpr ⟨oneLine_append.mpr ⟨front, list⟩, by decide⟩
    · cases result with
      | none => decide
      | some result => exact oneLine_append.mpr ⟨by decide, (plain' result rfl).text⟩
  problems := by
    refine unbroken_append.mpr ⟨unbroken_problems plain, ?_⟩
    cases result with
    | none => exact unbroken_nil
    | some result => exact (plain' result rfl).problems

/-! ### Whole types -/

mutual

theorem mapWith_isPlain (plain : mapper.IsPlain symbols)
    (inherits : ∀ name, MapEnsures symbols (inherited name) Unbroken) :
    (type : CType) → Unbroken type.texts →
      MapEnsures symbols (mapper.mapWith inherited module type) Mapping.IsPlain
  | .named t, unbroken => by
    have oneLine : OneLine t.spelling := unbroken _ List.mem_cons_self
    rw [mapWith_named]
    rcases named_cases mapper t with ⟨-, typedef⟩ | fixed
    · rw [typedef]
      exact (inherits _).map _ fun problems =>
        passedOn_isPlain plain (t.oneLine_qualifiedName oneLine)
    · rw [fixed]
      exact .pure (fixed_isPlain plain oneLine)
  | .pointer target qualifiers, unbroken => by
    rw [mapWith_pointer]
    have inner := mapWith_isPlain plain inherits target unbroken
    exact inner.map _ fun mapped => pointerTo_isPlain target
  | .array element extent, unbroken => by
    rw [mapWith]
    refine (mapWith_isPlain plain inherits element unbroken).bind fun element fine => ?_
    refine (MapEnsures.constants (ConstantScope.evaluateExtent_keeps plain.listed extent)).bind
      fun length _ => .pure (sized_isPlain fine extent length)
  | .function result parameters variadic convention, unbroken => by
    rw [CType.texts, CType.names, List.map_append, unbroken_append] at unbroken
    rw [mapWith]
    have others := mapParameters_isPlain plain inherits parameters unbroken.2
    refine others.bind fun parameters fine => ?_
    split
    · exact .pure (signature_isPlain convention fine variadic (by simp))
    · refine (mapWith_isPlain plain inherits result unbroken.1).bind fun result returned => .pure ?_
      exact signature_isPlain convention fine variadic (by simpa using returned)

theorem mapParameters_isPlain (plain : mapper.IsPlain symbols)
    (inherits : ∀ name, MapEnsures symbols (inherited name) Unbroken) :
    (parameters : List Parameter) →
      Unbroken ((CType.parameterNames parameters).map TypeName.spelling) →
      MapEnsures symbols (mapper.mapParameters inherited module parameters) fun mapped =>
        ∀ m ∈ mapped, m.IsPlain
  | [], _ => by
    rw [mapParameters]
    exact .pure (by simp)
  | (_, type) :: rest, unbroken => by
    rw [CType.parameterNames, List.map_append, unbroken_append] at unbroken
    rw [mapParameters]
    refine (mapWith_isPlain plain inherits type unbroken.1).bind fun first fine => ?_
    refine (mapParameters_isPlain plain inherits rest unbroken.2).bind fun others later => .pure ?_
    exact List.forall_mem_cons.mpr ⟨fine, later⟩

end

variable (plain : mapper.IsPlain symbols)

include plain

theorem typedefProblems_unbroken (pending : List String) (name : String) :
    MapEnsures symbols (mapper.typedefProblems pending name) Unbroken := by
  intro memo shaped
  cases known : memo.typedefs.get? name with
  | some problems =>
    rw [typedefProblems_known known]
    exact ⟨shaped.typedefs name problems known, shaped⟩
  | none =>
    cases found : mapper.scope.table.typedef? name with
    | none =>
      rw [typedefProblems_absent known found]
      exact ⟨unbroken_nil, shaped⟩
    | some underlying =>
      by_cases new : name ∈ pending
      · rw [typedefProblems_lacking known, found]
        simp only [new, if_true]
        exact ⟨unbroken_nil, shaped⟩
      · rw [typedefProblems_new known found new]
        have inner := fun other => typedefProblems_unbroken (name :: pending) other
        have mapped : MapEnsures symbols
            (mapper.mapWith (mapper.typedefProblems (name :: pending)) none underlying)
            Mapping.IsPlain :=
          mapWith_isPlain plain inner underlying (plain.typedefs name underlying found)
        obtain ⟨fine, still⟩ := mapped memo shaped
        refine ⟨fine.problems, still.constants, fun other problems remembered => ?_⟩
        by_cases same : other = name
        · rw [same] at remembered
          have own := (OrderedMap.get?_insert_self _ _ _).symm.trans remembered
          exact Option.some.inj own ▸ fine.problems
        · have old := (OrderedMap.get?_insert_ne _ _ same).symm.trans remembered
          exact still.typedefs other problems old
termination_by unseen mapper.scope.table.names pending
decreasing_by exact unseen_cons_lt (SymbolTable.mem_names_of_typedef? found) new

theorem map_isPlain (module : Option String) (type : CType) (unbroken : Unbroken type.texts) :
    MapEnsures symbols (mapper.map module type) Mapping.IsPlain :=
  mapWith_isPlain plain (typedefProblems_unbroken plain []) type unbroken

theorem mapField_isPlain (module : Option String) {f : Field}
    (unbroken : Unbroken (f.name :: f.type.texts)) :
    MapEnsures symbols (mapper.mapField module f) Mapping.IsPlain := by
  rw [unbroken_cons] at unbroken
  unfold mapField
  refine (map_isPlain plain module f.type unbroken.2).bind fun mapped fine => ?_
  split
  · exact .pure fine
  · refine .pure ⟨fine.text, unbroken_append.mpr ⟨fine.problems, ?_⟩⟩
    simp only [unbroken_cons, unbroken_nil, oneLine_append, oneLine_intRepr, unbroken.1, and_true]
    decide

theorem mapResult_isPlain (module : Option String) {type : CType}
    (unbroken : Unbroken type.texts) :
    MapEnsures symbols (mapper.mapResult module type) Mapping.IsPlain := by
  unfold mapResult
  split
  · exact .pure ⟨by decide, unbroken_nil⟩
  · exact map_isPlain plain module type unbroken

theorem mapParameterList_isPlain (module : Option String) {parameters : List Parameter}
    (unbroken : ∀ parameter ∈ parameters, Unbroken (parameter.1.toList ++ parameter.2.texts))
    (variadic : Bool) :
    MapEnsures symbols (mapper.mapParameterList module parameters variadic) Mapping.IsPlain := by
  unfold mapParameterList
  refine (MapEnsures.mapM Mapping.IsPlain fun entry member => ?_).bind
    fun mapped fine => .pure ⟨?_, unbroken_problems fine⟩
  · obtain ⟨⟨name, type⟩, index⟩ := entry
    have listed : (name, type) ∈ parameters := List.fst_mem_of_mem_zipIdx member
    obtain ⟨named, typed⟩ := unbroken_append.mp (unbroken _ listed)
    refine (map_isPlain plain module type typed).bind fun mapped fine => .pure ⟨?_, fine.problems⟩
    have given : ∀ text ∈ name, OneLine text := fun text here => named text (by simpa using here)
    exact .between (Rust.oneLine_parameterName given index) (by decide) fine.text
  · exact OneLine.intercalate (by decide) (unbroken_dots _ variadic (unbroken_texts fine))

end TypeMapper

end CBindings
