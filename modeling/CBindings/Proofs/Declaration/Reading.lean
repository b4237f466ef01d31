import CBindings.Proofs.Declaration.Phrase
import Mathlib.Data.List.Forall2

/-! Parameters are read from what spells their types, and lists of parameters from what spells their
items. -/

namespace CBindings

open Lexeme

structure SpelledItem (p : Parameter) (item : List Lexeme) : Prop where
  grouped : Grouped false item
  starts : ∃ text others, item = word text :: others ∧ DeclarationReader.isConvention text = false
  reads : ∀ tokens : List Token, tokens.map Token.lexeme = item →
    DeclarationReader.parameter tokens = .ok p

theorem SpelledItem.of_mem {parameters : List Parameter} {items : List (List Lexeme)}
    (spelled : List.Forall₂ SpelledItem parameters items) {item : List Lexeme}
    (member : item ∈ items) : ∃ p, SpelledItem p item := by
  induction spelled with
  | nil => cases member
  | @cons p first parameters items here _ ih =>
    rcases List.mem_cons.mp member with rfl | later
    · exact ⟨p, here⟩
    · exact ih later

namespace DeclarationReader

theorem parameter_read {t : TypeName} (nameable : t.Nameable) {d : Declarator}
    {lexemes : List Lexeme} (spelled : d.Spelled lexemes) {tokens : List Token}
    (written : tokens.map Token.lexeme =
      (t.qualifiers ++ t.specifierWords).map word ++ lexemes) :
    parameter tokens = .ok (d.identifier, (d.apply (.named t)).asParameter) := by
  obtain ⟨front, back, rfl, frontWritten, backWritten⟩ := List.map_eq_append_iff.mp written
  obtain ⟨draft, base, refers, ⟨_, read⟩, qualifiers, -, -, finished⟩ :=
    specifiers_read .parameter (((front ++ back).head?.map Token.line).getD 0) nameable frontWritten
      (follows_spelled spelled backWritten) false false
  obtain ⟨_, declared⟩ : Reads (declarator (((front ++ back).head?.map Token.line).getD 0) back) d
      [] := declarator_read_all spelled backWritten
  rw [parameter]
  simp only [read, bind, Except.bind, finished, declared, qualifiers, refers.typeName]
  rfl

def parameterItem (count : Nat) (item : List Token × Nat) : Except ParseError (Option Parameter) :=
  if isEllipsis item.1 then
    if item.2 + 1 ≠ count then fail .earlyEllipsis (item.1.head?.map Token.line) else pure none
  else if item.1.isEmpty then fail .emptyParameter none
  else some <$> parameter item.1

theorem parameters_eq (tokens : List Token) :
    parameters tokens =
      if isEmptyList (splitTopLevel tokens ",") then .ok ([], false)
      else do
        let list ← (splitTopLevel tokens ",").zipIdx.mapM
          (parameterItem (splitTopLevel tokens ",").length)
        return (list.filterMap id,
          ((splitTopLevel tokens ",").getLast?.map isEllipsis).getD false) := by
  rw [parameters, List.mapM_subtype (g := parameterItem (splitTopLevel tokens ",").length),
    List.unattach_attach]
  · rfl
  · intro item member
    rfl

theorem isEllipsis_of_starts {part : List Token} {text : String} {others : List Lexeme}
    (starts : part.map Token.lexeme = word text :: others) :
    isEllipsis part = false ∧ part.isEmpty = false := by
  obtain ⟨token, tail, rfl, spelled, -⟩ := List.map_eq_cons_iff.mp starts
  have ident : token.kind = .ident := congrArg Lexeme.kind spelled
  refine ⟨?_, rfl⟩
  cases tail with
  | nil => simp [isEllipsis, Token.isPunct, ident]
  | cons => rfl

theorem mapM_parameterItem {parameters : List Parameter} {items : List (List Lexeme)}
    (spelled : List.Forall₂ SpelledItem parameters items) {parts : List (List Token)}
    (written : parts.map (·.map Token.lexeme) = items) (count index : Nat) :
    (parts.zipIdx index).mapM (parameterItem count) = .ok (parameters.map some) := by
  induction spelled generalizing parts index with
  | nil =>
    rw [List.map_eq_nil_iff.mp written]
    rfl
  | @cons p item parameters items first _ ih =>
    obtain ⟨part, tail, rfl, partWritten, tailWritten⟩ := List.map_eq_cons_iff.mp written
    obtain ⟨text, rest, starts, -⟩ := first.starts
    obtain ⟨noEllipsis, some⟩ := isEllipsis_of_starts (partWritten.trans starts)
    rw [List.zipIdx_cons, List.mapM_cons, ih tailWritten (index + 1), parameterItem]
    simp only [noEllipsis, some, first.reads part partWritten, Bool.false_eq_true, if_false]
    rfl

theorem isEmptyList_eq_true {parts : List (List Token)} (empty : isEmptyList parts = true) :
    ∃ part, parts = [part] ∧
      (part = [] ∨ ∃ token, part = [token] ∧ token.lexeme = word "void") := by
  unfold isEmptyList at empty
  split at empty
  · exact ⟨[], rfl, .inl rfl⟩
  · next token =>
    simp only [Token.isIdent, Bool.and_eq_true, decide_eq_true_eq] at empty
    exact ⟨[token], rfl, .inr ⟨token, rfl, by simp [Token.lexeme, word, empty]⟩⟩
  · cases empty

theorem isEmptyList_of_items {variadic : Bool} {parameters : List Parameter}
    {items : List (List Lexeme)} (spelled : List.Forall₂ SpelledItem parameters items)
    (notVoid : items = [[word "void"]] → variadic = true) {parts : List (List Token)}
    (written : parts.map (·.map Token.lexeme) = listItems items variadic) :
    isEmptyList parts = false := by
  rw [← Bool.not_eq_true]
  intro empty
  obtain ⟨part, rfl, cases⟩ := isEmptyList_eq_true empty
  rw [List.map_singleton, listItems] at written
  cases spelled with
  | nil =>
    have dots : part.map Token.lexeme = [mark "..."] := by
      cases variadic <;> simp_all
    rcases cases with rfl | ⟨token, rfl, spelled⟩
    · cases dots
    · simp [spelled, word, mark] at dots
  | @cons p item parameters items first others =>
    obtain ⟨here, alone, fixed⟩ : part.map Token.lexeme = item ∧ items = [] ∧ variadic = false := by
      cases items <;> cases variadic <;> simp_all
    obtain ⟨text, rest, starts, -⟩ := first.starts
    rcases cases with rfl | ⟨token, rfl, spelled⟩
    · rw [starts] at here
      cases here
    · rw [List.map_singleton, spelled] at here
      rw [notVoid (by rw [alone, here])] at fixed
      cases fixed

theorem mapM_items {variadic : Bool} {parameters : List Parameter} {items : List (List Lexeme)}
    (spelled : List.Forall₂ SpelledItem parameters items) {parts : List (List Token)}
    (written : parts.map (·.map Token.lexeme) = listItems items variadic) :
    parts.zipIdx.mapM (parameterItem parts.length) =
        .ok (parameters.map some ++ if variadic then [none] else []) ∧
      (parts.getLast?.map isEllipsis).getD false = variadic := by
  cases variadic with
  | false =>
    rw [listItems, if_neg (by simp), List.append_nil] at written
    rw [if_neg (by simp), List.append_nil]
    refine ⟨mapM_parameterItem spelled written _ _, ?_⟩
    cases last : parts.getLast? with
    | none => rfl
    | some part =>
      have member : part.map Token.lexeme ∈ items :=
        written ▸ List.mem_map_of_mem (List.mem_of_getLast? last)
      obtain ⟨p, item⟩ := SpelledItem.of_mem spelled member
      obtain ⟨text, rest, starts, -⟩ := item.starts
      exact (isEllipsis_of_starts starts).1
  | true =>
    obtain ⟨front, back, rfl, frontWritten, backWritten⟩ := List.map_eq_append_iff.mp written
    obtain ⟨dots, rfl, isDots⟩ := List.map_eq_singleton_iff.mp backWritten
    obtain ⟨token, rfl, isEllipsis⟩ := List.map_eq_singleton_iff.mp isDots
    have ellipsis : DeclarationReader.isEllipsis [token] = true := by
      simp [DeclarationReader.isEllipsis, Token.isPunct_of_lexeme isEllipsis]
    refine ⟨?_, by simp [ellipsis]⟩
    rw [List.zipIdx_append, List.mapM_append, mapM_parameterItem spelled frontWritten]
    simp [parameterItem, ellipsis]

theorem parameters_read {explicit variadic : Bool} {parameters : List Parameter}
    {items : List (List Lexeme)} (spelled : List.Forall₂ SpelledItem parameters items)
    (notVoid : items = [[word "void"]] → variadic = true) {tokens : List Token}
    (written : tokens.map Token.lexeme = parameterList explicit items variadic) :
    DeclarationReader.parameters tokens = .ok (parameters, variadic) := by
  rw [parameters_eq]
  unfold parameterList at written
  split at written
  · next none =>
    obtain ⟨rfl, rfl⟩ : items = [] ∧ variadic = false := by
      cases items <;> cases variadic <;> simp_all [listItems]
    cases spelled
    have empty : isEmptyList (splitTopLevel tokens ",") = true := by
      cases explicit with
      | false =>
        rw [show tokens = [] by simpa using written]
        rfl
      | true =>
        obtain ⟨token, rfl, spelled⟩ := List.map_eq_singleton_iff.mp written
        have ident : token.kind = .ident ∧ token.text = "void" := by
          simpa [Token.lexeme, word] using spelled
        simp [splitTopLevel, splitTopLevelFrom, Token.isStructural, isEmptyList, Token.isIdent,
          ident]
    rw [if_pos empty]
  · next some =>
    have each : ∀ item ∈ items, Grouped false item := by
      intro item member
      obtain ⟨p, spelled⟩ := SpelledItem.of_mem spelled member
      exact spelled.grouped
    have grouped := CType.listItems_grouped each variadic
    have parts := splitTopLevel_intercalate some grouped written
    obtain ⟨read, last⟩ := mapM_items spelled parts
    rw [isEmptyList_of_items spelled notVoid parts, if_neg (by simp), read, last]
    cases variadic <;> simp [bind, Except.bind, pure, Except.pure, List.filterMap_map]

end DeclarationReader

theorem SpelledList.of_items {parameters : List Parameter} {items : List (List Lexeme)}
    (spelled : List.Forall₂ SpelledItem parameters items) {variadic : Bool}
    (notVoid : items = [[word "void"]] → variadic = true) (explicit : Bool) :
    SpelledList parameters variadic (parameterList explicit items variadic) where
  grouped := by
    refine CType.parameterList_grouped (fun item member => ?_) explicit variadic
    obtain ⟨p, spelled⟩ := SpelledItem.of_mem spelled member
    exact spelled.grouped
  noDeclarator := by
    have dots : (mark "...").startsDeclarator = false := by decide
    have void : (word "void").startsDeclarator = false := by decide
    cases spelled with
    | nil => cases variadic <;> cases explicit <;> simp [parameterList, listItems, dots, void]
    | @cons p item parameters items first _ =>
      obtain ⟨text, others, rfl, noConvention⟩ := first.starts
      have starts : ∃ more, parameterList explicit ((word text :: others) :: items) variadic =
          word text :: more := by
        cases items <;> cases variadic <;> simp [parameterList, listItems, List.intercalate]
      obtain ⟨more, same⟩ := starts
      rw [same]
      simpa [Lexeme.startsDeclarator, word] using noConvention
  reads := fun _ written => DeclarationReader.parameters_read spelled notVoid written

end CBindings
