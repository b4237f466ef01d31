import CBindings.Proofs.Declaration.Grouping

/-! The name of a type in front of a declarator is read as it is written, and the definition of a
record as its lines are. -/

namespace CBindings.DeclarationReader

open Lexeme

structure EndsType (text : String) : Prop where
  storage : text ∉ storageWords
  qualifier : text ∉ qualifierWords
  keyword : text ∉ Primitive.keywords
  tag : tagKind? text = none

theorem EndsType.of_plain {text : String} (plain : PlainWord text) : EndsType text :=
  ⟨plain.storage, plain.qualifier, plain.keyword, plain.tag⟩

def Follows (rest : List Token) : Prop :=
  ∀ token ∈ rest.head?,
    (token.kind = .ident → EndsType token.text) ∧ token.isPunct "\x7b" = false

theorem follows_nil : Follows [] := by simp [Follows]

theorem texts_of_words {words : List Token} {texts : List String}
    (spelled : words.map Token.lexeme = texts.map word) :
    words.map Token.text = texts ∧ ∀ token ∈ words, token.kind = .ident := by
  constructor
  · have := congrArg (List.map Lexeme.text) spelled
    simpa [Function.comp_def, Token.lexeme, word] using this
  · intro token member
    have member : token.lexeme ∈ texts.map word := spelled ▸ List.mem_map_of_mem member
    obtain ⟨text, -, same⟩ := List.mem_map.mp member
    exact (congrArg Lexeme.kind same).symm

section

variable {setting : Setting} {line : Nat} {rest : List Token}

theorem specifiers_stop {draft : Draft} (done : draft.base.isSome = true ∨ draft.words ≠ [])
    (follows : Follows rest) : Reads (specifiers setting line draft rest) draft rest := by
  cases rest with
  | nil =>
    rw [specifiers]
    exact ⟨_, rfl⟩
  | cons token rest =>
    rw [specifiers]
    by_cases ident : token.kind = .ident
    · have ends := (follows token rfl).1 ident
      have filled :
          (isConvention token.text || draft.base.isSome || !draft.words.isEmpty) = true := by
        simpa [or_assoc] using Or.inr done
      simp only [ident, ne_eq, not_true, if_false, ends.storage, ends.qualifier, ends.keyword,
        ends.tag, filled, List.contains_eq_mem, decide_false, Bool.false_eq_true, if_true]
      exact ⟨_, rfl⟩
    · simp only [ident, ne_eq, not_false_eq_true, if_true]
      exact ⟨_, rfl⟩

theorem qualifierWords_not_storage : ∀ q ∈ qualifierWords, q ∉ storageWords := by decide

theorem keywords_not_storage :
    ∀ text ∈ Primitive.keywords, text ∉ storageWords ∧ text ∉ qualifierWords := by decide

theorem specifiers_qualifiers {qualifiers : List String} {tokens : List Token}
    (known : ∀ q ∈ qualifiers, q ∈ qualifierWords)
    (written : tokens.map Token.lexeme = qualifiers.map word) (draft : Draft) {final : Draft}
    {after : List Token}
    (reads : Reads (specifiers setting line
      { draft with qualifiers := draft.qualifiers ++ qualifiers } rest) final after) :
    Reads (specifiers setting line draft (tokens ++ rest)) final after := by
  induction qualifiers generalizing tokens draft with
  | nil =>
    have none : tokens = [] := by simpa using written
    rw [List.append_nil] at reads
    exact none ▸ reads
  | cons q others ih =>
    rw [List.forall_mem_cons] at known
    obtain ⟨token, tail, rfl, spelled, written⟩ := List.map_eq_cons_iff.mp written
    obtain ⟨ident, text⟩ : token.kind = .ident ∧ token.text = q := by
      simpa [Token.lexeme, word] using spelled
    have next := ih known.2 written { draft with qualifiers := draft.qualifiers ++ [q] }
      (by simpa using reads)
    rw [List.cons_append, specifiers]
    simp only [ident, text, ne_eq, not_true, if_false, List.contains_eq_mem, known.1,
      qualifierWords_not_storage q known.1, decide_true, decide_false, if_true, Bool.false_eq_true]
    exact next.after token

theorem specifiers_keywords {words : List String} {tokens : List Token}
    (known : ∀ text ∈ words, text ∈ Primitive.keywords)
    (written : tokens.map Token.lexeme = words.map word) (draft : Draft) {final : Draft}
    (bare : draft.base = none) {after : List Token}
    (reads : Reads (specifiers setting line { draft with words := draft.words ++ words } rest)
      final after) :
    Reads (specifiers setting line draft (tokens ++ rest)) final after := by
  induction words generalizing tokens draft with
  | nil =>
    have none : tokens = [] := by simpa using written
    rw [List.append_nil] at reads
    exact none ▸ reads
  | cons text others ih =>
    rw [List.forall_mem_cons] at known
    obtain ⟨token, tail, rfl, spelled, written⟩ := List.map_eq_cons_iff.mp written
    obtain ⟨ident, same⟩ : token.kind = .ident ∧ token.text = text := by
      simpa [Token.lexeme, word] using spelled
    obtain ⟨noStorage, noQualifier⟩ := keywords_not_storage text known.1
    have next := ih known.2 written { draft with words := draft.words ++ [text] }
      bare (by simpa using reads)
    rw [List.cons_append, specifiers]
    simp only [ident, same, ne_eq, not_true, if_false, List.contains_eq_mem, known.1, noStorage,
      noQualifier, bare, decide_true, decide_false, if_true, Bool.false_eq_true, Option.isSome_none]
    exact (bare ▸ next).after token

theorem specifiers_typedef {name : String} (plain : PlainWord name) {token : Token}
    (spelled : token.lexeme = word name) (qualifiers : List String) (isTypedef isStatic : Bool)
    (follows : Follows rest) :
    Reads (specifiers setting line ⟨qualifiers, [], none, isTypedef, isStatic⟩ (token :: rest))
      ⟨qualifiers, [], some (.name .typedef name), isTypedef, isStatic⟩ rest := by
  obtain ⟨ident, text⟩ : token.kind = .ident ∧ token.text = name := by
    simpa [Token.lexeme, word] using spelled
  have stop : Reads (specifiers setting line
      ⟨qualifiers, [], some (.name .typedef name), isTypedef, isStatic⟩ rest) _ rest :=
    specifiers_stop (.inl rfl) follows
  rw [specifiers]
  simp only [ident, text, ne_eq, not_true, if_false, List.contains_eq_mem, plain.storage,
    plain.qualifier, plain.keyword, plain.tag, plain.convention, plain.wide,
    decide_false, Bool.false_eq_true, Option.isSome_none, List.isEmpty_nil, Bool.not_true,
    Bool.or_self]
  exact stop.after token

theorem tag_named {kind : NameKind} {name : String} {token : Token}
    (spelled : token.lexeme = word name) (isTypedef : Bool) (tagLine : Nat)
    (follows : Follows rest) :
    Reads (tag setting line isTypedef kind tagLine (token :: rest))
      (tagReference setting isTypedef kind name tagLine rest) rest := by
  obtain ⟨ident, text⟩ : token.kind = .ident ∧ token.text = name := by
    simpa [Token.lexeme, word] using spelled
  have named : tagName (token :: rest) = .after token (.stay (some name) rest) := by
    simp [tagName, ident, text]
  rw [tag]
  split
  · next none =>
    rw [named] at none
    have none : rest = [] := none
    simp only [named, Parsed.after, Parsed.widen, Parsed.stay, none]
    exact ⟨_, rfl⟩
  · next brace inner some =>
    rw [named] at some
    obtain rfl : rest = brace :: inner := some
    have noBrace : brace.isPunct "\x7b" = false := (follows brace rfl).2
    simp only [named, Parsed.after, Parsed.widen, Parsed.stay, noBrace, Bool.false_eq_true,
      if_false]
    exact ⟨_, rfl⟩

theorem tagKind?_word : ∀ kind : NameKind, kind.isTag = true →
    tagKind? kind.word = some kind ∧ kind.word ∉ storageWords ∧ kind.word ∉ qualifierWords ∧
      kind.word ∉ Primitive.keywords := by
  rintro (_ | _ | _ | _ | _) isTag <;> revert isTag <;> decide

theorem specifiers_tag {kind : NameKind} (isTag : kind.isTag = true) {name : String}
    {keyword token : Token} (isKeyword : keyword.lexeme = word kind.word)
    (spelled : token.lexeme = word name) (qualifiers : List String) (isTypedef isStatic : Bool)
    (follows : Follows rest) :
    Reads (specifiers setting line ⟨qualifiers, [], none, isTypedef, isStatic⟩
        (keyword :: token :: rest))
      ⟨qualifiers, [], some (tagReference setting isTypedef kind name keyword.line rest), isTypedef,
        isStatic⟩ rest := by
  obtain ⟨ident, text⟩ : keyword.kind = .ident ∧ keyword.text = kind.word := by
    simpa [Token.lexeme, word] using isKeyword
  obtain ⟨_, tagged⟩ : Reads (tag setting line isTypedef kind keyword.line (token :: rest)) _ rest :=
    tag_named spelled isTypedef keyword.line follows
  obtain ⟨_, stop⟩ : Reads (specifiers setting line
      ⟨qualifiers, [], some (tagReference setting isTypedef kind name keyword.line rest), isTypedef,
        isStatic⟩ rest) _ rest :=
    specifiers_stop (.inl rfl) follows
  have known := tagKind?_word kind isTag
  rw [specifiers]
  simp only [ident, text, ne_eq, not_true, if_false, List.contains_eq_mem, known,
    decide_false, Bool.false_eq_true, Option.isSome_none, List.isEmpty_nil, Bool.not_true,
    Bool.or_self, tagged]
  change Reads (specifiers setting line
    ⟨qualifiers, [], some (tagReference setting isTypedef kind name keyword.line rest), isTypedef,
      isStatic⟩ rest >>= _) _ _
  rw [stop]
  exact ⟨_, rfl⟩

theorem tag_record {kind : NameKind} (noEnum : kind ≠ .enum) {name : Option String}
    {tokens inner : List Token} {brace : Token} {cut : Group Token} {members : List Member}
    (isTypedef : Bool) (tagLine : Nat) (value : (tagName tokens).value = name)
    (left : (tagName tokens).rest = brace :: inner) (opens : brace.isPunct "\x7b" = true)
    (found : splitGroup? (·.isPunct "\x7b") (·.isPunct "\x7d") 0 inner = some cut)
    (each : ((splitTopLevel cut.inside ";").filter (!·.isEmpty)).mapM (member isTypedef) =
      .ok members) :
    Reads (tag setting line isTypedef kind tagLine tokens)
      (.record (kind = .union) name tagLine isTypedef members) cut.after := by
  have grouped : group "\x7b" "\x7d" line inner = .ok ⟨cut, splitGroup?_length_lt found⟩ := by
    unfold group
    split
    · next none => cases none.symm.trans found
    · next cut' some =>
      cases some.symm.trans found
      rfl
  rw [tag]
  split
  · next none => cases none.symm.trans left
  · next brace' inner' some =>
    cases some.symm.trans left
    simp only [opens, if_true, grouped, bind, Except.bind, noEnum, if_false]
    rw [List.mapM_subtype (g := member isTypedef) fun _ _ => rfl, List.unattach_attach, each, value]
    exact ⟨_, rfl⟩

theorem specifiers_definition {kind : NameKind} {keyword : Token} {tokens after : List Token}
    {draft final : Draft} {base : Specified} (isTag : kind.isTag = true)
    (spelled : keyword.lexeme = word kind.word) (bare : draft.base = none) (new : draft.words = [])
    (defines : Reads (tag setting line draft.isTypedef kind keyword.line tokens) base rest)
    (reads : Reads (specifiers setting line { draft with base := some base } rest) final after) :
    Reads (specifiers setting line draft (keyword :: tokens)) final after := by
  obtain ⟨ident, text⟩ : keyword.kind = .ident ∧ keyword.text = kind.word := by
    simpa [Token.lexeme, word] using spelled
  obtain ⟨_, defined⟩ := defines
  obtain ⟨_, next⟩ := reads
  have known := tagKind?_word kind isTag
  rw [specifiers]
  rw [new] at next
  simp only [ident, text, ne_eq, not_true, if_false, List.contains_eq_mem, known,
    decide_false, Bool.false_eq_true, bare, new, Option.isSome_none, List.isEmpty_nil,
    Bool.not_true, Bool.or_self, defined, bind, Except.bind, next]
  exact ⟨_, rfl⟩

/-- The canonical names of primitive types are their own canonical names. -/
theorem canonical_primitiveWords : ∀ name ∈ Primitive.names,
    TypeName.primitiveWords name ≠ [] ∧
      (Primitive.canonical (TypeName.primitiveWords name)).toOption = some name := by
  decide +kernel

/-- A type by its name, or a tag that is declared where it is named. -/
def Refers (t : TypeName) (base : Specified) : Prop :=
  ∃ name, t.name = some name ∧
    (base = .name t.kind name ∨ (t.kind = .struct ∨ t.kind = .union) ∧
      ∃ line, base = .opaqueTag (t.kind = .union) name line)

theorem Refers.typeName {t : TypeName} {base : Specified} (refers : Refers t base) :
    base.typeName t.qualifiers = t := by
  obtain ⟨kind, known, qualifiers⟩ := t
  obtain ⟨name, rfl, rfl | ⟨isTag, line, rfl⟩⟩ := refers
  · rfl
  · rcases isTag with rfl | rfl <;> rfl

theorem Refers.eq_name {t : TypeName} {base : Specified} (refers : Refers t base)
    (noTag : t.kind ≠ .struct ∧ t.kind ≠ .union) {name : String} (named : t.name = some name) :
    base = .name t.kind name := by
  obtain ⟨own, ownName, rfl | ⟨isTag, -⟩⟩ := refers
  · rw [Option.some.inj (ownName.symm.trans named)]
  · exact (isTag.elim noTag.1 noTag.2).elim

theorem refers_tagReference {kind : NameKind} (isTag : kind.isTag = true) (name : String)
    (qualifiers : List String) (setting : Setting) (isTypedef : Bool) (line : Nat)
    (rest : List Token) :
    Refers ⟨kind, some name, qualifiers⟩ (tagReference setting isTypedef kind name line rest) := by
  refine ⟨name, rfl, ?_⟩
  unfold tagReference
  cases kind with
  | primitive | typedef => cases isTag
  | enum => simp
  | struct | union =>
    split
    · exact .inr ⟨by simp, line, rfl⟩
    · exact .inl rfl

variable (setting line) in
/-- Specifiers are read up to the declarator, and spell the type they are written for. -/
theorem specifiers_read {t : TypeName} (nameable : t.Nameable) {tokens : List Token}
    (written : tokens.map Token.lexeme = (t.qualifiers ++ t.specifierWords).map word)
    (follows : Follows rest) (isTypedef isStatic : Bool) :
    ∃ draft base, Refers t base ∧
      Reads (specifiers setting line ⟨[], [], none, isTypedef, isStatic⟩ (tokens ++ rest)) draft
        rest ∧
      draft.qualifiers = t.qualifiers ∧ draft.isTypedef = isTypedef ∧ draft.isStatic = isStatic ∧
      finish draft rest = .ok base := by
  obtain ⟨kind, known, qualifiers⟩ := t
  obtain ⟨qualified, name, rfl, plain⟩ := nameable
  rw [List.map_append] at written
  obtain ⟨front, back, rfl, frontWritten, backWritten⟩ := List.map_eq_append_iff.mp written
  have collect (final : Draft)
      (reads : Reads (specifiers setting line ⟨qualifiers, [], none, isTypedef, isStatic⟩
        (back ++ rest)) final rest) :
      Reads (specifiers setting line ⟨[], [], none, isTypedef, isStatic⟩ (front ++ (back ++ rest)))
        final rest :=
    specifiers_qualifiers qualified frontWritten ⟨[], [], none, isTypedef, isStatic⟩ reads
  rw [List.append_assoc]
  cases kind with
  | primitive =>
    obtain ⟨some, canonical⟩ := canonical_primitiveWords name plain
    refine ⟨⟨qualifiers, TypeName.primitiveWords name, none, isTypedef, isStatic⟩, _,
      ⟨name, rfl, .inl rfl⟩, collect _ ?_, rfl, rfl, rfl, ?_⟩
    · exact specifiers_keywords (primitiveWords_keywords name plain) backWritten _ rfl
        (specifiers_stop (.inr some) follows)
    · cases spelled : Primitive.canonical (TypeName.primitiveWords name) with
      | error => simp [spelled, Except.toOption] at canonical
      | ok found =>
        have same : found = name := by simpa [spelled, Except.toOption] using canonical
        simp [finish, some, spelled, same]
  | typedef =>
    obtain ⟨token, rfl, spelled⟩ := List.map_eq_singleton_iff.mp backWritten
    exact ⟨_, _, ⟨name, rfl, .inl rfl⟩, collect _ (specifiers_typedef plain spelled qualifiers
      isTypedef isStatic follows), rfl, rfl, rfl, rfl⟩
  | struct | enum | union =>
    obtain ⟨keyword, tail, rfl, isKeyword, tailWritten⟩ := List.map_eq_cons_iff.mp backWritten
    obtain ⟨token, rfl, spelled⟩ := List.map_eq_singleton_iff.mp tailWritten
    exact ⟨_, _, refers_tagReference rfl name qualifiers setting isTypedef keyword.line rest,
      collect _ (specifiers_tag rfl isKeyword spelled qualifiers isTypedef isStatic follows), rfl,
      rfl, rfl, rfl⟩

end

end CBindings.DeclarationReader
