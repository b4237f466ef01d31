import CBindings.Proofs.Declaration.Calling

/-! Statements that declare one name: a type definition, or an object or a function with or without
`extern`. The name gets the type as it is read from its declarator. -/

namespace CBindings

open Lexeme

theorem Declarator.Spelled.ne_nil {d : Declarator} {lexemes : List Lexeme}
    (spelled : d.Spelled lexemes) {name : String} (named : d.identifier = some name) :
    lexemes ≠ [] := by
  cases spelled with
  | @plain own =>
    obtain rfl : own = some name := named
    simp
  | nested => simp

namespace DeclarationReader

theorem declarators_single {line : Nat} {tokens : List Token} {d : Declarator} {name : String}
    (reads : Reads (declarator line tokens) d []) (named : d.identifier = some name) :
    declarators line tokens = .ok [d] := by
  obtain ⟨_, read⟩ := reads
  rw [declarators]
  simp only [read, bind, Except.bind, named]
  rfl

theorem memberDeclarators_single {line : Nat} {tokens : List Token} {d : Declarator} {name : String}
    (reads : Reads (declarator line tokens) d []) (named : d.identifier = some name) :
    Reads (memberDeclarators line tokens) [(d, none)] [] := by
  obtain ⟨_, read⟩ := reads
  rw [memberDeclarators]
  simp only [read, bind, Except.bind, named]
  exact ⟨_, rfl⟩

theorem member_single {tokens after : List Token} {isTypedef : Bool} {draft : Draft}
    {base : Specified} {d : Declarator} {name : String}
    (specified : Reads (specifiers .fields ((tokens.head?.map Token.line).getD 0) { isTypedef }
      tokens) draft after) (finished : finish draft after = .ok base) (further : after ≠ [])
    (reads : Reads (declarator ((tokens.head?.map Token.line).getD 0) after) d [])
    (named : d.identifier = some name) :
    member isTypedef tokens = .ok (.mk draft.qualifiers base [(d, none)]) := by
  obtain ⟨_, specified⟩ := specified
  obtain ⟨_, declared⟩ := memberDeclarators_single reads named
  have notEmpty : after.isEmpty = false := by simpa using further
  rw [member]
  simp only [specified, bind, Except.bind, finished, notEmpty, Bool.false_eq_true, if_false,
    declared]
  rfl

def leadingWords : List String := ["typedef", "extern"]

theorem specifiers_leading {line : Nat} {words : List String}
    (known : ∀ text ∈ words, text ∈ leadingWords) {tokens rest after : List Token}
    (written : tokens.map Token.lexeme = words.map word) (draft : Draft) {final : Draft}
    (reads : Reads (specifiers .statement line
      { draft with isTypedef := draft.isTypedef || words.contains "typedef" } rest) final after) :
    Reads (specifiers .statement line draft (tokens ++ rest)) final after := by
  induction words generalizing tokens draft with
  | nil =>
    rw [List.map_eq_nil_iff.mp written]
    simpa using reads
  | cons text others ih =>
    rw [List.forall_mem_cons] at known
    obtain ⟨token, tail, rfl, spelled, written⟩ := List.map_eq_cons_iff.mp written
    obtain ⟨ident, same⟩ : token.kind = .ident ∧ token.text = text := by
      simpa [Token.lexeme, word] using spelled
    have facts : ∀ text ∈ leadingWords, text ∈ storageWords ∧ (text == "static") = false := by
      decide
    obtain ⟨storage, noStatic⟩ := facts text known.1
    have next := ih known.2 written { draft with isTypedef := draft.isTypedef || text == "typedef" }
      (by simpa [Bool.or_assoc, beq_eq_decide, eq_comm] using reads)
    rw [List.cons_append, specifiers]
    simp only [ident, same, ne_eq, not_true, if_false, List.contains_eq_mem, storage, decide_true,
      if_true, noStatic, Bool.or_false]
    exact next.after token

theorem read_single {type : CType} {name : String} {out : List Lexeme}
    (declared : CType.DeclaredAs (some name, type) out) {words : List String}
    (known : ∀ text ∈ words, text ∈ leadingWords) {tokens : List Token}
    (written : tokens.map Token.lexeme = words.map word ++ out) (line : Nat) :
    ∃ base, Refers type.base base ∧
      read line tokens = .ok ⟨words.contains "typedef", false, type.base.qualifiers, base,
        [type.surround (.plain (some name) { convention := type.convention })]⟩ := by
  obtain ⟨plain, announced, announces, outWritten⟩ := declared
  have start : (Declarator.plain (some name) {}).Spelled [word name] :=
    .plain .nil plain .nil
  obtain ⟨nameable, back, rfl, spelled⟩ := type.spells outWritten (start.announce announces)
  obtain ⟨leading, tail, rfl, leadingWritten, written⟩ := List.map_eq_append_iff.mp written
  obtain ⟨front, rest, rfl, frontWritten, restWritten⟩ := List.map_eq_append_iff.mp written
  have named : (type.surround ((Declarator.plain (some name) {}).announce
      type.convention)).identifier = some name := by
    rw [CType.identifier_surround]
    rfl
  obtain ⟨draft, base, refers, reads, qualifiers, typedef, static, finished⟩ :=
    specifiers_read .statement line nameable frontWritten (follows_spelled spelled restWritten)
      (words.contains "typedef") false
  obtain ⟨_, specified⟩ := specifiers_leading known leadingWritten {} reads
  have notEmpty : rest.isEmpty = false := by
    rw [List.isEmpty_eq_false_iff]
    rintro rfl
    exact spelled.ne_nil named restWritten.symm
  have single : declarators line rest = .ok [_] :=
    declarators_single (declarator_read_all spelled restWritten) named
  refine ⟨base, refers, ?_⟩
  rw [read]
  simp only [specified, finished, bind, Except.bind, notEmpty, single, qualifiers, typedef, static,
    Bool.false_eq_true, if_false]
  rfl

end DeclarationReader

theorem Grouped.isAtom_head {commas : Bool} {text : String} {rest : List Lexeme}
    (grouped : Grouped commas (word text :: rest)) :
    (word text).IsAtom commas ∧ Grouped commas rest := by
  generalize whole : word text :: rest = lexemes at grouped
  cases grouped with
  | nil => cases whole
  | atom plain others =>
    obtain ⟨rfl, rfl⟩ := List.cons.inj whole
    exact ⟨plain, others⟩
  | @group _ pair => exact absurd (List.cons.inj whole).1 (by simp [word, mark])

namespace Statement

/-- Grouped tokens hold no `::`, so that only their first word may be one of another language. -/
theorem isForeign_of_grouped {tokens : List Token} {commas : Bool}
    (native : ∀ token ∈ tokens.head?, token.text ∉ foreignWords)
    (grouped : Grouped commas (tokens.map Token.lexeme)) (position : Nat) :
    isForeign ⟨tokens, position⟩ = false := by
  have noScope (commas : Bool) (x : Lexeme) (atom : x.IsAtom commas) : x ≠ mark "::" := by
    rintro rfl
    rcases atom with ⟨ident, -⟩ | ⟨-, other, -⟩
    · cases ident
    · exact other (by decide)
  have inside : ∀ token ∈ tokens, token.isPunct "::" = false := by
    intro token member
    have other := grouped.forall_mem noScope (by simp [bracketPairs, mark]) _
      (List.mem_map_of_mem member)
    simpa [Token.isPunct, Token.lexeme, mark] using other
  have first : (tokens.head?.any fun first =>
      first.kind = .ident && foreignWords.contains first.text) = false := by
    cases tokens with
    | nil => rfl
    | cons token rest => simpa using fun _ => native token rfl
  rw [isForeign, first, Bool.false_or]
  simpa using inside

theorem split_single {type : CType} {name : String} {out : List Lexeme}
    (declared : CType.DeclaredAs (some name, type) out) {words : List String}
    (known : ∀ text ∈ words, text ∈ DeclarationReader.leadingWords) {body : List Token}
    (written : body.map Token.lexeme = words.map word ++ out) {last : Token}
    (ends : last.lexeme = mark ";") :
    body ≠ [] ∧ Grouped true (body.map Token.lexeme) ∧
      split (clean (body ++ [last])) = [⟨body, 0⟩] := by
  obtain ⟨plain, announced, announces, outWritten⟩ := declared
  have start : (Declarator.plain (some name) {}).Spelled [word name] :=
    .plain .nil plain .nil
  obtain ⟨nameable, back, same, -⟩ := type.spells outWritten (start.announce announces)
  obtain ⟨text, others, starts, -, noStorage⟩ := nameable.starts
  have grouped : Grouped true (body.map Token.lexeme) := by
    rw [written]
    refine Grouped.append (.of_atoms ?_)
      (type.grouped_of_written outWritten true (CType.declared_grouped plain announces true))
    rw [List.forall_mem_map]
    intro text member
    have storage : ∀ text ∈ DeclarationReader.leadingWords,
        text ∈ DeclarationReader.storageWords := by decide
    exact keyword_isAtom (by simp [storage text (known text member)]) true
  suffices whole : body ≠ [] ∧ split (clean (body ++ [last])) = [⟨body, 0⟩] from
    ⟨whole.1, grouped, whole.2⟩
  rw [same, starts] at written
  cases words with
  | nil =>
    obtain ⟨first, tail, rfl, isFirst, -⟩ := List.map_eq_cons_iff.mp written
    have noExtern : text ≠ "extern" := by
      rintro rfl
      exact noStorage (by decide)
    rw [List.map_cons, isFirst] at grouped
    exact ⟨by simp,
      split_word isFirst grouped.isAtom_head.1 (.inl noExtern) grouped.isAtom_head.2 ends⟩
  | cons leading words =>
    obtain ⟨first, tail, rfl, isFirst, written⟩ := List.map_eq_cons_iff.mp written
    have second : ∀ second ∈ tail.head?, second.kind ≠ .string := by
      obtain ⟨other, behind, isWord⟩ : ∃ other behind,
          words.map word ++ ((text :: others).map word ++ back) = word other :: behind := by
        cases words <;> exact ⟨_, _, rfl⟩
      obtain ⟨next, more, rfl, isNext, -⟩ := List.map_eq_cons_iff.mp (written.trans isWord)
      have ident : next.kind = .ident := congrArg Lexeme.kind isNext
      simp [ident]
    rw [List.map_cons, isFirst] at grouped
    exact ⟨by simp,
      split_word isFirst grouped.isAtom_head.1 (.inr second) grouped.isAtom_head.2 ends⟩

end Statement

theorem declarationsOf_single {type : CType} {name : String} {out : List Lexeme}
    (declared : CType.DeclaredAs (some name, type) out) {words : List String}
    (known : ∀ text ∈ words, text ∈ DeclarationReader.leadingWords) {tokens : List Token}
    (native : ∀ token ∈ tokens.head?, token.text ∉ Statement.foreignWords)
    (written : tokens.map Token.lexeme = words.map word ++ out ++ [mark ";"]) (header : String) :
    ∃ base, DeclarationReader.Refers type.base base ∧
      (declarationsOf tokens header).1 = DeclarationSyntax.declarations header
        ((tokens.head?.map Token.line).getD 0)
        ⟨words.contains "typedef", false, type.base.qualifiers, base,
          [type.surround (.plain (some name) { convention := type.convention })]⟩ := by
  obtain ⟨body, back, rfl, bodyWritten, written⟩ := List.map_eq_append_iff.mp written
  obtain ⟨semicolon, rfl, ends⟩ := List.map_eq_singleton_iff.mp written
  obtain ⟨some, grouped, statement⟩ := Statement.split_single declared known bodyWritten ends
  rw [List.head?_append_of_ne_nil _ some] at native ⊢
  obtain ⟨base, refers, read⟩ := DeclarationReader.read_single declared known bodyWritten
    ((body.head?.map Token.line).getD 0)
  have native : Statement.isForeign ⟨body, 0⟩ = false :=
    Statement.isForeign_of_grouped native grouped 0
  have line : Statement.line ⟨body, 0⟩ = (body.head?.map Token.line).getD 0 := rfl
  refine ⟨base, refers, ?_⟩
  rw [declarationsOf_eq_flatMap, statement]
  simp [Statement.declarations, native, line, read]

end CBindings
