import CBindings.Proofs.Declaration.Specifier

/-! What spells a declarator. From tokens that spell it, and up to the closing bracket that may follow
them, exactly the declarator is read. -/

namespace CBindings

open Lexeme

structure Extent.SpelledBy (extent : Extent) (bound : List Lexeme) : Prop where
  grouped : Grouped true bound
  reads : ∀ tokens : List Token, tokens.map Token.lexeme = bound →
    DeclarationReader.extent tokens = extent

def Lexeme.startsDeclarator (x : Lexeme) : Bool :=
  (x.kind = .punct && (x.text = "*" || x.text = "^")) ||
    (x.kind = .ident && DeclarationReader.isConvention x.text)

/-- What spells a list of parameters, and is not taken for a declarator in parentheses. -/
structure SpelledList (parameters : List Parameter) (variadic : Bool) (list : List Lexeme) :
    Prop where
  grouped : Grouped true list
  noDeclarator : ∀ first ∈ list.head?, first.startsDeclarator = false
  reads : ∀ tokens : List Token, tokens.map Token.lexeme = list →
    DeclarationReader.parameters tokens = .ok (parameters, variadic)

def Suffix.SpelledBy (lexemes : List Lexeme) : Suffix → Prop
  | array extent => ∃ bound, extent.SpelledBy bound ∧ lexemes = mark "[" :: bound ++ [mark "]"]
  | function parameters variadic =>
    ∃ list, SpelledList parameters variadic list ∧ lexemes = mark "(" :: list ++ [mark ")"]

inductive SpelledSuffixes : List Suffix → List Lexeme → Prop where
  | nil : SpelledSuffixes [] []
  | cons {suffix : Suffix} {others : List Suffix} {front back : List Lexeme}
      (first : suffix.SpelledBy front) (rest : SpelledSuffixes others back) :
      SpelledSuffixes (suffix :: others) (front ++ back)

/-- Pointers with their qualifiers, and calling conventions among them. The last one counts. -/
inductive Opening : List (List String) → Option String → List Lexeme → Prop where
  | nil : Opening [] none []
  | pointer {qualifiers : List String} {pointers : List (List String)} {convention : Option String}
      {rest : List Lexeme} (qualified : ∀ q ∈ qualifiers, q ∈ DeclarationReader.qualifierWords)
      (others : Opening pointers convention rest) :
      Opening (qualifiers :: pointers) convention (mark "*" :: qualifiers.map word ++ rest)
  | keyword {text own : String} {pointers : List (List String)} {convention : Option String}
      {rest : List Lexeme} (known : DeclarationReader.conventions.lookup text = some own)
      (others : Opening pointers convention rest) :
      Opening pointers (convention <|> some own) (word text :: rest)

/-- What spells a declarator. In parentheses it starts with a pointer or a calling convention. -/
inductive Declarator.Spelled : Declarator → List Lexeme → Prop where
  | plain {name : Option String} {pointers : List (List String)} {convention : Option String}
      {suffixes : List Suffix} {front back : List Lexeme}
      (opening : Opening pointers convention front) (named : ∀ n ∈ name, PlainWord n)
      (after : SpelledSuffixes suffixes back) :
      Spelled (.plain name ⟨pointers, convention, suffixes⟩)
        (front ++ (name.toList.map word ++ back))
  | nested {inner : Declarator} {pointers : List (List String)} {convention : Option String}
      {suffixes : List Suffix} {front middle back : List Lexeme}
      (opening : Opening pointers convention front) (inside : Spelled inner middle)
      (starts : ∃ first ∈ middle.head?, first.startsDeclarator = true)
      (after : SpelledSuffixes suffixes back) :
      Spelled (.nested inner ⟨pointers, convention, suffixes⟩)
        (front ++ (mark "(" :: middle ++ [mark ")"] ++ back))

namespace DeclarationReader

theorem EndsType.of_convention {text own : String} (known : conventions.lookup text = some own) :
    EndsType text ∧ isConvention text = true := by
  have each : ∀ pair ∈ conventions, pair.1 ∉ storageWords ∧ pair.1 ∉ qualifierWords ∧
      pair.1 ∉ Primitive.keywords ∧ tagKind? pair.1 = none := by decide
  obtain ⟨storage, qualifier, keyword, tag⟩ := each (text, own) (mem_of_lookup known)
  exact ⟨⟨storage, qualifier, keyword, tag⟩, by simp [isConvention, known]⟩

theorem startsDeclarator_eq (tokens : List Token) :
    startsDeclarator tokens = tokens.head?.any fun token => token.lexeme.startsDeclarator := by
  cases tokens with
  | nil => rfl
  | cons token rest =>
    simp only [startsDeclarator, Token.isPunct, List.head?_cons, Option.any_some,
      Lexeme.startsDeclarator, Bool.and_or_distrib_left]
    rfl

structure EndsOpening (rest : List Token) : Prop where
  follows : Follows rest
  other : ∀ token ∈ rest.head?, token.lexeme.startsDeclarator = false

def EndsDeclarator (rest : List Token) : Prop := ∀ token ∈ rest.head?, token.lexeme = mark ")"

theorem follows_mark {text : String} {token : Token} {rest : List Token}
    (spelled : token.lexeme = mark text) (other : text ≠ "\x7b") : Follows (token :: rest) := by
  intro first same
  obtain rfl : token = first := by simpa using same
  refine ⟨fun ident => ?_, by simpa [Token.isPunct_of_lexeme spelled] using other⟩
  rw [show token.kind = .punct from congrArg Lexeme.kind spelled] at ident
  cases ident

theorem follows_convention {text own : String} {token : Token} {rest : List Token}
    (known : conventions.lookup text = some own) (spelled : token.lexeme = word text) :
    Follows (token :: rest) := by
  obtain ⟨ident, same⟩ : token.kind = .ident ∧ token.text = text := by
    simpa [Token.lexeme, word] using spelled
  intro first isFirst
  obtain rfl : token = first := by simpa using isFirst
  exact ⟨fun _ => same ▸ (EndsType.of_convention known).1, by simp [Token.isPunct, ident]⟩

theorem endsOpening_mark {text : String} {token : Token} {rest : List Token}
    (spelled : token.lexeme = mark text) (other : text ∉ ["\x7b", "*", "^"]) :
    EndsOpening (token :: rest) := by
  simp only [List.mem_cons, List.not_mem_nil, or_false, not_or] at other
  refine ⟨follows_mark spelled other.1, fun first same => ?_⟩
  obtain rfl : token = first := by simpa using same
  rw [spelled]
  simp [Lexeme.startsDeclarator, mark, other]

theorem endsOpening_name {token : Token} {name : String} (spelled : token.lexeme = word name)
    (plain : PlainWord name) (rest : List Token) : EndsOpening (token :: rest) := by
  obtain ⟨ident, text⟩ : token.kind = .ident ∧ token.text = name := by
    simpa [Token.lexeme, word] using spelled
  refine ⟨fun first same => ?_, fun first same => ?_⟩ <;> obtain rfl : token = first := by
    simpa using same
  · exact ⟨fun _ => text ▸ .of_plain plain, by simp [Token.isPunct, ident]⟩
  · rw [spelled]
    simp [Lexeme.startsDeclarator, word, plain.convention]

theorem endsDeclarator_nil : EndsDeclarator [] := by simp [EndsDeclarator]

theorem endsOpening_nil : EndsOpening [] := ⟨follows_nil, by simp⟩

theorem EndsDeclarator.endsOpening {rest : List Token} (ends : EndsDeclarator rest) :
    EndsOpening rest := by
  cases rest with
  | nil => exact endsOpening_nil
  | cons token rest => exact endsOpening_mark (ends token rfl) (by decide)

theorem qualifiers_cut {qualifiers : List String} (known : ∀ q ∈ qualifiers, q ∈ qualifierWords)
    {words rest : List Token} (spelled : words.map Token.lexeme = qualifiers.map word)
    (follows : Follows rest) :
    (words ++ rest).takeWhile isQualifier = words ∧
      (words ++ rest).dropWhile isQualifier = rest := by
  obtain ⟨texts, idents⟩ := texts_of_words spelled
  have all : ∀ token ∈ words, isQualifier token = true := by
    intro token member
    have known := known token.text (texts ▸ List.mem_map_of_mem member)
    simp [isQualifier, idents token member, known]
  have stops : rest.takeWhile isQualifier = [] ∧ rest.dropWhile isQualifier = rest := by
    cases rest with
    | nil => exact ⟨rfl, rfl⟩
    | cons token rest =>
      have other : isQualifier token = false := by
        simp only [isQualifier, Bool.and_eq_false_imp, decide_eq_true_eq]
        intro ident
        simpa using ((follows token rfl).1 ident).qualifier
      simp [other]
  rw [List.takeWhile_append_of_pos all, List.dropWhile_append_of_pos all, stops.1, stops.2,
    List.append_nil]
  exact ⟨rfl, rfl⟩

theorem wrappingBefore_stay {rest : List Token} (ends : EndsOpening rest) (wrapping : Wrapping) :
    wrappingBefore wrapping rest = .stay wrapping rest := by
  obtain ⟨follows, noStart⟩ := ends
  cases rest with
  | nil => rw [wrappingBefore.eq_def]
  | cons token rest =>
    obtain ⟨noPointer, noConvention⟩ :
        (token.isPunct "*" || token.isPunct "^") = false ∧
          (token.kind = .ident → conventions.lookup token.text = none) := by
      have other := noStart token rfl
      simp only [Lexeme.startsDeclarator, Token.lexeme, Bool.and_or_distrib_left,
        Bool.or_eq_false_iff (x := _ || _)] at other
      refine ⟨other.1, fun ident => ?_⟩
      simpa [ident, isConvention] using other.2
    rw [wrappingBefore.eq_def]
    simp only [noPointer, Bool.false_eq_true, if_false]
    split
    · next ident =>
      simp [noConvention ident, ((follows token rfl).1 ident).qualifier]
    · rfl

theorem follows_opening {pointers : List (List String)} {convention : Option String}
    {lexemes : List Lexeme} (opening : Opening pointers convention lexemes) {tokens rest : List Token}
    (written : tokens.map Token.lexeme = lexemes) (follows : Follows rest) :
    Follows (tokens ++ rest) := by
  cases opening with
  | nil => exact (List.map_eq_nil_iff.mp written) ▸ follows
  | pointer =>
    obtain ⟨star, tail, rfl, isStar, -⟩ := List.map_eq_cons_iff.mp written
    exact follows_mark isStar (by decide)
  | keyword known =>
    obtain ⟨token, tail, rfl, spelled, -⟩ := List.map_eq_cons_iff.mp written
    exact follows_convention known spelled

/-- Pointers and conventions are read up to the first token that is none. -/
theorem wrappingBefore_read {pointers : List (List String)} {convention : Option String}
    {lexemes : List Lexeme} (opening : Opening pointers convention lexemes)
    {tokens rest : List Token} (written : tokens.map Token.lexeme = lexemes)
    (ends : EndsOpening rest) (wrapping : Wrapping) :
    (wrappingBefore wrapping (tokens ++ rest)).value =
        { wrapping with
          pointers := wrapping.pointers ++ pointers
          convention := convention <|> wrapping.convention } ∧
      (wrappingBefore wrapping (tokens ++ rest)).rest = rest := by
  induction opening generalizing tokens wrapping with
  | nil =>
    rw [List.map_eq_nil_iff.mp written, List.nil_append, List.append_nil, wrappingBefore_stay ends]
    exact ⟨rfl, rfl⟩
  | @pointer qualifiers pointers convention lexemes qualified others ih =>
    obtain ⟨star, tail, rfl, isStar, written⟩ := List.map_eq_cons_iff.mp written
    obtain ⟨words, tail, rfl, spelled, written⟩ := List.map_eq_append_iff.mp written
    obtain ⟨taken, left⟩ := qualifiers_cut qualified spelled (follows_opening others written ends.follows)
    rw [List.cons_append, List.append_assoc, wrappingBefore.eq_def]
    simp only [Token.isPunct_of_lexeme isStar, decide_true, Bool.true_or, if_true, Parsed.widen,
      taken, (texts_of_words spelled).1]
    rw [left]
    have next := ih written { wrapping with pointers := wrapping.pointers ++ [qualifiers] }
    simpa using next
  | @keyword text own pointers convention lexemes known others ih =>
    obtain ⟨token, tail, rfl, spelled, written⟩ := List.map_eq_cons_iff.mp written
    obtain ⟨ident, same⟩ : token.kind = .ident ∧ token.text = text := by
      simpa [Token.lexeme, word] using spelled
    rw [List.cons_append, wrappingBefore.eq_def]
    have noStar : (token.isPunct "*" || token.isPunct "^") = false := by simp [Token.isPunct, ident]
    have next := ih written { wrapping with convention := some own }
    simp only [noStar, ident, same, Bool.false_eq_true, if_false, if_true, known, Parsed.after,
      Parsed.widen]
    simpa [Option.or_assoc] using next

section

variable {line : Nat} {rest : List Token}

/-- The tokens of a group are its two brackets and what stands between them. -/
theorem enclosed_tokens {tokens : List Token} {opening closing : String} {inner : List Lexeme}
    (written : tokens.map Token.lexeme = mark opening :: inner ++ [mark closing]) :
    ∃ first inside last, tokens = first :: (inside ++ [last]) ∧ first.lexeme = mark opening ∧
      inside.map Token.lexeme = inner ∧ last.lexeme = mark closing := by
  rw [List.cons_append] at written
  obtain ⟨first, tail, rfl, opens, written⟩ := List.map_eq_cons_iff.mp written
  obtain ⟨inside, back, rfl, between, written⟩ := List.map_eq_append_iff.mp written
  obtain ⟨last, rfl, closes⟩ := List.map_eq_singleton_iff.mp written
  exact ⟨first, inside, last, rfl, opens, between, closes⟩

theorem group_read {opening closing : String} (known : (opening, closing) ∈ bracketPairs)
    {commas : Bool} {tokens : List Token} (grouped : Grouped commas (tokens.map Token.lexeme))
    {last : Token} (closes : last.lexeme = mark closing) (line : Nat) (rest : List Token) :
    ∃ within, group opening closing line (tokens ++ last :: rest) =
      .ok ⟨⟨tokens, last, rest⟩, within⟩ := by
  have nested : Nested (tokens.map id) := by
    rw [List.map_id]
    exact grouped.nested
  have closesPair : last.isPunct closing = true := by simp [Token.isPunct_of_lexeme closes]
  have cut : splitGroup? (·.isPunct opening) (·.isPunct closing) 0 (tokens ++ last :: rest) =
      some ⟨tokens, last, rest⟩ :=
    splitGroup?_closed (bracketPairs_nesting _ known) nested closesPair rest
  unfold group
  split
  · next none =>
    rw [cut] at none
    cases none
  · next other found =>
    rw [cut] at found
    cases found
    exact ⟨splitGroup?_length_lt cut, rfl⟩

theorem suffixes_stop (ends : EndsDeclarator rest) : Reads (suffixes line rest) [] rest := by
  cases rest with
  | nil =>
    rw [suffixes]
    exact ⟨_, rfl⟩
  | cons token rest =>
    rw [suffixes]
    simp only [Token.isPunct_of_lexeme (ends token rfl), String.reduceEq, decide_false,
      Bool.false_eq_true, if_false]
    exact ⟨_, rfl⟩

/-- Array bounds and parameter lists are read up to the end of the declarator. -/
theorem suffixes_read {list : List Suffix} {lexemes : List Lexeme}
    (spelled : SpelledSuffixes list lexemes) {tokens : List Token}
    (written : tokens.map Token.lexeme = lexemes) (ends : EndsDeclarator rest) :
    Reads (suffixes line (tokens ++ rest)) list rest := by
  induction spelled generalizing tokens with
  | nil => exact (List.map_eq_nil_iff.mp written) ▸ suffixes_stop ends
  | @cons suffix others front back first _ ih =>
    obtain ⟨frontTokens, tail, rfl, frontWritten, tailWritten⟩ := List.map_eq_append_iff.mp written
    obtain ⟨_, next⟩ := ih tailWritten
    cases suffix with
    | array extent =>
      obtain ⟨bound, spells, rfl⟩ := first
      obtain ⟨opening, inside, closing, rfl, opens, between, closes⟩ := enclosed_tokens frontWritten
      obtain ⟨_, cut⟩ := group_read (show ("[", "]") ∈ bracketPairs by decide)
        (between ▸ spells.grouped) closes line (tail ++ rest)
      have shape : opening :: (inside ++ [closing]) ++ tail ++ rest =
          opening :: (inside ++ closing :: (tail ++ rest)) := by simp
      rw [shape, suffixes]
      simp only [Token.isPunct_of_lexeme opens, decide_true, if_true, cut, bind, Except.bind, next,
        spells.reads inside between]
      exact ⟨_, rfl⟩
    | function parameters variadic =>
      obtain ⟨list, spells, rfl⟩ := first
      obtain ⟨opening, inside, closing, rfl, opens, between, closes⟩ := enclosed_tokens frontWritten
      obtain ⟨_, cut⟩ := group_read (show ("(", ")") ∈ bracketPairs by decide)
        (between ▸ spells.grouped) closes line (tail ++ rest)
      have shape : opening :: (inside ++ [closing]) ++ tail ++ rest =
          opening :: (inside ++ closing :: (tail ++ rest)) := by simp
      rw [shape, suffixes]
      simp only [Token.isPunct_of_lexeme opens, decide_true, if_true, cut, bind, Except.bind, next,
        spells.reads inside between]
      exact ⟨_, rfl⟩

theorem declarator_unnamed {line : Nat} {tokens after rest : List Token}
    {pointers : List (List String)} {convention : Option String} {list : List Suffix}
    (value : (wrappingBefore {} tokens).value = { pointers, convention })
    (left : (wrappingBefore {} tokens).rest = after)
    (noName : ∀ token ∈ after.head?, token.kind ≠ .ident ∧
      (token.isPunct "(" && startsDeclarator after.tail) = false)
    (reads : Reads (suffixes line after) list rest) :
    Reads (declarator line tokens) (.plain none ⟨pointers, convention, list⟩) rest := by
  obtain ⟨_, reads⟩ := reads
  rw [declarator]
  split
  · next none =>
    rw [left] at none
    subst none
    rw [suffixes] at reads
    cases reads
    rw [value]
    exact ⟨_, rfl⟩
  · next token others some =>
    obtain rfl : after = token :: others := left.symm.trans some
    obtain ⟨noWord, noNested⟩ := noName token rfl
    simp only [List.tail_cons] at noNested
    simp only [noNested, noWord, value, reads, bind, Except.bind, decide_false, Bool.false_and,
      Bool.false_eq_true, if_false]
    exact ⟨_, rfl⟩

theorem declarator_named {line : Nat} {tokens others rest : List Token} {token : Token}
    {name : String} {pointers : List (List String)} {convention : Option String}
    {list : List Suffix} (value : (wrappingBefore {} tokens).value = { pointers, convention })
    (left : (wrappingBefore {} tokens).rest = token :: others)
    (spelled : token.lexeme = word name) (plain : PlainWord name)
    (reads : Reads (suffixes line others) list rest) :
    Reads (declarator line tokens) (.plain (some name) ⟨pointers, convention, list⟩) rest := by
  obtain ⟨ident, text⟩ : token.kind = .ident ∧ token.text = name := by
    simpa [Token.lexeme, word] using spelled
  obtain ⟨_, reads⟩ := reads
  rw [declarator]
  split
  · next none =>
    rw [left] at none
    cases none
  · next first others' some =>
    cases left.symm.trans some
    simp only [Token.isPunct, ident, text, plain.keyword, value, reads, bind, Except.bind,
      reduceCtorEq, decide_false, decide_true, Bool.false_and, Bool.false_eq_true, if_false,
      List.contains_eq_mem, Bool.not_false, Bool.and_self, if_true]
    exact ⟨_, rfl⟩

theorem declarator_nested {line : Nat} {tokens others more rest : List Token}
    {opening closing : Token} {pointers : List (List String)} {convention : Option String}
    {inner : Declarator} {list : List Suffix}
    (value : (wrappingBefore {} tokens).value = { pointers, convention })
    (left : (wrappingBefore {} tokens).rest = opening :: others)
    (opens : opening.lexeme = mark "(") (starts : startsDeclarator others = true)
    (reads : Reads (declarator line others) inner (closing :: more))
    (closes : closing.lexeme = mark ")") (after : Reads (suffixes line more) list rest) :
    Reads (declarator line tokens) (.nested inner ⟨pointers, convention, list⟩) rest := by
  obtain ⟨_, reads⟩ := reads
  obtain ⟨_, after⟩ := after
  have close : expect ")" line (closing :: more) = .ok (.take () closing more) := by
    simp [expect, Token.isPunct_of_lexeme closes]
  rw [declarator]
  split
  · next none =>
    rw [left] at none
    cases none
  · next first others' some =>
    cases left.symm.trans some
    simp only [Token.isPunct_of_lexeme opens, starts, value, reads, close, Parsed.take, after, bind,
      Except.bind, decide_true, Bool.and_self, if_true]
    exact ⟨_, rfl⟩

theorem startsDeclarator_list {parameters : List Parameter} {variadic : Bool}
    {list : List Lexeme} (spelled : SpelledList parameters variadic list) {inside : List Token}
    (written : inside.map Token.lexeme = list) {closing : Token}
    (closes : closing.lexeme = mark ")") (rest : List Token) :
    startsDeclarator (inside ++ closing :: rest) = false := by
  rw [startsDeclarator_eq]
  cases inside with
  | nil =>
    simp only [List.nil_append, List.head?_cons, Option.any_some, closes]
    rfl
  | cons first inside =>
    simpa using spelled.noDeclarator first.lexeme (by simp [← written])

theorem unnamed_suffixes {list : List Suffix} {lexemes : List Lexeme}
    (spelled : SpelledSuffixes list lexemes) {tokens : List Token}
    (written : tokens.map Token.lexeme = lexemes) (ends : EndsDeclarator rest) :
    EndsOpening (tokens ++ rest) ∧ ∀ token ∈ (tokens ++ rest).head?, token.kind ≠ .ident ∧
      (token.isPunct "(" && startsDeclarator (tokens ++ rest).tail) = false := by
  have other {text : String} {token : Token} {more : List Token} (spelled : token.lexeme = mark text)
      (noParen : text ≠ "(" ∨ startsDeclarator more = false) :
      ∀ first ∈ (token :: more).head?, first.kind ≠ .ident ∧
        (first.isPunct "(" && startsDeclarator (token :: more).tail) = false := by
    intro first same
    obtain rfl : token = first := by simpa using same
    have punct : token.kind = .punct := congrArg Lexeme.kind spelled
    refine ⟨by simp [punct], ?_⟩
    rw [Token.isPunct_of_lexeme spelled]
    rcases noParen with other | noStart
    · simp [other]
    · simp [noStart]
  cases spelled with
  | nil =>
    rw [List.map_eq_nil_iff.mp written, List.nil_append]
    refine ⟨ends.endsOpening, ?_⟩
    cases rest with
    | nil => simp
    | cons token rest => exact other (ends token rfl) (.inl (by decide))
  | @cons suffix others front back first rest' =>
    obtain ⟨frontTokens, tail, rfl, frontWritten, -⟩ := List.map_eq_append_iff.mp written
    cases suffix with
    | array extent =>
      obtain ⟨bound, -, rfl⟩ := first
      obtain ⟨opening, inside, closing, rfl, opens, -, -⟩ := enclosed_tokens frontWritten
      exact ⟨endsOpening_mark opens (by decide), other opens (.inl (by decide))⟩
    | function parameters variadic =>
      obtain ⟨list, spells, rfl⟩ := first
      obtain ⟨opening, inside, closing, rfl, opens, between, closes⟩ := enclosed_tokens frontWritten
      have shape : opening :: (inside ++ [closing]) ++ tail ++ rest =
          opening :: (inside ++ closing :: (tail ++ rest)) := by simp
      rw [shape]
      exact ⟨endsOpening_mark opens (by decide),
        other opens (.inr (startsDeclarator_list spells between closes (tail ++ rest)))⟩

/-- A declarator is read from what spells it, up to the closing bracket that may follow it. -/
theorem declarator_read {d : Declarator} {lexemes : List Lexeme} (spelled : d.Spelled lexemes)
    {tokens : List Token} (written : tokens.map Token.lexeme = lexemes)
    (ends : EndsDeclarator rest) : Reads (declarator line (tokens ++ rest)) d rest := by
  induction spelled generalizing tokens rest with
  | @plain name pointers convention list front back opening named after =>
    obtain ⟨first, tail, rfl, firstWritten, written⟩ := List.map_eq_append_iff.mp written
    obtain ⟨middle, last, rfl, middleWritten, lastWritten⟩ := List.map_eq_append_iff.mp written
    cases name with
    | none =>
      obtain rfl : middle = [] := by simpa using middleWritten
      obtain ⟨ending, noName⟩ := unnamed_suffixes after lastWritten ends
      obtain ⟨value, left⟩ := wrappingBefore_read opening firstWritten ending {}
      rw [List.nil_append, List.append_assoc]
      exact declarator_unnamed (by simpa using value) left noName
        (suffixes_read after lastWritten ends)
    | some name =>
      obtain ⟨token, rfl, isName⟩ := List.map_eq_singleton_iff.mp middleWritten
      have plain := named name rfl
      obtain ⟨value, left⟩ := wrappingBefore_read opening firstWritten
        (endsOpening_name isName plain (last ++ rest)) {}
      rw [List.append_assoc, List.append_assoc, List.singleton_append]
      exact declarator_named (by simpa using value) left isName plain
        (suffixes_read after lastWritten ends)
  | @nested inner pointers convention list front middle back opening inside starts after ih =>
    obtain ⟨first, tail, rfl, firstWritten, written⟩ := List.map_eq_append_iff.mp written
    obtain ⟨enclosed, last, rfl, enclosedWritten, lastWritten⟩ := List.map_eq_append_iff.mp written
    obtain ⟨paren, between, closing, rfl, opens, betweenWritten, closes⟩ :=
      enclosed_tokens enclosedWritten
    have shape : first ++ (paren :: (between ++ [closing]) ++ last) ++ rest =
        first ++ paren :: (between ++ closing :: (last ++ rest)) := by simp
    have ends' : EndsDeclarator (closing :: (last ++ rest)) := by
      intro token same
      obtain rfl : closing = token := by simpa using same
      exact closes
    have nestedStarts : startsDeclarator (between ++ closing :: (last ++ rest)) = true := by
      obtain ⟨x, isFirst, startsHere⟩ := starts
      rw [← betweenWritten, List.head?_map] at isFirst
      obtain ⟨token, isToken, rfl⟩ := Option.map_eq_some_iff.mp isFirst
      rw [startsDeclarator_eq, List.head?_append, isToken]
      exact startsHere
    obtain ⟨value, left⟩ := wrappingBefore_read opening firstWritten
      (endsOpening_mark opens (by decide)) {}
    rw [shape]
    exact declarator_nested (by simpa using value) left opens nestedStarts
      (ih betweenWritten ends') closes (suffixes_read after lastWritten ends)

theorem declarator_read_all {d : Declarator} {lexemes : List Lexeme} (spelled : d.Spelled lexemes)
    {tokens : List Token} (written : tokens.map Token.lexeme = lexemes) :
    Reads (declarator line tokens) d [] := by
  have read : Reads (declarator line (tokens ++ [])) d [] :=
    declarator_read spelled written endsDeclarator_nil
  rwa [List.append_nil] at read

theorem follows_spelled {d : Declarator} {lexemes : List Lexeme} (spelled : d.Spelled lexemes)
    {tokens : List Token} (written : tokens.map Token.lexeme = lexemes) : Follows tokens := by
  cases spelled with
  | @plain name pointers convention list front back opening named after =>
    obtain ⟨first, tail, rfl, firstWritten, written⟩ := List.map_eq_append_iff.mp written
    obtain ⟨middle, last, rfl, middleWritten, lastWritten⟩ := List.map_eq_append_iff.mp written
    refine follows_opening opening firstWritten ?_
    cases name with
    | none =>
      obtain rfl : middle = [] := by simpa using middleWritten
      have ending := (unnamed_suffixes after lastWritten endsDeclarator_nil).1
      rw [List.append_nil] at ending
      exact ending.follows
    | some name =>
      obtain ⟨token, rfl, isName⟩ := List.map_eq_singleton_iff.mp middleWritten
      exact (endsOpening_name isName (named name rfl) last).follows
  | @nested inner pointers convention list front middle back opening inside starts after =>
    obtain ⟨first, tail, rfl, firstWritten, written⟩ := List.map_eq_append_iff.mp written
    refine follows_opening opening firstWritten ?_
    obtain ⟨paren, others, rfl, opens, -⟩ := List.map_eq_cons_iff.mp written
    exact follows_mark opens (by decide)

end

end DeclarationReader

end CBindings
