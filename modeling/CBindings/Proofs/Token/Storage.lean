import CBindings.Declaration.Listing
import CBindings.Proofs.Token.Lexeme
import CBindings.Proofs.Token.Spelling

/-! Tokens that are stored as text are the tokens of that text again: values of enumerators, bounds
of arrays and replacement lists of macros. -/

namespace CBindings

def Token.IsStrayQuote (t : Token) : Prop := t.kind = .punct ∧ (t.text = "\"" ∨ t.text = "'")

instance (t : Token) : Decidable t.IsStrayQuote := inferInstanceAs (Decidable (_ ∧ _))

namespace Lexer

open Text

variable {quote c : Char} {rest after : List Char} {kind : TokenKind}

theorem quoted?_ne_quote {cut : Cut} (read : quoted? quote rest = some cut) : cut.1 ≠ [c] := by
  obtain ⟨front, -, inside, body, -, found, spelled⟩ := quoted?_eq_some read
  rw [spelled]
  intro alone
  have lengths := congrArg List.length alone
  simp only [List.length_append, List.length_cons, List.length_nil] at lengths
  obtain rfl : body = [] := List.eq_nil_of_length_eq_zero (by omega)
  cases quotedBody?_append found []

theorem punct_of_quote (isQuote : quote = '"' ∨ quote = '\'')
    (read : token c rest = (kind, [quote], after)) : kind = .punct := by
  have plain : isAsciiDigit quote = false ∧ isIdentStart quote = false ∧ quote ≠ '.' := by
    rcases isQuote with rfl | rfl <;> decide
  cases string : quoted? '"' (c :: rest) with
  | some cut =>
    rw [token_string string] at read
    cases read
    exact absurd rfl (quoted?_ne_quote string)
  | none =>
    cases char : quoted? '\'' (c :: rest) with
    | some cut =>
      rw [token_char string char] at read
      cases read
      exact absurd rfl (quoted?_ne_quote char)
    | none =>
      cases number : number? (c :: rest) with
      | some cut =>
        rw [token_number string char number] at read
        obtain ⟨d, front, inside, digit, point, -, spelled⟩ := number?_eq_some number
        rw [(Prod.mk.inj read).2] at spelled
        rcases point with rfl | rfl
        · rw [(List.cons.inj spelled).1, digit] at plain
          cases plain.1
        · cases spelled
      | none =>
        cases ident : ident? (c :: rest) with
        | some cut =>
          rw [token_ident string char number ident] at read
          unfold ident? at ident
          obtain ⟨starts, spelled⟩ := Option.ite_none_right_eq_some.mp ident
          rw [(Prod.mk.inj read).2] at spelled
          have same : c = quote :=
            (List.cons.inj (Prod.mk.inj (Option.some.inj spelled)).1).1
          rw [same, plain.2.1] at starts
          cases starts
        | none =>
          rw [token_punct string char number ident] at read
          exact (Prod.mk.inj read).1.symm

end Lexer

theorem Token.isLexeme_of_mem {line : Nat} {text : List Char} {t : Token}
    (member : t ∈ Lexer.tokensOf line text) (paired : ¬ t.IsStrayQuote) : t.IsLexeme := by
  obtain ⟨c, rest, after, -, read⟩ := Lexer.exists_cut_of_mem member
  refine ⟨⟨line, text, member⟩, fun string => paired ?_, fun char => paired ?_⟩
  · rw [string] at read
    exact ⟨Lexer.punct_of_quote (.inl rfl) read, .inl string⟩
  · rw [char] at read
    exact ⟨Lexer.punct_of_quote (.inr rfl) read, .inr char⟩

/-- The text is cut into these tokens, whatever lines they are on. -/
def Spells (text : String) (tokens : List Token) : Prop :=
  (tokenize text).map Token.lexeme = tokens.map Token.lexeme

theorem spells_of_lexemes {tokens : List Token} (lexemes : ∀ t ∈ tokens, t.IsLexeme) :
    Spells (spell tokens) tokens := by
  rw [Spells, tokenize_spell lexemes, List.map_map]
  rfl

/-- Wherever these tokens are stored as text, the text is cut into them again. -/
structure Restored (tokens : List Token) : Prop where
  extent : ∀ expression, DeclarationReader.extent tokens = .text expression →
    Spells expression tokens
  enumerator : ∀ first sign name expression,
    DeclarationReader.enumerator (first :: sign :: tokens) = .ok ⟨name, .text expression⟩ →
      Spells expression tokens
  constant : ∀ (m : Macro) header name words location, m.body = tokens →
    m.constant? header = some ⟨.constant name words, location⟩ →
      Spells (" ".intercalate words) tokens

theorem extent_text {tokens : List Token} {expression : String}
    (stored : DeclarationReader.extent tokens = .text expression) : expression = spell tokens := by
  unfold DeclarationReader.extent at stored
  split at stored
  · cases stored
  · split at stored
    · split at stored
      · cases stored
      · exact (Extent.text.inj stored).symm
    · exact (Extent.text.inj stored).symm
  · exact (Extent.text.inj stored).symm

theorem enumerator_text {first sign : Token} {tokens : List Token} {name expression : String}
    (stored : DeclarationReader.enumerator (first :: sign :: tokens) =
      .ok ⟨name, .text expression⟩) : expression = spell tokens := by
  unfold DeclarationReader.enumerator at stored
  simp only at stored
  split at stored
  · cases stored
  · split at stored
    · cases stored
    · split at stored
      · cases stored
      · cases stored
        rfl

theorem constant_words {m : Macro} {header name : String} {words : List String}
    {location : Option Location}
    (stored : m.constant? header = some ⟨.constant name words, location⟩) :
    " ".intercalate words = spell m.body := by
  obtain ⟨-, same⟩ := Option.ite_none_right_eq_some.mp stored
  cases same
  rfl

theorem restored_of_lexemes {tokens : List Token} (lexemes : ∀ t ∈ tokens, t.IsLexeme) :
    Restored tokens where
  extent expression stored := extent_text stored ▸ spells_of_lexemes lexemes
  enumerator first sign name expression stored :=
    enumerator_text stored ▸ spells_of_lexemes lexemes
  constant := by
    rintro m header name words location rfl stored
    rw [constant_words stored]
    exact spells_of_lexemes lexemes

/-- Spelling is undone by cutting the text. The tokens of a text without stray quotes are those of
their spelling, in kind and text, and so are tokens of any texts that are stored as the expression
of an enumerator, as the bound of an array or as the words of a constant. -/
theorem spelling_undone :
    (∀ text line, (∀ t ∈ tokenize text line, ¬ t.IsStrayQuote) →
      Spells (spell (tokenize text line)) (tokenize text line)) ∧
    ∀ part, (∀ t ∈ part, (∃ text line, t ∈ tokenize text line) ∧ ¬ t.IsStrayQuote) →
      Restored part := by
  constructor
  · intro text line paired
    exact spells_of_lexemes fun t member => Token.isLexeme_of_mem member (paired t member)
  · intro part cut
    refine restored_of_lexemes fun t member => ?_
    obtain ⟨⟨text, line, cut⟩, paired⟩ := cut t member
    exact Token.isLexeme_of_mem cut paired

def crowdedText : String := "u8\"a\\\"b\"+++'\\''.5e-1...L>>=\"\""

theorem spelling_of_crowdedText :
    (∀ t ∈ tokenize crowdedText, ¬ t.IsStrayQuote) ∧
      (tokenize crowdedText).map Token.text =
        ["u8\"a\\\"b\"", "++", "+", "'\\''", ".5e-1...L", ">>=", "\"\""] ∧
      Spells (spell (tokenize crowdedText)) (tokenize crowdedText) ∧
      Restored (tokenize crowdedText) := by
  have paired : ∀ t ∈ tokenize crowdedText, ¬ t.IsStrayQuote := by decide +kernel
  obtain ⟨spelled, restored⟩ := spelling_undone
  exact ⟨paired, by decide +kernel, spelled crowdedText 0 paired,
    restored _ fun t member => ⟨⟨crowdedText, 0, member⟩, paired t member⟩⟩

end CBindings
