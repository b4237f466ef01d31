import CBindings.Proofs.Token.Spelling

/-! Names: the texts that the lexer cuts as one identifier. -/

namespace CBindings.Lexer

open Text

variable {c : Char} {text rest after : List Char} {kind : TokenKind} {line : Nat}

def IsName (text : List Char) : Prop :=
  (∃ c ∈ text.head?, isIdentStart c = true) ∧ ∀ c ∈ text, isIdentChar c = true

instance (text : List Char) : Decidable (IsName text) :=
  decidable_of_iff (text.head?.any isIdentStart = true ∧ text.all isIdentChar = true) <| by
    rw [IsName, Option.any_eq_true, List.all_eq_true]
    exact and_congr_left' (exists_congr fun c => and_congr_left' Option.mem_def.symm)

theorem isIdentChar_of_isIdentStart (starts : isIdentStart c = true) : isIdentChar c = true := by
  rw [isIdentChar, starts, Bool.true_or]

theorem IsName.exists_cons (isName : IsName text) :
    ∃ c rest, text = c :: rest ∧ isIdentStart c = true ∧ ∀ d ∈ rest, isIdentChar d = true := by
  obtain ⟨⟨c, first, starts⟩, inside⟩ := isName
  cases text with
  | nil => cases first
  | cons d rest =>
    obtain rfl : d = c := Option.some.inj first
    exact ⟨d, rest, rfl, starts, fun e member => inside e (List.mem_cons_of_mem d member)⟩

theorem ident?_eq_some {cut : Cut} (read : ident? text = some cut) : IsName cut.1 := by
  unfold ident? at read
  split at read
  · cases read
  · next c rest =>
    split at read
    · next starts =>
      obtain rfl := Option.some.inj read
      refine ⟨⟨c, rfl, starts⟩, List.forall_mem_cons.mpr ⟨isIdentChar_of_isIdentStart starts, ?_⟩⟩
      exact fun d member => List.mem_takeWhile_imp member
    · cases read

theorem isName_of_mem {t : Token} (member : t ∈ tokensOf line text) (ident : t.kind = .ident) :
    IsName t.text.toList := by
  obtain ⟨c, rest, after, -, read⟩ := exists_cut_of_mem member
  rw [ident] at read
  unfold token at read
  split at read
  · cases read
  · split at read
    · cases read
    · split at read
      · cases read
      · split at read
        · next cut found =>
          have name := ident?_eq_some found
          rwa [(Prod.mk.inj read).2] at name
        · cases read

theorem tokensOf_name (isName : IsName text) (line : Nat) :
    tokensOf line text = [⟨.ident, String.ofList text, line⟩] := by
  obtain ⟨c, rest, rfl, starts, inside⟩ := isName.exists_cons
  have gap : Gap [] := fun c none => nomatch none
  have quotes {quote : Char} (isQuote : quote = '"' ∨ quote = '\'') :
      quoted? quote (c :: rest) = none := by
    have unquoted := quoted?_name isQuote isName.2 gap
    rwa [List.append_nil] at unquoted
  have number : number? (c :: rest) = none := by
    apply number?_eq_none (not_digit_of_identStart starts)
    rintro rfl
    cases starts
  have ident := ident?_again starts inside gap
  rw [List.append_nil] at ident
  have visible : isSpace c = false := by
    cases space : isSpace c with
    | false => rfl
    | true =>
      simp only [isSpace, Bool.or_eq_true, beq_iff_eq] at space
      rcases space with ((((rfl | rfl) | rfl) | rfl) | rfl) | rfl <;> cases starts
  rw [tokensOf_lexeme line visible (token_ident (quotes (.inl rfl)) (quotes (.inr rfl)) number
    ident), tokensOf]

theorem tokensOf_eq_name {name : String} :
    tokensOf line name.toList = [⟨.ident, name, line⟩] ↔ IsName name.toList := by
  constructor
  · intro alone
    have member : (⟨.ident, name, line⟩ : Token) ∈ tokensOf line name.toList := by
      rw [alone]
      exact List.mem_cons_self
    exact isName_of_mem member rfl
  · intro isName
    rw [tokensOf_name isName, String.ofList_toList]

end CBindings.Lexer
