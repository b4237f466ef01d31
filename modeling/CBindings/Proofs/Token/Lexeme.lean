import CBindings.Token.Parsed

/-! Tokens without their places, and what it means that a value is read from the front of some. -/

namespace CBindings

/-- A token without its place. -/
structure Lexeme where
  kind : TokenKind
  text : String
  deriving DecidableEq

def Token.lexeme (token : Token) : Lexeme := ⟨token.kind, token.text⟩

namespace Lexeme

def word (text : String) : Lexeme := ⟨.ident, text⟩

def mark (text : String) : Lexeme := ⟨.punct, text⟩

end Lexeme

theorem Token.lexeme_eq_word {token : Token} (isName : token.kind = .ident) :
    token.lexeme = .word token.text := by
  rw [lexeme, Lexeme.word, isName]

theorem Token.isPunct_of_lexeme {token : Token} {mine : String}
    (spelled : token.lexeme = .mark mine) (text : String) :
    token.isPunct text = decide (mine = text) := by
  simp only [lexeme, Lexeme.mark, Lexeme.mk.injEq] at spelled
  simp [isPunct, spelled.1, spelled.2]

def Reads {ε α : Type} {bound : Nat} (step : Except ε (Parsed α bound)) (value : α)
    (rest : List Token) : Prop :=
  ∃ shorter, step = .ok ⟨value, rest, shorter⟩

theorem Reads.shorter {ε α : Type} {bound : Nat} {step : Except ε (Parsed α bound)} {value : α}
    {rest : List Token} (reads : Reads step value rest) : rest.length < bound := by
  obtain ⟨shorter, -⟩ := reads
  exact shorter

theorem Reads.after {ε α : Type} {tokens rest : List Token}
    {step : Except ε (Parsed α (tokens.length + 1))} {value : α} (reads : Reads step value rest)
    (token : Token) :
    Reads (do return (← step).after token : Except ε (Parsed α ((token :: tokens).length + 1)))
      value rest := by
  obtain ⟨shorter, read⟩ := reads
  rw [read]
  exact ⟨_, rfl⟩

end CBindings
