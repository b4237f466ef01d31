import CBindings.Token.Basic

/-! What reading the front of a sequence of tokens gives. -/

namespace CBindings

structure Parsed (α : Type) (bound : Nat) where
  value : α
  rest : List Token
  shorter : rest.length < bound

namespace Parsed

variable {α : Type} {bound bound' : Nat}

def widen (parsed : Parsed α bound) (le : bound ≤ bound') : Parsed α bound' :=
  ⟨parsed.value, parsed.rest, Nat.lt_of_lt_of_le parsed.shorter le⟩

def stay (value : α) (tokens : List Token) : Parsed α (tokens.length + 1) :=
  ⟨value, tokens, Nat.lt_succ_self tokens.length⟩

def take (value : α) (token : Token) (rest : List Token) : Parsed α (token :: rest).length :=
  ⟨value, rest, Nat.lt_succ_self rest.length⟩

/-- A value after which no token is left. -/
def final (value : α) : Parsed α (bound + 1) := ⟨value, [], Nat.succ_pos bound⟩

def after (token : Token) {rest : List Token} (parsed : Parsed α (rest.length + 1)) :
    Parsed α ((token :: rest).length + 1) := parsed.widen (Nat.le_succ (rest.length + 1))

end Parsed

end CBindings
