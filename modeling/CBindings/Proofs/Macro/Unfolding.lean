import CBindings.Proofs.Macro.Nesting
import CBindings.Proofs.Token.Lexeme

/-! What expansion gives where all macros are object-like: every name gives way to its body, which
expands by itself as if nothing followed it. -/

namespace CBindings

theorem MacroTable.named_eq_some {table : MacroTable} {token : Token} {m : Macro}
    (named : table.named token = some m) :
    token.lexeme = .word token.text ∧ table.lookup token.text = some m := by
  unfold MacroTable.named at named
  split at named
  · next isName => exact ⟨Token.lexeme_eq_word isName, named⟩
  · cases named

namespace Expansion

/-- Waiting tokens and what they become: the name of a macro that is not hidden becomes what the
body of the macro becomes, and every other token stays. -/
inductive Unfolded (table : MacroTable) : List Pending → List Token → Prop where
  | nil : Unfolded table [] []
  | keep {p : Pending} {rest : List Pending} {out : List Token}
      (stays : table.named p.token = none ∨ p.token.text ∈ p.hidden)
      (others : Unfolded table rest out) : Unfolded table (p :: rest) (p.token :: out)
  | object {p : Pending} {m : Macro} {rest : List Pending} {inner out : List Token}
      (invokes : Invokes table p m)
      (body : Unfolded table (placed (objectHidden p m) (p.depth + 1) (fresh p.token m.body)) inner)
      (others : Unfolded table rest out) : Unfolded table (p :: rest) (inner ++ out)

theorem Unfolded.of_append {table : MacroTable} {ps qs : List Pending} {out : List Token}
    (unfolded : Unfolded table (ps ++ qs) out) :
    ∃ front back, out = front ++ back ∧ Unfolded table ps front ∧ Unfolded table qs back := by
  induction ps generalizing out with
  | nil => exact ⟨[], out, rfl, .nil, unfolded⟩
  | cons p ps ih =>
    cases unfolded with
    | keep stays others =>
      obtain ⟨front, back, rfl, first, second⟩ := ih others
      exact ⟨p.token :: front, back, rfl, .keep stays first, second⟩
    | @object _ m _ inner _ invokes body others =>
      obtain ⟨front, back, rfl, first, second⟩ := ih others
      exact ⟨inner ++ front, back, (List.append_assoc _ _ _).symm, .object invokes body first,
        second⟩

/-- Tokens that can do no more than to give way to tokens of the same sort: none is `defined`, and
every macro among them is object-like. -/
structure Unfoldable (table : MacroTable) (sort : Lexeme → Prop) : Prop where
  plain : ¬ sort (.word "defined")
  object : ∀ name m, sort (.word name) → table.lookup name = some m → m.isObjectLike = true
  body : ∀ name m, sort (.word name) → table.lookup name = some m → ∀ t ∈ m.body, sort t.lexeme

variable {table : MacroTable} {sort : Lexeme → Prop} {p : Pending} {m : Macro}

theorem Unfoldable.turn (unfoldable : Unfoldable table sort) (fits : sort p.token.lexeme)
    (rest : List Pending) :
    (turn table p rest = .keep ∧ table.named p.token = none) ∨
      (turn table p rest = .cycle ∧ p.token.text ∈ p.hidden) ∨
      ∃ m, turn table p rest = .object m := by
  have plain : p.token.isIdent "defined" = false := by
    by_contra isDefined
    simp only [Token.isIdent, Bool.not_eq_false, Bool.and_eq_true, decide_eq_true_eq] at isDefined
    rw [Token.lexeme, isDefined.1, isDefined.2] at fits
    exact unfoldable.plain fits
  cases named : table.named p.token with
  | none => exact .inl ⟨by simp [Expansion.turn, plain, named], rfl⟩
  | some m =>
    obtain ⟨word, found⟩ := MacroTable.named_eq_some named
    have object := unfoldable.object p.token.text m (word ▸ fits) found
    by_cases hides : p.token.text ∈ p.hidden
    · exact .inr (.inl ⟨by simp [Expansion.turn, plain, named, object, hides], hides⟩)
    · exact .inr (.inr ⟨m, by simp [Expansion.turn, plain, named, object, hides]⟩)

theorem lexemes_placed_fresh (hidden : List String) (depth : Nat) (origin : Token)
    (body : List Token) :
    (placed hidden depth (fresh origin body)).map (·.token.lexeme) = body.map Token.lexeme := by
  simp only [placed, fresh, List.map_map]
  rfl

theorem mem_placed_fresh {hidden : List String} {depth : Nat} {origin : Token} {body : List Token}
    {q : Pending} (member : q ∈ placed hidden depth (fresh origin body)) :
    q.hidden = hidden ∧ ∃ t ∈ body, q.token.lexeme = t.lexeme := by
  obtain ⟨_, listed, rfl⟩ := List.mem_map.mp member
  obtain ⟨t, inBody, rfl⟩ := List.mem_map.mp listed
  exact ⟨by simp [union], t, inBody, rfl⟩

theorem Unfoldable.placed (unfoldable : Unfoldable table sort) (fits : sort p.token.lexeme)
    (invokes : Invokes table p m) :
    ∀ q ∈ placed (objectHidden p m) (p.depth + 1) (fresh p.token m.body), sort q.token.lexeme := by
  intro q member
  obtain ⟨-, t, inBody, same⟩ := mem_placed_fresh member
  rw [same]
  exact unfoldable.body p.token.text m (Token.lexeme_eq_word invokes.kind_eq ▸ fits) invokes.lookup
    t inBody

theorem expandPending_unfolded (unfoldable : Unfoldable table sort) (header : Option String)
    (ps : List Pending) (findings : Findings) (layers : List String)
    (nested : Nested table layers ps) (fits : ∀ p ∈ ps, sort p.token.lexeme) :
    Unfolded table ps ((expandPending table header ps findings).1.map Pending.token) := by
  fun_induction expandPending table header ps findings generalizing layers with
  | case1 findings => exact .nil
  | case2 findings p rest keep here ih =>
    have unnamed : table.named p.token = none := by
      simpa [here] using unfoldable.turn (fits p List.mem_cons_self) rest
    exact .keep (.inl unnamed) (ih findings layers
      (nested.of_sublist (List.sublist_cons_self p rest))
      fun q member => fits q (List.mem_cons_of_mem p member))
  | case3 findings p rest here n after ih' ih =>
    have turns := unfoldable.turn (fits p List.mem_cons_self) rest
    simp [here] at turns
  | case4 findings p rest keep here ih =>
    have hides : p.token.text ∈ p.hidden := by
      simpa [here] using unfoldable.turn (fits p List.mem_cons_self) rest
    exact .keep (.inr hides) (ih (findings.reportCycle header p.token) layers
      (nested.of_sublist (List.sublist_cons_self p rest))
      fun q member => fits q (List.mem_cons_of_mem p member))
  | case5 findings p rest m here within body ih' ih =>
    have invokes := turn_object here
    have unfolded := ih _ (nested.object_body here (fresh p.token m.body)) fun q member => by
      rcases List.mem_append.mp member with inside | after
      · exact unfoldable.placed (fits p List.mem_cons_self) invokes q inside
      · exact fits q (List.mem_cons_of_mem p after)
    obtain ⟨inner, out, whole, first, second⟩ := unfolded.of_append
    rw [whole]
    exact .object invokes first second
  | case6 findings p rest keep m here outside ih =>
    exact absurd (nested.object_within here) outside
  | case7 findings p rest m group here depth within bound expanded filled body _ ihArgument _ ih =>
    have turns := unfoldable.turn (fits p List.mem_cons_self) rest
    simp [here] at turns
  | case8 findings p rest keep m group here depth outside ih =>
    exact absurd (nested.call_within here) outside

theorem expand_unfolded (unfoldable : Unfoldable table sort) (tokens : List Token)
    (header : Option String) (findings : Findings) (fits : ∀ t ∈ tokens, sort t.lexeme) :
    Unfolded table (tokens.map fun token => ⟨token, [], 0⟩)
      (expand table tokens header findings).1 := by
  apply expandPending_unfolded unfoldable header _ findings [] (nested_of_tokens table tokens)
  intro p member
  obtain ⟨t, listed, rfl⟩ := List.mem_map.mp member
  exact fits t listed

end Expansion

end CBindings
