import CBindings.Proofs.Expr.Grammar

/-! The literals of an expression: each of them is written by one of the tokens that were read. -/

namespace CBindings

namespace Expr

def literals : Expr → List IntValue
  | .literal value => [value]
  | .name _ => []
  | .call _ => []
  | .cast _ operand => operand.literals
  | .unary _ operand => operand.literals
  | .binary _ left right => left.literals ++ right.literals
  | .conditional condition chosen otherwise =>
    condition.literals ++ chosen.literals ++ otherwise.literals

variable {reading : Reading} {e : Expr} {token : Token} {all tokens middle rest r : List Token}
  {values others : List IntValue}

/-- `rest` is what follows in some tokens after an expression with these literals. -/
structure Spells (reading : Reading) (tokens rest : List Token) (values : List IntValue) : Prop where
  after : rest <:+ tokens
  written : ∀ v ∈ values, ∃ token ∈ tokens, literalOf reading token.lexeme = .ok v

namespace Spells

theorem nothing (after : rest <:+ tokens) : Spells reading tokens rest [] :=
  ⟨after, fun _ member => absurd member List.not_mem_nil⟩

theorem widen (spells : Spells reading tokens rest values) (inside : tokens <:+ all) :
    Spells reading all rest values where
  after := spells.after.trans inside
  written v member := by
    obtain ⟨token, listed, same⟩ := spells.written v member
    exact ⟨token, inside.subset listed, same⟩

theorem narrow (spells : Spells reading tokens rest values) (after : r <:+ rest) :
    Spells reading tokens r values := ⟨after.trans spells.after, spells.written⟩

theorem append (first : Spells reading tokens middle values)
    (second : Spells reading middle rest others) :
    Spells reading tokens rest (values ++ others) where
  after := second.after.trans first.after
  written v member := by
    rcases List.mem_append.mp member with left | right
    · exact first.written v left
    · exact (second.widen first.after).written v right

end Spells

theorem atom_spells (reads : Reads (atom reading token rest) e r) :
    Spells reading (token :: rest) r e.literals := by
  by_cases isName : token.kind = .ident
  · unfold atom at reads
    simp only [isName] at reads
    split at reads
    · obtain ⟨rfl, rfl⟩ := reads_ok.mp reads
      exact .nothing (List.suffix_cons _ _)
    · next next inner =>
      split at reads
      · split at reads
        · exact (not_reads_error reads).elim
        · next group found =>
          obtain ⟨rfl, rfl⟩ := reads_ok.mp reads
          have inside : group.after <:+ inner :=
            ⟨group.inside ++ [group.close], by simp [splitGroup?_eq found]⟩
          exact .nothing ((inside.trans (List.suffix_cons _ _)).trans (List.suffix_cons _ _))
      · obtain ⟨rfl, rfl⟩ := reads_ok.mp reads
        exact .nothing (List.suffix_cons _ _)
  · obtain ⟨value, known, rfl, rfl⟩ := (atom_literal_reads isName).mp reads
    refine ⟨List.suffix_cons _ _, fun v member => ?_⟩
    rw [List.mem_singleton.mp member]
    exact ⟨token, List.mem_cons_self, known⟩

mutual

theorem operand_spells {reading : Reading} {e : Expr} {tokens r : List Token}
    (reads : Reads (operand reading tokens) e r) : Spells reading tokens r e.literals := by
  match tokens with
  | [] => exact (not_operand_nil_reads reads).elim
  | token :: rest =>
    cases isOp : prefixOp? token with
    | some op =>
      obtain ⟨inner, inside, rfl⟩ := (operand_prefix_reads isOp).mp reads
      exact (operand_spells inside).widen (List.suffix_cons _ _)
    | none =>
      cases opens : token.opensParen with
      | false => exact atom_spells ((operand_atom_reads isOp opens).mp reads)
      | true =>
        cases cast : cast? reading rest with
        | some found =>
          obtain ⟨inner, inside, rfl⟩ := (operand_cast_reads isOp opens cast).mp reads
          obtain ⟨front, close, whole, -⟩ := cast?_eq_some cast
          have after : found.rest <:+ rest := ⟨front ++ [close], by simp [whole]⟩
          have := found.shorter
          exact (operand_spells inside).widen (after.trans (List.suffix_cons _ _))
        | none =>
          obtain ⟨close, inside, -⟩ := (operand_group_reads isOp opens cast).mp reads
          have inner := (expression_spells inside).narrow (List.suffix_cons _ _)
          exact inner.widen (List.suffix_cons _ _)
termination_by (tokens.length, 0)

theorem expression_spells {reading : Reading} {least : Nat} {e : Expr} {tokens r : List Token}
    (reads : Reads (expression reading least tokens) e r) : Spells reading tokens r e.literals := by
  obtain ⟨left, middle, first, climbed⟩ := expression_reads.mp reads
  have := first.shorter
  exact climb_spells (operand_spells first) climbed
termination_by (tokens.length, 1)

/-- What is climbed over follows an operand that stands somewhere in `all`. -/
theorem climb_spells {reading : Reading} {least : Nat} {left e : Expr} {all tokens r : List Token}
    (spelled : Spells reading all tokens left.literals)
    (reads : Reads (climb reading least left tokens) e r) : Spells reading all r e.literals := by
  match tokens with
  | [] =>
    obtain ⟨rfl, rfl⟩ := climb_nil_reads.mp reads
    exact spelled
  | token :: rest =>
    rcases stops_or_binds least token with stops | ⟨punct, ⟨question, rfl⟩ | ⟨op, isOp, binds⟩⟩
    · obtain ⟨rfl, rfl⟩ := (climb_stops_reads stops).mp reads
      exact spelled
    · obtain ⟨chosen, colon, tail, first, -, otherwise, after, second, climbed⟩ :=
        (climb_conditional_reads punct question).mp reads
      have shorter : tail.length + 1 < rest.length := first.shorter
      have := second.shorter
      have condition := spelled.narrow (List.suffix_cons _ _)
      have both := (condition.append (expression_spells first)).narrow (List.suffix_cons _ _)
      exact climb_spells (both.append (expression_spells second)) climbed
    · obtain ⟨right, after, second, climbed⟩ := (climb_binary_reads punct isOp binds).mp reads
      have := second.shorter
      have operand := spelled.narrow (List.suffix_cons _ _)
      exact climb_spells (operand.append (expression_spells second)) climbed
termination_by (tokens.length, 0)

end

theorem literals_of_parse (parsed : parse tokens reading = .ok e) {v : IntValue}
    (member : v ∈ e.literals) : ∃ token ∈ tokens, literalOf reading token.lexeme = .ok v :=
  (expression_spells (parse_eq_ok_iff.mp parsed)).written v member

end Expr

end CBindings
