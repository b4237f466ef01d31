import CBindings.Proofs.Expr.Literal
import CBindings.Proofs.Expr.Respelling
import CBindings.Proofs.Expr.Writing

/-! Expressions that have a value without names and casts. A reading that knows types may take a
name in parentheses for a cast where one that knows none does not, but such a name is never
evaluated. -/

namespace CBindings

namespace Expr

/-! ### Values without names and casts -/

def Folds (e : Expr) (value : IntValue) : Prop := e.evaluate noNames noCasts false = .ok value

def Stuck (e : Expr) : Prop := ∀ value, ¬e.Folds value

def Follows (e e' : Expr) : Prop := ∀ value, e.Folds value → e'.Folds value

section

variable {e e' left left' right right' condition condition' chosen chosen' otherwise
  otherwise' : Expr}

theorem Follows.refl (e : Expr) : e.Follows e := fun _ => id

theorem Stuck.follows (stuck : e.Stuck) (e' : Expr) : e.Follows e' :=
  fun value folds => absurd folds (stuck value)

theorem stuck_name (n : String) : (Expr.name n).Stuck := by
  intro value folds
  cases folds

theorem stuck_cast (typeName : String) (operand : Expr) : (Expr.cast typeName operand).Stuck := by
  intro value folds
  obtain ⟨_, impossible, -⟩ := evaluate_cast_eq_ok.mp folds
  cases impossible

theorem Stuck.unary (stuck : e.Stuck) (op : UnaryOp) : (Expr.unary op e).Stuck := by
  intro value folds
  obtain ⟨inner, operand, -⟩ := evaluate_unary_eq_ok.mp folds
  exact stuck inner operand

theorem Stuck.binary_left (stuck : left.Stuck) (op : BinaryOp) (right : Expr) :
    (Expr.binary op left right).Stuck := by
  intro value folds
  obtain ⟨a, first, -⟩ := evaluate_binary_eq_ok.mp folds
  exact stuck a first

theorem Stuck.binary_right {op : BinaryOp} (stuck : right.Stuck) (strict : 9 ≤ op.precedence)
    (left : Expr) : (Expr.binary op left right).Stuck := by
  intro value folds
  obtain ⟨a, -, decided | ⟨-, b, second, -⟩⟩ := evaluate_binary_eq_ok.mp folds
  · cases op <;> first | cases decided | simp [BinaryOp.precedence] at strict
  · exact stuck b second

theorem Stuck.conditional (stuck : condition.Stuck) (chosen otherwise : Expr) :
    (Expr.conditional condition chosen otherwise).Stuck := by
  intro value folds
  obtain ⟨test, tested, -⟩ := evaluate_conditional_eq_ok.mp folds
  exact stuck test tested

theorem Follows.unary (follows : e.Follows e') (op : UnaryOp) :
    (Expr.unary op e).Follows (.unary op e') := by
  intro value folds
  obtain ⟨inner, operand, whole⟩ := evaluate_unary_eq_ok.mp folds
  exact evaluate_unary_eq_ok.mpr ⟨inner, follows inner operand, whole⟩

theorem Follows.binary (first : left.Follows left') (second : right.Follows right')
    (op : BinaryOp) : (Expr.binary op left right).Follows (.binary op left' right') := by
  intro value folds
  obtain ⟨a, leftValue, decided | ⟨undecided, b, rightValue, whole⟩⟩ :=
    evaluate_binary_eq_ok.mp folds
  · exact evaluate_binary_eq_ok.mpr ⟨a, first a leftValue, .inl decided⟩
  · exact evaluate_binary_eq_ok.mpr
      ⟨a, first a leftValue, .inr ⟨undecided, b, second b rightValue, whole⟩⟩

theorem Follows.conditional (test : condition.Follows condition') (first : chosen.Follows chosen')
    (second : otherwise.Follows otherwise') : (Expr.conditional condition chosen otherwise).Follows
      (.conditional condition' chosen' otherwise') := by
  intro value folds
  obtain ⟨decision, tested, branch⟩ := evaluate_conditional_eq_ok.mp folds
  refine evaluate_conditional_eq_ok.mpr ⟨decision, test decision tested, ?_⟩
  exact branch.imp (.imp_right (first value)) (.imp_right (second value))

end

/-! ### Tokens that are taken -/

section

variable {reading : Reading} {least more : Nat} {token : Token} {tokens rest r : List Token}

def Steps (reading : Reading) (tokens r : List Token) : Prop :=
  ∃ e, Reads (operand reading tokens) e r

def Takes (reading : Reading) (least : Nat) (tokens r : List Token) : Prop :=
  ∃ e, Reads (expression reading least tokens) e r

def Passes (reading : Reading) (least : Nat) (tokens r : List Token) : Prop :=
  ∃ left e, Reads (climb reading least left tokens) e r

theorem Takes.shorter (takes : Takes reading least tokens r) : r.length < tokens.length := by
  obtain ⟨e, reads⟩ := takes
  exact reads.shorter

theorem climb_after {reading : Reading} {least : Nat} {tokens r : List Token} {start e : Expr}
    (reads : Reads (climb reading least start tokens) e r) (left : Expr) :
    ∃ e', Reads (climb reading least left tokens) e' r := by
  match tokens with
  | [] =>
    obtain ⟨rfl, rfl⟩ := climb_nil_reads.mp reads
    exact ⟨left, climb_nil_reads.mpr ⟨rfl, rfl⟩⟩
  | token :: rest =>
    rcases stops_or_binds least token with stops | ⟨punct, ⟨question, rfl⟩ | ⟨op, isOp, binds⟩⟩
    · obtain ⟨rfl, rfl⟩ := (climb_stops_reads stops).mp reads
      exact ⟨left, (climb_stops_reads stops).mpr ⟨rfl, rfl⟩⟩
    · obtain ⟨chosen, colon, tail, first, isColon, otherwise, after, second, climbed⟩ :=
        (climb_conditional_reads punct question).mp reads
      have : tail.length + 1 < rest.length := first.shorter
      have := second.shorter
      obtain ⟨e', climbed'⟩ := climb_after climbed (.conditional left chosen otherwise)
      exact ⟨e', (climb_conditional_reads punct question).mpr
        ⟨chosen, colon, tail, first, isColon, otherwise, after, second, climbed'⟩⟩
    · obtain ⟨right, after, second, climbed⟩ := (climb_binary_reads punct isOp binds).mp reads
      have := second.shorter
      obtain ⟨e', climbed'⟩ := climb_after climbed (.binary op left right)
      exact ⟨e', (climb_binary_reads punct isOp binds).mpr ⟨right, after, second, climbed'⟩⟩
termination_by tokens.length

theorem Passes.follow (passes : Passes reading least tokens r) (left : Expr) :
    ∃ e, Reads (climb reading least left tokens) e r := by
  obtain ⟨start, e, reads⟩ := passes
  exact climb_after reads left

theorem takes_iff : Takes reading least tokens r ↔
    ∃ middle, Steps reading tokens middle ∧ Passes reading least middle r := by
  constructor
  · rintro ⟨e, reads⟩
    obtain ⟨left, middle, first, climbed⟩ := expression_reads.mp reads
    exact ⟨middle, ⟨left, first⟩, left, e, climbed⟩
  · rintro ⟨middle, ⟨left, first⟩, passes⟩
    obtain ⟨e, climbed⟩ := passes.follow left
    exact ⟨e, expression_reads.mpr ⟨left, middle, first, climbed⟩⟩

theorem passes_nil : Passes reading least [] r ↔ r = [] := by
  constructor
  · rintro ⟨left, e, reads⟩
    exact (climb_nil_reads.mp reads).2.symm
  · rintro rfl
    exact ⟨.name "", _, climb_nil_reads.mpr ⟨rfl, rfl⟩⟩

theorem passes_stops (stops : Stops least token) :
    Passes reading least (token :: rest) r ↔ r = token :: rest := by
  constructor
  · rintro ⟨left, e, reads⟩
    exact ((climb_stops_reads stops).mp reads).2.symm
  · rintro rfl
    exact ⟨.name "", _, (climb_stops_reads stops).mpr ⟨rfl, rfl⟩⟩

theorem passes_binary {op : BinaryOp} (punct : token.kind = .punct)
    (isOp : BinaryOp.ofText? token.text = some op) (binds : least ≤ op.precedence) :
    Passes reading least (token :: rest) r ↔
      ∃ after, Takes reading (op.precedence + 1) rest after ∧ Passes reading least after r := by
  constructor
  · rintro ⟨left, e, reads⟩
    obtain ⟨right, after, second, climbed⟩ := (climb_binary_reads punct isOp binds).mp reads
    exact ⟨after, ⟨right, second⟩, _, e, climbed⟩
  · rintro ⟨after, ⟨right, second⟩, passes⟩
    obtain ⟨e, climbed⟩ := passes.follow (.binary op (.name "") right)
    exact ⟨.name "", e, (climb_binary_reads punct isOp binds).mpr ⟨right, after, second, climbed⟩⟩

theorem passes_conditional (punct : token.kind = .punct) (question : token.text = "?") :
    Passes reading 0 (token :: rest) r ↔
      ∃ colon tail, Takes reading 0 rest (colon :: tail) ∧ colon.isPunct ":" = true ∧
        ∃ after, Takes reading 0 tail after ∧ Passes reading 0 after r := by
  constructor
  · rintro ⟨left, e, reads⟩
    obtain ⟨chosen, colon, tail, first, isColon, otherwise, after, second, climbed⟩ :=
      (climb_conditional_reads punct question).mp reads
    exact ⟨colon, tail, ⟨chosen, first⟩, isColon, after, ⟨otherwise, second⟩, _, e, climbed⟩
  · rintro ⟨colon, tail, ⟨chosen, first⟩, isColon, after, ⟨otherwise, second⟩, passes⟩
    obtain ⟨e, climbed⟩ := passes.follow (.conditional (.name "") chosen otherwise)
    exact ⟨.name "", e, (climb_conditional_reads punct question).mpr
      ⟨chosen, colon, tail, first, isColon, otherwise, after, second, climbed⟩⟩

/-- The operators that bind at least as strongly as `least` are those that bind at least as strongly
as `more`, and then the others. -/
theorem passes_split {reading : Reading} {least more : Nat} {tokens r : List Token}
    (le : least ≤ more) : Passes reading least tokens r ↔
      ∃ middle, Passes reading more tokens middle ∧ Passes reading least middle r := by
  match tokens with
  | [] => simp [passes_nil]
  | token :: rest =>
    rcases stops_or_binds more token with stops | ⟨punct, ⟨question, rfl⟩ | ⟨op, isOp, binds⟩⟩
    · simp [passes_stops stops]
    · obtain rfl : least = 0 := Nat.le_zero.mp le
      simp only [passes_conditional punct question]
      constructor
      · rintro ⟨colon, tail, first, isColon, after, second, passes⟩
        have : tail.length + 1 < rest.length := first.shorter
        have := second.shorter
        obtain ⟨middle, front, back⟩ := (passes_split le).mp passes
        exact ⟨middle, ⟨colon, tail, first, isColon, after, second, front⟩, back⟩
      · rintro ⟨middle, ⟨colon, tail, first, isColon, after, second, front⟩, back⟩
        have : tail.length + 1 < rest.length := first.shorter
        have := second.shorter
        have passes := (passes_split le).mpr ⟨middle, front, back⟩
        exact ⟨colon, tail, first, isColon, after, second, passes⟩
    · simp only [passes_binary punct isOp (le.trans binds), passes_binary punct isOp binds]
      constructor
      · rintro ⟨after, second, passes⟩
        have := second.shorter
        obtain ⟨middle, front, back⟩ := (passes_split le).mp passes
        exact ⟨middle, ⟨after, second, front⟩, back⟩
      · rintro ⟨middle, ⟨after, second, front⟩, back⟩
        have := second.shorter
        exact ⟨after, second, (passes_split le).mpr ⟨middle, front, back⟩⟩
termination_by tokens.length

theorem Takes.lift {all : List Token} (takes : Takes reading least tokens r) (le : least ≤ more)
    (goesOn : ∀ r', Takes reading more tokens r' → Takes reading more all r') :
    ∃ middle, Takes reading more all middle ∧ Passes reading least middle r := by
  obtain ⟨start, steps, passes⟩ := takes_iff.mp takes
  obtain ⟨middle, front, back⟩ := (passes_split le).mp passes
  exact ⟨middle, goesOn middle (takes_iff.mpr ⟨start, steps, front⟩), back⟩

theorem Steps.prefixed (steps : Steps reading rest r) {op : UnaryOp}
    (isOp : prefixOp? token = some op) : Steps reading (token :: rest) r := by
  obtain ⟨e, reads⟩ := steps
  exact ⟨_, (operand_prefix_reads isOp).mpr ⟨e, reads, rfl⟩⟩

theorem Takes.prefixed (takes : Takes reading more rest tokens) (le : least ≤ more) {op : UnaryOp}
    (isOp : prefixOp? token = some op) (passes : Passes reading least tokens r) :
    Takes reading least (token :: rest) r := by
  obtain ⟨start, steps, front⟩ := takes_iff.mp takes
  exact takes_iff.mpr ⟨start, steps.prefixed isOp, (passes_split le).mpr ⟨tokens, front, passes⟩⟩

end

/-! ### After a name in parentheses -/

def Signed (tokens : List Token) : Prop :=
  ∃ sign ∈ tokens.head?, sign.kind = .punct ∧ (sign.text = "+" ∨ sign.text = "-")

structure Doomed (tokens : List Token) : Prop where
  starts : startsOperand tokens = true
  stops : ∀ token ∈ tokens.head?, ∀ least, Stops least token

section

variable {reading : Reading} {least : Nat} {left e : Expr} {token : Token}
  {tokens rest r : List Token}

theorem stops_of_text {text : String} (same : token.text = text) (noQuestion : text ≠ "?")
    (noOp : BinaryOp.ofText? text = none) : Stops least token :=
  .inr ⟨by simp [same, noQuestion], by simp [same, noOp]⟩

theorem signed_or_doomed (starts : startsOperand tokens = true) :
    Signed tokens ∨ Doomed tokens := by
  match tokens with
  | [] => cases starts
  | token :: rest =>
    have doomed (stops : ∀ least, Stops least token) : Signed (token :: rest) ∨
        Doomed (token :: rest) := .inr ⟨starts, by simpa using stops⟩
    by_cases punct : token.kind = .punct
    · have listed : token.text ∈ ["(", "-", "+", "~", "!"] := by
        simpa [startsOperand, punct] using starts
      simp only [List.mem_cons, List.not_mem_nil, or_false] at listed
      rcases listed with group | minus | plus | complement | not
      · exact doomed fun _ => stops_of_text group (by decide) (by decide)
      · exact .inl ⟨token, rfl, punct, .inr minus⟩
      · exact .inl ⟨token, rfl, punct, .inl plus⟩
      · exact doomed fun _ => stops_of_text complement (by decide) (by decide)
      · exact doomed fun _ => stops_of_text not (by decide) (by decide)
    · exact doomed fun _ => .inl punct

theorem Doomed.climb_reads (doomed : Doomed tokens) :
    Reads (climb reading least left tokens) e r ↔ left = e ∧ tokens = r := by
  match tokens with
  | [] => exact climb_nil_reads
  | token :: rest => exact climb_stops_reads (doomed.stops token rfl least)

theorem not_doomed_nil : ¬Doomed [] := fun doomed => nomatch doomed.starts

theorem not_doomed_mark {text : String} (isMark : token.isPunct text = true)
    (noStart : ["(", "-", "+", "~", "!"].contains text = false) : ¬Doomed (token :: rest) := by
  intro doomed
  obtain ⟨punct, rfl⟩ := Token.isPunct_iff.mp isMark
  have := doomed.starts
  simp [startsOperand, punct] at this
  simp at noStart
  simp [noStart] at this

end

/-! ### Two readings of the same tokens -/

structure Untyped (plain reading : Reading) (tokens : List Token) : Prop where
  noType : ∀ name, plain.isTypeName name = false
  literal : ∀ token ∈ tokens, literalOf plain token.lexeme = literalOf reading token.lexeme

section

variable {plain reading : Reading} {least : Nat} {left e : Expr} {token : Token}
  {tokens rest r : List Token}

theorem Untyped.suffix (untyped : Untyped plain reading tokens) (inside : rest <:+ tokens) :
    Untyped plain reading rest :=
  ⟨untyped.noType, fun token member => untyped.literal token (inside.subset member)⟩

theorem Untyped.tail (untyped : Untyped plain reading (token :: rest)) :
    Untyped plain reading rest := untyped.suffix (List.suffix_cons _ _)

/-- How `reading` reads an operand that `plain` reads as `e`. After a name that it takes for the
type of a cast it needs another operand. -/
inductive OperandOutcome (reading : Reading) (tokens : List Token) (e : Expr)
    (r : List Token) : Prop
  | follows (e' : Expr) (reads : Reads (operand reading tokens) e' r) (follows : e.Follows e')
  | cast (stuck : e.Stuck) (starts : startsOperand r = true)
      (goesOn : ∀ r', Steps reading r r' → Steps reading tokens r')

inductive Outcome (reading : Reading) (least : Nat) (reads : Expr → List Token → Prop) (e : Expr)
    (r : List Token) : Prop
  | follows (e' : Expr) (reads : reads e' r) (follows : e.Follows e')
  | cast (stuck : e.Stuck) (tight : 9 < least) (signed : Signed r)
      (goesOn : ∀ r', Takes reading least r r' → ∃ e', reads e' r')
  | doomed (doomed : Doomed r)

namespace Outcome

variable {reads reads' : Expr → List Token → Prop}

theorem imp (outcome : Outcome reading least reads e r)
    (step : ∀ e' r', reads e' r' → reads' e' r') : Outcome reading least reads' e r := by
  cases outcome with
  | follows e' read follows => exact .follows e' (step e' r read) follows
  | cast stuck tight signed goesOn =>
    refine .cast stuck tight signed fun r' takes => ?_
    obtain ⟨e', read⟩ := goesOn r' takes
    exact ⟨e', step e' r' read⟩
  | doomed doomed => exact .doomed doomed

theorem imp_stuck (outcome : Outcome reading least reads e r) (stuck : e.Stuck)
    (step : ∀ r', (∃ e', reads e' r') → ∃ e', reads' e' r') : Outcome reading least reads' e r := by
  cases outcome with
  | follows e' read follows =>
    obtain ⟨e'', read'⟩ := step r ⟨e', read⟩
    exact .follows e'' read' (stuck.follows e'')
  | cast _ tight signed goesOn =>
    exact .cast stuck tight signed fun r' takes => step r' (goesOn r' takes)
  | doomed doomed => exact .doomed doomed

end Outcome

theorem atom_outcome (untyped : Untyped plain reading (token :: rest))
    (isOp : prefixOp? token = none) (opens : token.opensParen = false)
    (reads : Reads (atom plain token rest) e r) : OperandOutcome reading (token :: rest) e r := by
  refine .follows e ((operand_atom_reads isOp opens).mpr ?_) (.refl e)
  by_cases isName : token.kind = .ident
  · unfold atom at reads ⊢
    simpa only [isName] using reads
  · rw [atom_literal_reads isName] at reads ⊢
    rwa [← untyped.literal token List.mem_cons_self]

theorem cast_keywords (reading : Reading) {found : Parsed String rest.length}
    (noType : ∀ n, plain.isTypeName n = false) (cast : cast? plain rest = some found) :
    ∃ shorter, cast? reading rest = some ⟨found.value, found.rest, shorter⟩ := by
  obtain ⟨front, close, whole, names, filled, closes, starts, spells⟩ := cast?_eq_some cast
  obtain ⟨name, after, shorter⟩ := found
  dsimp only at whole
  subst whole
  rcases spells with keywords | ⟨-, -, isType⟩
  · exact cast?_of_spelled names filled closes starts (.inl keywords)
  · rw [noType] at isType
    cases isType

theorem climb_stuck {reading : Reading} {least : Nat} {tokens r : List Token} {e left : Expr}
    (stuck : left.Stuck) (reads : Reads (climb reading least left tokens) e r) : e.Stuck := by
  match tokens with
  | [] =>
    obtain ⟨rfl, -⟩ := climb_nil_reads.mp reads
    exact stuck
  | token :: rest =>
    rcases stops_or_binds least token with stops | ⟨punct, ⟨question, rfl⟩ | ⟨op, isOp, binds⟩⟩
    · obtain ⟨rfl, -⟩ := (climb_stops_reads stops).mp reads
      exact stuck
    · obtain ⟨chosen, colon, tail, first, -, otherwise, after, second, climbed⟩ :=
        (climb_conditional_reads punct question).mp reads
      have : tail.length + 1 < rest.length := first.shorter
      have := second.shorter
      exact climb_stuck (stuck.conditional chosen otherwise) climbed
    · obtain ⟨right, after, second, climbed⟩ := (climb_binary_reads punct isOp binds).mp reads
      have := second.shorter
      exact climb_stuck (stuck.binary_left op right) climbed
termination_by tokens.length

/-- A name in parentheses is an operand to one reading, and the type of a cast to the other. -/
theorem group_outcome_of_cast (isOp : prefixOp? token = none) (opens : token.opensParen = true)
    (noCast : cast? plain rest = none)
    {found : Parsed String rest.length} (cast : cast? reading rest = some found) {close : Token}
    (reads : Reads (expression plain 0 rest) e (close :: r)) :
    OperandOutcome reading (token :: rest) e r := by
  have steps (r' : List Token) (steps : Steps reading found.rest r') :
      Steps reading (token :: rest) r' := by
    obtain ⟨inner, inside⟩ := steps
    exact ⟨_, (operand_cast_reads isOp opens cast).mpr ⟨inner, inside, rfl⟩⟩
  obtain ⟨front, ends, whole, names, filled, closes, starts, spells⟩ := cast?_eq_some cast
  obtain ⟨name, after, shorter⟩ := found
  dsimp only at whole
  subst whole
  rcases spells with keywords | ⟨-, single, -⟩
  · obtain ⟨_, known⟩ := cast?_of_spelled names filled closes starts
      (.inl keywords : SpellsType plain _ _)
    rw [known] at noCast
    cases noCast
  · obtain ⟨word, rfl, rfl⟩ := List.map_eq_singleton_iff.mp single
    have isName := names word List.mem_cons_self
    obtain ⟨-, text⟩ := Token.isPunct_iff.mp closes
    have noCall : ∀ next ∈ (ends :: after).head?, next.opensParen = false := by
      simp [Token.opensParen, Token.isPunct, text]
    obtain ⟨left, middle, first, climbed⟩ := expression_reads.mp reads
    have first := (operand_atom_reads (by simp [prefixOp?, isName])
      (by simp [Token.opensParen, Token.isPunct, isName])).mp first
    obtain ⟨rfl, rfl⟩ := (atom_name_reads isName noCall).mp first
    have stops : Stops 0 ends := stops_of_text text (by decide) (by decide)
    obtain ⟨rfl, same⟩ := (climb_stops_reads stops).mp climbed
    cases same
    exact .cast (stuck_name _) starts steps

mutual

theorem operand_outcome {plain reading : Reading} {e : Expr} {tokens r : List Token}
    (untyped : Untyped plain reading tokens) (reads : Reads (operand plain tokens) e r) :
    OperandOutcome reading tokens e r := by
  match tokens with
  | [] => exact (not_operand_nil_reads reads).elim
  | token :: rest =>
    cases isOp : prefixOp? token with
    | some op =>
      obtain ⟨inner, inside, rfl⟩ := (operand_prefix_reads isOp).mp reads
      cases operand_outcome untyped.tail inside with
      | follows e' read follows =>
        exact .follows _ ((operand_prefix_reads isOp).mpr ⟨e', read, rfl⟩) (follows.unary op)
      | cast stuck starts goesOn =>
        exact .cast (stuck.unary op) starts fun r' steps => (goesOn r' steps).prefixed isOp
    | none =>
      cases opens : token.opensParen with
      | false =>
        exact atom_outcome untyped isOp opens ((operand_atom_reads isOp opens).mp reads)
      | true =>
        cases plainCast : cast? plain rest with
        | some found =>
          obtain ⟨inner, inside, rfl⟩ := (operand_cast_reads isOp opens plainCast).mp reads
          obtain ⟨shorter, cast⟩ := cast_keywords reading untyped.noType plainCast
          obtain ⟨front, close, whole, -⟩ := cast?_eq_some plainCast
          have within : found.rest <:+ rest := ⟨front ++ [close], by simp [whole]⟩
          have stuck := stuck_cast found.value inner
          cases operand_outcome (untyped.tail.suffix within) inside with
          | follows e' read _ =>
            exact .follows _ ((operand_cast_reads isOp opens cast).mpr ⟨e', read, rfl⟩)
              (stuck.follows _)
          | cast _ starts goesOn =>
            refine .cast stuck starts fun r' steps => ?_
            obtain ⟨inner', inside'⟩ := goesOn r' steps
            exact ⟨_, (operand_cast_reads isOp opens cast).mpr ⟨inner', inside', rfl⟩⟩
        | none =>
          obtain ⟨close, inside, closes⟩ := (operand_group_reads isOp opens plainCast).mp reads
          cases cast : cast? reading rest with
          | some found =>
            exact group_outcome_of_cast isOp opens plainCast cast inside
          | none =>
            cases expression_outcome untyped.tail inside with
            | follows e' read follows =>
              exact .follows e' ((operand_group_reads isOp opens cast).mpr ⟨close, read, closes⟩)
                follows
            | cast _ tight _ _ => exact absurd tight (by decide)
            | doomed doomed => exact (not_doomed_mark closes rfl doomed).elim
termination_by (tokens.length, 0)

theorem expression_outcome {plain reading : Reading} {least : Nat} {e : Expr}
    {tokens r : List Token} (untyped : Untyped plain reading tokens)
    (reads : Reads (expression plain least tokens) e r) :
    Outcome reading least (Reads (expression reading least tokens)) e r := by
  obtain ⟨left, middle, first, climbed⟩ := expression_reads.mp reads
  have := first.shorter
  have inside := untyped.suffix (operand_spells first).after
  cases operand_outcome untyped first with
  | follows left' read follows =>
    refine (climb_outcome inside follows climbed).imp fun e' r' climbed' => ?_
    exact expression_reads.mpr ⟨left', middle, read, climbed'⟩
  | cast stuck starts goesOn =>
    rcases signed_or_doomed starts with signed | doomed
    · refine (sign_outcome inside stuck signed climbed).imp_stuck (climb_stuck stuck climbed) ?_
      intro r' takes
      obtain ⟨start, steps, passes⟩ := takes_iff.mp takes
      exact takes_iff.mpr ⟨start, goesOn start steps, passes⟩
    · obtain ⟨-, rfl⟩ := doomed.climb_reads.mp climbed
      exact .doomed doomed
termination_by (tokens.length, 1)

theorem climb_outcome {plain reading : Reading} {least : Nat} {left left' e : Expr}
    {tokens r : List Token} (untyped : Untyped plain reading tokens) (follows : left.Follows left')
    (reads : Reads (climb plain least left tokens) e r) :
    Outcome reading least (Reads (climb reading least left' tokens)) e r := by
  match tokens with
  | [] =>
    obtain ⟨rfl, rfl⟩ := climb_nil_reads.mp reads
    exact .follows left' (climb_nil_reads.mpr ⟨rfl, rfl⟩) follows
  | token :: rest =>
    rcases stops_or_binds least token with stops | ⟨punct, ⟨question, rfl⟩ | ⟨op, isOp, binds⟩⟩
    · obtain ⟨rfl, rfl⟩ := (climb_stops_reads stops).mp reads
      exact .follows left' ((climb_stops_reads stops).mpr ⟨rfl, rfl⟩) follows
    · obtain ⟨chosen, colon, tail, first, isColon, otherwise, after, second, climbed⟩ :=
        (climb_conditional_reads punct question).mp reads
      have : tail.length + 1 < rest.length := first.shorter
      have := second.shorter
      have inTail := untyped.tail.suffix
        ((List.suffix_cons colon tail).trans (expression_spells first).after)
      have inAfter := inTail.suffix (expression_spells second).after
      cases expression_outcome untyped.tail first with
      | follows chosen' read followsChosen =>
        cases expression_outcome inTail second with
        | follows otherwise' read' followsOtherwise =>
          have both := follows.conditional followsChosen followsOtherwise
          refine (climb_outcome inAfter both climbed).imp fun e' r' climbed' => ?_
          exact (climb_conditional_reads punct question).mpr
            ⟨chosen', colon, tail, read, isColon, otherwise', after, read', climbed'⟩
        | cast _ tight _ _ => exact absurd tight (by decide)
        | doomed doomed =>
          obtain ⟨-, rfl⟩ := doomed.climb_reads.mp climbed
          exact .doomed doomed
      | cast _ tight _ _ => exact absurd tight (by decide)
      | doomed doomed => exact (not_doomed_mark isColon rfl doomed).elim
    · obtain ⟨right, after, second, climbed⟩ := (climb_binary_reads punct isOp binds).mp reads
      have := second.shorter
      have inside := untyped.tail.suffix (expression_spells second).after
      cases expression_outcome untyped.tail second with
      | follows right' read followsRight =>
        refine (climb_outcome inside (follows.binary followsRight op) climbed).imp ?_
        intro e' r' climbed'
        exact (climb_binary_reads punct isOp binds).mpr ⟨right', after, read, climbed'⟩
      | cast stuck tight signed goesOn =>
        have stuck := stuck.binary_right (Nat.le_of_lt_succ tight) left
        refine (sign_outcome inside stuck signed climbed).imp_stuck (climb_stuck stuck climbed) ?_
        intro r' takes
        obtain ⟨middle, front, back⟩ := Takes.lift takes (binds.trans (Nat.le_succ _)) goesOn
        exact Passes.follow ((passes_binary punct isOp binds).mpr ⟨middle, front, back⟩) left'
      | doomed doomed =>
        obtain ⟨-, rfl⟩ := doomed.climb_reads.mp climbed
        exact .doomed doomed
termination_by (tokens.length, 0)

/-- A sign after a name in parentheses is an operator to `plain`, and to `reading` it is the start
of the operand of a cast. -/
theorem sign_outcome {plain reading : Reading} {least : Nat} {left e : Expr}
    {tokens r : List Token} (untyped : Untyped plain reading tokens) (stuck : left.Stuck)
    (signed : Signed tokens) (reads : Reads (climb plain least left tokens) e r) :
    Outcome reading least (Reads (expression reading least tokens)) e r := by
  match tokens with
  | [] => exact absurd signed (by simp [Signed])
  | sign :: rest =>
    obtain ⟨punct, text⟩ : sign.kind = .punct ∧ (sign.text = "+" ∨ sign.text = "-") := by
      simpa [Signed] using signed
    obtain ⟨op, isOp, additive⟩ :
        ∃ op, BinaryOp.ofText? sign.text = some op ∧ op.precedence = 9 := by
      rcases text with plus | minus
      · exact ⟨.add, by rw [plus]; decide, rfl⟩
      · exact ⟨.sub, by rw [minus]; decide, rfl⟩
    obtain ⟨unary, isUnary⟩ : ∃ unary, prefixOp? sign = some unary := by
      unfold prefixOp?
      rcases text with plus | minus
      · exact ⟨.plus, by rw [if_pos punct, plus]; decide⟩
      · exact ⟨.negate, by rw [if_pos punct, minus]; decide⟩
    rcases Nat.lt_or_ge 9 least with tight | loose
    · have stops : Stops least sign := by
        refine .inr ⟨by omega, fun other found => ?_⟩
        cases isOp.symm.trans found
        omega
      obtain ⟨rfl, rfl⟩ := (climb_stops_reads stops).mp reads
      exact .cast stuck tight signed fun r' takes => takes
    · have binds : least ≤ op.precedence := additive ▸ loose
      obtain ⟨right, after, second, climbed⟩ := (climb_binary_reads punct isOp binds).mp reads
      rw [additive] at second
      have := second.shorter
      have inside := untyped.tail.suffix (expression_spells second).after
      have stuck := stuck.binary_left op right
      have stuckWhole := climb_stuck stuck climbed
      cases expression_outcome untyped.tail second with
      | follows right' read _ =>
        refine (climb_outcome inside (.refl _) climbed).imp_stuck stuckWhole ?_
        rintro r' ⟨e', climbed'⟩
        exact Takes.prefixed ⟨right', read⟩ (loose.trans (by decide)) isUnary ⟨_, e', climbed'⟩
      | cast _ _ signed' goesOn =>
        refine (sign_outcome inside stuck signed' climbed).imp_stuck stuckWhole ?_
        intro r' takes
        obtain ⟨middle, front, back⟩ := Takes.lift takes (loose.trans (by decide)) goesOn
        exact front.prefixed (loose.trans (by decide)) isUnary back
      | doomed doomed =>
        obtain ⟨-, rfl⟩ := doomed.climb_reads.mp climbed
        exact .doomed doomed
termination_by (tokens.length, 0)

end

/-- What has a value without names and casts has it in every reading in which the literals are the
same. -/
theorem parse_folds (untyped : Untyped plain reading tokens) (parsed : parse tokens plain = .ok e)
    {value : IntValue} (folds : e.Folds value) :
    ∃ e', parse tokens reading = .ok e' ∧ e'.Folds value := by
  cases expression_outcome untyped (parse_eq_ok_iff.mp parsed) with
  | follows e' read follows => exact ⟨e', parse_eq_ok_iff.mpr read, follows value folds⟩
  | cast _ tight _ _ => exact absurd tight (by decide)
  | doomed doomed => exact (not_doomed_nil doomed).elim

end

end Expr

end CBindings
