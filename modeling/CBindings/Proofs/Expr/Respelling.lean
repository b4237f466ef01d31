import CBindings.Proofs.Expr.Grammar
import CBindings.Proofs.Integer.Literal

/-! Numbers spelled in another way. Where each literal stays a literal, the same tokens are read as
the same expression, and only its literals may have other values. -/

namespace CBindings

namespace Expr

/-- The same expression with other literals, each related to the one it stands for. -/
inductive Alike (related : IntValue → IntValue → Prop) : Expr → Expr → Prop where
  | literal {value value' : IntValue} (same : related value value') :
      Alike related (.literal value) (.literal value')
  | name (n : String) : Alike related (.name n) (.name n)
  | call (n : String) : Alike related (.call n) (.call n)
  | cast (typeName : String) {operand operand' : Expr} (inner : Alike related operand operand') :
      Alike related (.cast typeName operand) (.cast typeName operand')
  | unary (op : UnaryOp) {operand operand' : Expr} (inner : Alike related operand operand') :
      Alike related (.unary op operand) (.unary op operand')
  | binary (op : BinaryOp) {left left' right right' : Expr} (first : Alike related left left')
      (second : Alike related right right') :
      Alike related (.binary op left right) (.binary op left' right')
  | conditional {condition condition' chosen chosen' otherwise otherwise' : Expr}
      (test : Alike related condition condition') (first : Alike related chosen chosen')
      (second : Alike related otherwise otherwise') :
      Alike related (.conditional condition chosen otherwise)
        (.conditional condition' chosen' otherwise')

structure Respells (reading : Reading) (related : IntValue → IntValue → Prop)
    (respell : Token → Token) : Prop where
  kind : ∀ token, (respell token).kind = token.kind
  text : ∀ token, token.kind ≠ .number → (respell token).text = token.text
  literal : ∀ token value, literalOf reading token.lexeme = .ok value →
    ∃ value', literalOf reading (respell token).lexeme = .ok value' ∧ related value value'

section

variable {reading : Reading} {related : IntValue → IntValue → Prop} {respell : Token → Token}
  {token : Token} {tokens rest r : List Token} {e : Expr}

theorem atom_group_reads (isName : token.kind = .ident) {next : Token}
    (opens : next.opensParen = true) :
    Reads (atom reading token (next :: rest)) e r ↔
      ∃ group, splitGroup? Token.opensParen Token.closesParen 0 rest = some group ∧
        .call token.text = e ∧ group.after = r := by
  unfold atom
  simp only [isName, opens, if_true]
  split
  · next none => simp [none, not_reads_error]
  · next group found => simp [found, reads_ok]

namespace Respells

variable (respells : Respells reading related respell)

include respells

theorem isPunct (token : Token) (text : String) :
    (respell token).isPunct text = token.isPunct text := by
  rw [Token.isPunct, Token.isPunct, respells.kind]
  by_cases punct : token.kind = .punct
  · rw [respells.text token (by simp [punct])]
  · simp [punct]

theorem prefixOp? (token : Token) : prefixOp? (respell token) = Expr.prefixOp? token := by
  unfold Expr.prefixOp?
  rw [respells.kind]
  by_cases punct : token.kind = .punct
  · rw [respells.text token (by simp [punct])]
  · simp [punct]

theorem startsOperand (tokens : List Token) :
    startsOperand (tokens.map respell) = Expr.startsOperand tokens := by
  cases tokens with
  | nil => rfl
  | cons token rest =>
    simp only [List.map_cons, Expr.startsOperand, respells.kind]
    by_cases punct : token.kind = .punct
    · rw [respells.text token (by simp [punct])]
    · have other : (token.kind != .punct) = true := by simpa using punct
      rw [other, Bool.true_or, Bool.true_or]

theorem texts {front : List Token} (names : ∀ t ∈ front, t.kind = .ident) :
    (front.map respell).map Token.text = front.map Token.text := by
  rw [List.map_map]
  refine List.map_congr_left fun t member => ?_
  exact respells.text t (by simp [names t member])

theorem idents {front : List Token} :
    (∀ t ∈ front.map respell, t.kind = .ident) ↔ ∀ t ∈ front, t.kind = .ident := by
  simp only [List.mem_map, forall_exists_index, and_imp, forall_apply_eq_imp_iff₂, respells.kind]

theorem cast?_eq_some {found : Parsed String tokens.length}
    (cast : cast? reading tokens = some found) :
    ∃ shorter, cast? reading (tokens.map respell) =
      some ⟨found.value, found.rest.map respell, shorter⟩ := by
  obtain ⟨front, close, spelled, names, filled, closes, starts, spells⟩ := Expr.cast?_eq_some cast
  rw [← respells.texts names] at spells
  rw [← respells.startsOperand] at starts
  have closes' : (respell close).closesParen = true :=
    (respells.isPunct close ")").trans closes
  obtain ⟨shorter, known⟩ := cast?_of_spelled (respells.idents.mpr names) (by simpa using filled)
    closes' starts spells
  have whole : tokens.map respell = front.map respell ++ respell close :: found.rest.map respell :=
    (congrArg (List.map respell) spelled).trans (by simp)
  rw [whole]
  exact ⟨shorter, known⟩

theorem cast?_eq_none (cast : cast? reading tokens = none) :
    cast? reading (tokens.map respell) = none := by
  cases new : cast? reading (tokens.map respell) with
  | none => rfl
  | some found =>
    obtain ⟨front', close', spelled, names, filled, closes, starts, spells⟩ :=
      Expr.cast?_eq_some new
    obtain ⟨front, tail, rfl, rfl, others⟩ := List.map_eq_append_iff.mp spelled
    obtain ⟨close, rest, rfl, rfl, same⟩ := List.map_eq_cons_iff.mp others
    have names := respells.idents.mp names
    rw [respells.texts names] at spells
    rw [← same, respells.startsOperand] at starts
    have closes : close.closesParen = true := (respells.isPunct close ")").symm.trans closes
    obtain ⟨shorter, known⟩ := cast?_of_spelled names (by simpa using filled) closes starts spells
    rw [known] at cast
    cases cast

theorem splitGroup? (depth : Nat) (tokens : List Token) :
    splitGroup? Token.opensParen Token.closesParen depth (tokens.map respell) =
      (CBindings.splitGroup? Token.opensParen Token.closesParen depth tokens).map fun group =>
        ⟨group.inside.map respell, respell group.close, group.after.map respell⟩ := by
  induction tokens generalizing depth with
  | nil => rfl
  | cons token rest ih =>
    have opens : (respell token).opensParen = token.opensParen := respells.isPunct token "("
    have closes : (respell token).closesParen = token.closesParen := respells.isPunct token ")"
    simp only [List.map_cons, CBindings.splitGroup?, opens, closes, ih]
    split
    · simp only [Option.map_map]
      rfl
    · split
      · cases depth with
        | zero => rfl
        | succ depth =>
          simp only [Option.map_map]
          rfl
      · simp only [Option.map_map]
        rfl

theorem atom (reads : Reads (atom reading token rest) e r) :
    ∃ e', Reads (Expr.atom reading (respell token) (rest.map respell)) e' (r.map respell) ∧
      Alike related e e' := by
  by_cases isName : token.kind = .ident
  · have isName' := (respells.kind token).trans isName
    have text := respells.text token (by simp [isName])
    by_cases called : ∃ next inner, rest = next :: inner ∧ next.opensParen = true
    · obtain ⟨next, inner, rfl, opens⟩ := called
      obtain ⟨group, found, rfl, rfl⟩ := (atom_group_reads isName opens).mp reads
      have opens' := (respells.isPunct next "(").trans opens
      have found' := respells.splitGroup? 0 inner
      rw [found] at found'
      exact ⟨_, (atom_group_reads isName' opens').mpr ⟨_, found', rfl, rfl⟩, text ▸ .call _⟩
    · have noCall : ∀ next ∈ rest.head?, next.opensParen = false := by
        intro next first
        obtain ⟨inner, rfl⟩ := List.head?_eq_some_iff.mp first
        by_contra opens
        exact called ⟨next, inner, rfl, by simpa using opens⟩
      have noCall' : ∀ next ∈ (rest.map respell).head?, next.opensParen = false := by
        intro next first
        rw [List.head?_map] at first
        obtain ⟨other, isFirst, rfl⟩ := Option.map_eq_some_iff.mp first
        exact (respells.isPunct other "(").trans (noCall other isFirst)
      obtain ⟨rfl, rfl⟩ := (atom_name_reads isName noCall).mp reads
      exact ⟨_, (atom_name_reads isName' noCall').mpr ⟨rfl, rfl⟩, text ▸ .name _⟩
  · obtain ⟨value, known, rfl, rfl⟩ := (atom_literal_reads isName).mp reads
    obtain ⟨value', known', same⟩ := respells.literal token value known
    have isName' : (respell token).kind ≠ .ident := by rwa [respells.kind]
    exact ⟨_, (atom_literal_reads isName').mpr ⟨value', known', rfl, rfl⟩, .literal same⟩

theorem stops {least : Nat} (stops : Stops least token) : Stops least (respell token) := by
  rcases stops with other | stops
  · exact .inl (by rwa [respells.kind])
  · by_cases punct : token.kind = .punct
    · right
      rw [respells.text token (by simp [punct])]
      exact stops
    · exact .inl (by rwa [respells.kind])

end Respells

end

mutual

theorem operand_respelled {reading : Reading} {related : IntValue → IntValue → Prop}
    {respell : Token → Token} (respells : Respells reading related respell) {e : Expr}
    {tokens r : List Token} (reads : Reads (operand reading tokens) e r) :
    ∃ e', Reads (operand reading (tokens.map respell)) e' (r.map respell) ∧
      Alike related e e' := by
  match tokens with
  | [] => exact (not_operand_nil_reads reads).elim
  | token :: rest =>
    rw [List.map_cons]
    cases isOp : prefixOp? token with
    | some op =>
      obtain ⟨inner, inside, rfl⟩ := (operand_prefix_reads isOp).mp reads
      obtain ⟨inner', inside', alike⟩ := operand_respelled respells inside
      have isOp' := (respells.prefixOp? token).trans isOp
      exact ⟨_, (operand_prefix_reads isOp').mpr ⟨inner', inside', rfl⟩, .unary op alike⟩
    | none =>
      have isOp' := (respells.prefixOp? token).trans isOp
      have same : (respell token).opensParen = token.opensParen := respells.isPunct token "("
      cases opens : token.opensParen with
      | false =>
        obtain ⟨e', atom, alike⟩ := respells.atom ((operand_atom_reads isOp opens).mp reads)
        exact ⟨e', (operand_atom_reads isOp' (same.trans opens)).mpr atom, alike⟩
      | true =>
        cases cast : cast? reading rest with
        | some found =>
          obtain ⟨inner, inside, rfl⟩ := (operand_cast_reads isOp opens cast).mp reads
          have := found.shorter
          obtain ⟨inner', inside', alike⟩ := operand_respelled respells inside
          obtain ⟨shorter, cast'⟩ := respells.cast?_eq_some cast
          exact ⟨_, (operand_cast_reads isOp' (same.trans opens) cast').mpr ⟨inner', inside', rfl⟩,
            .cast found.value alike⟩
        | none =>
          obtain ⟨close, inside, closes⟩ := (operand_group_reads isOp opens cast).mp reads
          obtain ⟨e', inside', alike⟩ := expression_respelled respells inside
          have closes' := (respells.isPunct close ")").trans closes
          have cast' := respells.cast?_eq_none cast
          exact ⟨e', (operand_group_reads isOp' (same.trans opens) cast').mpr
            ⟨respell close, inside', closes'⟩, alike⟩
termination_by (tokens.length, 0)

theorem expression_respelled {reading : Reading} {related : IntValue → IntValue → Prop}
    {respell : Token → Token} (respells : Respells reading related respell) {least : Nat} {e : Expr}
    {tokens r : List Token} (reads : Reads (expression reading least tokens) e r) :
    ∃ e', Reads (expression reading least (tokens.map respell)) e' (r.map respell) ∧
      Alike related e e' := by
  obtain ⟨left, middle, first, climbed⟩ := expression_reads.mp reads
  have := first.shorter
  obtain ⟨left', first', alike⟩ := operand_respelled respells first
  obtain ⟨e', climbed', alike⟩ := climb_respelled respells alike climbed
  exact ⟨e', expression_reads.mpr ⟨left', _, first', climbed'⟩, alike⟩
termination_by (tokens.length, 1)

theorem climb_respelled {reading : Reading} {related : IntValue → IntValue → Prop}
    {respell : Token → Token} (respells : Respells reading related respell) {least : Nat}
    {left left' e : Expr} {tokens r : List Token} (operand : Alike related left left')
    (reads : Reads (climb reading least left tokens) e r) :
    ∃ e', Reads (climb reading least left' (tokens.map respell)) e' (r.map respell) ∧
      Alike related e e' := by
  match tokens with
  | [] =>
    obtain ⟨rfl, rfl⟩ := climb_nil_reads.mp reads
    exact ⟨left', climb_nil_reads.mpr ⟨rfl, rfl⟩, operand⟩
  | token :: rest =>
    rw [List.map_cons]
    rcases stops_or_binds least token with stops | ⟨punct, ⟨question, rfl⟩ | ⟨op, isOp, binds⟩⟩
    · obtain ⟨rfl, rfl⟩ := (climb_stops_reads stops).mp reads
      exact ⟨left', (climb_stops_reads (respells.stops stops)).mpr ⟨rfl, rfl⟩, operand⟩
    · obtain ⟨chosen, colon, tail, first, isColon, otherwise, after, second, climbed⟩ :=
        (climb_conditional_reads punct question).mp reads
      have shorter : tail.length + 1 < rest.length := first.shorter
      have := second.shorter
      obtain ⟨chosen', first', alikeChosen⟩ := expression_respelled respells first
      obtain ⟨otherwise', second', alikeOtherwise⟩ := expression_respelled respells second
      obtain ⟨e', climbed', alike⟩ :=
        climb_respelled respells (.conditional operand alikeChosen alikeOtherwise) climbed
      have text := respells.text token (by simp [punct])
      refine ⟨e', (climb_conditional_reads ((respells.kind token).trans punct)
        (text.trans question)).mpr ⟨chosen', respell colon, _, first',
          (respells.isPunct colon ":").trans isColon, otherwise', _, second', climbed'⟩, alike⟩
    · obtain ⟨right, after, second, climbed⟩ := (climb_binary_reads punct isOp binds).mp reads
      have := second.shorter
      obtain ⟨right', second', alikeRight⟩ := expression_respelled respells second
      obtain ⟨e', climbed', alike⟩ :=
        climb_respelled respells (.binary op operand alikeRight) climbed
      have text := respells.text token (by simp [punct])
      exact ⟨e', (climb_binary_reads ((respells.kind token).trans punct) (text ▸ isOp) binds).mpr
        ⟨right', _, second', climbed'⟩, alike⟩
termination_by (tokens.length, 0)

end

/-- Respelled tokens are read as the same expression, but for the values of its literals. -/
theorem parse_respelled {reading : Reading} {related : IntValue → IntValue → Prop}
    {respell : Token → Token} (respells : Respells reading related respell) {tokens : List Token}
    {e : Expr} (parsed : parse tokens reading = .ok e) :
    ∃ e', parse (tokens.map respell) reading = .ok e' ∧ Alike related e e' := by
  obtain ⟨e', reads, alike⟩ := expression_respelled respells (parse_eq_ok_iff.mp parsed)
  exact ⟨e', parse_eq_ok_iff.mpr reads, alike⟩

end Expr

/-! ### Numbers of the longest types -/

/-- The number with a suffix for the longest types, where it can take one. -/
def Token.asLongLong (longWidth : Nat) (token : Token) : Token :=
  let text := String.ofList (Literal.lengthen (Literal.dropFinalLineFeed token.text.toList))
  if token.kind = .number ∧ (Literal.integer text longWidth).isOk then { token with text := text }
  else token

def IntValue.SameWord (a b : IntValue) : Prop := BitVec.ofInt 64 a.value = BitVec.ofInt 64 b.value

theorem respells_asLongLong (reading : Expr.Reading) :
    Expr.Respells reading IntValue.SameWord (Token.asLongLong reading.longWidth) where
  kind token := by
    simp only [Token.asLongLong]
    split <;> rfl
  text token other := by
    unfold Token.asLongLong
    rw [if_neg (fun both => other both.1)]
  literal token value known := by
    simp only [Token.asLongLong]
    split
    · next longer =>
      obtain ⟨number, fine⟩ := longer
      simp only [Expr.literalOf, Token.lexeme, number] at known ⊢
      split at known
      · cases known
      · cases found : Literal.integer (String.ofList (Literal.lengthen
            (Literal.dropFinalLineFeed token.text.toList))) reading.longWidth with
        | error error =>
          rw [found] at fine
          cases fine
        | ok value' =>
          rw [if_neg (by simp [Literal.isFloat_eq_false found])]
          exact ⟨value', rfl, Literal.ofInt_integer_lengthen known found⟩
    · exact ⟨value, known, rfl⟩

end CBindings
