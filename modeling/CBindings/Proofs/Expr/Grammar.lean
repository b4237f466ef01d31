import CBindings.Expr.Parser
import CBindings.Proofs.Expr.Dependence
import CBindings.Proofs.Token.Lexeme
import Mathlib.Data.List.TakeWhile

/-! What the readers of expressions read, one statement for each of them. -/

namespace CBindings

theorem reads_bind {ε α β : Type} {bound bound' : Nat} {first : Except ε (Parsed α bound)}
    {next : Parsed α bound → Except ε (Parsed β bound')} {b : β} {rest : List Token} :
    Reads (first >>= next) b rest ↔
      ∃ a middle shorter, first = .ok ⟨a, middle, shorter⟩ ∧
        Reads (next ⟨a, middle, shorter⟩) b rest := by
  constructor
  · rintro ⟨shorter, read⟩
    obtain ⟨⟨a, middle, shorter'⟩, before, after⟩ := Except.bind_eq_ok.mp read
    exact ⟨a, middle, shorter', before, shorter, after⟩
  · rintro ⟨a, middle, shorter', before, shorter, after⟩
    exact ⟨shorter, Except.bind_eq_ok.mpr ⟨_, before, after⟩⟩

theorem reads_ok {ε α : Type} {bound : Nat} {parsed : Parsed α bound} {a : α} {rest : List Token} :
    Reads (.ok parsed : Except ε (Parsed α bound)) a rest ↔
      parsed.value = a ∧ parsed.rest = rest := by
  constructor
  · rintro ⟨_, same⟩
    cases same
    exact ⟨rfl, rfl⟩
  · rintro ⟨rfl, rfl⟩
    exact ⟨parsed.shorter, rfl⟩

theorem not_reads_error {ε α : Type} {bound : Nat} {error : ε} {a : α} {rest : List Token} :
    ¬ Reads (.error error : Except ε (Parsed α bound)) a rest := by
  rintro ⟨_, impossible⟩
  cases impossible

theorem reads_map {ε α β : Type} {bound bound' : Nat} {first : Except ε (Parsed α bound)}
    {make : α → β} {shorter : ∀ parsed : Parsed α bound, parsed.rest.length < bound'} {b : β}
    {rest : List Token} :
    Reads (first >>= fun parsed => pure ⟨make parsed.value, parsed.rest, shorter parsed⟩) b rest ↔
      ∃ a, Reads first a rest ∧ make a = b := by
  rw [reads_bind]
  constructor
  · rintro ⟨a, middle, _, before, after⟩
    obtain ⟨same, rfl⟩ := reads_ok.mp after
    exact ⟨a, ⟨_, before⟩, same⟩
  · rintro ⟨a, ⟨shorter', before⟩, same⟩
    exact ⟨a, rest, shorter', before, reads_ok.mpr ⟨same, rfl⟩⟩

theorem reads_same {ε α : Type} {bound bound' : Nat} {first : Except ε (Parsed α bound)}
    {shorter : ∀ parsed : Parsed α bound, parsed.rest.length < bound'} {a : α} {rest : List Token} :
    Reads (first >>= fun parsed => pure ⟨parsed.value, parsed.rest, shorter parsed⟩) a rest ↔
      Reads first a rest := by
  have read := @reads_map ε α α bound bound' first id shorter a rest
  simpa only [id_eq, exists_eq_right] using read

namespace Expr

variable {reading : Reading} {least : Nat} {left e : Expr} {token : Token}
  {tokens rest r : List Token}

theorem expression_reads : Reads (expression reading least tokens) e r ↔
    ∃ left middle, Reads (operand reading tokens) left middle ∧
      Reads (climb reading least left middle) e r := by
  rw [expression, reads_bind]
  constructor
  · rintro ⟨left, middle, shorter, before, after⟩
    exact ⟨left, middle, ⟨shorter, before⟩, reads_same.mp after⟩
  · rintro ⟨left, middle, ⟨shorter, before⟩, climbed⟩
    exact ⟨left, middle, shorter, before, reads_same.mpr climbed⟩

theorem expect_reads {text : String} {u : Unit} : Reads (expect text tokens) u r ↔
    ∃ token, tokens = token :: r ∧ token.isPunct text = true := by
  cases tokens with
  | nil => simp [expect, not_reads_error]
  | cons token rest =>
    by_cases found : token.isPunct text = true
    · simp only [expect, found, if_true, reads_ok, true_and, List.cons.injEq]
      constructor
      · rintro rfl
        exact ⟨token, ⟨rfl, rfl⟩, found⟩
      · rintro ⟨_, ⟨-, same⟩, -⟩
        exact same
    · simp only [expect, found, Bool.false_eq_true, if_false, not_reads_error, false_iff,
        not_exists, not_and, List.cons.injEq]
      rintro _ ⟨rfl, -⟩
      exact found

/-! ### Operators after an operand -/

def Stops (least : Nat) (token : Token) : Prop :=
  token.kind ≠ .punct ∨ ¬ (token.text = "?" ∧ least = 0) ∧
    ∀ op, BinaryOp.ofText? token.text = some op → op.precedence < least

theorem stops_or_binds (least : Nat) (token : Token) :
    Stops least token ∨ token.kind = .punct ∧ (token.text = "?" ∧ least = 0 ∨
      ∃ op, BinaryOp.ofText? token.text = some op ∧ least ≤ op.precedence) := by
  by_cases punct : token.kind = .punct
  · by_cases question : token.text = "?" ∧ least = 0
    · exact .inr ⟨punct, .inl question⟩
    · cases isOp : BinaryOp.ofText? token.text with
      | none => exact .inl (.inr ⟨question, by simp [isOp]⟩)
      | some op =>
        rcases Nat.lt_or_ge op.precedence least with weaker | binds
        · exact .inl (.inr ⟨question, by simpa [isOp] using weaker⟩)
        · exact .inr ⟨punct, .inr ⟨op, rfl, binds⟩⟩
  · exact .inl (.inl punct)

theorem climb_nil_reads : Reads (climb reading least left []) e r ↔ left = e ∧ [] = r := by
  rw [climb]
  exact reads_ok

theorem climb_stops_reads (stops : Stops least token) :
    Reads (climb reading least left (token :: rest)) e r ↔ left = e ∧ token :: rest = r := by
  have stay : climb reading least left (token :: rest) = .ok ⟨left, token :: rest, by simp⟩ := by
    rw [climb]
    rcases stops with other | ⟨noCondition, weaker⟩
    · rw [if_pos other]
      rfl
    · split
      · rfl
      · simp only
        split
        · rfl
        · next op found =>
          rw [if_pos (weaker op found)]
          rfl
  rw [stay]
  exact reads_ok

theorem climb_conditional_reads (punct : token.kind = .punct) (question : token.text = "?") :
    Reads (climb reading 0 left (token :: rest)) e r ↔
      ∃ chosen colon afterChosen, Reads (expression reading 0 rest) chosen (colon :: afterChosen) ∧
        colon.isPunct ":" = true ∧
        ∃ otherwise after, Reads (expression reading 0 afterChosen) otherwise after ∧
          Reads (climb reading 0 (.conditional left chosen otherwise) after) e r := by
  rw [climb]
  simp only [punct, question, ne_eq, not_true, if_false, and_self, if_true]
  rw [reads_bind]
  constructor
  · rintro ⟨chosen, afterChosen, _, readChosen, next⟩
    obtain ⟨_, tail, _, readColon, next⟩ := reads_bind.mp next
    obtain ⟨colon, rfl, isColon⟩ := expect_reads.mp ⟨_, readColon⟩
    obtain ⟨otherwise, after, _, readOtherwise, next⟩ := reads_bind.mp next
    exact ⟨chosen, colon, tail, ⟨_, readChosen⟩, isColon, otherwise, after, ⟨_, readOtherwise⟩,
      reads_same.mp next⟩
  · rintro ⟨chosen, colon, tail, ⟨_, readChosen⟩, isColon, otherwise, after, ⟨_, readOtherwise⟩,
      climbed⟩
    obtain ⟨_, readColon⟩ : Reads (expect ":" (colon :: tail)) () tail :=
      expect_reads.mpr ⟨colon, rfl, isColon⟩
    refine ⟨chosen, colon :: tail, _, readChosen, reads_bind.mpr ⟨(), tail, _, readColon, ?_⟩⟩
    refine reads_bind.mpr ⟨otherwise, after, _, readOtherwise, ?_⟩
    exact reads_same.mpr climbed

theorem climb_binary_reads {op : BinaryOp} (punct : token.kind = .punct)
    (isOp : BinaryOp.ofText? token.text = some op) (binds : least ≤ op.precedence) :
    Reads (climb reading least left (token :: rest)) e r ↔
      ∃ right after, Reads (expression reading (op.precedence + 1) rest) right after ∧
        Reads (climb reading least (.binary op left right) after) e r := by
  have noQuestion : token.text ≠ "?" := by
    have none : BinaryOp.ofText? "?" = none := by decide
    intro same
    rw [same, none] at isOp
    cases isOp
  rw [climb]
  simp only [punct, noQuestion, isOp, Nat.not_lt.mpr binds, ne_eq, not_true, if_false, false_and]
  rw [reads_bind]
  constructor
  · rintro ⟨right, after, _, readRight, next⟩
    exact ⟨right, after, ⟨_, readRight⟩, reads_same.mp next⟩
  · rintro ⟨right, after, ⟨_, readRight⟩, climbed⟩
    exact ⟨right, after, _, readRight, reads_same.mpr climbed⟩

/-! ### Operands -/

def prefixOp? (token : Token) : Option UnaryOp :=
  if token.kind = .punct then UnaryOp.ofText? token.text else none

theorem not_operand_nil_reads : ¬ Reads (operand reading []) e r := by
  rw [operand]
  exact not_reads_error

theorem operand_prefix_reads {op : UnaryOp} (isOp : prefixOp? token = some op) :
    Reads (operand reading (token :: rest)) e r ↔
      ∃ inner, Reads (operand reading rest) inner r ∧ .unary op inner = e := by
  rw [operand]
  simp only [show (if token.kind = .punct then UnaryOp.ofText? token.text else none) = some op
    from isOp]
  exact reads_map

theorem operand_cast_reads (noOp : prefixOp? token = none) (opens : token.opensParen = true)
    {found : Parsed String rest.length} (cast : cast? reading rest = some found) :
    Reads (operand reading (token :: rest)) e r ↔
      ∃ inner, Reads (operand reading found.rest) inner r ∧ .cast found.value inner = e := by
  rw [operand]
  simp only [show (if token.kind = .punct then UnaryOp.ofText? token.text else none) = none
    from noOp, opens, if_true, cast]
  exact reads_map

theorem operand_group_reads (noOp : prefixOp? token = none) (opens : token.opensParen = true)
    (noCast : cast? reading rest = none) :
    Reads (operand reading (token :: rest)) e r ↔
      ∃ close, Reads (expression reading 0 rest) e (close :: r) ∧ close.isPunct ")" = true := by
  rw [operand]
  simp only [show (if token.kind = .punct then UnaryOp.ofText? token.text else none) = none
    from noOp, opens, if_true, noCast]
  rw [reads_bind]
  constructor
  · rintro ⟨inner, after, _, readInner, next⟩
    obtain ⟨_, tail, _, readClose, next⟩ := reads_bind.mp next
    obtain ⟨close, rfl, isClose⟩ := expect_reads.mp ⟨_, readClose⟩
    obtain ⟨rfl, rfl⟩ := reads_ok.mp next
    exact ⟨close, ⟨_, readInner⟩, isClose⟩
  · rintro ⟨close, ⟨_, readInner⟩, isClose⟩
    obtain ⟨_, readClose⟩ : Reads (expect ")" (close :: r)) () r :=
      expect_reads.mpr ⟨close, rfl, isClose⟩
    refine ⟨e, close :: r, _, readInner, reads_bind.mpr ⟨(), r, _, readClose, ?_⟩⟩
    exact reads_ok.mpr ⟨rfl, rfl⟩

theorem operand_atom_reads (noOp : prefixOp? token = none) (other : token.opensParen = false) :
    Reads (operand reading (token :: rest)) e r ↔ Reads (atom reading token rest) e r := by
  rw [operand]
  simp only [show (if token.kind = .punct then UnaryOp.ofText? token.text else none) = none
    from noOp, other, Bool.false_eq_true, if_false]

def literalOf (reading : Reading) (x : Lexeme) : Except ExpressionError IntValue :=
  match x.kind with
  | .number =>
    if Literal.isFloat x.text then .error (.floatLiteral x.text)
    else Literal.integer x.text reading.longWidth
  | .char => Literal.character x.text
  | _ => .error (.unexpectedToken x.text)

theorem atom_literal_reads (noName : token.kind ≠ .ident) :
    Reads (atom reading token rest) e r ↔
      ∃ value, literalOf reading token.lexeme = .ok value ∧ .literal value = e ∧ rest = r := by
  unfold atom literalOf
  simp only [Token.lexeme]
  cases kind : token.kind with
  | number =>
    simp only
    by_cases float : Literal.isFloat token.text = true
    · simp [float, not_reads_error]
    · simp only [float]
      cases Literal.integer token.text reading.longWidth with
      | error error => simp [Except.map, not_reads_error]
      | ok value => simp [Except.map, reads_ok]
  | char =>
    simp only
    cases Literal.character token.text with
    | error error => simp [Except.map, not_reads_error]
    | ok value => simp [Except.map, reads_ok]
  | ident => exact absurd kind noName
  | string => simp [not_reads_error]
  | punct => simp [not_reads_error]

theorem atom_name_reads (isName : token.kind = .ident)
    (noCall : ∀ next ∈ rest.head?, next.opensParen = false) :
    Reads (atom reading token rest) e r ↔ .name token.text = e ∧ rest = r := by
  unfold atom
  simp only [isName]
  cases rest with
  | nil => exact reads_ok
  | cons next inner =>
    simp only [noCall next rfl]
    exact reads_ok

theorem atom_call_reads (isName : token.kind = .ident) {next : Token}
    (opens : next.opensParen = true)
    (reads : Reads (atom reading token (next :: rest)) e r) : e = .call token.text := by
  unfold atom at reads
  simp only [isName, opens, if_true] at reads
  split at reads
  · exact (not_reads_error reads).elim
  · exact (reads_ok.mp reads).1.symm

/-! ### Operands and operators one by one -/

theorem operand_number_reads {text : String} {line : Nat} {value : IntValue}
    (known : literalOf reading ⟨.number, text⟩ = .ok value) :
    Reads (operand reading (⟨.number, text, line⟩ :: rest)) (.literal value) rest :=
  (operand_atom_reads rfl rfl).mpr ((atom_literal_reads (by simp)).mpr ⟨value, known, rfl, rfl⟩)

theorem operand_name_reads {text : String} {line : Nat}
    (noCall : ∀ next ∈ rest.head?, next.opensParen = false) :
    Reads (operand reading (⟨.ident, text, line⟩ :: rest)) (.name text) rest :=
  (operand_atom_reads rfl rfl).mpr ((atom_name_reads rfl noCall).mpr ⟨rfl, rfl⟩)

theorem climb_closed_reads (closed : ∀ next ∈ rest.head?, next.isPunct ")" = true) :
    Reads (climb reading least e rest) e rest := by
  cases rest with
  | nil => exact climb_nil_reads.mpr ⟨rfl, rfl⟩
  | cons token rest =>
    have text : token.text = ")" := by
      have isClose := closed token rfl
      simp only [Token.isPunct, Bool.and_eq_true, decide_eq_true_eq] at isClose
      exact isClose.2
    have noOp : BinaryOp.ofText? ")" = none := by decide
    have stops : Stops least token := .inr ⟨by simp [text], by simp [text, noOp]⟩
    exact (climb_stops_reads stops).mpr ⟨rfl, rfl⟩

theorem expression_operand_reads (reads : Reads (operand reading tokens) e rest)
    (closed : ∀ next ∈ rest.head?, next.isPunct ")" = true) :
    Reads (expression reading least tokens) e rest :=
  expression_reads.mpr ⟨e, rest, reads, climb_closed_reads closed⟩

theorem expression_binary_reads {op : BinaryOp} {right : Expr} {sign : Token} {after : List Token}
    (first : Reads (operand reading tokens) left (sign :: after)) (punct : sign.kind = .punct)
    (isOp : BinaryOp.ofText? sign.text = some op) (binds : least ≤ op.precedence)
    (second : Reads (expression reading (op.precedence + 1) after) right rest)
    (closed : ∀ next ∈ rest.head?, next.isPunct ")" = true) :
    Reads (expression reading least tokens) (.binary op left right) rest :=
  expression_reads.mpr ⟨left, sign :: after, first,
    (climb_binary_reads punct isOp binds).mpr ⟨right, rest, second, climb_closed_reads closed⟩⟩

/-! ### Casts -/

def SpellsType (reading : Reading) (words : List String) (name : String) : Prop :=
  words.all castKeywords.contains = true ∧ name = " ".intercalate words ∨
    words.all castKeywords.contains = false ∧ words = [name] ∧ reading.isTypeName name = true

theorem cast?_eq_some {found : Parsed String tokens.length}
    (cast : cast? reading tokens = some found) :
    ∃ front close, tokens = front ++ close :: found.rest ∧ (∀ t ∈ front, t.kind = .ident) ∧
      front ≠ [] ∧ close.closesParen = true ∧ startsOperand found.rest = true ∧
      SpellsType reading (front.map Token.text) found.value := by
  have whole :=
    List.takeWhile_append_dropWhile (p := fun t : Token => t.kind = .ident) (l := tokens)
  have idents : ∀ t ∈ tokens.takeWhile (·.kind = .ident), t.kind = .ident := by
    intro t member
    simpa using List.mem_takeWhile_imp member
  unfold cast? at cast
  simp only at cast
  split at cast
  · cases cast
  · next close rest after =>
    rw [after] at whole
    split at cast
    · cases cast
    · next fine =>
      simp only [Bool.or_eq_true, Bool.not_eq_true', not_or, Bool.not_eq_false] at fine
      obtain ⟨⟨filled, closes⟩, starts⟩ := fine
      have filled : tokens.takeWhile (·.kind = .ident) ≠ [] := by simpa using filled
      split at cast
      · next keywords =>
        cases cast
        exact ⟨_, close, whole.symm, idents, filled, closes, starts, .inl ⟨keywords, rfl⟩⟩
      · next other =>
        split at cast
        · next word single =>
          split at cast
          · next isType =>
            cases cast
            exact ⟨_, close, whole.symm, idents, filled, closes, starts,
              .inr ⟨by simpa using other, single, isType⟩⟩
          · cases cast
        · cases cast

theorem cast?_of_spelled {front : List Token} {close : Token} {name : String}
    (names : ∀ t ∈ front, t.kind = .ident) (filled : front ≠ []) (closes : close.closesParen = true)
    (starts : startsOperand rest = true) (spells : SpellsType reading (front.map Token.text) name) :
    ∃ shorter, cast? reading (front ++ close :: rest) = some ⟨name, rest, shorter⟩ := by
  have punct : close.kind ≠ .ident := by
    intro ident
    simp [Token.closesParen, Token.isPunct, ident] at closes
  have taken : (front ++ close :: rest).takeWhile (·.kind = .ident) = front := by
    rw [List.takeWhile_append_of_pos (by simpa using names)]
    simp [punct]
  have left : (front ++ close :: rest).dropWhile (·.kind = .ident) = close :: rest := by
    rw [List.dropWhile_append_of_pos (by simpa using names)]
    simp [punct]
  unfold cast?
  simp only [taken]
  split
  · next none =>
    rw [left] at none
    cases none
  · next token others after =>
    rw [left] at after
    cases after
    have shorter : rest.length < (front ++ close :: rest).length := by
      simp only [List.length_append, List.length_cons]
      omega
    refine ⟨shorter, ?_⟩
    rcases spells with ⟨keywords, rfl⟩ | ⟨other, single, isType⟩
    · simp [filled, closes, starts, keywords]
    · obtain ⟨word, rfl, rfl⟩ := List.map_eq_singleton_iff.mp single
      simp only [List.map_cons, List.map_nil] at other
      simp [closes, starts, other, isType]

/-! ### Whole expressions -/

theorem parse_eq_ok_iff :
    parse tokens reading = .ok e ↔ Reads (expression reading 0 tokens) e [] := by
  cases tokens with
  | nil =>
    constructor
    · intro parsed
      cases parsed
    · intro reads
      obtain ⟨left, middle, first, -⟩ := expression_reads.mp reads
      exact (not_operand_nil_reads first).elim
  | cons token rest =>
    rw [parse, if_neg (by simp), Except.bind_eq_ok]
    constructor
    · rintro ⟨⟨whole, left, shorter⟩, read, whole_eq⟩
      cases left with
      | nil =>
        cases whole_eq
        exact ⟨shorter, read⟩
      | cons token left => cases whole_eq
    · rintro ⟨shorter, read⟩
      exact ⟨_, read, rfl⟩

theorem parse_of_operand (reads : Reads (operand reading tokens) e []) : parse tokens reading = .ok e :=
  parse_eq_ok_iff.mpr (expression_reads.mpr ⟨e, [], reads, climb_nil_reads.mpr ⟨rfl, rfl⟩⟩)

end Expr

end CBindings
