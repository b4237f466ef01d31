import CBindings.Proofs.Expr.Grammar

/-! Expressions in place of names. Where each name gives way to tokens that are read as one operand,
the whole is read as the expression with these operands in place of the names, and it has the value
that it has when the names stand for the values of the operands. -/

namespace CBindings

def IntValue.Same (a b : IntValue) : Prop := a.value = b.value ∧ a.type = b.type

namespace IntValue.Same

theorem refl (a : IntValue) : a.Same a := ⟨rfl, rfl⟩

variable {a b a' b' : IntValue}

theorem unary (same : a'.Same a) (op : UnaryOp) : (op.apply a').Same (op.apply a) := by
  obtain ⟨value, type⟩ := same
  cases op <;> simp [UnaryOp.apply, Same, value, type]

theorem decided? (same : a'.Same a) (op : BinaryOp) : op.decided? a' = op.decided? a := by
  cases op <;> simp [BinaryOp.decided?, same.1]

/-- The result of an operator does not depend on how its operands were written. -/
theorem binary (left : a'.Same a) (right : b'.Same b) (op : BinaryOp) :
    op.apply a' b' = op.apply a b := by
  simp only [BinaryOp.apply, left.1, left.2, right.1, right.2]

end IntValue.Same

namespace Expr

/-- The second expression is the first with expressions in place of its names, each related to the
name that it stands for. -/
inductive Inlined (related : String → Expr → Prop) : Expr → Expr → Prop where
  | literal (value : IntValue) : Inlined related (.literal value) (.literal value)
  | name {n : String} {e : Expr} (stands : related n e) : Inlined related (.name n) e
  | cast {typeName : String} {operand operand' : Expr} (inner : Inlined related operand operand') :
      Inlined related (.cast typeName operand) (.cast typeName operand')
  | unary {op : UnaryOp} {operand operand' : Expr} (inner : Inlined related operand operand') :
      Inlined related (.unary op operand) (.unary op operand')
  | binary {op : BinaryOp} {left left' right right' : Expr} (first : Inlined related left left')
      (second : Inlined related right right') :
      Inlined related (.binary op left right) (.binary op left' right')
  | conditional {condition condition' chosen chosen' otherwise otherwise' : Expr}
      (test : Inlined related condition condition') (first : Inlined related chosen chosen')
      (second : Inlined related otherwise otherwise') :
      Inlined related (.conditional condition chosen otherwise)
        (.conditional condition' chosen' otherwise')

section

variable (names : String → Except ExpressionError IntValue)
  (casts : String → Except ExpressionError IntType) (widen : Bool)

def Amounts (e : Expr) (value : IntValue) : Prop :=
  ∃ w, e.evaluate noNames casts widen = .ok w ∧ w.Same value

def Gives (n : String) (e : Expr) : Prop := ∀ v, names n = .ok v → e.Amounts casts widen v

variable {names casts widen}

theorem Inlined.amounts {e e' : Expr} {value : IntValue}
    (inlined : Inlined (Gives names casts widen) e e')
    (evaluated : e.evaluate names casts widen = .ok value) : e'.Amounts casts widen value := by
  induction inlined generalizing value with
  | literal _ => exact ⟨value, evaluated, .refl value⟩
  | name stands => exact stands value evaluated
  | cast _ ih =>
    obtain ⟨target, cast, inner, operandValue, rfl⟩ := evaluate_cast_eq_ok.mp evaluated
    obtain ⟨w, known, same⟩ := ih operandValue
    refine ⟨_, evaluate_cast_eq_ok.mpr ⟨target, cast, w, known, rfl⟩, ?_, rfl⟩
    rw [same.1]
  | @unary op _ _ _ ih =>
    obtain ⟨inner, operandValue, rfl⟩ := evaluate_unary_eq_ok.mp evaluated
    obtain ⟨w, known, same⟩ := ih operandValue
    exact ⟨_, evaluate_unary_eq_ok.mpr ⟨w, known, rfl⟩, same.unary op⟩
  | conditional _ _ _ ihCondition ihChosen ihOtherwise =>
    obtain ⟨test, tested, branch⟩ := evaluate_conditional_eq_ok.mp evaluated
    obtain ⟨w, known, same⟩ := ihCondition tested
    rcases branch with ⟨holds, branch⟩ | ⟨fails, branch⟩
    · obtain ⟨v, chosenValue, chosenSame⟩ := ihChosen branch
      exact ⟨v, evaluate_conditional_eq_ok.mpr ⟨w, known, .inl ⟨same.1 ▸ holds, chosenValue⟩⟩,
        chosenSame⟩
    · obtain ⟨v, otherValue, otherSame⟩ := ihOtherwise branch
      exact ⟨v, evaluate_conditional_eq_ok.mpr ⟨w, known, .inr ⟨same.1.trans fails, otherValue⟩⟩,
        otherSame⟩
  | @binary op _ _ _ _ _ _ ihLeft ihRight =>
    obtain ⟨a, leftValue, rest⟩ := evaluate_binary_eq_ok.mp evaluated
    obtain ⟨a', known, same⟩ := ihLeft leftValue
    rcases rest with decided | ⟨undecided, b, rightValue, applied⟩
    · rw [← same.decided? op] at decided
      exact ⟨value, evaluate_binary_eq_ok.mpr ⟨a', known, .inl decided⟩, .refl value⟩
    · obtain ⟨b', rightKnown, rightSame⟩ := ihRight rightValue
      rw [← same.decided? op] at undecided
      rw [← same.binary rightSame op] at applied
      have whole := evaluate_binary_eq_ok.mpr
        ⟨a', known, .inr ⟨undecided, b', rightKnown, applied⟩⟩
      exact ⟨value, whole, .refl value⟩

end

/-! ### Tokens in place of names -/

def Reading.isTypeWord (reading : Reading) (text : String) : Bool :=
  castKeywords.contains text || reading.isTypeName text

def Bare (reading : Reading) : Expr → Prop
  | literal _ => True
  | name n => reading.isTypeWord n = false
  | call _ => False
  | cast _ operand => operand.Bare reading
  | unary _ operand => operand.Bare reading
  | binary _ left right => left.Bare reading ∧ right.Bare reading
  | conditional condition chosen otherwise =>
    condition.Bare reading ∧ chosen.Bare reading ∧ otherwise.Bare reading

def Reading.isOperand (reading : Reading) (tokens : List Token) : Bool :=
  match operand reading tokens with
  | .ok parsed => parsed.rest.isEmpty
  | .error _ => false

def NoCall (tokens : List Token) : Prop := ∀ token ∈ tokens.head?, token.opensParen = false

def Separated (tokens : List Token) : Prop := ∀ token ∈ tokens.head?, token.kind = .punct

structure Operand (reading : Reading) (block : List Token) (e : Expr) : Prop where
  reads : ∀ after, NoCall after → Reads (operand reading (block ++ after)) e after
  word : ∀ token rest, block = token :: rest → token.kind = .ident →
    rest = [] ∧ reading.isTypeWord token.text = false

inductive Replaced (reading : Reading) (related : String → Expr → Prop) :
    List Token → List Token → Prop where
  | nil : Replaced reading related [] []
  | keep {token token' : Token} {tokens out : List Token} (same : token'.lexeme = token.lexeme)
      (stays : token.kind = .ident → reading.isTypeWord token.text = false →
        related token.text (.name token.text))
      (others : Replaced reading related tokens out) :
      Replaced reading related (token :: tokens) (token' :: out)
  | block {token : Token} {block tokens out : List Token} {e : Expr} (isName : token.kind = .ident)
      (plain : reading.isTypeWord token.text = false) (stands : related token.text e)
      (reads : Operand reading block e) (others : Replaced reading related tokens out) :
      Replaced reading related (token :: tokens) (block ++ out)

section

variable {reading : Reading} {related : String → Expr → Prop} {least : Nat} {left e : Expr}
  {token token' : Token} {tokens out after r : List Token}

theorem isPunct_eq (same : token'.lexeme = token.lexeme) (text : String) :
    token'.isPunct text = token.isPunct text := by
  simp only [Token.lexeme, Lexeme.mk.injEq] at same
  simp [Token.isPunct, same]

theorem prefixOp?_eq (same : token'.lexeme = token.lexeme) :
    prefixOp? token' = prefixOp? token := by
  simp only [Token.lexeme, Lexeme.mk.injEq] at same
  simp [prefixOp?, same]

theorem punct_of_isPunct {text : String} (isPunct : token.isPunct text = true) :
    token.kind = .punct := by
  simp only [Token.isPunct, Bool.and_eq_true, decide_eq_true_eq] at isPunct
  exact isPunct.1

theorem punct_of_prefixOp? {op : UnaryOp} (isOp : prefixOp? token = some op) :
    token.kind = .punct := by
  by_contra other
  simp [prefixOp?, other] at isOp

theorem separated_cons (punct : token.kind = .punct) : Separated (token :: tokens) := by
  intro first isFirst
  obtain rfl : token = first := by simpa using isFirst
  exact punct

theorem Replaced.cons_mark (replaced : Replaced reading related (token :: tokens) out)
    (noName : token.kind ≠ .ident) :
    ∃ token' out', out = token' :: out' ∧ token'.lexeme = token.lexeme ∧
      Replaced reading related tokens out' := by
  cases replaced with
  | keep same stays others => exact ⟨_, _, rfl, same, others⟩
  | block isName plain stands reads others => exact absurd isName noName

theorem Replaced.cons_punct (replaced : Replaced reading related (token :: tokens) out)
    (punct : token.kind = .punct) :
    ∃ token' out', out = token' :: out' ∧ token'.lexeme = token.lexeme ∧
      Replaced reading related tokens out' :=
  replaced.cons_mark (by simp [punct])

theorem Replaced.nil_eq (replaced : Replaced reading related [] out) : out = [] := by
  cases replaced
  rfl

theorem Replaced.noCall (replaced : Replaced reading related r out) (separated : Separated r)
    (noCall : NoCall r) (last : r = [] → NoCall after) : NoCall (out ++ after) := by
  cases r with
  | nil => exact replaced.nil_eq ▸ last rfl
  | cons token rest =>
    obtain ⟨token', out', rfl, same, -⟩ := replaced.cons_punct (separated token rfl)
    intro first isFirst
    obtain rfl : token' = first := by simpa using isFirst
    exact (isPunct_eq same "(").trans (noCall token rfl)

end

/-- The left operand is a part of the result, and nothing but an operator can follow it. -/
theorem climb_keeps {reading : Reading} {least : Nat} {left e : Expr} {tokens r : List Token}
    (reads : Reads (climb reading least left tokens) e r) :
    (e.Bare reading → left.Bare reading) ∧ (Separated r → Separated tokens) := by
  match tokens with
  | [] =>
    obtain ⟨rfl, rfl⟩ := climb_nil_reads.mp reads
    exact ⟨id, id⟩
  | token :: rest =>
    rcases stops_or_binds least token with stops | ⟨punct, ⟨question, rfl⟩ | ⟨op, isOp, binds⟩⟩
    · obtain ⟨rfl, rfl⟩ := (climb_stops_reads stops).mp reads
      exact ⟨id, id⟩
    · obtain ⟨chosen, colon, tail, first, -, otherwise, after, second, climbed⟩ :=
        (climb_conditional_reads punct question).mp reads
      have : tail.length + 1 < rest.length := first.shorter
      have := second.shorter
      exact ⟨fun bare => ((climb_keeps climbed).1 bare).1, fun _ => separated_cons punct⟩
    · obtain ⟨right, after, second, climbed⟩ := (climb_binary_reads punct isOp binds).mp reads
      have := second.shorter
      exact ⟨fun bare => ((climb_keeps climbed).1 bare).1, fun _ => separated_cons punct⟩
termination_by tokens.length

/-- At the end of a chain of operators nothing is left where nothing was left before. -/
theorem last_of_climb {reading : Reading} {least : Nat} {left e : Expr}
    {middle after r : List Token} (climbed : Reads (climb reading least left middle) e r)
    (last : r = [] → after = []) : middle = [] → after = [] := by
  rintro rfl
  obtain ⟨-, rfl⟩ := climb_nil_reads.mp climbed
  exact last rfl

section

variable {reading : Reading} {related : String → Expr → Prop} {least : Nat} {left e : Expr}
  {token token' : Token} {tokens out after r : List Token}

/-! ### Casts -/

theorem startsOperand_of_reads (reads : Reads (operand reading tokens) e r) :
    startsOperand (tokens ++ after) = true := by
  cases tokens with
  | nil => exact (not_operand_nil_reads reads).elim
  | cons token rest =>
    by_cases punct : token.kind = .punct
    · cases isOp : prefixOp? token with
      | some op =>
        have found : UnaryOp.ofText? token.text = some op := by
          simpa [prefixOp?, punct] using isOp
        have text : op.text = token.text := by
          simpa using List.find?_some found
        simp only [startsOperand, List.cons_append, ← text]
        cases op <;> simp [UnaryOp.text]
      | none =>
        by_cases opens : token.opensParen = true
        · have text : token.text = "(" := by
            simpa [Token.opensParen, Token.isPunct, punct] using opens
          simp [startsOperand, text]
        · have atom := (operand_atom_reads isOp (by simpa using opens)).mp reads
          obtain ⟨value, wrong, -⟩ := (atom_literal_reads (by simp [punct])).mp atom
          simp [literalOf, Token.lexeme, punct] at wrong
    · simp [startsOperand, punct]

theorem Operand.startsOperand {block : List Token} (block_reads : Operand reading block e) :
    startsOperand (block ++ after) = true := by
  have whole := block_reads.reads [] (by simp [NoCall])
  rw [List.append_nil] at whole
  exact startsOperand_of_reads whole

theorem Replaced.startsOperand (replaced : Replaced reading related tokens out)
    (starts : startsOperand tokens = true) : Expr.startsOperand (out ++ after) = true := by
  cases replaced with
  | nil => cases starts
  | keep same stays others =>
    simp only [Token.lexeme, Lexeme.mk.injEq] at same
    simpa [Expr.startsOperand, same] using starts
  | block isName plain stands reads others =>
    rw [List.append_assoc]
    exact reads.startsOperand

theorem Replaced.words {front tail : List Token}
    (replaced : Replaced reading related (front ++ tail) out)
    (types : ∀ t ∈ front, reading.isTypeWord t.text = true) :
    ∃ front' out', out = front' ++ out' ∧ front'.map Token.lexeme = front.map Token.lexeme ∧
      Replaced reading related tail out' := by
  induction front generalizing out with
  | nil => exact ⟨[], out, rfl, rfl, replaced⟩
  | cons token front ih =>
    cases replaced with
    | keep same stays others =>
      obtain ⟨front', out', rfl, spelled, others⟩ :=
        ih others fun t member => types t (List.mem_cons_of_mem _ member)
      exact ⟨_ :: front', out', rfl, by simp [same, spelled], others⟩
    | block isName plain stands reads others =>
      rw [types token List.mem_cons_self] at plain
      cases plain

theorem SpellsType.isTypeWord {words : List String} {name : String}
    (spells : SpellsType reading words name) : ∀ word ∈ words, reading.isTypeWord word = true := by
  intro word member
  rcases spells with ⟨keywords, -⟩ | ⟨-, rfl, isType⟩
  · have keyword := List.all_eq_true.mp keywords word member
    simp only [Reading.isTypeWord, keyword, Bool.true_or]
  · rw [List.mem_singleton.mp member, Reading.isTypeWord, isType, Bool.or_true]

theorem name_of_bare (isName : token.kind = .ident)
    (reads : Reads (operand reading (token :: tokens)) e r) (bare : e.Bare reading) :
    e = .name token.text ∧ r = tokens ∧ reading.isTypeWord token.text = false ∧ NoCall tokens := by
  have noOp : prefixOp? token = none := by simp [prefixOp?, isName]
  have other : token.opensParen = false := by simp [Token.opensParen, Token.isPunct, isName]
  have atom := (operand_atom_reads noOp other).mp reads
  have noCall : NoCall tokens := by
    intro next isNext
    obtain ⟨rest, rfl⟩ := List.head?_eq_some_iff.mp isNext
    by_contra opens
    rw [atom_call_reads isName (by simpa using opens) atom] at bare
    exact bare
  obtain ⟨rfl, rfl⟩ := (atom_name_reads isName noCall).mp atom
  exact ⟨rfl, rfl, bare, noCall⟩

theorem Replaced.cast?_eq_none (replaced : Replaced reading related tokens out)
    (reads : Reads (operand reading tokens) e r) (bare : e.Bare reading) :
    cast? reading (out ++ after) = none := by
  cases cast : cast? reading (out ++ after) with
  | none => rfl
  | some found =>
    obtain ⟨front, close, spelled, names, filled, -, -, spells⟩ := cast?_eq_some cast
    obtain ⟨word, front, rfl⟩ := List.exists_cons_of_ne_nil filled
    have isName := names word List.mem_cons_self
    have typeWord := spells.isTypeWord word.text (by simp)
    obtain ⟨tail, spelled⟩ : ∃ tail, out ++ after = word :: tail := ⟨_, spelled⟩
    cases replaced with
    | nil => exact (not_operand_nil_reads reads).elim
    | keep same stays others =>
      rw [List.cons_append, List.cons.injEq] at spelled
      obtain ⟨rfl, -⟩ := spelled
      simp only [Token.lexeme, Lexeme.mk.injEq] at same
      rw [same.1] at isName
      rw [same.2] at typeWord
      rw [(name_of_bare isName reads bare).2.2.1] at typeWord
      cases typeWord
    | @block _ block _ _ _ _ _ _ reads' others =>
      cases block with
      | nil => exact (not_operand_nil_reads (reads'.reads [] (by simp [NoCall]))).elim
      | cons first rest =>
        rw [List.cons_append, List.cons_append, List.cons.injEq] at spelled
        obtain ⟨rfl, -⟩ := spelled
        rw [(reads'.word first rest rfl isName).2] at typeWord
        cases typeWord

theorem Replaced.cast?_eq_some (replaced : Replaced reading related tokens out)
    {found : Parsed String tokens.length} (cast : cast? reading tokens = some found) :
    ∃ out', Replaced reading related found.rest out' ∧ ∀ after, ∃ shorter,
      cast? reading (out ++ after) = some ⟨found.value, out' ++ after, shorter⟩ := by
  obtain ⟨front, close, spelled, names, filled, closes, starts, spells⟩ := Expr.cast?_eq_some cast
  rw [spelled] at replaced
  have types : ∀ t ∈ front, reading.isTypeWord t.text = true := fun t member =>
    spells.isTypeWord t.text (List.mem_map_of_mem member)
  obtain ⟨front', out, rfl, sameWords, replaced⟩ := replaced.words types
  obtain ⟨close', out', rfl, sameClose, replaced⟩ := replaced.cons_punct (punct_of_isPunct closes)
  have names' : ∀ t ∈ front', t.kind = .ident := by
    intro t member
    have listed : t.lexeme ∈ front.map Token.lexeme :=
      sameWords ▸ List.mem_map_of_mem (f := Token.lexeme) member
    obtain ⟨t', member', same⟩ := List.mem_map.mp listed
    exact (congrArg Lexeme.kind same).symm.trans (names t' member')
  have texts : front'.map Token.text = front.map Token.text := by
    have texts := congrArg (List.map Lexeme.text) sameWords
    rw [List.map_map, List.map_map] at texts
    exact texts
  have filled' : front' ≠ [] := by
    rintro rfl
    simp [filled] at sameWords
  refine ⟨out', replaced, fun after => ?_⟩
  rw [List.append_assoc, List.cons_append]
  exact cast?_of_spelled names' filled' ((isPunct_eq sameClose ")").trans closes)
    (replaced.startsOperand starts) (texts ▸ spells)

theorem atom_replaced (replaced : Replaced reading related (token :: tokens) out)
    (noOp : prefixOp? token = none) (other : token.opensParen = false)
    (reads : Reads (operand reading (token :: tokens)) e r) (bare : e.Bare reading)
    (separated : Separated r) :
    ∃ e' out', e.Inlined related e' ∧ Replaced reading related r out' ∧
      ∀ after, (r = [] → NoCall after) →
        Reads (operand reading (out ++ after)) e' (out' ++ after) := by
  by_cases isName : token.kind = .ident
  · obtain ⟨rfl, rfl, plain, noCall⟩ := name_of_bare isName reads bare
    cases replaced with
    | @keep _ token' _ out same stays others =>
      have noOp' : prefixOp? token' = none := (prefixOp?_eq same).trans noOp
      have other' : token'.opensParen = false := (isPunct_eq same "(").trans other
      have sameText : token'.text = token.text := congrArg Lexeme.text same
      have isName' : token'.kind = .ident := (congrArg Lexeme.kind same).trans isName
      refine ⟨.name token.text, out, .name (stays isName plain), others, fun after last => ?_⟩
      rw [← sameText]
      exact (operand_atom_reads noOp' other').mpr ((atom_name_reads isName'
        (others.noCall separated noCall last)).mpr ⟨rfl, rfl⟩)
    | @block _ block _ out e' _ _ stands reads' others =>
      refine ⟨e', out, .name stands, others, fun after last => ?_⟩
      rw [List.append_assoc]
      exact reads'.reads _ (others.noCall separated noCall last)
  · obtain ⟨value, known, rfl, rfl⟩ :=
      (atom_literal_reads isName).mp ((operand_atom_reads noOp other).mp reads)
    obtain ⟨token', out, rfl, same, others⟩ := replaced.cons_mark isName
    have noOp' : prefixOp? token' = none := (prefixOp?_eq same).trans noOp
    have other' : token'.opensParen = false := (isPunct_eq same "(").trans other
    have noName' : token'.kind ≠ .ident := by
      rwa [show token'.kind = token.kind from congrArg Lexeme.kind same]
    exact ⟨.literal value, out, .literal value, others, fun after _ =>
      (operand_atom_reads noOp' other').mpr
        ((atom_literal_reads noName').mpr ⟨value, same ▸ known, rfl, rfl⟩)⟩

end

/-! ### The whole -/

mutual

/-- Where names give way to operands, an operand is read with these in place of its names. -/
theorem operand_replaced {reading : Reading} {related : String → Expr → Prop} {e : Expr}
    {tokens out r : List Token} (replaced : Replaced reading related tokens out)
    (reads : Reads (operand reading tokens) e r) (bare : e.Bare reading)
    (separated : Separated r) :
    ∃ e' out', e.Inlined related e' ∧ Replaced reading related r out' ∧
      ∀ after, (r = [] → NoCall after) →
        Reads (operand reading (out ++ after)) e' (out' ++ after) := by
  match tokens with
  | [] => exact (not_operand_nil_reads reads).elim
  | token :: rest =>
    cases isOp : prefixOp? token with
    | some op =>
      obtain ⟨token', out, rfl, same, others⟩ := replaced.cons_punct (punct_of_prefixOp? isOp)
      obtain ⟨inner, inside, rfl⟩ := (operand_prefix_reads isOp).mp reads
      obtain ⟨inner', out', inlined, left, inside⟩ := operand_replaced others inside bare separated
      have isOp' : prefixOp? token' = some op := (prefixOp?_eq same).trans isOp
      exact ⟨_, out', .unary inlined, left, fun after last =>
        (operand_prefix_reads isOp').mpr ⟨_, inside after last, rfl⟩⟩
    | none =>
      cases opens : token.opensParen with
      | true =>
        obtain ⟨token', out, rfl, same, others⟩ := replaced.cons_punct (punct_of_isPunct opens)
        have noOp : prefixOp? token' = none := (prefixOp?_eq same).trans isOp
        have opens' : token'.opensParen = true := (isPunct_eq same "(").trans opens
        cases cast : cast? reading rest with
        | some found =>
          obtain ⟨inner, inside, rfl⟩ := (operand_cast_reads isOp opens cast).mp reads
          obtain ⟨out', others, kept⟩ := others.cast?_eq_some cast
          have := found.shorter
          obtain ⟨inner', out', inlined, left, inside⟩ :=
            operand_replaced others inside bare separated
          refine ⟨_, out', .cast inlined, left, fun after last => ?_⟩
          obtain ⟨shorter, kept⟩ := kept after
          exact (operand_cast_reads noOp opens' kept).mpr ⟨_, inside after last, rfl⟩
        | none =>
          obtain ⟨close, inside, closes⟩ := (operand_group_reads isOp opens cast).mp reads
          obtain ⟨left, middle, first, climbed⟩ := expression_reads.mp inside
          have noCast (after : List Token) : cast? reading (out ++ after) = none :=
            others.cast?_eq_none first ((climb_keeps climbed).1 bare)
          obtain ⟨e', out', inlined, left, inside⟩ := expression_replaced others inside bare
            (separated_cons (punct_of_isPunct closes))
          obtain ⟨close', out', rfl, sameClose, left⟩ := left.cons_punct (punct_of_isPunct closes)
          have closes' : close'.isPunct ")" = true := (isPunct_eq sameClose ")").trans closes
          exact ⟨e', out', inlined, left, fun after _ =>
            (operand_group_reads noOp opens' (noCast after)).mpr
              ⟨close', inside after (by simp), closes'⟩⟩
      | false =>
        exact atom_replaced replaced isOp opens reads bare separated
termination_by (tokens.length, 0)

theorem expression_replaced {reading : Reading} {related : String → Expr → Prop} {least : Nat}
    {e : Expr} {tokens out r : List Token} (replaced : Replaced reading related tokens out)
    (reads : Reads (expression reading least tokens) e r) (bare : e.Bare reading)
    (separated : Separated r) :
    ∃ e' out', e.Inlined related e' ∧ Replaced reading related r out' ∧
      ∀ after, (r = [] → after = []) →
        Reads (expression reading least (out ++ after)) e' (out' ++ after) := by
  obtain ⟨left, middle, first, climbed⟩ := expression_reads.mp reads
  obtain ⟨leftBare, split⟩ := climb_keeps climbed
  obtain ⟨left', out', inlined, others, first'⟩ :=
    operand_replaced replaced first (leftBare bare) (split separated)
  have := first.shorter
  obtain ⟨e', out', inlined, others, climbed'⟩ :=
    climb_replaced inlined others climbed bare separated
  refine ⟨e', out', inlined, others, fun after last => ?_⟩
  have lastOperand : middle = [] → NoCall after := by
    intro ends
    simp [last_of_climb climbed last ends, NoCall]
  exact expression_reads.mpr ⟨_, _, first' after lastOperand, climbed' after last⟩
termination_by (tokens.length, 1)

theorem climb_replaced {reading : Reading} {related : String → Expr → Prop} {least : Nat}
    {left left' e : Expr} {tokens out r : List Token} (inlined : left.Inlined related left')
    (replaced : Replaced reading related tokens out)
    (reads : Reads (climb reading least left tokens) e r) (bare : e.Bare reading)
    (separated : Separated r) :
    ∃ e' out', e.Inlined related e' ∧ Replaced reading related r out' ∧
      ∀ after, (r = [] → after = []) →
        Reads (climb reading least left' (out ++ after)) e' (out' ++ after) := by
  match tokens with
  | [] =>
    obtain ⟨rfl, rfl⟩ := climb_nil_reads.mp reads
    obtain rfl := replaced.nil_eq
    refine ⟨left', [], inlined, .nil, fun after last => ?_⟩
    obtain rfl := last rfl
    exact climb_nil_reads.mpr ⟨rfl, rfl⟩
  | token :: rest =>
    have punct : token.kind = .punct := (climb_keeps reads).2 separated token rfl
    obtain ⟨token', out, rfl, same, others⟩ := replaced.cons_punct punct
    have sameKind : token'.kind = token.kind := congrArg Lexeme.kind same
    have sameText : token'.text = token.text := congrArg Lexeme.text same
    rcases stops_or_binds least token with stops | ⟨-, ⟨question, rfl⟩ | ⟨op, isOp, binds⟩⟩
    · obtain ⟨rfl, rfl⟩ := (climb_stops_reads stops).mp reads
      have stops' : Stops least token' := by rwa [Stops, sameKind, sameText]
      exact ⟨left', _, inlined, replaced, fun after _ => (climb_stops_reads stops').mpr ⟨rfl, rfl⟩⟩
    · obtain ⟨chosen, colon, tail, first, isColon, otherwise, middle, second, climbed⟩ :=
        (climb_conditional_reads punct question).mp reads
      obtain ⟨⟨-, chosenBare, otherBare⟩, split⟩ :=
        (climb_keeps climbed).imp (fun keeps => keeps bare) id
      obtain ⟨chosen', out', firstInlined, others, first'⟩ :=
        expression_replaced others first chosenBare (separated_cons (punct_of_isPunct isColon))
      obtain ⟨colon', out', rfl, sameColon, others⟩ := others.cons_punct (punct_of_isPunct isColon)
      have shorter : tail.length + 1 < rest.length := first.shorter
      obtain ⟨otherwise', out', secondInlined, others, second'⟩ :=
        expression_replaced others second otherBare (split separated)
      have := second.shorter
      obtain ⟨e', out', whole, others, climbed'⟩ := climb_replaced
        (.conditional inlined firstInlined secondInlined) others climbed bare separated
      have isColon' : colon'.isPunct ":" = true := (isPunct_eq sameColon ":").trans isColon
      refine ⟨e', out', whole, others, fun after last => ?_⟩
      exact (climb_conditional_reads (sameKind.trans punct) (sameText.trans question)).mpr
        ⟨_, colon', _, first' after (by simp), isColon',
          _, _, second' after (last_of_climb climbed last), climbed' after last⟩
    · obtain ⟨right, middle, second, climbed⟩ := (climb_binary_reads punct isOp binds).mp reads
      obtain ⟨⟨-, rightBare⟩, split⟩ := (climb_keeps climbed).imp (fun keeps => keeps bare) id
      obtain ⟨right', out', rightInlined, others, second'⟩ :=
        expression_replaced others second rightBare (split separated)
      have := second.shorter
      obtain ⟨e', out', whole, others, climbed'⟩ :=
        climb_replaced (.binary inlined rightInlined) others climbed bare separated
      refine ⟨e', out', whole, others, fun after last => ?_⟩
      exact (climb_binary_reads (sameKind.trans punct) (sameText ▸ isOp) binds).mpr
        ⟨_, _, second' after (last_of_climb climbed last), climbed' after last⟩
termination_by (tokens.length, 0)

end

theorem isOperand_iff {reading : Reading} {tokens : List Token} :
    reading.isOperand tokens = true ↔ ∃ e, Reads (operand reading tokens) e [] := by
  unfold Reading.isOperand
  cases read : operand reading tokens with
  | error error => simp [not_reads_error]
  | ok parsed => simp [reads_ok]

/-- Tokens in which names have given way to operands spell an expression with these operands in
place of the names. -/
theorem parse_replaced {reading : Reading} {related : String → Expr → Prop} {e : Expr}
    {tokens out : List Token} (replaced : Replaced reading related tokens out)
    (parsed : parse tokens reading = .ok e) (bare : e.Bare reading) :
    ∃ e', e.Inlined related e' ∧ parse out reading = .ok e' := by
  obtain ⟨e', out', inlined, others, reads⟩ := expression_replaced replaced
    (parse_eq_ok_iff.mp parsed) bare (by simp [Separated])
  obtain rfl := others.nil_eq
  have whole := reads [] fun _ => rfl
  rw [List.append_nil] at whole
  exact ⟨e', inlined, parse_eq_ok_iff.mpr whole⟩

/-- Tokens for an operand in which names have given way can themselves stand for a name. -/
theorem operand_of_replaced {reading : Reading} {related : String → Expr → Prop} {e : Expr}
    {tokens out : List Token} (replaced : Replaced reading related tokens out)
    (reads : Reads (operand reading tokens) e []) (bare : e.Bare reading) :
    ∃ e', e.Inlined related e' ∧ Operand reading out e' := by
  obtain ⟨e', out', inlined, others, inside⟩ :=
    operand_replaced replaced reads bare (by simp [Separated])
  obtain rfl := others.nil_eq
  refine ⟨e', inlined, fun after noCall => inside after fun _ => noCall, ?_⟩
  intro first rest spelled isName
  cases replaced with
  | nil => cases spelled
  | keep same stays others =>
    obtain ⟨rfl, rfl⟩ := List.cons.inj spelled
    simp only [Token.lexeme, Lexeme.mk.injEq] at same
    obtain ⟨-, rfl, plain, -⟩ := name_of_bare (same.1 ▸ isName) reads bare
    exact ⟨others.nil_eq, same.2 ▸ plain⟩
  | block isName' plain stands reads' others =>
    obtain ⟨-, rfl, -, -⟩ := name_of_bare isName' reads bare
    rw [others.nil_eq, List.append_nil] at spelled
    exact reads'.word first rest spelled isName

end Expr

end CBindings
