import CBindings.Proofs.Expr.Inlining
import CBindings.Proofs.Integer.Literal

/-! Ways to write an expression, with parentheses at least where precedence asks for them. Whichever
way it is written, an expression is read as itself. -/

namespace CBindings

theorem Token.isPunct_iff {token : Token} {text : String} :
    token.isPunct text = true ↔ token.kind = .punct ∧ token.text = text := by
  simp [isPunct]

theorem BinaryOp.ofText?_text (op : BinaryOp) : ofText? op.text = some op := by
  cases op <;> decide

def BinaryOp.ofPrecedence : Nat → List BinaryOp
  | 1 => [or]
  | 2 => [and]
  | 3 => [bitOr]
  | 4 => [bitXor]
  | 5 => [bitAnd]
  | 6 => [eq, ne]
  | 7 => [lt, gt, le, ge]
  | 8 => [shiftLeft, shiftRight]
  | 9 => [add, sub]
  | 10 => [mul, div, mod]
  | _ => []

theorem BinaryOp.mem_ofPrecedence (op : BinaryOp) : op ∈ ofPrecedence op.precedence := by
  cases op <;> decide

theorem BinaryOp.precedence_eq {op : BinaryOp} {n : Nat} (member : op ∈ ofPrecedence n) :
    op.precedence = n ∧ n < 11 := by
  unfold ofPrecedence at member
  split at member
  all_goals
    simp only [List.mem_cons, List.not_mem_nil, or_false] at member
  all_goals
    rcases member with rfl | rfl | rfl | rfl <;> decide

theorem UnaryOp.ofText?_text (op : UnaryOp) : ofText? op.text = some op := by
  cases op <;> decide

namespace Expr

open Token

inductive SpellsLiteral (reading : Reading) (token : Token) (value : IntValue) : Prop where
  | integer (number : token.kind = .number)
      (known : Literal.integer token.text reading.longWidth = .ok value)
  | character (char : token.kind = .char) (known : Literal.character token.text = .ok value)

/-- Some tokens are a way to write an expression in a place for operators of this precedence or
more: 0 takes every expression, and 11 takes operands only. Parentheses may stand around any part. -/
inductive Writes (reading : Reading) : Nat → Expr → List Token → Prop where
  | literal {level : Nat} {token : Token} {value : IntValue}
      (spells : SpellsLiteral reading token value) : Writes reading level (.literal value) [token]
  | name {level : Nat} {n : String} {token : Token} (spelled : token.lexeme = .word n) :
      Writes reading level (.name n) [token]
  | call {level : Nat} {n : String} {token opening closing : Token}
      (spelled : token.lexeme = .word n) (opens : opening.isPunct "(" = true)
      (closes : closing.isPunct ")" = true) :
      Writes reading level (.call n) [token, opening, closing]
  | unary {level : Nat} {op : UnaryOp} {sign : Token} {operand : Expr} {tokens : List Token}
      (isOp : sign.isPunct op.text = true) (inner : Writes reading 11 operand tokens) :
      Writes reading level (.unary op operand) (sign :: tokens)
  | cast {level : Nat} {words : List Token} {opening closing : Token} {operand : Expr}
      {tokens : List Token} (opens : opening.isPunct "(" = true) (filled : words ≠ [])
      (keywords : ∀ word ∈ words, word.kind = .ident ∧ word.text ∈ castKeywords)
      (closes : closing.isPunct ")" = true) (inner : Writes reading 11 operand tokens) :
      Writes reading level (.cast (" ".intercalate (words.map Token.text)) operand)
        (opening :: (words ++ closing :: tokens))
  | binary {level own : Nat} {op : BinaryOp} {sign : Token} {left right : Expr}
      {first second : List Token} (binds : op ∈ BinaryOp.ofPrecedence own) (fits : level ≤ own)
      (isOp : sign.isPunct op.text = true) (lefts : Writes reading own left first)
      (rights : Writes reading (own + 1) right second) :
      Writes reading level (.binary op left right) (first ++ sign :: second)
  | conditional {question colon : Token} {condition chosen otherwise : Expr}
      {first second third : List Token} (asks : question.isPunct "?" = true)
      (separates : colon.isPunct ":" = true) (conditions : Writes reading 1 condition first)
      (choices : Writes reading 0 chosen second) (others : Writes reading 0 otherwise third) :
      Writes reading 0 (.conditional condition chosen otherwise)
        (first ++ question :: (second ++ colon :: third))
  | parentheses {level : Nat} {opening closing : Token} {e : Expr} {tokens : List Token}
      (opens : opening.isPunct "(" = true) (closes : closing.isPunct ")" = true)
      (inner : Writes reading 0 e tokens) : Writes reading level e (opening :: (tokens ++ [closing]))

/-- Whether every literal has a token, no name could be taken for a type, and every cast is to a
type of keywords. -/
def Printable (reading : Reading) : Expr → Prop
  | .literal value => ∃ token, SpellsLiteral reading token value
  | .name n => n ∉ castKeywords ∧ reading.isTypeName n = false
  | .call _ => True
  | .cast typeName operand =>
    (∃ words, words ≠ [] ∧ (∀ word ∈ words, word ∈ castKeywords) ∧
      typeName = " ".intercalate words) ∧ operand.Printable reading
  | .unary _ operand => operand.Printable reading
  | .binary _ left right => left.Printable reading ∧ right.Printable reading
  | .conditional condition chosen otherwise =>
    condition.Printable reading ∧ chosen.Printable reading ∧ otherwise.Printable reading

variable {reading : Reading} {level least : Nat} {e e' : Expr} {token : Token}
  {tokens rest r : List Token} {value : IntValue}

/-! ### There is a way to write -/

theorem isPunct_mark (text : String) : (⟨.punct, text, 0⟩ : Token).isPunct text = true := by
  simp [Token.isPunct]

theorem Writes.parenthesized (writes : Writes reading 0 e tokens) :
    Writes reading level e (⟨.punct, "(", 0⟩ :: (tokens ++ [⟨.punct, ")", 0⟩])) :=
  .parentheses (isPunct_mark "(") (isPunct_mark ")") writes

theorem exists_writes (printable : e.Printable reading) : ∃ tokens, Writes reading 0 e tokens := by
  induction e with
  | literal value =>
    obtain ⟨token, spells⟩ := printable
    exact ⟨_, .literal spells⟩
  | name n => exact ⟨[⟨.ident, n, 0⟩], .name rfl⟩
  | call n => exact ⟨[⟨.ident, n, 0⟩, _, _], .call rfl (isPunct_mark "(") (isPunct_mark ")")⟩
  | cast typeName operand ih =>
    obtain ⟨⟨words, filled, keywords, rfl⟩, inside⟩ := printable
    obtain ⟨tokens, writes⟩ := ih inside
    have spelled : (words.map fun word => (⟨.ident, word, 0⟩ : Token)).map Token.text = words := by
      simp [Function.comp_def]
    rw [← spelled]
    refine ⟨_, .cast (isPunct_mark "(") (by simpa using filled) ?_ (isPunct_mark ")")
      writes.parenthesized⟩
    intro word member
    obtain ⟨text, listed, rfl⟩ := List.mem_map.mp member
    exact ⟨rfl, keywords text listed⟩
  | unary op operand ih =>
    obtain ⟨tokens, writes⟩ := ih printable
    exact ⟨_, .unary (isPunct_mark op.text) writes.parenthesized⟩
  | binary op left right ihLeft ihRight =>
    obtain ⟨first, lefts⟩ := ihLeft printable.1
    obtain ⟨second, rights⟩ := ihRight printable.2
    exact ⟨_, .binary op.mem_ofPrecedence (Nat.zero_le _) (isPunct_mark op.text)
      lefts.parenthesized rights.parenthesized⟩
  | conditional condition chosen otherwise ihCondition ihChosen ihOtherwise =>
    obtain ⟨first, conditions⟩ := ihCondition printable.1
    obtain ⟨second, choices⟩ := ihChosen printable.2.1
    obtain ⟨third, others⟩ := ihOtherwise printable.2.2
    exact ⟨_, .conditional (isPunct_mark "?") (isPunct_mark ":") conditions.parenthesized choices
      others⟩

/-! ### Every way is read back -/

theorem Stops.mono {less more : Nat} (stops : Stops less token) (le : less ≤ more) :
    Stops more token := by
  rcases stops with other | ⟨noCondition, weaker⟩
  · exact .inl other
  · refine .inr ⟨fun condition => noCondition ⟨condition.1, by omega⟩, fun op isOp => ?_⟩
    exact Nat.lt_of_lt_of_le (weaker op isOp) le

def Stopped (least : Nat) (rest : List Token) : Prop :=
  ∀ next ∈ rest.head?, next.opensParen = false ∧ Stops least next

theorem Stopped.mono {less more : Nat} (stopped : Stopped less rest) (le : less ≤ more) :
    Stopped more rest := fun next first =>
  ⟨(stopped next first).1, (stopped next first).2.mono le⟩

theorem Stopped.nil : Stopped least [] := by
  intro next first
  cases first

/-- An operator stops every reading that asks for more than its own precedence. -/
theorem stopped_sign {op : BinaryOp} (isOp : token.isPunct op.text = true)
    (stronger : op.precedence < least) : Stopped least (token :: rest) := by
  intro next first
  cases first
  obtain ⟨-, text⟩ := isPunct_iff.mp isOp
  refine ⟨?_, .inr ⟨by omega, fun other found => ?_⟩⟩
  · have noParenthesis : op.text ≠ "(" := by cases op <;> decide
    simp [Token.opensParen, Token.isPunct, text, noParenthesis]
  · rw [text, BinaryOp.ofText?_text] at found
    cases found
    exact stronger

theorem stopped_mark {text : String} (isMark : token.isPunct text = true) (other : text ≠ "(")
    (noQuestion : text ≠ "?" ∨ 0 < least) (noOp : BinaryOp.ofText? text = none) :
    Stopped least (token :: rest) := by
  intro next first
  cases first
  obtain ⟨-, rfl⟩ := isPunct_iff.mp isMark
  refine ⟨by simp [Token.opensParen, Token.isPunct, other], .inr ⟨?_, by simp [noOp]⟩⟩
  rintro ⟨question, zero⟩
  rcases noQuestion with different | positive
  · exact different question
  · omega

theorem climb_stopped_reads (stopped : Stopped least rest) :
    Reads (climb reading least e rest) e rest := by
  cases rest with
  | nil => exact climb_nil_reads.mpr ⟨rfl, rfl⟩
  | cons next after => exact (climb_stops_reads (stopped next rfl).2).mpr ⟨rfl, rfl⟩

def above : Nat → Nat
  | 0 => 0
  | level + 1 => level + 2

theorem above_of_pos (positive : 0 < level) : above level = level + 1 := by
  obtain ⟨level, rfl⟩ := Nat.exists_eq_succ_of_ne_zero (Nat.ne_of_gt positive)
  rfl

theorem le_above (level : Nat) : level ≤ above level := by
  cases level with
  | zero => exact Nat.le_refl 0
  | succ level => exact Nat.le_succ (level + 1)

theorem above_le {more : Nat} (le : level ≤ more) : above level ≤ more + 1 := by
  cases level with
  | zero => exact Nat.zero_le _
  | succ level => exact Nat.succ_le_succ le

structure ReadBack (reading : Reading) (level : Nat) (e : Expr) (tokens : List Token) : Prop where
  operand : 11 ≤ level → ∀ rest, (∀ next ∈ rest.head?, next.opensParen = false) →
    Reads (operand reading (tokens ++ rest)) e rest
  continued : ∀ least rest e' r, least ≤ level → Stopped (above level) rest →
    Reads (climb reading least e rest) e' r → Reads (expression reading least (tokens ++ rest)) e' r

namespace ReadBack

theorem of_operand (reads : ∀ rest, (∀ next ∈ rest.head?, next.opensParen = false) →
    Reads (Expr.operand reading (tokens ++ rest)) e rest) : ReadBack reading level e tokens where
  operand _ := reads
  continued _ rest _ _ _ stopped climbed :=
    expression_reads.mpr ⟨e, rest, reads rest fun next first => (stopped next first).1, climbed⟩

theorem whole (back : ReadBack reading level e tokens) (stopped : Stopped level rest) :
    Reads (expression reading level (tokens ++ rest)) e rest :=
  back.continued level rest e rest (Nat.le_refl _) (stopped.mono (le_above level))
    (climb_stopped_reads stopped)

end ReadBack

/-- How a written expression can start: not with a name, or with a name and nothing else, or with a
name that no closing parenthesis follows. -/
inductive Starts : Expr → List Token → Prop where
  | other {e : Expr} {first : Token} {more : List Token} (noName : first.kind ≠ .ident) :
      Starts e (first :: more)
  | alone {n : String} {token : Token} (spelled : token.lexeme = .word n) :
      Starts (.name n) [token]
  | separated {e : Expr} {first next : Token} {after : List Token} (punct : next.kind = .punct)
      (opened : next.text ≠ ")") : Starts e (first :: next :: after)

theorem Starts.mark {text : String} (isMark : token.isPunct text = true) :
    Starts e (token :: tokens) := by
  refine .other fun isName => ?_
  rw [(isPunct_iff.mp isMark).1] at isName
  cases isName

theorem Starts.join {text : String} {sign : Token} {second : List Token} (starts : Starts e tokens)
    (isMark : sign.isPunct text = true) (opened : text ≠ ")") :
    Starts e' (tokens ++ sign :: second) := by
  cases starts with
  | other noName => exact .other noName
  | alone spelled =>
    obtain ⟨punct, rfl⟩ := isPunct_iff.mp isMark
    exact .separated punct opened
  | separated punct opened => exact .separated punct opened

theorem Writes.starts (writes : Writes reading level e tokens) : Starts e tokens := by
  induction writes with
  | literal spells =>
    refine .other ?_
    cases spells with
    | integer number known => simp [number]
    | character char known => simp [char]
  | name spelled => exact .alone spelled
  | call spelled opens closes =>
    obtain ⟨punct, text⟩ := isPunct_iff.mp opens
    exact .separated punct (by simp [text])
  | unary isOp inner ih => exact .mark isOp
  | cast opens filled keywords closes inner ih => exact .mark opens
  | @binary level own op sign left right first second binds fits isOp lefts rights ihLeft ihRight =>
    exact ihLeft.join isOp (by cases op <;> decide)
  | conditional asks separates conditions choices others ihCondition ihChosen ihOtherwise =>
    exact ihCondition.join asks (by decide)
  | parentheses opens closes inner ih => exact .mark opens

theorem Starts.cast?_eq_none {closing : Token} (starts : Starts e tokens)
    (printable : e.Printable reading) (closes : closing.isPunct ")" = true) :
    cast? reading (tokens ++ closing :: rest) = none := by
  refine Option.eq_none_iff_forall_ne_some.mpr fun found cast => ?_
  obtain ⟨front, close, whole, names, filled, ends, -, spells⟩ := cast?_eq_some cast
  obtain ⟨head, front, rfl⟩ := List.exists_cons_of_ne_nil filled
  obtain ⟨closingPunct, closingText⟩ := isPunct_iff.mp closes
  cases starts with
  | other noName =>
    obtain ⟨rfl, -⟩ := List.cons.inj whole
    exact noName (names _ List.mem_cons_self)
  | @alone n token spelled =>
    obtain ⟨rfl, after⟩ := List.cons.inj whole
    cases front with
    | nil =>
      obtain ⟨noKeyword, noType⟩ := printable
      have text : token.text = n := congrArg Lexeme.text spelled
      rcases spells with ⟨keyword, -⟩ | ⟨-, same, isType⟩
      · simp only [List.map_cons, List.map_nil, List.all_cons, List.all_nil, Bool.and_true,
          List.contains_iff_mem, text] at keyword
        exact noKeyword keyword
      · have value : token.text = found.value := by simpa using same
        rw [← value, text, noType] at isType
        cases isType
    | cons next more =>
      obtain ⟨rfl, -⟩ := List.cons.inj after
      have isName := names closing (List.mem_cons_of_mem _ List.mem_cons_self)
      rw [closingPunct] at isName
      cases isName
  | @separated _ first next after punct opened =>
    obtain ⟨rfl, after⟩ := List.cons.inj whole
    cases front with
    | nil =>
      obtain ⟨rfl, -⟩ := List.cons.inj after
      exact opened (isPunct_iff.mp ends).2
    | cons other more =>
      obtain ⟨rfl, -⟩ := List.cons.inj after
      have isName := names next (List.mem_cons_of_mem _ List.mem_cons_self)
      rw [punct] at isName
      cases isName

theorem SpellsLiteral.literalOf (spells : SpellsLiteral reading token value) :
    token.kind ≠ .ident ∧ token.kind ≠ .punct ∧
      Expr.literalOf reading token.lexeme = .ok value := by
  cases spells with
  | integer number known =>
    simp [Expr.literalOf, Token.lexeme, number, Literal.isFloat_eq_false known, known]
  | character char known => simp [Expr.literalOf, Token.lexeme, char, known]

theorem operand_call_reads {n : String} {opening closing : Token} (spelled : token.lexeme = .word n)
    (opens : opening.isPunct "(" = true) (closes : closing.isPunct ")" = true) :
    Reads (operand reading (token :: opening :: closing :: rest)) (.call n) rest := by
  have isName : token.kind = .ident := congrArg Lexeme.kind spelled
  have text : token.text = n := congrArg Lexeme.text spelled
  have opens' : opening.opensParen = true := opens
  have closes' : closing.closesParen = true := closes
  have noOpen : closing.opensParen = false := by
    simp [Token.opensParen, Token.isPunct, (isPunct_iff.mp closes).2]
  have group : splitGroup? Token.opensParen Token.closesParen 0 (closing :: rest) =
      some ⟨[], closing, rest⟩ := by
    simp [splitGroup?, noOpen, closes']
  refine (operand_atom_reads (if_neg (by simp [isName]))
    (by simp [Token.opensParen, Token.isPunct, isName])).mpr ?_
  unfold atom
  simp only [isName, opens', if_true]
  split
  · next missing =>
    rw [group] at missing
    cases missing
  · next found same =>
    rw [group] at same
    cases same
    exact reads_ok.mpr ⟨by rw [text], rfl⟩

theorem prefixOp?_mark {text : String} (isMark : token.isPunct text = true) :
    prefixOp? token = UnaryOp.ofText? text := by
  obtain ⟨punct, rfl⟩ := isPunct_iff.mp isMark
  exact if_pos punct

namespace ReadBack

theorem literal (spells : SpellsLiteral reading token value) :
    ReadBack reading level (.literal value) [token] := by
  obtain ⟨noName, noPunct, known⟩ := spells.literalOf
  refine .of_operand fun rest _ => ?_
  exact (operand_atom_reads (if_neg noPunct)
    (by simp [Token.opensParen, Token.isPunct, noPunct])).mpr
      ((atom_literal_reads noName).mpr ⟨value, known, rfl, rfl⟩)

theorem name {n : String} (spelled : token.lexeme = .word n) :
    ReadBack reading level (.name n) [token] := by
  have isName : token.kind = .ident := congrArg Lexeme.kind spelled
  refine .of_operand fun rest noCall => ?_
  exact (operand_atom_reads (if_neg (by simp [isName]))
    (by simp [Token.opensParen, Token.isPunct, isName])).mpr
      ((atom_name_reads isName noCall).mpr ⟨congrArg (Expr.name ·.text) spelled, rfl⟩)

theorem unary {op : UnaryOp} (isOp : token.isPunct op.text = true)
    (inner : ReadBack reading 11 e tokens) :
    ReadBack reading level (.unary op e) (token :: tokens) := by
  have isPrefix : prefixOp? token = some op :=
    (prefixOp?_mark isOp).trans (UnaryOp.ofText?_text op)
  refine .of_operand fun rest noCall => ?_
  exact (operand_prefix_reads isPrefix).mpr
    ⟨e, inner.operand (Nat.le_refl _) rest noCall, rfl⟩

theorem cast {words : List Token} {opening closing : Token} (opens : opening.isPunct "(" = true)
    (filled : words ≠ [])
    (keywords : ∀ word ∈ words, word.kind = .ident ∧ word.text ∈ castKeywords)
    (closes : closing.isPunct ")" = true) (inner : ReadBack reading 11 e tokens) :
    ReadBack reading level (.cast (" ".intercalate (words.map Token.text)) e)
      (opening :: (words ++ closing :: tokens)) := by
  have noOp : prefixOp? opening = none := (prefixOp?_mark opens).trans (by decide)
  refine .of_operand fun rest noCall => ?_
  have reads := inner.operand (Nat.le_refl _) rest noCall
  have type : SpellsType reading (words.map Token.text)
      (" ".intercalate (words.map Token.text)) := by
    refine .inl ⟨?_, rfl⟩
    simp only [List.all_eq_true, List.mem_map, List.contains_iff_mem]
    rintro text ⟨word, member, rfl⟩
    exact (keywords word member).2
  have starts : startsOperand (tokens ++ rest) = true := by
    rw [← List.append_nil (tokens ++ rest)]
    exact startsOperand_of_reads reads
  obtain ⟨shorter, cast⟩ := cast?_of_spelled (fun word member => (keywords word member).1) filled
    closes starts type
  have same : opening :: (words ++ closing :: tokens) ++ rest =
      opening :: (words ++ closing :: (tokens ++ rest)) := by simp
  rw [same]
  exact (operand_cast_reads noOp opens cast).mpr ⟨e, reads, rfl⟩

theorem binary {own : Nat} {op : BinaryOp} {sign : Token} {left right : Expr}
    {first second : List Token} (binds : op ∈ BinaryOp.ofPrecedence own) (fits : level ≤ own)
    (isOp : sign.isPunct op.text = true) (lefts : ReadBack reading own left first)
    (rights : ReadBack reading (own + 1) right second) :
    ReadBack reading level (.binary op left right) (first ++ sign :: second) := by
  obtain ⟨same, small⟩ := BinaryOp.precedence_eq binds
  obtain ⟨punct, text⟩ := isPunct_iff.mp isOp
  refine ⟨fun operand => by omega, fun least rest e' r le stopped climbed => ?_⟩
  have joined : first ++ sign :: second ++ rest = first ++ sign :: (second ++ rest) := by simp
  rw [joined]
  have known : BinaryOp.ofText? sign.text = some op := text ▸ BinaryOp.ofText?_text op
  have readRight := rights.whole (stopped.mono (above_le fits))
  refine lefts.continued least _ e' r (le.trans fits) ?_ ?_
  · have positive : 0 < own := same ▸ by cases op <;> decide
    refine stopped_sign isOp ?_
    rw [same, above_of_pos positive]
    exact Nat.lt_succ_self own
  · have strong : least ≤ op.precedence := same ▸ le.trans fits
    exact (climb_binary_reads punct known strong).mpr ⟨right, rest, same ▸ readRight, climbed⟩

theorem conditional {question colon : Token} {condition chosen otherwise : Expr}
    {first second third : List Token} (asks : question.isPunct "?" = true)
    (separates : colon.isPunct ":" = true) (conditions : ReadBack reading 1 condition first)
    (choices : ReadBack reading 0 chosen second) (others : ReadBack reading 0 otherwise third) :
    ReadBack reading 0 (.conditional condition chosen otherwise)
      (first ++ question :: (second ++ colon :: third)) := by
  refine ⟨fun operand => by omega, fun least rest e' r le stopped climbed => ?_⟩
  obtain rfl := Nat.le_zero.mp le
  have same : first ++ question :: (second ++ colon :: third) ++ rest =
      first ++ question :: (second ++ colon :: (third ++ rest)) := by simp
  rw [same]
  obtain ⟨punct, text⟩ := isPunct_iff.mp asks
  have colonStops : Stopped 0 (colon :: (third ++ rest)) :=
    stopped_mark separates (by decide) (.inl (by decide)) (by decide)
  have readChosen := choices.whole colonStops
  have readOtherwise := others.whole stopped
  refine conditions.continued 0 _ e' r (Nat.zero_le _)
    (stopped_mark asks (by decide) (.inr (by decide)) (by decide)) ?_
  exact (climb_conditional_reads punct text).mpr
    ⟨chosen, colon, third ++ rest, readChosen, separates, otherwise, rest, readOtherwise, climbed⟩

theorem parentheses {opening closing : Token} (opens : opening.isPunct "(" = true)
    (closes : closing.isPunct ")" = true) (starts : Starts e tokens)
    (printable : e.Printable reading) (inner : ReadBack reading 0 e tokens) :
    ReadBack reading level e (opening :: (tokens ++ [closing])) := by
  have noOp : prefixOp? opening = none := (prefixOp?_mark opens).trans (by decide)
  refine .of_operand fun rest _ => ?_
  have same : opening :: (tokens ++ [closing]) ++ rest =
      opening :: (tokens ++ closing :: rest) := by
    simp
  rw [same]
  have closed : Stopped 0 (closing :: rest) :=
    stopped_mark closes (by decide) (.inl (by decide)) (by decide)
  exact (operand_group_reads noOp opens (starts.cast?_eq_none printable closes)).mpr
    ⟨closing, inner.whole closed, closes⟩

end ReadBack

theorem Writes.readBack (writes : Writes reading level e tokens) (printable : e.Printable reading) :
    ReadBack reading level e tokens := by
  induction writes with
  | literal spells => exact .literal spells
  | name spelled => exact .name spelled
  | call spelled opens closes =>
    exact .of_operand fun rest _ => operand_call_reads spelled opens closes
  | unary isOp inner ih => exact .unary isOp (ih printable)
  | cast opens filled keywords closes inner ih =>
    exact .cast opens filled keywords closes (ih printable.2)
  | binary binds fits isOp lefts rights ihLeft ihRight =>
    exact .binary binds fits isOp (ihLeft printable.1) (ihRight printable.2)
  | conditional asks separates conditions choices others ihCondition ihChosen ihOtherwise =>
    exact .conditional asks separates (ihCondition printable.1) (ihChosen printable.2.1)
      (ihOtherwise printable.2.2)
  | parentheses opens closes inner ih =>
    exact .parentheses opens closes inner.starts printable (ih printable)

/-- An expression can be written, and however it is written it is read back. -/
theorem parse_written (printable : e.Printable reading) :
    (∃ tokens, Writes reading 0 e tokens) ∧
      ∀ tokens, Writes reading 0 e tokens → parse tokens reading = .ok e := by
  refine ⟨exists_writes printable, fun tokens writes => parse_eq_ok_iff.mpr ?_⟩
  have back := (writes.readBack printable).whole Stopped.nil
  rwa [List.append_nil] at back

def shiftedChoice : Expr :=
  .conditional
    (.binary .shiftLeft (.unary .negate (.name "x"))
      (.binary .add (.literal ⟨2, .int, .decimal⟩) (.cast "unsigned char" (.call "f"))))
    (.name "a")
    (.conditional (.name "b") (.name "c") (.literal ⟨100, .int, .character⟩))

def shiftedChoiceTokens : List Token :=
  let mark (text : String) : Token := ⟨.punct, text, 1⟩
  let word (text : String) : Token := ⟨.ident, text, 1⟩
  [mark "-", word "x", mark "<<", mark "(", ⟨.number, "2", 1⟩, mark ")", mark "+", mark "(",
    word "unsigned", word "char", mark ")", word "f", mark "(", mark ")", mark "?", word "a",
    mark ":", word "b", mark "?", mark "(", word "c", mark ")", mark ":", ⟨.char, "'d'", 1⟩]

theorem parse_shiftedChoice :
    let reading : Reading := { isTypeName := (· = "size_t") }
    shiftedChoice.Printable reading ∧ Writes reading 0 shiftedChoice shiftedChoiceTokens ∧
      parse shiftedChoiceTokens reading = .ok shiftedChoice := by
  intro reading
  have two : SpellsLiteral reading ⟨.number, "2", 1⟩ ⟨2, .int, .decimal⟩ :=
    .integer rfl (by decide +kernel)
  have letter : SpellsLiteral reading ⟨.char, "'d'", 1⟩ ⟨100, .int, .character⟩ :=
    .character rfl (by decide +kernel)
  have named : ∀ n ∈ ["x", "a", "b", "c"], n ∉ castKeywords ∧ reading.isTypeName n = false := by
    decide
  have keywords : ∀ word ∈ ["unsigned", "char"], word ∈ castKeywords := by decide
  have printable : shiftedChoice.Printable reading :=
    ⟨⟨named "x" (by simp), ⟨_, two⟩, ⟨["unsigned", "char"], by simp, keywords, rfl⟩, trivial⟩,
      named "a" (by simp), named "b" (by simp), named "c" (by simp), _, letter⟩
  let mark (text : String) : Token := ⟨.punct, text, 1⟩
  let word (text : String) : Token := ⟨.ident, text, 1⟩
  have negated : Writes reading 8 (.unary .negate (.name "x")) [mark "-", word "x"] :=
    .unary rfl (.name rfl)
  have type : ∀ t ∈ [word "unsigned", word "char"], t.kind = .ident ∧ t.text ∈ castKeywords := by
    decide
  have converted : Writes reading 10 (.cast "unsigned char" (.call "f"))
      [mark "(", word "unsigned", word "char", mark ")", word "f", mark "(", mark ")"] :=
    .cast rfl (by simp) type rfl (.call rfl rfl rfl)
  have sum : Writes reading 9
      (.binary .add (.literal ⟨2, .int, .decimal⟩) (.cast "unsigned char" (.call "f")))
      [mark "(", ⟨.number, "2", 1⟩, mark ")", mark "+", mark "(", word "unsigned", word "char",
        mark ")", word "f", mark "(", mark ")"] :=
    .binary (BinaryOp.mem_ofPrecedence .add) (Nat.le_refl 9) rfl
      (.parentheses rfl rfl (.literal two)) converted
  have shifted : Writes reading 1 (.binary .shiftLeft (.unary .negate (.name "x"))
        (.binary .add (.literal ⟨2, .int, .decimal⟩) (.cast "unsigned char" (.call "f"))))
      [mark "-", word "x", mark "<<", mark "(", ⟨.number, "2", 1⟩, mark ")", mark "+", mark "(",
        word "unsigned", word "char", mark ")", word "f", mark "(", mark ")"] :=
    .binary (BinaryOp.mem_ofPrecedence .shiftLeft) (show 1 ≤ 8 by decide) rfl negated sum
  have grouped : Writes reading 0 (.name "c") [mark "(", word "c", mark ")"] :=
    .parentheses rfl rfl (.name rfl)
  have inner : Writes reading 0
      (.conditional (.name "b") (.name "c") (.literal ⟨100, .int, .character⟩))
      [word "b", mark "?", mark "(", word "c", mark ")", mark ":", ⟨.char, "'d'", 1⟩] :=
    .conditional rfl rfl (.name rfl) grouped (.literal letter)
  have writes : Writes reading 0 shiftedChoice shiftedChoiceTokens :=
    .conditional rfl rfl shifted (.name rfl) inner
  exact ⟨printable, writes, (parse_written printable).2 _ writes⟩

end Expr

end CBindings
