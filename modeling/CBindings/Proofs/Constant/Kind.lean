import CBindings.Proofs.Constant.Shape
import CBindings.Proofs.Decimal.Literal
import CBindings.Proofs.Declaration.Nesting
import Mathlib.Data.List.Forall2

/-! The kind of a constant is decided by its tokens: a string or a float where they are such literals
in any number of parentheses, else an integer where they are an expression with a value. -/

namespace CBindings

namespace Constant

variable {core tokens inside literals : List Token} {token opening closing : Token}
  {body : List Char} {text : String} {x : Double}

/-! ### Parentheses around the whole -/

inductive Enclosed (core : List Token) : List Token → Prop where
  | bare : Enclosed core core
  | group {opening closing : Token} {inside : List Token} (opens : opening.opensParen = true)
      (closes : closing.closesParen = true) (enclosed : Enclosed core inside) :
      Enclosed core (opening :: (inside ++ [closing]))

theorem enclosed_stripParens (tokens : List Token) : Enclosed (stripParens tokens) tokens := by
  fun_induction stripParens tokens with
  | case1 first second rest encloses ih =>
    simp only [Bool.and_eq_true, Option.any_eq_true] at encloses
    obtain ⟨⟨opens, last, final, closes⟩, -⟩ := encloses
    have whole : (second :: rest).dropLast ++ [last] = second :: rest :=
      List.dropLast_append_getLast? last final
    rw [← whole]
    simpa only [List.dropLast_concat] using Enclosed.group opens closes ih
  | case2 => exact .bare
  | case3 => exact .bare

theorem nested_of_plain (plain : ∀ token ∈ core, token.isBracket = false) : Nested core := by
  induction core with
  | nil => exact .nil
  | cons token rest ih =>
    rw [List.forall_mem_cons] at plain
    exact .plain plain.1 (ih plain.2)

theorem Enclosed.nested (plain : ∀ token ∈ core, token.isBracket = false)
    (enclosed : Enclosed core tokens) : Nested tokens := by
  induction enclosed with
  | bare => exact nested_of_plain plain
  | group opens closes enclosed ih => exact .group (.head _) opens closes ih .nil

theorem stripParens_group (opens : opening.opensParen = true) (closes : closing.closesParen = true)
    (nested : Nested inside) : stripParens (opening :: (inside ++ [closing])) = stripParens inside := by
  have matching : staysOpen (inside ++ [closing]) = true := by
    have spelled : Nested (inside.map id) := by simpa using nested
    have found : splitGroup? Token.opensParen Token.closesParen 0 (inside ++ [closing]) =
        some ⟨inside, closing, []⟩ := splitGroup?_closed (.head _) spelled closes []
    simp [staysOpen, found]
  have final : (inside ++ [closing]).getLast?.any Token.closesParen = true := by simp [closes]
  have shorter : (inside ++ [closing]).dropLast = inside := List.dropLast_concat
  cases behind : inside ++ [closing] with
  | nil => simp at behind
  | cons second rest =>
    rw [behind] at matching final shorter
    rw [stripParens, opens, matching, final, shorter]
    simp

theorem stripParens_eq_iff (plain : ∀ token ∈ core, token.isBracket = false) :
    stripParens tokens = core ↔ Enclosed core tokens := by
  constructor
  · rintro rfl
    exact enclosed_stripParens tokens
  · intro enclosed
    induction enclosed with
    | bare =>
      match core with
      | [] => simp [stripParens]
      | [token] => simp [stripParens]
      | first :: second :: rest =>
        have closed : first.opensParen = false :=
          (Token.isPunct_of_not_bracket (plain first List.mem_cons_self) (.head _)).1
        simp [stripParens, closed]
    | group opens closes enclosed ih =>
      rw [stripParens_group opens closes (enclosed.nested plain)]
      exact ih

/-- Of two ways to put parentheses around tokens without brackets what they enclose is the same. -/
theorem enclosed_unique {core other : List Token} (plain : ∀ token ∈ core, token.isBracket = false)
    (plainOther : ∀ token ∈ other, token.isBracket = false) (enclosed : Enclosed core tokens)
    (enclosedOther : Enclosed other tokens) : core = other :=
  ((stripParens_eq_iff plain).mpr enclosed).symm.trans
    ((stripParens_eq_iff plainOther).mpr enclosedOther)

/-! ### Strings -/

/-- The body of a string in which every escape means the same in Rust. A zero is an escape only
where no octal digit follows it, and a backslash before the end or a line feed is none. -/
inductive Portable : List Char → Prop where
  | nil : Portable []
  | plain {c : Char} {rest : List Char} (other : c ≠ '\\') (portable : Portable rest) :
      Portable (c :: rest)
  | letter {c : Char} {rest : List Char} (letter : c ∈ ['n', 'r', 't', '\\', '"', '\''])
      (portable : Portable rest) : Portable ('\\' :: c :: rest)
  | null {rest : List Char} (ends : ∀ c ∈ rest.head?, ¬ ('0' ≤ c ∧ c ≤ '7'))
      (portable : Portable rest) : Portable ('\\' :: '0' :: rest)
  | newline {rest : List Char} (portable : Portable rest) : Portable ('\\' :: '\n' :: rest)
  | last : Portable ['\\']

theorem portable_plain_iff {c : Char} {rest : List Char} (other : c ≠ '\\') :
    Portable (c :: rest) ↔ Portable rest := by
  constructor
  · intro portable
    cases portable with
    | plain _ portable => exact portable
    | letter | null | newline | last => exact absurd rfl other
  · exact .plain other

theorem portable_null_iff {rest : List Char} : Portable ('\\' :: '0' :: rest) ↔
    (∀ c ∈ rest.head?, ¬ ('0' ≤ c ∧ c ≤ '7')) ∧ Portable rest := by
  constructor
  · intro portable
    cases portable with
    | plain other => exact absurd rfl other
    | letter known => simp at known
    | null ends portable => exact ⟨ends, portable⟩
  · exact fun ⟨ends, portable⟩ => .null ends portable

theorem portable_letter_iff {c : Char} {rest : List Char} (notNull : c ≠ '0')
    (sameLine : c ≠ '\n') :
    Portable ('\\' :: c :: rest) ↔ c ∈ ['n', 'r', 't', '\\', '"', '\''] ∧ Portable rest := by
  constructor
  · intro portable
    cases portable with
    | plain other => exact absurd rfl other
    | letter known portable => exact ⟨known, portable⟩
    | null => exact absurd rfl notNull
    | newline => exact absurd rfl sameLine
  · exact fun ⟨known, portable⟩ => .letter known portable

theorem portable_newline_iff {rest : List Char} :
    Portable ('\\' :: '\n' :: rest) ↔ Portable rest := by
  constructor
  · intro portable
    cases portable with
    | plain other => exact absurd rfl other
    | letter known => simp at known
    | newline portable => exact portable
  · exact .newline

theorem portable_iff (body : List Char) :
    (escapesOf body).all portableEscapes.contains = true ↔ Portable body := by
  fun_induction escapesOf body with
  | case1 rest ih =>
    have octals : portableEscapes.contains
          ('0' :: rest.takeWhile fun c => '0' ≤ c && c ≤ '7') = true ↔
        ∀ c ∈ rest.head?, ¬ ('0' ≤ c ∧ c ≤ '7') := by
      cases rest with
      | nil => simp [portableEscapes]
      | cons c rest =>
        have outside : c < '0' ∨ '7' < c ↔ ('0' ≤ c → '7' < c) := by
          rw [Decidable.imp_iff_not_or, Char.not_le]
        simp [portableEscapes, outside]
    rw [List.all_cons, Bool.and_eq_true, octals, ih, portable_null_iff]
  | case2 rest notNull ih =>
    rw [ih, portable_newline_iff, portable_plain_iff (by decide)]
  | case3 c rest notNull sameLine ih =>
    have letters : portableEscapes.contains [c] = true ↔ c ∈ ['n', 'r', 't', '\\', '"', '\''] := by
      simp only [portableEscapes, List.contains_eq_mem, List.mem_cons, List.cons.injEq, and_true,
        List.not_mem_nil, or_false, decide_eq_true_eq, show c ≠ '0' from notNull, false_or]
    rw [List.all_cons, Bool.and_eq_true, letters, ih, portable_letter_iff notNull sameLine]
  | case4 c rest noNull noEscape ih =>
    by_cases escape : c = '\\'
    · have nothing : rest = [] := by
        cases rest with
        | nil => rfl
        | cons next rest => exact (noEscape next rest escape rfl).elim
      subst escape nothing
      simp [escapesOf, Portable.last]
    · rw [ih, portable_plain_iff escape]
  | case5 => simp [Portable.nil]

/-- A string literal without a prefix, whose escapes are all portable, and its body. -/
structure IsString (token : Token) (body : List Char) : Prop where
  kind : token.kind = .string
  written : ∃ rest, token.text.toList = '"' :: rest ∧ body = rest.dropLast
  portable : Portable body

theorem isString_iff : IsString token body ↔
    token.kind = .string ∧ stringBody? token = some body := by
  unfold stringBody?
  split
  · next rest text =>
    simp only [Option.ite_none_right_eq_some, portable_iff, Option.some_inj]
    constructor
    · rintro ⟨kind, ⟨rest', text', rfl⟩, portable⟩
      obtain rfl : rest = rest' := (List.cons.inj (text.symm.trans text')).2
      exact ⟨kind, portable, rfl⟩
    · rintro ⟨kind, portable, rfl⟩
      exact ⟨kind, ⟨rest, text, rfl⟩, portable⟩
  · next unquoted =>
    constructor
    · rintro ⟨-, ⟨rest, text, -⟩, -⟩
      exact (unquoted rest text).elim
    · rintro ⟨-, found⟩
      cases found

theorem mapM_eq_some_iff {α β : Type} {f : α → Option β} {as : List α} {bs : List β} :
    as.mapM f = some bs ↔ List.Forall₂ (fun a b => f a = some b) as bs := by
  induction as generalizing bs with
  | nil => simp [eq_comm]
  | cons a as ih =>
    simp only [List.mapM_cons, Option.bind_eq_bind, Option.bind_eq_some_iff, Option.pure_def,
      Option.some_inj, List.forall₂_cons_left_iff, ih]
    constructor
    · rintro ⟨b, first, others, rest, rfl⟩
      exact ⟨b, others, first, rest, rfl⟩
    · rintro ⟨b, others, first, rest, rfl⟩
      exact ⟨b, first, others, rest, rfl⟩

theorem strings_iff {bodies : List (List Char)} : List.Forall₂ IsString literals bodies ↔
    (∀ token ∈ literals, token.kind = .string) ∧ literals.mapM stringBody? = some bodies := by
  have same : IsString = fun token body => token.kind = .string ∧ stringBody? token = some body := by
    funext token body
    exact propext isString_iff
  rw [mapM_eq_some_iff, ← List.forall₂_and_left, same]

theorem not_bracket_of_string (kind : token.kind = .string) : token.isBracket = false := by
  simp [Token.isBracket, Token.isStructural, kind]

/-- Tokens are read as a string exactly if string literals stand in them, in any number of
parentheses. There may be none at all. -/
theorem string?_eq_some : string? tokens = some text ↔
    ∃ literals bodies, Enclosed literals tokens ∧ List.Forall₂ IsString literals bodies ∧
      text = String.ofList bodies.flatten := by
  simp only [string?, Option.ite_none_right_eq_some, Option.map_eq_some_iff, List.all_eq_true,
    decide_eq_true_eq, strings_iff]
  constructor
  · rintro ⟨kinds, bodies, read, rfl⟩
    exact ⟨_, bodies, enclosed_stripParens tokens, ⟨kinds, read⟩, rfl⟩
  · rintro ⟨literals, bodies, enclosed, ⟨kinds, read⟩, rfl⟩
    have stripped : stripParens tokens = literals :=
      (stripParens_eq_iff fun token member => not_bracket_of_string (kinds token member)).mpr enclosed
    rw [stripped]
    exact ⟨kinds, bodies, read, rfl⟩

/-! ### Floats -/

structure IsFloat (token : Token) (x : Double) : Prop where
  kind : token.kind = .number
  written : Literal.IsFloatText (Literal.dropFinalLineFeed token.text.toList)
  value : x = .ofDecimal (Decimal.ofText token.text.toList)

theorem isFloat_iff : IsFloat token x ↔ floatOf? token = some x := by
  simp only [floatOf?, Literal.isFloat_iff, Option.ite_none_right_eq_some, Option.some_inj]
  constructor
  · rintro ⟨kind, written, rfl⟩
    exact ⟨⟨kind, written⟩, rfl⟩
  · rintro ⟨⟨kind, written⟩, rfl⟩
    exact ⟨kind, written, rfl⟩

inductive IsSignedFloat : List Token → Double → Prop where
  | plain {token : Token} {x : Double} (float : IsFloat token x) : IsSignedFloat [token] x
  | negated {sign token : Token} {x : Double} (minus : sign.isPunct "-" = true)
      (float : IsFloat token x) : IsSignedFloat [sign, token] x.negate

theorem IsFloat.not_bracket (float : IsFloat token x) : token.isBracket = false := by
  have known : Literal.isFloat token.text = true := (Literal.isFloat_iff _).mpr float.written
  have brackets : ∀ text ∈ ["(", "[", "\x7b", ")", "]", "\x7d"], Literal.isFloat text = false := by
    decide
  have other : token.text ∉ ["(", "[", "\x7b", ")", "]", "\x7d"] := fun member =>
    Bool.false_ne_true ((brackets _ member).symm.trans known)
  simp only [List.mem_cons, List.not_mem_nil, or_false, not_or] at other
  simp [Token.isBracket, Token.opensBracket, Token.closesBracket, other]

theorem IsSignedFloat.not_bracket (float : IsSignedFloat tokens x) :
    ∀ token ∈ tokens, token.isBracket = false := by
  cases float with
  | plain float => simpa using float.not_bracket
  | @negated sign token x minus float =>
    obtain ⟨-, text⟩ := Token.kind_of_isPunct minus
    have plain : sign.isBracket = false := by
      simp [Token.isBracket, Token.opensBracket, Token.closesBracket, text]
    simpa using ⟨plain, float.not_bracket⟩

/-- Tokens are read as a float exactly if a float literal stands in them, with or without a minus
sign, in any number of parentheses. -/
theorem float?_eq_some : float? tokens = some x ↔
    ∃ core, Enclosed core tokens ∧ IsSignedFloat core x := by
  constructor
  · intro found
    refine ⟨_, enclosed_stripParens tokens, ?_⟩
    unfold float? at found
    split at found
    · next token stripped =>
      rw [stripped]
      exact .plain (isFloat_iff.mpr found)
    · next sign token stripped =>
      rw [stripped]
      obtain ⟨minus, value⟩ := Option.ite_none_right_eq_some.mp found
      obtain ⟨y, read, rfl⟩ := Option.map_eq_some_iff.mp value
      exact .negated minus (isFloat_iff.mpr read)
    · cases found
  · rintro ⟨core, enclosed, float⟩
    have stripped : stripParens tokens = core := (stripParens_eq_iff float.not_bracket).mpr enclosed
    cases float with
    | plain float => simp [float?, stripped, isFloat_iff.mp float]
    | negated minus float => simp [float?, stripped, minus, isFloat_iff.mp float]

theorem string?_of_float (found : float? tokens = some x) : string? tokens = none := by
  obtain ⟨core, enclosed, signed⟩ := float?_eq_some.mp found
  have stripped : stripParens tokens = core := (stripParens_eq_iff signed.not_bracket).mpr enclosed
  cases signed with
  | plain float => simp [string?, stripped, float.kind]
  | negated minus float => simp [string?, stripped, float.kind]

theorem Enclosed.eq_nil (enclosed : Enclosed core []) : core = [] := by
  generalize same : ([] : List Token) = tokens at enclosed
  cases enclosed with
  | bare => rfl
  | group => cases same

end Constant

namespace ConstantScope

open Constant

variable {scope : ConstantScope} {memo : ConstantMemo} {tokens : List Token} {v : IntValue}
  {text : String} {x : Double}

def SpellsText (tokens : List Token) (text : String) : Prop :=
  ∃ literals bodies, literals ≠ [] ∧ Enclosed literals tokens ∧
    List.Forall₂ IsString literals bodies ∧ text = String.ofList bodies.flatten

def SpellsFloat (tokens : List Token) (x : Double) : Prop :=
  ∃ core, Enclosed core tokens ∧ IsSignedFloat core x

/-- Parentheses with nothing in them. -/
def Hollow (tokens : List Token) : Prop := tokens ≠ [] ∧ Enclosed [] tokens

def SpellsInteger (scope : ConstantScope) (memo : ConstantMemo) (tokens : List Token)
    (v : IntValue) : Prop :=
  ∃ expr, Expr.parse tokens scope.reading = .ok expr ∧
    ((expr.evaluateIn (scope.resolve [])
      (fun typeName => integer.liftExcept (scope.castType typeName)) false).run memo).1 = .ok v

/-! ### Literals -/

theorem literal?_eq_text : literal? tokens = some (some (.text text)) ↔
    SpellsText tokens text ∨ Hollow tokens ∧ text = "" := by
  have read : literal? tokens = some (some (.text text)) ↔
      tokens ≠ [] ∧ string? tokens = some text := by
    unfold literal?
    by_cases nonempty : tokens = []
    · simp [nonempty]
    · cases string? tokens <;> simp [nonempty]
  rw [read, string?_eq_some]
  constructor
  · rintro ⟨nonempty, literals, bodies, enclosed, strings, rfl⟩
    cases strings with
    | nil => exact .inr ⟨⟨nonempty, enclosed⟩, rfl⟩
    | cons first others =>
      exact .inl ⟨_, _, List.cons_ne_nil _ _, enclosed, .cons first others, rfl⟩
  · rintro (⟨literals, bodies, filled, enclosed, strings, rfl⟩ | ⟨⟨nonempty, enclosed⟩, rfl⟩)
    · refine ⟨?_, literals, bodies, enclosed, strings, rfl⟩
      rintro rfl
      exact filled enclosed.eq_nil
    · exact ⟨nonempty, [], [], enclosed, .nil, rfl⟩

theorem literal?_eq_float : literal? tokens = some (some (.float x)) ↔ SpellsFloat tokens x := by
  rw [SpellsFloat, ← float?_eq_some]
  by_cases empty : tokens = []
  · simp [empty, literal?, float?, stripParens]
  · cases string : string? tokens with
    | none => simp [literal?, empty, string]
    | some text =>
      have other : float? tokens ≠ some x := fun found => by
        cases string.symm.trans (string?_of_float found)
      simp [literal?, empty, string, other]

theorem literal?_eq_nothing : literal? tokens = some none ↔ tokens = [] := by
  unfold literal?
  by_cases empty : tokens = []
  · simp [empty]
  · cases string? tokens <;> simp [empty]

/-! ### Expressions -/

theorem spellsInteger_iff : scope.SpellsInteger memo tokens v ↔
    ((scope.integer (scope.resolve []) tokens).run memo).1 = .ok v := by
  rw [integer_eq]
  cases parsed : Expr.parse tokens scope.reading with
  | error error =>
    constructor
    · rintro ⟨expr, read, -⟩
      cases parsed.symm.trans read
    · intro value
      cases value
  | ok expr =>
    constructor
    · rintro ⟨expr', read, value⟩
      cases parsed.symm.trans read
      exact value
    · intro value
      exact ⟨expr, parsed, value⟩

theorem not_spellsInteger_nil : ¬ scope.SpellsInteger memo [] v := by
  rintro ⟨expr, read, -⟩
  cases read

/-- Whether tokens are a literal that is no integer, or the hollow parentheses that pass for one. -/
theorem literal_iff : ((∃ text, SpellsText tokens text) ∨ (∃ x, SpellsFloat tokens x) ∨ Hollow tokens) ↔
    ∃ value, literal? tokens = some (some value) := by
  constructor
  · rintro (⟨text, spells⟩ | ⟨x, spells⟩ | hollow)
    · exact ⟨_, literal?_eq_text.mpr (.inl spells)⟩
    · exact ⟨_, literal?_eq_float.mpr spells⟩
    · exact ⟨_, literal?_eq_text.mpr (.inr ⟨hollow, rfl⟩)⟩
  · rintro ⟨value, literal⟩
    cases value with
    | text text => exact (literal?_eq_text.mp literal).imp (⟨text, ·⟩) (.inr ·.1)
    | float x => exact .inr (.inl ⟨x, literal?_eq_float.mp literal⟩)
    | integer v => exact absurd literal literal?_ne_integer

theorem evaluate_eq (scope : ConstantScope) (memo : ConstantMemo) (tokens : List Token) :
    (scope.evaluate tokens memo).1 =
      match literal? tokens with
      | some result => result
      | none => ((scope.integer (scope.resolve []) tokens).run memo).1.toOption.map .integer := by
  unfold evaluate
  cases literal : literal? tokens with
  | some result =>
    rw [value_literal literal]
    rfl
  | none =>
    rw [value_expression literal]
    rfl

/-- The kind of a constant is decided by its tokens, whatever the table holds and whatever was
evaluated before. It is a string where they are string literals with portable escapes, a float where
they are one float literal, each in any number of parentheses; else it is an integer where they are an
expression that has a value, and nothing where they are not. Parentheses without anything in them pass
for a string without text. -/
theorem evaluate_kind (scope : ConstantScope) (memo : ConstantMemo) (tokens : List Token) :
    let answer := (scope.evaluate tokens memo).1
    let literal := (∃ text, SpellsText tokens text) ∨ (∃ x, SpellsFloat tokens x) ∨ Hollow tokens
    (∀ text, answer = some (.text text) ↔
      SpellsText tokens text ∨ Hollow tokens ∧ text = "") ∧
    (∀ x, answer = some (.float x) ↔ SpellsFloat tokens x) ∧
    (∀ v, answer = some (.integer v) ↔ ¬ literal ∧ scope.SpellsInteger memo tokens v) ∧
    (answer = none ↔ ¬ literal ∧ ∀ v, ¬ scope.SpellsInteger memo tokens v) := by
  intro answer literal
  have isLiteral : literal ↔ ∃ value, literal? tokens = some (some value) := literal_iff
  have evaluated : answer = _ := evaluate_eq scope memo tokens
  simp only [← literal?_eq_text, ← literal?_eq_float, isLiteral, evaluated]
  cases found : literal? tokens with
  | some result =>
    cases result with
    | none =>
      obtain rfl := literal?_eq_nothing.mp found
      simp [not_spellsInteger_nil]
    | some value =>
      have notInteger : ∀ v, value ≠ .integer v := fun v same =>
        literal?_ne_integer (same ▸ found)
      simp [notInteger]
  | none =>
    simp only [spellsInteger_iff]
    cases ((scope.integer (scope.resolve []) tokens).run memo).1 with
    | error error => simp [Except.toOption]
    | ok value => simp [Except.toOption]

theorem not_spellsText_of_hollow (hollow : Hollow tokens) : ¬ SpellsText tokens text := by
  rintro ⟨literals, bodies, filled, enclosed, strings, -⟩
  have plain : ∀ token ∈ literals, token.isBracket = false := fun token member =>
    not_bracket_of_string ((strings_iff.mp strings).1 token member)
  exact filled (enclosed_unique plain (by simp) enclosed hollow.2)

def emptyGroup : List Token := [⟨.punct, "(", 1⟩, ⟨.punct, ")", 1⟩]

/-- A group without any literal is evaluated to a string. -/
theorem emptyGroup_is_string :
    let target : Target := { name := "x86", pointerWidth := 32, longWidth := 32, predefined := ∅ }
    ((⟨{}, target⟩ : ConstantScope).evaluate emptyGroup {}).1 = some (.text "") ∧
      (∀ token ∈ emptyGroup, token.kind = .punct) ∧
      ¬ (∃ text, SpellsText emptyGroup text) := by
  intro target
  have hollow : Hollow emptyGroup :=
    ⟨List.cons_ne_nil _ _, .group (by decide) (by decide) .bare⟩
  have passes : literal? emptyGroup = some (some (.text "")) :=
    literal?_eq_text.mpr (.inr ⟨hollow, rfl⟩)
  refine ⟨?_, by decide, fun ⟨text, spells⟩ => not_spellsText_of_hollow hollow spells⟩
  rw [evaluate_eq, passes]

end ConstantScope

end CBindings
