import CBindings.Proofs.Integer.Decimal
import CBindings.Proofs.Integer.Literal
import CBindings.Proofs.Text.Span
import Mathlib.Data.List.Forall2

/-! Integer literals as they are written: the mark of a base, the digits, and the letters that ask
for a type. Whichever letters are capital, the number is read again with its type and its base. -/

namespace CBindings

namespace Text

/-- The same text but for letters that are capital where the second text has small ones. -/
def Capitalizes : List Char → List Char → Prop :=
  List.Forall₂ fun c small => c = small ∨ c = small.toUpper

instance (text small : List Char) : Decidable (Capitalizes text small) :=
  inferInstanceAs (Decidable (List.Forall₂ _ text small))

variable {base n : Nat} {text small digits front back : List Char}

theorem Capitalizes.exists_append (capitalizes : Capitalizes text (front ++ back)) :
    ∃ first rest, text = first ++ rest ∧ Capitalizes first front ∧ Capitalizes rest back :=
  ⟨_, _, (List.take_append_drop front.length text).symm,
    List.forall₂_take_append text front back capitalizes,
    List.forall₂_drop_append text front back capitalizes⟩

theorem Capitalizes.forall_mem {p : Char → Prop} (capitalizes : Capitalizes text small)
    (each : ∀ d ∈ small, p d ∧ p d.toUpper) : ∀ c ∈ text, p c := by
  induction capitalizes with
  | nil => exact List.forall_mem_nil _
  | @cons c d text small form _ ih =>
    obtain ⟨first, rest⟩ := List.forall_mem_cons.mp each
    refine List.forall_mem_cons.mpr ⟨?_, ih rest⟩
    rcases form with same | capital
    · exact same ▸ first.1
    · exact capital ▸ first.2

/-- A function that sees no difference between the forms of a letter sees none in the text. -/
theorem Capitalizes.map_eq {α : Type} {f : Char → α} (capitalizes : Capitalizes text small)
    (each : ∀ d ∈ small, f d.toUpper = f d) : text.map f = small.map f := by
  induction capitalizes with
  | nil => rfl
  | @cons c d text small form _ ih =>
    obtain ⟨first, rest⟩ := List.forall_mem_cons.mp each
    have same : f c = f d := by
      rcases form with same | capital
      · rw [same]
      · rw [capital, first]
    rw [List.map_cons, List.map_cons, same, ih rest]

theorem Capitalizes.eq (capitalizes : Capitalizes text small)
    (one : ∀ d ∈ small, d.toUpper = d) : text = small := by
  simpa using capitalizes.map_eq (f := id) one

/-- What both forms of every digit of a base satisfy holds for all digits of a number. -/
theorem Capitalizes.forall_digits {p : Char → Prop} (several : 1 < base)
    (capitalizes : Capitalizes digits (Nat.toDigits base n))
    (each : ∀ d < base, p (Nat.digitChar d) ∧ p (Nat.digitChar d).toUpper) : ∀ c ∈ digits, p c := by
  refine capitalizes.forall_mem fun c member => ?_
  obtain ⟨d, less, rfl⟩ := exists_digitChar several member
  exact each d less

theorem Capitalizes.digits_ne_nil (capitalizes : Capitalizes digits (Nat.toDigits base n)) :
    digits ≠ [] := by
  intro empty
  rw [empty] at capitalizes
  exact Nat.toDigits_ne_nil (List.forall₂_nil_left_iff.mp capitalizes)

theorem Capitalizes.eq_toDigits (several : 1 < base) (few : base ≤ 10)
    (capitalizes : Capitalizes digits (Nat.toDigits base n)) : digits = Nat.toDigits base n := by
  apply capitalizes.eq
  intro c member
  have each : ∀ d < 10, (Nat.digitChar d).toUpper = Nat.digitChar d := by decide
  obtain ⟨d, less, rfl⟩ := exists_digitChar several member
  exact each d (by omega)

theorem ofDigits_of_capitalizes (several : 1 < base) (few : base ≤ 16)
    (capitalizes : Capitalizes digits (Nat.toDigits base n)) :
    ofDigits base (digits.filterMap (digitIn? base)) = n := by
  have each : ∀ b ≤ 16, ∀ d < b,
      digitIn? b (Nat.digitChar d).toUpper = digitIn? b (Nat.digitChar d) := by decide
  have same : digits.map (digitIn? base) = (Nat.toDigits base n).map (digitIn? base) := by
    apply capitalizes.map_eq
    intro c member
    obtain ⟨d, less, rfl⟩ := exists_digitChar several member
    exact each base few d less
  have read (text : List Char) :
      text.filterMap (digitIn? base) = (text.map (digitIn? base)).filterMap id := by
    rw [List.filterMap_map, Function.id_comp]
  rw [read, same, ← read, ofDigits_toDigits_base several few]

end Text

namespace Literal

open Text

/-! ### The written form -/

def baseMark : NumberStyle → List Char
  | .hex => ['0', 'x']
  | .octal => ['0']
  | .binary => ['0', 'b']
  | .decimal | .character => []

def typeLetters (t : IntType) : List Char :=
  (if t.signed then [] else ['u']) ++ if t.bits = 64 then ['l', 'l'] else []

def writtenTypes : List IntType := [.int, .uint, .longLong, .ulongLong]

/-- A number in some base with the letters of its type, all letters small. -/
def written (style : NumberStyle) (t : IntType) (value : Nat) : List Char :=
  baseMark style ++ Nat.toDigits (base style) value ++ typeLetters t

variable {style : NumberStyle} {t : IntType} {value : Nat} {text digits rest : List Char}

theorem base_bounds (style : NumberStyle) : 1 < base style ∧ base style ≤ 16 := by
  cases style <;> decide

/-! ### Letters -/

theorem mem_typeLetters {c : Char} (member : c ∈ typeLetters t) : c = 'u' ∨ c = 'l' := by
  unfold typeLetters at member
  rcases List.mem_append.mp member with first | second
  · split at first
    · cases first
    · exact .inl (List.mem_singleton.mp first)
  · split at second
    · right
      simpa using second
    · cases second

theorem suffix?_of_capitalizes {small : List Char} (capitalizes : Capitalizes rest small)
    (letters : ∀ d ∈ small, d = 'u' ∨ d = 'l') : suffix? rest = suffix? small := by
  let isU (c : Char) : Bool := c == 'u' || c == 'U'
  let isL (c : Char) : Bool := c == 'l' || c == 'L'
  have forms : ∀ d ∈ small, isU d.toUpper = isU d ∧ isL d.toUpper = isL d := by
    intro d member
    rcases letters d member with rfl | rfl <;> decide
  have plain (text : List Char) (known : ∀ c ∈ text, (isU c || isL c) = true) :
      suffix? text = some (.plain ((text.map isU).any id) ((text.map isL).countP id)) := by
    have all : text.all (fun c => c == 'u' || c == 'U' || c == 'l' || c == 'L') = true := by
      refine List.all_eq_true.mpr fun c member => ?_
      rw [Bool.or_assoc]
      exact known c member
    unfold suffix?
    rw [if_pos all, List.any_map, List.countP_map]
    rfl
  have known : ∀ c ∈ rest, (isU c || isL c) = true := by
    refine capitalizes.forall_mem fun d member => ?_
    rcases letters d member with rfl | rfl <;> decide
  have knownSmall : ∀ c ∈ small, (isU c || isL c) = true := by
    intro d member
    rcases letters d member with rfl | rfl <;> decide
  rw [plain rest known, plain small knownSmall,
    capitalizes.map_eq fun d member => (forms d member).1,
    capitalizes.map_eq fun d member => (forms d member).2]

theorem suffix?_typeLetters (selected : t ∈ writtenTypes)
    (letters : Capitalizes rest (typeLetters t)) :
    suffix? rest = some (.plain (!t.signed) (if t.bits = 64 then 2 else 0)) := by
  have each : ∀ t ∈ writtenTypes,
      suffix? (typeLetters t) = some (.plain (!t.signed) (if t.bits = 64 then 2 else 0)) := by
    decide
  rw [suffix?_of_capitalizes letters fun d => mem_typeLetters, each t selected]

theorem head_typeLetters (letters : Capitalizes rest (typeLetters t)) :
    ∀ c ∈ rest.head?, isHexDigit c = false ∧ c ≠ 'x' ∧ c ≠ 'X' ∧ c ≠ 'b' ∧ c ≠ 'B' := by
  have every : ∀ c ∈ rest, isHexDigit c = false ∧ c ≠ 'x' ∧ c ≠ 'X' ∧ c ≠ 'b' ∧ c ≠ 'B' := by
    refine letters.forall_mem fun d member => ?_
    rcases mem_typeLetters member with rfl | rfl <;> decide
  exact fun c first => every c (List.mem_of_mem_head? first)

/-! ### Types -/

theorem typed_candidates (selected : t ∈ writtenTypes) (number : style ≠ .character)
    (longWidth : Nat) (fits : (value : Int) ≤ t.max) :
    typed (candidates longWidth style (.plain (!t.signed) (if t.bits = 64 then 2 else 0))) style
      value = ⟨value, t, style⟩ := by
  have first : ∃ others, candidates longWidth style
      (.plain (!t.signed) (if t.bits = 64 then 2 else 0)) = t :: others := by
    simp only [writtenTypes, List.mem_cons, List.not_mem_nil, or_false] at selected
    rcases selected with rfl | rfl | rfl | rfl <;> cases style <;>
      first | exact absurd rfl number | exact ⟨_, rfl⟩
  obtain ⟨others, first⟩ := first
  have least : t.min ≤ value := by
    unfold IntType.min
    split <;> omega
  have holds : t.fits value = true := by
    rw [IntType.fits, decide_eq_true least, decide_eq_true fits]
    rfl
  rw [first]
  simp only [typed, List.find?_cons, holds]

/-! ### Digits -/

/-- Without the letter of a base after its first character a text has plain digits. -/
theorem digits?_unmarked (other : ∀ c ∈ text.tail.head?, c ∉ ['x', 'X', 'b', 'B']) :
    digits? text = plainDigits? text := by
  by_cases zero : ∃ mark more, text = '0' :: mark :: more
  · obtain ⟨mark, more, rfl⟩ := zero
    have different := other mark rfl
    simp only [List.mem_cons, List.not_mem_nil, or_false, not_or] at different
    rw [digits?_marked, if_neg (not_or.mpr ⟨different.1, different.2.1⟩),
      if_neg (not_or.mpr different.2.2)]
  · apply digits?_plain
    intro mark more whole
    exact zero ⟨mark, more, whole⟩

theorem plainDigits?_octal (some_digit : digits ≠ []) (all : ∀ c ∈ digits, isAsciiDigit c = true)
    (stops : ∀ c ∈ rest.head?, isAsciiDigit c = false) :
    plainDigits? ('0' :: digits ++ rest) = some ⟨.octal, '0' :: digits, rest⟩ := by
  have zero : isAsciiDigit '0' = true := by decide
  have span := span_append (List.forall_mem_cons.mpr ⟨zero, all⟩) stops
  unfold plainDigits?
  rw [span.1, span.2]
  cases digits with
  | nil => exact absurd rfl some_digit
  | cons => rfl

theorem plainDigits?_decimal (some_digit : digits ≠ [])
    (all : ∀ c ∈ digits, isAsciiDigit c = true)
    (front : digits = ['0'] ∨ digits.head? ≠ some '0')
    (stops : ∀ c ∈ rest.head?, isAsciiDigit c = false) :
    plainDigits? (digits ++ rest) = some ⟨.decimal, digits, rest⟩ := by
  have span := span_append all stops
  unfold plainDigits?
  rw [span.1, span.2]
  rcases front with rfl | front
  · rfl
  · split
    · exact absurd rfl some_digit
    · exact absurd rfl front
    · exact absurd rfl front
    · rfl

theorem markedDigits?_append {isDigit : Char → Bool} {plain : Option Digits}
    (some_digit : digits ≠ []) (all : ∀ c ∈ digits, isDigit c = true)
    (stops : ∀ c ∈ rest.head?, isDigit c = false) :
    markedDigits? style isDigit (digits ++ rest) plain = some ⟨style, digits, rest⟩ := by
  have span := span_append all stops
  unfold markedDigits?
  rw [span.1, span.2]
  cases digits with
  | nil => exact absurd rfl some_digit
  | cons => rfl

section

variable {mark : List Char} (letters : Capitalizes rest (typeLetters t))
include letters

theorem digits?_hex (marked : Capitalizes mark (baseMark .hex))
    (numeral : Capitalizes digits (Nat.toDigits 16 value)) :
    digits? (mark ++ digits ++ rest) = some ⟨.hex, digits, rest⟩ := by
  have forms : ['0', 'x'].map Char.toUpper = ['0', 'X'] := by decide
  have known : mark = ['0', 'x'] ∨ mark = ['0', 'X'] := by
    simp_all [baseMark, Capitalizes, List.forall₂_cons_right_iff]
  have each : ∀ d < 16, isHexDigit (Nat.digitChar d) = true ∧
      isHexDigit (Nat.digitChar d).toUpper = true := by decide
  have stops : ∀ c ∈ rest.head?, isHexDigit c = false :=
    fun c first => (head_typeLetters letters c first).1
  have read (x : Char) (mark : x = 'x' ∨ x = 'X') :
      digits? ('0' :: x :: (digits ++ rest)) = some ⟨.hex, digits, rest⟩ := by
    rw [digits?_marked, if_pos mark]
    exact markedDigits?_append numeral.digits_ne_nil
      (numeral.forall_digits (by decide) each) stops
  rcases known with rfl | rfl
  · exact read 'x' (.inl rfl)
  · exact read 'X' (.inr rfl)

theorem digits?_binary (marked : Capitalizes mark (baseMark .binary))
    (numeral : Capitalizes digits (Nat.toDigits 2 value)) :
    digits? (mark ++ digits ++ rest) = some ⟨.binary, digits, rest⟩ := by
  have forms : ['0', 'b'].map Char.toUpper = ['0', 'B'] := by decide
  have known : mark = ['0', 'b'] ∨ mark = ['0', 'B'] := by
    simp_all [baseMark, Capitalizes, List.forall₂_cons_right_iff]
  let isDigit (c : Char) : Bool := c == '0' || c == '1'
  have each : ∀ d < 2, isDigit (Nat.digitChar d) = true ∧
      isDigit (Nat.digitChar d).toUpper = true := by decide
  have stops : ∀ c ∈ rest.head?, isDigit c = false := by
    intro c first
    have other := (head_typeLetters letters c first).1
    cases digit : isDigit c with
    | false => rfl
    | true =>
      have two : c = '0' ∨ c = '1' := by simpa [isDigit] using digit
      rcases two with rfl | rfl
      · exact absurd other (by decide)
      · exact absurd other (by decide)
  have read (b : Char) (mark : b = 'b' ∨ b = 'B') :
      digits? ('0' :: b :: (digits ++ rest)) = some ⟨.binary, digits, rest⟩ := by
    have other : ¬(b = 'x' ∨ b = 'X') := by
      rcases mark with rfl | rfl <;> decide
    rw [digits?_marked, if_neg other, if_pos mark]
    exact markedDigits?_append numeral.digits_ne_nil
      (numeral.forall_digits (by decide) each) stops
  rcases known with rfl | rfl
  · exact read 'b' (.inl rfl)
  · exact read 'B' (.inr rfl)

theorem unmarked (all : ∀ c ∈ digits, isAsciiDigit c = true) :
    ∀ c ∈ (digits ++ rest).head?, c ∉ ['x', 'X', 'b', 'B'] := by
  intro c first
  cases digits with
  | nil =>
    have other := head_typeLetters letters c first
    simp [other]
  | cons d more =>
    obtain rfl : d = c := Option.some.inj first
    have digit := all d List.mem_cons_self
    intro member
    have none : ∀ c ∈ ['x', 'X', 'b', 'B'], isAsciiDigit c = false := by simp [isAsciiDigit]
    rw [none d member] at digit
    cases digit

theorem digits_stop : ∀ c ∈ rest.head?, isAsciiDigit c = false := by
  intro c first
  have other := (head_typeLetters letters c first).1
  simp only [isHexDigit, Bool.or_eq_false_iff] at other
  exact other.1.1

theorem digits?_octal :
    digits? ('0' :: Nat.toDigits 8 value ++ rest) =
      some ⟨.octal, '0' :: Nat.toDigits 8 value, rest⟩ := by
  have all : ∀ c ∈ Nat.toDigits 8 value, isAsciiDigit c = true :=
    fun c => isAsciiDigit_of_mem_toDigits (by decide) (by decide)
  have other : ∀ c ∈ ('0' :: Nat.toDigits 8 value ++ rest).tail.head?, c ∉ ['x', 'X', 'b', 'B'] :=
    unmarked letters all
  rw [digits?_unmarked other]
  exact plainDigits?_octal Nat.toDigits_ne_nil all (digits_stop letters)

theorem digits?_decimal :
    digits? (Nat.toDigits 10 value ++ rest) = some ⟨.decimal, Nat.toDigits 10 value, rest⟩ := by
  have all : ∀ c ∈ Nat.toDigits 10 value, isAsciiDigit c = true := fun c => mem_toDigits
  have front : Nat.toDigits 10 value = ['0'] ∨ (Nat.toDigits 10 value).head? ≠ some '0' := by
    rcases Nat.eq_zero_or_pos value with rfl | positive
    · exact .inl rfl
    · exact .inr (head_toDigits positive)
  have other : ∀ c ∈ (Nat.toDigits 10 value ++ rest).tail.head?, c ∉ ['x', 'X', 'b', 'B'] := by
    rw [List.tail_append_of_ne_nil Nat.toDigits_ne_nil]
    exact unmarked letters fun c member => all c (List.mem_of_mem_tail member)
  rw [digits?_unmarked other]
  exact plainDigits?_decimal Nat.toDigits_ne_nil all front (digits_stop letters)

end

theorem valueOf_octal (digits : List Char) :
    valueOf .octal ('0' :: digits) = valueOf .octal digits := by
  have zero : digitIn? 8 '0' = some 0 := by decide
  simp [valueOf, base, zero, ofDigits]

theorem no_octal_error :
    ('0' :: Nat.toDigits 8 value).any (fun c => c == '8' || c == '9') = false := by
  have each : ∀ d < 8, (Nat.digitChar d == '8' || Nat.digitChar d == '9') = false := by decide
  rw [List.any_eq_false]
  intro c member
  rcases List.mem_cons.mp member with rfl | member
  · decide
  · obtain ⟨d, small, rfl⟩ := exists_digitChar (by decide) member
    rw [each d small]
    decide

theorem digits?_written (number : style ≠ .character)
    (spelled : Capitalizes text (written style t value)) :
    ∃ digits rest, digits? text = some ⟨style, digits, rest⟩ ∧
      Capitalizes rest (typeLetters t) ∧ valueOf style digits = value ∧
      (style = .octal → digits.any (fun c => c == '8' || c == '9') = false) := by
  obtain ⟨front, rest, rfl, front_spelled, letters⟩ := spelled.exists_append
  obtain ⟨mark, digits, rfl, marked, numeral⟩ := front_spelled.exists_append
  have value_eq : valueOf style digits = value :=
    ofDigits_of_capitalizes (base_bounds style).1 (base_bounds style).2 numeral
  cases style with
  | decimal =>
    obtain rfl := numeral.eq_toDigits (by decide) (by decide)
    obtain rfl := List.forall₂_nil_right_iff.mp marked
    exact ⟨_, rest, digits?_decimal letters, letters, value_eq, fun octal => nomatch octal⟩
  | octal =>
    obtain rfl := numeral.eq_toDigits (by decide) (by decide)
    obtain rfl := marked.eq (List.forall_mem_singleton.mpr rfl)
    exact ⟨_, rest, digits?_octal letters, letters, (valueOf_octal _).trans value_eq,
      fun _ => no_octal_error⟩
  | hex =>
    exact ⟨digits, rest, digits?_hex letters marked numeral, letters, value_eq,
      fun octal => nomatch octal⟩
  | binary =>
    exact ⟨digits, rest, digits?_binary letters marked numeral, letters, value_eq,
      fun octal => nomatch octal⟩
  | character => exact absurd rfl number

theorem dropFinalLineFeed_written (spelled : Capitalizes text (written style t value)) :
    dropFinalLineFeed text = text := by
  have each : ∀ d < 16, Nat.digitChar d ≠ '\n' ∧ (Nat.digitChar d).toUpper ≠ '\n' := by decide
  have marks : ∀ c ∈ baseMark style, c ≠ '\n' ∧ c.toUpper ≠ '\n' := by
    have all : (baseMark style).all (fun c => c != '\n' && c.toUpper != '\n') = true := by
      cases style <;> decide
    exact fun c member => by simpa using List.all_eq_true.mp all c member
  have none : ∀ c ∈ text, c ≠ '\n' := by
    refine spelled.forall_mem (p := fun c => c ≠ '\n') fun c member => ?_
    rcases List.mem_append.mp member with front | letter
    · rcases List.mem_append.mp front with mark | digit
      · exact marks c mark
      · obtain ⟨d, less, rfl⟩ := exists_digitChar (base_bounds style).1 digit
        exact each d (Nat.lt_of_lt_of_le less (base_bounds style).2)
    · rcases mem_typeLetters letter with rfl | rfl <;> decide
  unfold dropFinalLineFeed
  split
  · next feed => exact absurd rfl (none _ (List.mem_of_getLast? feed))
  · rfl

/-- A number that is written in some base, with the letters of a type that holds it and with any of
its letters capital, is read as this number of this type and in this base. -/
theorem integer_written (number : style ≠ .character) (selected : t ∈ writtenTypes)
    (fits : (value : Int) ≤ t.max) (longWidth : Nat) {text : String}
    (spelled : Capitalizes text.toList (written style t value)) :
    integer text longWidth = .ok ⟨value, t, style⟩ := by
  obtain ⟨digits, rest, read, letters, value_eq, octal⟩ := digits?_written number spelled
  have noError : ¬(style = .octal ∧ digits.any (fun c => c == '8' || c == '9') = true) := by
    intro bad
    rw [octal bad.1] at bad
    exact Bool.false_ne_true bad.2
  unfold integer
  rw [dropFinalLineFeed_written spelled, read]
  simp only
  rw [suffix?_typeLetters selected letters]
  simp only
  rw [if_neg noError, value_eq, typed_candidates selected number longWidth fits]

theorem integer_written_largest :
    NumberStyle.hex ≠ .character ∧ IntType.ulongLong ∈ writtenTypes ∧
      ((2 ^ 64 - 1 : Nat) : Int) ≤ IntType.ulongLong.max ∧
      Capitalizes "0XfFFFFFFFFFFFFFFFuLl".toList (written .hex .ulongLong (2 ^ 64 - 1)) ∧
      integer "0XfFFFFFFFFFFFFFFFuLl" 32 = .ok ⟨(2 ^ 64 - 1 : Nat), .ulongLong, .hex⟩ := by
  have number : NumberStyle.hex ≠ .character := by decide
  have selected : IntType.ulongLong ∈ writtenTypes := by decide
  have fits : ((2 ^ 64 - 1 : Nat) : Int) ≤ IntType.ulongLong.max := by decide
  have spelled :
      Capitalizes "0XfFFFFFFFFFFFFFFFuLl".toList (written .hex .ulongLong (2 ^ 64 - 1)) := by
    decide
  exact ⟨number, selected, fits, spelled, integer_written number selected fits 32 spelled⟩

end Literal

end CBindings
