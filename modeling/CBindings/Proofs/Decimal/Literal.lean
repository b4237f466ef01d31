import CBindings.Proofs.Integer.Literal

/-! Which texts are float literals: digits with a point, an exponent or both, and at most one letter
that tells their type. -/

namespace CBindings.Literal

open Text

variable {text more digits : List Char} {c : Char}

def AreDigits (text : List Char) : Prop := ∀ c ∈ text, isAsciiDigit c = true

inductive IsExponent : List Char → Prop where
  | scaled {mark : Char} {sign digits : List Char} (marks : mark = 'e' ∨ mark = 'E')
      (signs : sign ∈ [[], ['+'], ['-']]) (nonempty : digits ≠ []) (all : AreDigits digits) :
      IsExponent (mark :: (sign ++ digits))

/-- A float literal. With a point there are digits on one side of it at least, without one there is
an exponent. -/
inductive IsFloatText : List Char → Prop where
  | pointed {whole fraction exponent suffix : List Char} (before : AreDigits whole)
      (after : AreDigits fraction) (nonempty : whole ≠ [] ∨ fraction ≠ [])
      (scale : exponent = [] ∨ IsExponent exponent) (ends : isFloatSuffix suffix = true) :
      IsFloatText (whole ++ '.' :: (fraction ++ (exponent ++ suffix)))
  | scaled {whole exponent suffix : List Char} (before : AreDigits whole) (nonempty : whole ≠ [])
      (scale : IsExponent exponent) (ends : isFloatSuffix suffix = true) :
      IsFloatText (whole ++ (exponent ++ suffix))

def EndsDigits (more : List Char) : Prop := ∀ c ∈ more.head?, isAsciiDigit c = false

theorem takeWhile_digits (all : AreDigits digits) (ends : EndsDigits more) :
    (digits ++ more).takeWhile isAsciiDigit = digits := by
  rw [List.takeWhile_append_of_pos all]
  cases more with
  | nil => simp
  | cons c rest => simp [ends c rfl]

theorem dropWhile_digits (all : AreDigits digits) (ends : EndsDigits more) :
    (digits ++ more).dropWhile isAsciiDigit = more := by
  rw [List.dropWhile_append_of_pos all]
  cases more with
  | nil => simp
  | cons c rest => simp [ends c rfl]

theorem areDigits_takeWhile (text : List Char) : AreDigits (text.takeWhile isAsciiDigit) :=
  List.all_eq_true.mp List.all_takeWhile

theorem endsDigits_dropWhile (text : List Char) : EndsDigits (text.dropWhile isAsciiDigit) := by
  intro c first
  have stops := List.head?_dropWhile_not isAsciiDigit text
  rw [Option.mem_def.mp first] at stops
  simpa using stops

theorem endsDigits_suffix (ends : isFloatSuffix text = true) : EndsDigits text := by
  simp only [isFloatSuffix, List.contains_eq_mem, decide_eq_true_eq, List.mem_cons,
    List.not_mem_nil, or_false] at ends
  rcases ends with rfl | rfl | rfl | rfl | rfl <;> simp [EndsDigits, isAsciiDigit]

theorem endsDigits_exponent {exponent : List Char} (scale : IsExponent exponent)
    (more : List Char) : EndsDigits (exponent ++ more) := by
  cases scale with
  | scaled marks => rcases marks with rfl | rfl <;> simp [EndsDigits, isAsciiDigit]

theorem dropSign_append {sign : List Char} (signs : sign ∈ [[], ['+'], ['-']])
    (nonempty : digits ≠ []) (all : AreDigits digits) (more : List Char) :
    dropSign (sign ++ (digits ++ more)) = digits ++ more := by
  simp only [List.mem_cons, List.not_mem_nil, or_false] at signs
  rcases signs with rfl | rfl | rfl
  · cases digits with
    | nil => exact absurd rfl nonempty
    | cons first rest =>
      have digit := all first List.mem_cons_self
      have plus : first ≠ '+' := fun same => absurd (same ▸ digit) (by decide)
      have minus : first ≠ '-' := fun same => absurd (same ▸ digit) (by decide)
      simp [dropSign, plus, minus]
  · rfl
  · rfl

theorem exists_sign (text : List Char) :
    ∃ sign ∈ [[], ['+'], ['-']], text = sign ++ dropSign text := by
  unfold dropSign
  split
  · exact ⟨['+'], by simp, rfl⟩
  · exact ⟨['-'], by simp, rfl⟩
  · exact ⟨[], by simp, rfl⟩

theorem exponent?_eq_some : exponent? text = some more ↔
    ∃ exponent, IsExponent exponent ∧ text = exponent ++ more ∧ EndsDigits more := by
  constructor
  · intro found
    cases text with
    | nil => cases found
    | cons mark rest =>
      rw [exponent?] at found
      split at found
      · next marks =>
        simp only at found
        split at found
        · cases found
        · next nonempty =>
          obtain ⟨sign, signs, whole⟩ := exists_sign rest
          cases found
          refine ⟨_, .scaled marks signs nonempty (areDigits_takeWhile _), ?_, endsDigits_dropWhile _⟩
          simp [← whole]
      · cases found
  · rintro ⟨exponent, ⟨marks, signs, nonempty, all⟩, rfl, ends⟩
    simp [exponent?, marks, dropSign_append signs nonempty all, takeWhile_digits all ends,
      dropWhile_digits all ends, nonempty]

theorem scales_iff : (isFloatSuffix text || (exponent? text).any isFloatSuffix) = true ↔
    ∃ exponent suffix, (exponent = [] ∨ IsExponent exponent) ∧ isFloatSuffix suffix = true ∧
      text = exponent ++ suffix := by
  rw [Bool.or_eq_true, Option.any_eq_true]
  constructor
  · rintro (ends | ⟨suffix, found, ends⟩)
    · exact ⟨[], text, .inl rfl, ends, rfl⟩
    · obtain ⟨exponent, scale, whole, -⟩ := exponent?_eq_some.mp found
      exact ⟨exponent, suffix, .inr scale, ends, whole⟩
  · rintro ⟨exponent, suffix, rfl | scale, ends, rfl⟩
    · exact .inl ends
    · have found : exponent? (exponent ++ suffix) = some suffix :=
        exponent?_eq_some.mpr ⟨exponent, scale, rfl, endsDigits_suffix ends⟩
      exact .inr ⟨suffix, found, ends⟩

theorem endsDigits_scale {exponent suffix : List Char} (scale : exponent = [] ∨ IsExponent exponent)
    (ends : isFloatSuffix suffix = true) : EndsDigits (exponent ++ suffix) := by
  rcases scale with rfl | scale
  · exact endsDigits_suffix ends
  · exact endsDigits_exponent scale suffix

/-- A text is taken for a float literal exactly if it is one. A line feed at its end is passed
over. -/
theorem isFloat_iff (text : String) :
    isFloat text = true ↔ IsFloatText (dropFinalLineFeed text.toList) := by
  unfold isFloat
  generalize dropFinalLineFeed text.toList = text
  have whole : text.takeWhile isAsciiDigit ++ text.dropWhile isAsciiDigit = text :=
    List.takeWhile_append_dropWhile
  constructor
  · intro float
    simp only at float
    split at float
    · next rest point =>
      obtain ⟨nonempty, scales⟩ := Bool.and_eq_true_iff.mp float
      obtain ⟨exponent, suffix, scale, ends, after⟩ := scales_iff.mp scales
      have fraction : rest.takeWhile isAsciiDigit ++ (exponent ++ suffix) = rest := by
        rw [← after, List.takeWhile_append_dropWhile]
      rw [← whole, point, ← fraction]
      exact .pointed (areDigits_takeWhile text) (areDigits_takeWhile rest) (by simpa using nonempty)
        scale ends
    · obtain ⟨nonempty, scales⟩ := Bool.and_eq_true_iff.mp float
      obtain ⟨suffix, found, ends⟩ := (Option.any_eq_true _ _).mp scales
      obtain ⟨exponent, scale, after, -⟩ := exponent?_eq_some.mp found
      rw [← whole, after]
      exact .scaled (areDigits_takeWhile text) (by simpa using nonempty) scale ends
  · rintro (@⟨digits, fraction, exponent, suffix, before, after, nonempty, scale, ends⟩ |
      @⟨digits, exponent, suffix, before, nonempty, scale, ends⟩)
    · have stops : EndsDigits ('.' :: (fraction ++ (exponent ++ suffix))) := by
        simp [EndsDigits, isAsciiDigit]
      have scales := scales_iff.mpr ⟨exponent, suffix, scale, ends, rfl⟩
      have behind := endsDigits_scale scale ends
      simp only [takeWhile_digits before stops, dropWhile_digits before stops,
        takeWhile_digits after behind, dropWhile_digits after behind, scales, Bool.and_true]
      simpa using nonempty
    · have stops := endsDigits_exponent scale suffix
      have found : exponent? (exponent ++ suffix) = some suffix :=
        exponent?_eq_some.mpr ⟨exponent, scale, rfl, endsDigits_suffix ends⟩
      simp only [takeWhile_digits before stops, dropWhile_digits before stops]
      split
      · next rest point =>
        cases scale with
        | scaled marks =>
          obtain ⟨rfl, -⟩ := List.cons.inj point
          simp at marks
      · simp [found, ends, nonempty]

end CBindings.Literal
