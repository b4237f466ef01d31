import CBindings.Json.Printer
import CBindings.Json.Reader
import Mathlib.Data.Nat.Basic

/-! Texts in JSON: how their units are escaped, and what is read of that. -/

namespace CBindings

open Json (StringUnit)

def isWrittenPlain (c : Char) : Bool := 32 ≤ c.toNat && c.toNat < 127 && c ≠ '"' && c ≠ '\\'

namespace TextUnit

/-- A text unit as it is written: two escapes for a character beyond the first plane. -/
def written : TextUnit → List StringUnit
  | .char c =>
    if isWrittenPlain c then [.plain (.char c)]
    else if c.toNat < 0x10000 then [.escape c.toNat]
    else [.escape (0xD800 + (c.toNat - 0x10000) / 0x400),
      .escape (0xDC00 + (c.toNat - 0x10000) % 0x400)]
  | .half index => [.escape (0xD800 + index)]

theorem written_plain {c : Char} (plain : isWrittenPlain c = true) :
    written (.char c) = [.plain (.char c)] := if_pos plain

theorem written_first {c : Char} (escaped : isWrittenPlain c = false) (first : c.toNat < 0x10000) :
    written (.char c) = [.escape c.toNat] := by
  rw [written, if_neg (by simp [escaped]), if_pos first]

theorem written_beyond {c : Char} (beyond : ¬c.toNat < 0x10000) : written (.char c) =
    [.escape (0xD800 + (c.toNat - 0x10000) / 0x400),
      .escape (0xDC00 + (c.toNat - 0x10000) % 0x400)] := by
  have escaped : isWrittenPlain c = false := by
    have large : ¬c.toNat < 127 := by omega
    simp [isWrittenPlain, large]
  rw [written, if_neg (by simp [escaped]), if_neg beyond]

end TextUnit

namespace JsonText

def written (text : JsonText) : List StringUnit := text.flatMap TextUnit.written

def isPair (high low : Fin 2048) : Bool := high.val < 1024 && 1024 ≤ low.val

def ofPair (high low : Fin 2048) : Char :=
  Char.ofNat (0x10000 + high.val * 0x400 + (low.val - 1024))

def joined : JsonText → JsonText
  | .half high :: .half low :: rest =>
    if isPair high low then .char (ofPair high low) :: joined rest
    else .half high :: joined (.half low :: rest)
  | unit :: rest => unit :: joined rest
  | [] => []

/-- The halves of a pair stand side by side. -/
def IsSplit (text : JsonText) : Prop :=
  ∃ before high low after, text = before ++ .half high :: .half low :: after ∧ isPair high low

theorem joined_ofString (s : String) : (ofString s).joined = ofString s := by
  unfold ofString
  induction s.toList with
  | nil => rfl
  | cons c rest ih => simp [joined, ih]

end JsonText

namespace Json

open Text

variable {unit : Nat} {rest : List StringUnit}

/-! ### Escapes -/

theorem hexValue?_hexDigit (n : Nat) : hexValue? (hexDigit n) = some (n % 16) := by
  have all : ∀ digit < 16, hexValue? (hexDigit digit) = some digit := by decide
  have reduced : hexDigit n = hexDigit (n % 16) := by simp [hexDigit]
  rw [reduced]
  exact all _ (Nat.mod_lt n (by decide))

def ReadAs (chars : List Char) (units : List StringUnit) : Prop :=
  ∀ rest : JsonText, stringUnits? (chars.map .char ++ rest) =
    (stringUnits? rest).map fun (others, after) => (units ++ others, after)

theorem ReadAs.append {first second : List Char} {units others : List StringUnit}
    (read : ReadAs first units) (next : ReadAs second others) :
    ReadAs (first ++ second) (units ++ others) := by
  intro rest
  rw [List.map_append, List.append_assoc, read, next, Option.map_map]
  simp only [Function.comp_def, List.append_assoc]

theorem readAs_unitEscape (small : unit < 0x10000) : ReadAs (unitEscape unit) [.escape unit] := by
  intro rest
  have spelled : unitEscape unit = ['\\', 'u', hexDigit (unit / 16 / 16 / 16),
      hexDigit (unit / 16 / 16), hexDigit (unit / 16), hexDigit unit] := rfl
  have value : hexUnit? (hexDigit (unit / 16 / 16 / 16)) (hexDigit (unit / 16 / 16))
      (hexDigit (unit / 16)) (hexDigit unit) = some unit := by
    simp only [hexUnit?, hexValue?_hexDigit, Option.pure_def, Option.bind_eq_bind,
      Option.bind_some, Option.some.injEq]
    omega
  simp only [spelled, List.map_cons, List.map_nil, List.cons_append, List.nil_append, stringUnits?,
    value]
  cases stringUnits? rest <;> rfl

/-- What is escaped with one letter is read as the unit that the letter stands for. -/
theorem readAs_short {c mark : Char} (known : shortEscape? mark = some c.toNat) :
    ReadAs ['\\', mark] [.escape c.toNat] := by
  intro rest
  have other : mark ≠ 'u' := by
    rintro rfl
    cases known
  simp only [List.map_cons, List.map_nil, List.cons_append, List.nil_append]
  rw [stringUnits?.eq_4 mark rest fun _ _ _ _ _ _ same => other same, known]
  cases stringUnits? rest <;> rfl

theorem readAs_plain {c : Char} (plain : isWrittenPlain c = true) :
    ReadAs [c] [.plain (.char c)] := by
  intro rest
  simp only [isWrittenPlain, Bool.and_eq_true, decide_eq_true_eq] at plain
  obtain ⟨⟨⟨printable, -⟩, quote⟩, backslash⟩ := plain
  have fine : ¬(c.toNat < 32 ∨ c = '\\') := by
    rintro (control | escape)
    · exact Nat.not_lt.mpr printable control
    · exact backslash escape
  simp only [List.map_cons, List.map_nil, List.cons_append, List.nil_append]
  rw [stringUnits?.eq_6 c rest quote (fun _ _ _ _ _ _ escape => backslash escape)
    (fun _ _ _ escape => backslash escape), if_neg fine]
  cases stringUnits? rest <;> rfl

theorem escaped_beyond {c : Char} (beyond : ¬c.toNat < 0x10000) : escaped c =
    unitEscape (0xD800 + (c.toNat - 0x10000) / 0x400) ++
      unitEscape (0xDC00 + (c.toNat - 0x10000) % 0x400) := by
  have other : ∀ plain : Char, plain.toNat < 0x10000 → c ≠ plain := by
    rintro plain small rfl
    exact beyond small
  unfold escaped
  rw [if_neg (other '"' (by decide)), if_neg (other '\\' (by decide)),
    if_neg (other '\n' (by decide)), if_neg (other '\r' (by decide)),
    if_neg (other '\t' (by decide)), if_neg (by omega), if_neg (by omega), if_neg (by omega),
    if_neg beyond]

theorem toNat_lt (c : Char) : c.toNat < 0x110000 := by
  rcases c.valid with low | ⟨-, high⟩
  · exact Nat.lt_trans low (by decide)
  · exact high

theorem readAs_first {c : Char} (escaped : isWrittenPlain c = false) (first : c.toNat < 0x10000) :
    ReadAs (Json.escaped c) [.escape c.toNat] := by
  unfold Json.escaped
  split_ifs with quote backslash feed carriage tab form back plain
  · exact readAs_short (by subst quote; rfl)
  · exact readAs_short (by subst backslash; rfl)
  · exact readAs_short (by subst feed; rfl)
  · exact readAs_short (by subst carriage; rfl)
  · exact readAs_short (by subst tab; rfl)
  · exact readAs_short (by rw [form]; rfl)
  · exact readAs_short (by rw [back]; rfl)
  · simp [isWrittenPlain, plain, quote, backslash] at escaped
  · exact readAs_unitEscape first

theorem escaped_plain {c : Char} (plain : isWrittenPlain c = true) : escaped c = [c] := by
  simp only [isWrittenPlain, Bool.and_eq_true, decide_eq_true_eq] at plain
  obtain ⟨⟨⟨printable, small⟩, quote⟩, backslash⟩ := plain
  have visible : ∀ control : Char, control.toNat < 32 → c ≠ control := by
    rintro control low rfl
    omega
  unfold escaped
  rw [if_neg quote, if_neg backslash, if_neg (visible '\n' (by decide)),
    if_neg (visible '\r' (by decide)), if_neg (visible '\t' (by decide)), if_neg (by omega),
    if_neg (by omega), if_pos ⟨printable, small⟩]

theorem readAs_escapedUnit (unit : TextUnit) : ReadAs (escapedUnit unit) unit.written := by
  cases unit with
  | half index => exact readAs_unitEscape (by omega)
  | char c =>
    rw [escapedUnit]
    cases plain : isWrittenPlain c with
    | true =>
      rw [TextUnit.written_plain plain, escaped_plain plain]
      exact readAs_plain plain
    | false =>
      by_cases first : c.toNat < 0x10000
      · rw [TextUnit.written_first plain first]
        exact readAs_first plain first
      · have bound := toNat_lt c
        rw [TextUnit.written_beyond first, escaped_beyond first]
        exact (readAs_unitEscape (by omega)).append (readAs_unitEscape (by omega))

theorem readAs_text (text : JsonText) : ReadAs (text.flatMap escapedUnit) text.written := by
  induction text with
  | nil =>
    intro rest
    cases found : stringUnits? rest <;> simp [JsonText.written, found]
  | cons unit rest ih => exact (readAs_escapedUnit unit).append ih

theorem stringUnits?_quoted (text : JsonText) (after : JsonText) :
    stringUnits? ((text.flatMap escapedUnit).map .char ++ .char '"' :: after) =
      some (text.written, after) := by
  rw [readAs_text]
  simp [stringUnits?]

/-! ### Units -/

theorem ofUnit_char {c : Char} (first : c.toNat < 0x10000) :
    ofUnit c.toNat = .char c ∧ isHighUnit c.toNat = false ∧ isLowUnit c.toNat = false := by
  have scalar : c.toNat < 0xD800 ∨ 0xDFFF < c.toNat := c.valid.imp_right And.left
  have high : isHighUnit c.toNat = false := by
    simp only [isHighUnit, Bool.and_eq_false_imp, decide_eq_true_eq, decide_eq_false_iff_not]
    omega
  have low : isLowUnit c.toNat = false := by
    simp only [isLowUnit, Bool.and_eq_false_imp, decide_eq_true_eq, decide_eq_false_iff_not]
    omega
  exact ⟨by simp [ofUnit, high, low], high, low⟩

theorem isHighUnit_half (index : Fin 2048) :
    isHighUnit (0xD800 + index) = decide (index.val < 1024) := by
  rw [isHighUnit, ← Bool.decide_and, decide_eq_decide]
  omega

theorem isLowUnit_half (index : Fin 2048) :
    isLowUnit (0xD800 + index) = decide (1024 ≤ index.val) := by
  rw [isLowUnit, ← Bool.decide_and, decide_eq_decide]
  omega

theorem ofUnit_half (index : Fin 2048) : ofUnit (0xD800 + index) = .half index := by
  have surrogate : (isHighUnit (0xD800 + index) || isLowUnit (0xD800 + index)) = true := by
    rw [isHighUnit_half, isLowUnit_half, ← Bool.decide_or, decide_eq_true_eq]
    exact Nat.lt_or_ge index.val 1024
  rw [ofUnit, if_pos surrogate, Nat.add_sub_cancel_left]
  exact congrArg TextUnit.half (Fin.ext (Nat.mod_eq_of_lt index.isLt))

theorem ofUnits_escape
    (apart : ∀ low, .escape low ∈ rest.head? → (isHighUnit unit && isLowUnit low) = false) :
    ofUnits (.escape unit :: rest) = ofUnit unit :: ofUnits rest := by
  cases rest with
  | nil => rfl
  | cons next rest =>
    cases next with
    | plain other => rfl
    | escape low =>
      have apart : ¬(isHighUnit unit && isLowUnit low) = true := by simp [apart low rfl]
      rw [ofUnits, if_neg apart]

theorem ofUnits_pair {high low : Nat} (pair : (isHighUnit high && isLowUnit low) = true)
    (rest : List StringUnit) : ofUnits (.escape high :: .escape low :: rest) =
      .char (Char.ofNat (0x10000 + (high - 0xD800) * 0x400 + (low - 0xDC00))) :: ofUnits rest := by
  rw [ofUnits, if_pos pair]

theorem ofUnits_char (c : Char) (rest : List StringUnit) :
    ofUnits ((TextUnit.char c).written ++ rest) = .char c :: ofUnits rest := by
  cases plain : isWrittenPlain c with
  | true =>
    rw [TextUnit.written_plain plain]
    rfl
  | false =>
    by_cases first : c.toNat < 0x10000
    · obtain ⟨unit, high, -⟩ := ofUnit_char first
      rw [TextUnit.written_first plain first, List.singleton_append,
        ofUnits_escape (by simp [high]), unit]
    · have bound := toNat_lt c
      have pair : (isHighUnit (0xD800 + (c.toNat - 0x10000) / 0x400) &&
          isLowUnit (0xDC00 + (c.toNat - 0x10000) % 0x400)) = true := by
        simp only [isHighUnit, isLowUnit, Bool.and_eq_true, decide_eq_true_eq]
        omega
      have value : 0x10000 + (0xD800 + (c.toNat - 0x10000) / 0x400 - 0xD800) * 0x400 +
          (0xDC00 + (c.toNat - 0x10000) % 0x400 - 0xDC00) = c.toNat := by
        omega
      rw [TextUnit.written_beyond first, List.cons_append, List.singleton_append,
        ofUnits_pair pair, value, Char.ofNat_toNat]

/-- No escape of a character passes for the second half of a pair that begins before it. -/
theorem isLowUnit_head {c : Char} {low : Nat} {rest : JsonText}
    (first : .escape low ∈ (JsonText.written (.char c :: rest)).head?) : isLowUnit low = false := by
  rw [JsonText.written, List.flatMap_cons] at first
  cases plain : isWrittenPlain c with
  | true =>
    rw [TextUnit.written_plain plain] at first
    cases first
  | false =>
    by_cases plane : c.toNat < 0x10000
    · rw [TextUnit.written_first plain plane] at first
      cases first
      exact (ofUnit_char plane).2.2
    · rw [TextUnit.written_beyond plane] at first
      cases first
      have bound := toNat_lt c
      simp only [isLowUnit, Bool.and_eq_false_imp, decide_eq_true_eq, decide_eq_false_iff_not]
      omega

/-- What is read of a text as it is written is the text, its pairs joined. -/
theorem ofUnits_written (text : JsonText) : ofUnits text.written = text.joined := by
  fun_induction JsonText.joined text with
  | case1 high low rest pair ih =>
    obtain ⟨first, second⟩ := Bool.and_eq_true_iff.mp pair
    have units : (isHighUnit (0xD800 + high) && isLowUnit (0xD800 + low)) = true := by
      rw [isHighUnit_half, isLowUnit_half, first, second]
      rfl
    have value : 0xD800 + low.val - 0xDC00 = low.val - 1024 := by omega
    have spelled : JsonText.written (.half high :: .half low :: rest) =
        .escape (0xD800 + high.val) :: .escape (0xD800 + low.val) :: JsonText.written rest := rfl
    rw [spelled, ofUnits_pair units, Nat.add_sub_cancel_left, value, ih, JsonText.ofPair]
  | case2 high low rest apart ih =>
    have spelled : JsonText.written (.half high :: .half low :: rest) =
        .escape (0xD800 + high.val) :: JsonText.written (.half low :: rest) := rfl
    rw [spelled, ofUnits_escape, ofUnit_half, ih]
    · rintro _ ⟨⟩
      rw [isHighUnit_half, isLowUnit_half]
      exact Bool.eq_false_iff.mpr apart
  | case3 unit rest other ih =>
    rw [JsonText.written, List.flatMap_cons]
    cases unit with
    | char c =>
      rw [ofUnits_char]
      exact congrArg (_ :: ·) ih
    | half index =>
      rw [TextUnit.written, List.singleton_append, ofUnits_escape, ofUnit_half]
      · exact congrArg (_ :: ·) ih
      · intro low first
        cases rest with
        | nil => cases first
        | cons next rest =>
          cases next with
          | half low => exact (other index low rest rfl rfl).elim
          | char c => rw [isLowUnit_head first, Bool.and_false]
  | case4 => rfl

end Json

/-! ### Split pairs -/

namespace JsonText

theorem isSplit_cons {unit : TextUnit} {rest : JsonText} : IsSplit (unit :: rest) ↔
    (∃ high low after, unit = .half high ∧ rest = .half low :: after ∧ isPair high low) ∨
      IsSplit rest := by
  constructor
  · rintro ⟨before, high, low, after, same, pair⟩
    cases before with
    | nil =>
      cases same
      exact .inl ⟨high, low, after, rfl, rfl, pair⟩
    | cons first before =>
      cases same
      exact .inr ⟨before, high, low, after, rfl, pair⟩
  · rintro (⟨high, low, after, rfl, rfl, pair⟩ | ⟨before, high, low, after, rfl, pair⟩)
    · exact ⟨[], high, low, after, rfl, pair⟩
    · exact ⟨unit :: before, high, low, after, rfl, pair⟩

theorem joined_eq_self_iff (text : JsonText) : text.joined = text ↔ ¬text.IsSplit := by
  fun_induction joined text with
  | case1 high low rest pair ih =>
    constructor
    · intro same
      cases same
    · intro whole
      exact absurd ⟨[], high, low, rest, rfl, pair⟩ whole
  | case2 high low rest apart ih =>
    rw [List.cons_inj_right, ih, @isSplit_cons (.half high)]
    constructor
    · rintro whole (⟨_, _, _, ⟨⟩, ⟨⟩, pair⟩ | split)
      · exact apart pair
      · exact whole split
    · exact fun whole split => whole (.inr split)
  | case3 unit rest other ih =>
    rw [List.cons_inj_right, ih, isSplit_cons]
    constructor
    · rintro whole (⟨high, low, after, rfl, rfl, -⟩ | split)
      · exact other high low after rfl rfl
      · exact whole split
    · exact fun whole split => whole (.inr split)
  | case4 =>
    constructor
    · rintro - ⟨before, high, low, after, same, -⟩
      cases before <;> cases same
    · exact fun _ => rfl

end JsonText

end CBindings
