import CBindings.Constant.Value
import CBindings.Decimal.Shortest
import CBindings.Proofs.Integer.Decimal
import CBindings.Text.Numeral
import CBindings.Text.Quoted

/-! Texts without line breaks, and a text as its lines. -/

namespace CBindings

def OneLine (text : String) : Prop := '\n' ∉ text.toList

instance (text : String) : Decidable (OneLine text) := inferInstanceAs (Decidable (¬_))

section

variable {a b line : String} {lines : List String} {text rest : List Char}

@[simp] theorem oneLine_append : OneLine (a ++ b) ↔ OneLine a ∧ OneLine b := by
  simp [OneLine]

@[simp] theorem oneLine_ofList : OneLine (String.ofList text) ↔ '\n' ∉ text := by
  simp [OneLine]

theorem OneLine.between {c : String} (first : OneLine a) (second : OneLine b) (third : OneLine c) :
    OneLine (a ++ b ++ c) :=
  oneLine_append.mpr ⟨oneLine_append.mpr ⟨first, second⟩, third⟩

def Unbroken (texts : List String) : Prop := ∀ text ∈ texts, OneLine text

instance (texts : List String) : Decidable (Unbroken texts) :=
  inferInstanceAs (Decidable (∀ text ∈ texts, OneLine text))

@[simp] theorem unbroken_nil : Unbroken [] := fun _ member => absurd member List.not_mem_nil

@[simp] theorem unbroken_cons : Unbroken (line :: lines) ↔ OneLine line ∧ Unbroken lines :=
  List.forall_mem_cons

@[simp] theorem unbroken_append {others : List String} :
    Unbroken (lines ++ others) ↔ Unbroken lines ∧ Unbroken others :=
  List.forall_mem_append

theorem OneLine.intercalate (separator : OneLine a) (unbroken : Unbroken lines) :
    OneLine (a.intercalate lines) := by
  induction lines with
  | nil => simp [OneLine]
  | cons first rest ih =>
    rw [unbroken_cons] at unbroken
    cases rest with
    | nil => simpa using unbroken.1
    | cons second others =>
      rw [String.intercalate_cons_cons]
      simp only [oneLine_append]
      exact ⟨⟨unbroken.1, separator⟩, ih unbroken.2⟩

/-! ### Lines -/

def linesOf (text : String) : List String := (Text.splitOn '\n' text.toList).map String.ofList

theorem splitOn_append (oneLine : '\n' ∉ text) (rest : List Char) :
    Text.splitOn '\n' (text ++ '\n' :: rest) = text :: Text.splitOn '\n' rest := by
  induction text with
  | nil => rw [List.nil_append, Text.splitOn, if_pos rfl]
  | cons c text ih =>
    simp only [List.mem_cons, not_or] at oneLine
    rw [List.cons_append, Text.splitOn, if_neg (Ne.symm oneLine.1), ih oneLine.2]

theorem linesOf_append (oneLine : OneLine line) (text : String) :
    linesOf (line ++ "\n" ++ text) = line :: linesOf text := by
  have cut : (line ++ "\n" ++ text).toList = line.toList ++ '\n' :: text.toList := by simp
  rw [linesOf, cut, splitOn_append oneLine, List.map_cons, String.ofList_toList, linesOf]

/-- Lines that are joined by line breaks, with one at the end, are the lines of the text. -/
theorem linesOf_intercalate (filled : lines ≠ []) (unbroken : Unbroken lines) :
    linesOf ("\n".intercalate lines ++ "\n") = lines ++ [""] := by
  induction lines with
  | nil => exact absurd rfl filled
  | cons first rest ih =>
    rw [unbroken_cons] at unbroken
    cases rest with
    | nil =>
      have ended := linesOf_append unbroken.1 ""
      rw [String.append_empty] at ended
      rw [String.intercalate_singleton, ended]
      rfl
    | cons second others =>
      rw [String.intercalate_cons_cons, String.append_assoc, linesOf_append unbroken.1,
        ih (by simp) unbroken.2]
      rfl

end

/-! ### Numbers and quotes -/

theorem not_lineBreak_of_digit {c : Char} (digit : Text.isAsciiDigit c = true) : c ≠ '\n' := by
  rintro rfl
  cases digit

theorem lineBreak_not_mem_toDigits (n : Nat) : '\n' ∉ Nat.toDigits 10 n :=
  fun member => not_lineBreak_of_digit (Text.mem_toDigits member) rfl

@[simp] theorem oneLine_natRepr (n : Nat) : OneLine (toString n) := by
  have digits : (toString n).toList = Nat.toDigits 10 n := by simp
  rw [OneLine, digits]
  exact lineBreak_not_mem_toDigits n

@[simp] theorem oneLine_intRepr (n : Int) : OneLine (toString n) := by
  cases n with
  | ofNat n => exact oneLine_natRepr n
  | negSucc n => exact oneLine_append.mpr ⟨by decide, oneLine_natRepr (n + 1)⟩

theorem hexDigit_ne_lineBreak (n : Nat) : Text.hexDigit n ≠ '\n' := by
  have all : ∀ k < 16, "0123456789abcdef".toList.getD k '0' ≠ '\n' := by decide
  exact all (n % 16) (Nat.mod_lt n (by decide))

theorem lineBreak_not_mem_hexDigits (width n : Nat) : '\n' ∉ Text.hexDigits width n := by
  induction width generalizing n with
  | zero => exact List.not_mem_nil
  | succ width ih =>
    rw [Text.hexDigits, List.mem_append, List.mem_singleton]
    exact not_or.mpr ⟨ih _, (hexDigit_ne_lineBreak n).symm⟩

theorem lineBreak_not_mem_quotedChar {quote : Char} (other : quote ≠ '\n') (c : Char) :
    '\n' ∉ Text.quotedChar quote c := by
  have hex := lineBreak_not_mem_hexDigits
  unfold Text.quotedChar
  split
  · next escaped =>
    have visible : c ≠ '\n' := by
      rintro rfl
      simp [other.symm] at escaped
    simp [visible.symm]
  · split
    · decide
    · next visible =>
      have visible : '\n' ≠ c := fun same => visible (by simp [← same])
      have marked (mark : Char) (other : '\n' ≠ mark) (width : Nat) :
          '\n' ∉ '\\' :: mark :: Text.hexDigits width c.toNat := by
        simp [other, hex]
      split
      · decide
      · split
        · decide
        · split
          · simp [visible]
          · split
            · exact marked 'x' (by decide) 2
            · split
              · exact marked 'u' (by decide) 4
              · exact marked 'U' (by decide) 8

@[simp] theorem oneLine_quoted (text : String) : OneLine (Text.quoted text) := by
  have other : Text.quoteFor text.toList ≠ '\n' := by
    unfold Text.quoteFor
    split <;> decide
  rw [Text.quoted, oneLine_ofList, Text.quotedChars]
  simp [other.symm, lineBreak_not_mem_quotedChar other]

theorem lineBreak_not_mem_toDigits16 (n : Nat) : '\n' ∉ (Nat.toDigits 16 n).map Char.toUpper := by
  have small : ∀ k < 16, (Nat.digitChar k).toUpper ≠ '\n' := by decide
  intro member
  obtain ⟨c, inside, capital⟩ := List.mem_map.mp member
  obtain ⟨k, less, rfl⟩ := Text.exists_digitChar (by decide) inside
  exact small k less capital

@[simp] theorem oneLine_upperHex (n : Nat) : OneLine (Text.upperHex n) :=
  oneLine_ofList.mpr (lineBreak_not_mem_toDigits16 n)

theorem lineBreak_not_mem_layout (d : Decimal) : '\n' ∉ Double.layout d := by
  have digits := lineBreak_not_mem_toDigits
  have taken (k n : Nat) : '\n' ∉ (Nat.toDigits 10 n).take k :=
    fun member => digits n (List.mem_of_mem_take member)
  have dropped (k n : Nat) : '\n' ∉ (Nat.toDigits 10 n).drop k :=
    fun member => digits n (List.mem_of_mem_drop member)
  have later (n : Nat) : '\n' ∉ (Nat.toDigits 10 n).tail :=
    fun member => digits n (List.mem_of_mem_tail member)
  have zeros (n : Nat) : '\n' ∉ Double.zeros n :=
    fun member => absurd (List.eq_of_mem_replicate member) (by decide)
  unfold Double.layout
  simp only
  split
  · decide
  · split
    · split
      · simp [zeros, digits]
      · split
        · simp [zeros, digits]
        · simp [taken, dropped]
    · split <;> split <;> simp [taken, later, digits, zeros]

@[simp] theorem oneLine_render (x : Double) : OneLine x.render := by
  cases x with
  | finite negative significand exponent =>
    refine oneLine_append.mpr ⟨?_, oneLine_ofList.mpr (lineBreak_not_mem_layout _)⟩
    split <;> decide
  | infinite negative => cases negative <;> decide
  | undefined => decide

@[simp] theorem oneLine_name (type : IntType) : OneLine type.name := by
  refine oneLine_append.mpr ⟨?_, oneLine_natRepr type.bits⟩
  split <;> decide

end CBindings
