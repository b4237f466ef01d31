import CBindings.Proofs.Integer.Word

/-! Texts that are read as integers: they have neither a point nor an exponent, and two more letters
of length change their type but not their word. -/

namespace CBindings.Literal

theorem digits?_rest {text : List Char} {read : Digits} (found : digits? text = some read) :
    read.rest = text.dropWhile Text.isAsciiDigit ∨
      ∃ mark rest, text = '0' :: mark :: rest ∧ mark ∈ ['x', 'X', 'b', 'B'] := by
  unfold digits? at found
  extract_lets plain at found
  have plain_rest : plain = some read → read.rest = text.dropWhile Text.isAsciiDigit := by
    intro known
    simp only [plain] at known
    split at known
    · cases known
    all_goals
      cases known
      rfl
  split at found
  · next mark rest =>
    by_cases hex : mark = 'x' ∨ mark = 'X'
    · exact .inr ⟨mark, rest, rfl, by rcases hex with rfl | rfl <;> simp⟩
    · by_cases binary : mark = 'b' ∨ mark = 'B'
      · exact .inr ⟨mark, rest, rfl, by rcases binary with rfl | rfl <;> simp⟩
      · rw [if_neg hex, if_neg binary] at found
        exact .inl (plain_rest found)
  · exact .inl (plain_rest found)

theorem suffix?_head {c : Char} {rest : List Char} {suffix : Suffix}
    (found : suffix? (c :: rest) = some suffix) : c ∈ ['u', 'U', 'l', 'L', 'i'] := by
  unfold suffix? at found
  split at found
  · next letters =>
    have here : (c == 'u' || c == 'U' || c == 'l' || c == 'L') = true :=
      List.all_eq_true.mp letters c List.mem_cons_self
    simp only [Bool.or_eq_true, beq_iff_eq] at here
    rcases here with ((rfl | rfl) | rfl) | rfl <;> simp
  · split at found
    · next same => simp [(List.cons.inj same).1]
    · next same => simp [(List.cons.inj same).1]
    · unfold sized? at found
      split at found
      all_goals simp_all

/-- A number with a point or an exponent has one of these characters after its first digits. -/
theorem isFloat_eq_false_of_head {text : String}
    (other : ∀ c ∈ ((dropFinalLineFeed text.toList).dropWhile Text.isAsciiDigit).head?,
      c ∉ ['.', 'e', 'E']) : isFloat text = false := by
  unfold isFloat
  generalize dropFinalLineFeed text.toList = chars at other ⊢
  simp only
  cases tail : chars.dropWhile Text.isAsciiDigit with
  | nil => simp [exponent?]
  | cons c rest =>
    rw [tail] at other
    have different := other c rfl
    simp only [List.mem_cons, List.not_mem_nil, or_false, not_or] at different
    split
    · next same => exact absurd (List.cons.inj same).1 different.1
    · simp [exponent?, different.2]

theorem isFloat_eq_false {text : String} {longWidth : Nat} {value : IntValue}
    (known : integer text longWidth = .ok value) : isFloat text = false := by
  apply isFloat_eq_false_of_head
  unfold integer at known
  split at known
  · cases known
  · next read found =>
    split at known
    · cases known
    · next suffix suffixed =>
      intro c first
      rcases digits?_rest found with rest | ⟨mark, rest, whole, marked⟩
      · cases tail : (dropFinalLineFeed text.toList).dropWhile Text.isAsciiDigit with
        | nil =>
          rw [tail] at first
          cases first
        | cons head more =>
          rw [rest, tail] at suffixed
          rw [tail] at first
          obtain rfl : head = c := Option.some.inj first
          have letters : ∀ c ∈ ['u', 'U', 'l', 'L', 'i'], c ∉ ['.', 'e', 'E'] := by simp
          exact letters head (suffix?_head suffixed)
      · have marks : ∀ c ∈ ['x', 'X', 'b', 'B'],
            Text.isAsciiDigit c = false ∧ c ∉ ['.', 'e', 'E'] := by simp [Text.isAsciiDigit]
        obtain ⟨noDigit, different⟩ := marks mark marked
        have zero : Text.isAsciiDigit '0' = true := by decide
        simp only [whole, List.dropWhile_cons, zero, noDigit, if_true, Bool.false_eq_true,
          if_false, List.head?_cons, Option.mem_some_iff] at first
        exact first ▸ different

/-! ### Longer suffixes -/

section

variable {p : Char → Bool} {stop : Char}

theorem takeWhile_append_stop (stops : p stop = false) (text rest : List Char) :
    (text ++ stop :: rest).takeWhile p = text.takeWhile p := by
  induction text with
  | nil => simp [stops]
  | cons c text ih => simp only [List.cons_append, List.takeWhile_cons, ih]

theorem dropWhile_append_stop (stops : p stop = false) (text rest : List Char) :
    (text ++ stop :: rest).dropWhile p = text.dropWhile p ++ stop :: rest := by
  induction text with
  | nil => simp [stops]
  | cons c text ih =>
    simp only [List.cons_append, List.dropWhile_cons, ih]
    split <;> rfl

end

def lengthen (text : List Char) : List Char := text ++ ['l', 'l']

def Digits.lengthen (read : Digits) : Digits := { read with rest := Literal.lengthen read.rest }

def plainDigits? (text : List Char) : Option Digits :=
  match text.takeWhile Text.isAsciiDigit with
  | [] => none
  | ['0'] => some ⟨.decimal, ['0'], text.dropWhile Text.isAsciiDigit⟩
  | '0' :: more => some ⟨.octal, '0' :: more, text.dropWhile Text.isAsciiDigit⟩
  | digits => some ⟨.decimal, digits, text.dropWhile Text.isAsciiDigit⟩

def markedDigits? (style : NumberStyle) (isDigit : Char → Bool) (rest : List Char)
    (plain : Option Digits) : Option Digits :=
  match rest.takeWhile isDigit with
  | [] => plain
  | digits => some ⟨style, digits, rest.dropWhile isDigit⟩

theorem digits?_marked (mark : Char) (rest : List Char) :
    digits? ('0' :: mark :: rest) =
      if mark = 'x' ∨ mark = 'X' then
        markedDigits? .hex isHexDigit rest (plainDigits? ('0' :: mark :: rest))
      else if mark = 'b' ∨ mark = 'B' then
        markedDigits? .binary (fun c => c == '0' || c == '1') rest
          (plainDigits? ('0' :: mark :: rest))
      else plainDigits? ('0' :: mark :: rest) := rfl

theorem digits?_plain {text : List Char} (other : ∀ mark rest, text ≠ '0' :: mark :: rest) :
    digits? text = plainDigits? text := by
  unfold digits?
  extract_lets plain
  split
  · next mark rest => exact absurd rfl (other mark rest)
  · rfl

theorem plainDigits?_lengthen (text : List Char) :
    plainDigits? (lengthen text) = (plainDigits? text).map Digits.lengthen := by
  have stops : Text.isAsciiDigit 'l' = false := by decide
  unfold plainDigits? lengthen
  rw [takeWhile_append_stop stops, dropWhile_append_stop stops]
  split <;> rfl

theorem markedDigits?_lengthen {style : NumberStyle} {isDigit : Char → Bool}
    (stops : isDigit 'l' = false) (rest : List Char) (plain : Option Digits) :
    markedDigits? style isDigit (lengthen rest) (plain.map Digits.lengthen) =
      (markedDigits? style isDigit rest plain).map Digits.lengthen := by
  unfold markedDigits? lengthen
  rw [takeWhile_append_stop stops, dropWhile_append_stop stops]
  split <;> rfl

theorem digits?_lengthen (text : List Char) :
    digits? (lengthen text) = (digits? text).map Digits.lengthen := by
  have plain := plainDigits?_lengthen text
  by_cases zero : ∃ mark rest, text = '0' :: mark :: rest
  · obtain ⟨mark, rest, rfl⟩ := zero
    have whole : lengthen ('0' :: mark :: rest) = '0' :: mark :: lengthen rest := rfl
    rw [whole] at plain ⊢
    rw [digits?_marked, digits?_marked, plain, markedDigits?_lengthen (by decide),
      markedDigits?_lengthen (by decide)]
    split
    · rfl
    · split <;> rfl
  · have other : ∀ mark rest, text ≠ '0' :: mark :: rest :=
      fun mark rest whole => zero ⟨mark, rest, whole⟩
    rw [digits?_plain other, ← plain]
    match text with
    | [] => rfl
    | [c] =>
      by_cases same : c = '0'
      · subst same
        rfl
      · exact digits?_plain fun mark rest whole => same (List.cons.inj whole).1
    | c :: d :: rest =>
      refine digits?_plain fun mark more whole => other d rest ?_
      rw [(List.cons.inj whole).1]

theorem last_candidate (longWidth : Nat) (style : NumberStyle) (unsigned : Bool) (longs : Nat) :
    ((candidates longWidth style (.plain unsigned longs)).getLast?.getD .ulongLong).bits = 64 := by
  have widest : ∀ (p : IntType → Bool) (front : List IntType),
      p .longLong = true ∨ p .ulongLong = true →
      (((front ++ [IntType.longLong, .ulongLong]).filter p).getLast?.getD .ulongLong).bits = 64 := by
    intro p front found
    rw [List.filter_append, List.getLast?_append]
    cases other : p .ulongLong with
    | true =>
      have last : ([IntType.longLong, .ulongLong].filter p).getLast? = some .ulongLong := by
        rw [List.getLast?_filter]
        simp [other]
      rw [last]
      rfl
    | false =>
      have first : p .longLong = true := found.resolve_right (by simp [other])
      have last : ([IntType.longLong, .ulongLong].filter p).getLast? = some .longLong := by
        rw [List.getLast?_filter]
        simp [other, first]
      rw [last]
      rfl
  let long : List IntType := [⟨longWidth, true⟩, ⟨longWidth, false⟩]
  let longest : List IntType := [.longLong, .ulongLong]
  obtain ⟨front, whole⟩ : ∃ front : List IntType,
      (if 2 ≤ longs then longest else if longs = 1 then long ++ longest
        else [.int, .uint] ++ long ++ longest) = front ++ longest := by
    by_cases several : 2 ≤ longs
    · exact ⟨[], if_pos several⟩
    · by_cases one : longs = 1
      · exact ⟨long, by rw [if_neg several, if_pos one]⟩
      · exact ⟨[.int, .uint] ++ long, by rw [if_neg several, if_neg one]⟩
  simp only [long, longest] at whole
  simp only [candidates, whole]
  split
  · exact widest (!·.signed) front (.inr rfl)
  · split
    · exact widest (·.signed) front (.inl rfl)
    · rw [List.getLast?_append]
      rfl

theorem ofInt_typed (types : List IntType) (style : NumberStyle) (value : Nat)
    (widest : (types.getLast?.getD .ulongLong).bits = 64) :
    BitVec.ofInt 64 (typed types style value).value = BitVec.ofInt 64 value := by
  unfold typed
  split
  · rfl
  · exact IntType.ofInt_wrap widest _

theorem suffix?_lengthen {text : List Char} {suffix longer : Suffix}
    (found : suffix? text = some suffix) (lengthened : suffix? (lengthen text) = some longer) :
    ∃ unsigned longs longs', suffix = .plain unsigned longs ∧ longer = .plain unsigned longs' := by
  have letters : (lengthen text).all (fun c => c == 'u' || c == 'U' || c == 'l' || c == 'L') =
      text.all (fun c => c == 'u' || c == 'U' || c == 'l' || c == 'L') := by simp [lengthen]
  unfold suffix? at found lengthened
  rw [letters] at lengthened
  by_cases plain : text.all (fun c => c == 'u' || c == 'U' || c == 'l' || c == 'L') = true
  · rw [if_pos plain] at found lengthened
    cases found
    cases lengthened
    exact ⟨_, _, text.countP (fun c => c == 'l' || c == 'L') + 2, rfl, by simp [lengthen]⟩
  · exfalso
    have widths : ∀ {unsigned : Bool} {rest : List Char},
        sized? unsigned rest = some longer →
          rest.getLast? ∈ [some '8', some '6', some '2', some '4'] := by
      intro unsigned rest known
      unfold sized? at known
      split at known <;> simp_all
    rw [if_neg plain] at lengthened
    have noWidth : ∀ rest : List Char,
        (rest ++ ['l', 'l']).getLast? ∉ [some '8', some '6', some '2', some '4'] := by
      intro rest
      simp
    match text with
    | [] => exact plain rfl
    | c :: rest =>
      unfold lengthen at lengthened
      split at lengthened
      · next same =>
        obtain rfl := (List.cons.inj same).2
        exact noWidth rest (widths lengthened)
      · next same =>
        obtain rfl := (List.cons.inj same).2
        exact noWidth rest (widths lengthened)
      · exact noWidth (c :: rest) (widths lengthened)

theorem ofInt_integer_lengthen {text : String} {longWidth : Nat} {v longer : IntValue}
    (known : integer text longWidth = .ok v)
    (lengthened : integer (String.ofList (lengthen (dropFinalLineFeed text.toList))) longWidth =
      .ok longer) :
    BitVec.ofInt 64 v.value = BitVec.ofInt 64 longer.value := by
  have noLineFeed : ∀ text, dropFinalLineFeed (lengthen text) = lengthen text := by
    intro text
    simp [dropFinalLineFeed, lengthen]
  unfold integer at known lengthened
  rw [String.toList_ofList, noLineFeed, digits?_lengthen] at lengthened
  split at known
  · cases known
  · next read found =>
    rw [found] at lengthened
    split at known
    · cases known
    · next suffix suffixed =>
      simp only [Option.map_some, Digits.lengthen] at lengthened
      split at lengthened
      · cases lengthened
      · next suffix' suffixed' =>
        obtain ⟨unsigned, longs, longs', rfl, rfl⟩ := suffix?_lengthen suffixed suffixed'
        split at known
        · cases known
        · next octal =>
          rw [if_neg octal] at lengthened
          cases known
          cases lengthened
          rw [ofInt_typed _ _ _ (last_candidate ..), ofInt_typed _ _ _ (last_candidate ..)]

end CBindings.Literal
