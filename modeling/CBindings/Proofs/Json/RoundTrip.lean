import CBindings.Proofs.Integer.Decimal
import CBindings.Proofs.Json.Text

/-! What is read of a value as it is written, on one line or indented. -/

namespace CBindings

namespace Json

open Text

variable {after : List Char}

/-! ### Whole numbers -/

def Ends (after : List Char) : Prop :=
  ∀ c ∈ after.head?, isAsciiDigit c = false ∧ c ≠ '.' ∧ c ≠ 'e' ∧ c ≠ 'E'

theorem digitsValue_toDigits (n : Nat) : Decimal.digitsValue (Nat.toDigits 10 n) = n := by
  induction n using Nat.strongRecOn with
  | ind n ih =>
    have digit : ∀ d < 10, (Nat.digitChar d).toNat - '0'.toNat = d := by decide
    rcases Nat.lt_or_ge n 10 with small | large
    · rw [Nat.toDigits_of_lt_base small]
      rw [Decimal.digitsValue, List.foldl_cons, List.foldl_nil, digit n small, Nat.zero_mul,
        Nat.zero_add]
    · have front := ih (n / 10) (by omega)
      rw [Decimal.digitsValue] at front ⊢
      rw [Nat.toDigits_of_base_le (by decide) large, List.foldl_append, front, List.foldl_cons,
        List.foldl_nil, digit _ (Nat.mod_lt n (by decide))]
      omega

theorem takeWhile_digits (ends : Ends after) (n : Nat) :
    (Nat.toDigits 10 n ++ after).takeWhile isAsciiDigit = Nat.toDigits 10 n ∧
      (Nat.toDigits 10 n ++ after).dropWhile isAsciiDigit = after := by
  have digits : ∀ c ∈ Nat.toDigits 10 n, isAsciiDigit c = true := fun c => mem_toDigits
  rw [List.takeWhile_append_of_pos digits, List.dropWhile_append_of_pos digits]
  cases after with
  | nil => simp
  | cons c rest => simp [(ends c rfl).1]

theorem whole?_toDigits (ends : Ends after) (n : Nat) :
    whole? (Nat.toDigits 10 n ++ after) = some (Nat.toDigits 10 n, after) := by
  have digits : digits? (Nat.toDigits 10 n ++ after) = some (Nat.toDigits 10 n, after) := by
    rw [digits?, (takeWhile_digits ends n).1, (takeWhile_digits ends n).2,
      if_neg Nat.toDigits_ne_nil]
  unfold whole?
  split
  · next rest zero =>
    rcases Nat.eq_zero_or_pos n with rfl | positive
    · rw [Nat.toDigits_zero] at zero ⊢
      cases zero
      rfl
    · have front := head_toDigits positive
      cases written : Nat.toDigits 10 n with
      | nil => exact absurd written Nat.toDigits_ne_nil
      | cons first others =>
        rw [written] at zero front
        cases zero
        exact absurd rfl front
  · exact digits

theorem fraction_ends (ends : Ends after) : fraction after = ([], after) := by
  unfold fraction
  split
  · next rest => exact absurd rfl (ends '.' rfl).2.1
  · rfl

theorem power_ends (ends : Ends after) : power after = ([], after) := by
  unfold power
  split
  · next mark rest =>
    obtain ⟨-, -, small, capital⟩ := ends mark rfl
    simp [small, capital]
  · rfl

theorem unsigned?_toDigits (ends : Ends after) (negative : Bool) (n : Nat) :
    unsigned? negative (Nat.toDigits 10 n ++ after) =
      some (.int (if negative then -n else n), after) := by
  simp [unsigned?, whole?_toDigits ends, fraction_ends ends, power_ends ends,
    digitsValue_toDigits]

theorem ne_digit {c other : Char} (digit : isAsciiDigit c = true)
    (mark : isAsciiDigit other = false) : other ≠ c := by
  rintro rfl
  rw [digit] at mark
  cases mark

theorem word?_digit {c : Char} (digit : isAsciiDigit c = true) (rest : List Char) :
    word? (c :: rest) = none ∧ word? ('-' :: c :: rest) = none := by
  have other := @ne_digit c
  simp [word?, words, other digit (rfl : isAsciiDigit 'n' = false),
    other digit (rfl : isAsciiDigit 't' = false), other digit (rfl : isAsciiDigit 'f' = false),
    other digit (rfl : isAsciiDigit 'N' = false), other digit (rfl : isAsciiDigit 'I' = false),
    other digit (rfl : isAsciiDigit '-' = false)]

theorem number?_digit {c : Char} (digit : isAsciiDigit c = true) (rest : List Char) :
    number? (c :: rest) = unsigned? false (c :: rest) := by
  unfold number?
  split
  · next minus =>
    cases minus
    exact absurd digit (by decide)
  · rfl

/-! ### Numbers and words in a text -/

theorem atomSpan_append {chars : List Char} (all : ∀ c ∈ chars, isAtomChar c = true)
    (after : JsonText) : atomSpan (chars.map .char ++ after) =
      (chars ++ (atomSpan after).1, (atomSpan after).2) := by
  induction chars with
  | nil => rfl
  | cons c rest ih =>
    rw [List.forall_mem_cons] at all
    simp only [List.map_cons, List.cons_append, atomSpan, all.1, if_true, ih all.2]

theorem atomSpan_whole (text : JsonText) :
    (atomSpan text).1.map .char ++ (atomSpan text).2 = text := by
  fun_induction atomSpan text with
  | case1 | case2 | case4 => rfl
  | case3 c rest _ chars after spanned ih =>
    rw [spanned] at ih
    exact congrArg (_ :: ·) ih

theorem atomSpan_head (after : List Char) :
    ∀ c ∈ (atomSpan (after.map .char)).1.head?, c ∈ after.head? := by
  intro c first
  cases after with
  | nil => cases first
  | cons other rest =>
    simp only [List.map_cons, atomSpan] at first
    split at first
    · cases first
      rfl
    · cases first

/-- A number or a word is read in front of any text that does not go on with it. -/
theorem token?_atom {c : Char} {chars : List Char} {value : Json}
    (starts : ∀ rest, token? c rest = (atom? (c :: (atomSpan rest).1)).map fun (value, after) =>
      (.value value, after.map .char ++ (atomSpan rest).2))
    (all : ∀ c ∈ chars, isAtomChar c = true) {after : List Char}
    (read : ∀ next, (∀ c ∈ next.head?, c ∈ after.head?) →
      atom? (c :: (chars ++ next)) = some (value, next)) :
    token? c ((chars ++ after).map .char) = some (.value value, after.map .char) := by
  rw [starts, List.map_append, atomSpan_append all, read _ (atomSpan_head after)]
  exact congrArg (fun rest => some (JsonToken.value value, rest)) (atomSpan_whole _)

theorem isAtomChar_digit {c : Char} (digit : isAsciiDigit c = true) : isAtomChar c = true := by
  simp only [isAsciiDigit, Bool.and_eq_true, decide_eq_true_eq] at digit
  have inner : c.isDigit = true := by
    simp only [Char.isDigit, Bool.and_eq_true, decide_eq_true_eq]
    exact digit
  simp [isAtomChar, Char.isAlphanum, inner]

theorem token?_starts {c : Char} (digit : isAsciiDigit c = true) (rest : JsonText) :
    token? c rest = (atom? (c :: (atomSpan rest).1)).map fun (value, after) =>
      (.value value, after.map .char ++ (atomSpan rest).2) := by
  unfold token?
  split
  case h_8 => rfl
  all_goals exact absurd rfl (ne_digit digit rfl)

theorem isSpace_digit {c : Char} (digit : isAsciiDigit c = true) : isSpace c = false := by
  simp [isSpace, (ne_digit digit (rfl : isAsciiDigit ' ' = false)).symm,
    (ne_digit digit (rfl : isAsciiDigit '\t' = false)).symm,
    (ne_digit digit (rfl : isAsciiDigit '\n' = false)).symm,
    (ne_digit digit (rfl : isAsciiDigit '\r' = false)).symm]

theorem Ends.of_head (ends : Ends after) {next : List Char}
    (head : ∀ c ∈ next.head?, c ∈ after.head?) : Ends next :=
  fun c first => ends c (head c first)

/-- A whole number is read as it is written, if what follows is not taken for a part of it. -/
theorem token?_int (ends : Ends after) (n : Int) : ∃ c rest,
    (toString n).toList ++ after = c :: rest ∧ isSpace c = false ∧
      token? c (rest.map .char) = some (.value (.int n), after.map .char) := by
  cases n with
  | ofNat n =>
    cases written : Nat.toDigits 10 n with
    | nil => exact absurd written Nat.toDigits_ne_nil
    | cons c rest =>
      have digits : ∀ other ∈ c :: rest, isAsciiDigit other = true :=
        fun other member => mem_toDigits (written ▸ member)
      have digit := digits c List.mem_cons_self
      refine ⟨c, rest ++ after, ?_, isSpace_digit digit, token?_atom (token?_starts digit) ?_ ?_⟩
      · have spelled : (toString (Int.ofNat n)).toList = Nat.toDigits 10 n := Nat.toList_repr
        rw [spelled, written]
        rfl
      · exact fun other member => isAtomChar_digit (digits other (List.mem_cons_of_mem _ member))
      · intro next head
        rw [atom?, (word?_digit digit _).1]
        change number? (c :: (rest ++ next)) = _
        rw [number?_digit digit, ← List.cons_append, ← written,
          unsigned?_toDigits (ends.of_head head)]
        rfl
  | negSucc n =>
    cases written : Nat.toDigits 10 (n + 1) with
    | nil => exact absurd written Nat.toDigits_ne_nil
    | cons c rest =>
      have digits : ∀ other ∈ c :: rest, isAsciiDigit other = true :=
        fun other member => mem_toDigits (written ▸ member)
      have digit := digits c List.mem_cons_self
      refine ⟨'-', c :: rest ++ after, ?_, rfl, token?_atom (fun _ => rfl) ?_ ?_⟩
      · have spelled : (toString (Int.negSucc n)).toList = '-' :: Nat.toDigits 10 (n + 1) := by
          have sign : toString (Int.negSucc n) = "-" ++ (n + 1).repr := rfl
          rw [sign, String.toList_append, Nat.toList_repr]
          rfl
        rw [spelled, written]
        rfl
      · exact fun other member => isAtomChar_digit (digits other member)
      · intro next head
        have read : number? ('-' :: (c :: rest ++ next)) =
            unsigned? true (Nat.toDigits 10 (n + 1) ++ next) := by
          rw [written]
          rfl
        rw [atom?, List.cons_append, (word?_digit digit _).2]
        change number? ('-' :: (c :: rest ++ next)) = _
        rw [read, unsigned?_toDigits (ends.of_head head)]
        rfl

theorem token?_null (after : List Char) : token? 'n' (("ull".toList ++ after).map .char) =
    some (.value .null, after.map .char) :=
  token?_atom (fun _ => rfl) (by simp [isAtomChar]) fun _ _ => rfl

theorem token?_true (after : List Char) : token? 't' (("rue".toList ++ after).map .char) =
    some (.value (.bool true), after.map .char) :=
  token?_atom (fun _ => rfl) (by simp [isAtomChar]) fun _ _ => rfl

theorem token?_false (after : List Char) : token? 'f' (("alse".toList ++ after).map .char) =
    some (.value (.bool false), after.map .char) :=
  token?_atom (fun _ => rfl) (by simp [isAtomChar]) fun _ _ => rfl

/-! ### What is read -/

mutual

def settled : Json → Json
  | text units => .text units.joined
  | array items => .array (settledItems items)
  | keyed members => .keyed (OrderedMap.ofList (settledMembers members)).entries
  | null => null
  | bool b => bool b
  | int n => int n
  | real x => real x

def settledItems : List Json → List Json
  | [] => []
  | item :: rest => settled item :: settledItems rest

def settledMembers : List (JsonText × Json) → List (JsonText × Json)
  | [] => []
  | (key, item) :: rest => (key.joined, settled item) :: settledMembers rest

end

mutual

def IsExact : Json → Prop
  | real _ => False
  | array items => ExactItems items
  | keyed members => ExactMembers members
  | null | bool _ | int _ | text _ => True

def ExactItems : List Json → Prop
  | [] => True
  | item :: rest => IsExact item ∧ ExactItems rest

def ExactMembers : List (JsonText × Json) → Prop
  | [] => True
  | (_, item) :: rest => IsExact item ∧ ExactMembers rest

end

def resume (phase : Phase) (text : List Char) : Option Phase := do
  (← tokens? (text.map .char)).foldlM step phase

theorem resume_space {c : Char} (space : isSpace c = true) (phase : Phase) (rest : List Char) :
    resume phase (c :: rest) = resume phase rest := by
  rw [resume, List.map_cons, tokens?, if_pos space, resume]

theorem resume_token {c : Char} {rest : List Char} {token : JsonToken} {phase later : Phase}
    (visible : isSpace c = false) (read : token? c (rest.map .char) = some (token, after.map .char))
    (next : step phase token = some later) : resume phase (c :: rest) = resume later after := by
  have tokens : tokens? ((c :: rest).map .char) = (tokens? (after.map .char)).map (token :: ·) := by
    rw [List.map_cons, tokens?, if_neg (by simp [visible])]
    split
    · next missing => cases read.symm.trans missing
    · next found =>
      cases read.symm.trans found
      rfl
  rw [resume, resume, tokens]
  cases tokens? (after.map .char) with
  | none => rfl
  | some rest => simp [next]

theorem resume_lineBreak (indent : Option Nat) (level : Nat) (phase : Phase) (rest : List Char) :
    resume phase (lineBreak indent level ++ rest) = resume phase rest := by
  cases indent with
  | none => rfl
  | some width =>
    have blanks : ∀ count,
        resume phase (List.replicate count ' ' ++ rest) = resume phase rest := by
      intro count
      induction count with
      | zero => rfl
      | succ count ih =>
        rw [List.replicate_succ, List.cons_append, resume_space rfl]
        exact ih
    rw [lineBreak, List.cons_append, resume_space rfl]
    exact blanks _

theorem resume_separator {phase later : Phase} (next : step phase .comma = some later)
    (indent : Option Nat) (level : Nat) (rest : List Char) :
    resume phase (separator indent level ++ rest) = resume later rest := by
  have comma : ∀ blanks, resume phase (',' :: blanks) = resume later blanks :=
    fun blanks => resume_token rfl rfl next
  cases indent with
  | none => exact (comma _).trans (resume_space rfl later rest)
  | some width => exact (comma _).trans (resume_lineBreak (some width) level later rest)

theorem resume_quoted {phase later : Phase} {text : JsonText}
    (next : step phase (.value (.text text.joined)) = some later) (rest : List Char) :
    resume phase (quotedText text ++ rest) = resume later rest := by
  have spelled : quotedText text ++ rest = '"' :: (text.flatMap escapedUnit ++ '"' :: rest) := by
    simp [quotedText]
  have read : token? '"' ((text.flatMap escapedUnit ++ '"' :: rest).map .char) =
      some (.value (.text text.joined), rest.map .char) := by
    rw [← ofUnits_written, token?, List.map_append, List.map_cons, stringUnits?_quoted]
    rfl
  rw [spelled]
  exact resume_token rfl read next

def Awaits (phase : Phase) (stack : List Frame) : Prop :=
  ∀ token, token ≠ .closeArray → step phase token = startValue stack token

theorem awaits_value (stack : List Frame) : Awaits (.value stack) stack := fun _ _ => rfl

theorem awaits_firstItem (stack : List Frame) :
    Awaits (.firstItem stack) (.array [] :: stack) := by
  intro token other
  cases token with
  | closeArray => exact absurd rfl other
  | _ => rfl

theorem ends_writeItems (indent : Option Nat) (level : Nat) (items : List Json)
    (after : List Char) : Ends (writeItems indent level items after) := by
  intro c first
  cases items <;> cases indent <;> rw [writeItems] at first <;> cases first <;> decide

theorem ends_writeMembers (indent : Option Nat) (level : Nat) (members : List (JsonText × Json))
    (after : List Char) : Ends (writeMembers indent level members after) := by
  intro c first
  cases members <;> cases indent <;> rw [writeMembers] at first <;> cases first <;> decide

mutual

/-- A value that is written is read again, and goes where a value is awaited. -/
theorem resume_write (indent : Option Nat) (level : Nat) (value : Json) {after : List Char}
    (ends : Ends after) (isExact : value.IsExact) {phase : Phase} {stack : List Frame}
    (awaits : Awaits phase stack) :
    resume phase (write indent level value after) = resume (deliver value.settled stack) after := by
  have next : ∀ value, step phase (.value value) = some (deliver value stack) :=
    fun value => awaits (.value value) nofun
  cases value with
  | null => exact resume_token rfl (token?_null after) (next null)
  | bool b =>
    cases b with
    | true => exact resume_token rfl (token?_true after) (next _)
    | false => exact resume_token rfl (token?_false after) (next _)
  | int n =>
    obtain ⟨c, rest, written, visible, read⟩ := token?_int ends n
    rw [write, written]
    exact resume_token visible read (next _)
  | real x => exact isExact.elim
  | text units => exact resume_quoted (next _) after
  | array items =>
    have opened : step phase .openArray = some (.firstItem stack) := awaits .openArray nofun
    cases items with
    | nil =>
      have closed : step (.firstItem stack) .closeArray = some (deliver (.array []) stack) := rfl
      exact (resume_token rfl rfl opened).trans (resume_token rfl rfl closed)
    | cons item rest =>
      calc resume phase (write indent level (array (item :: rest)) after)
        _ = resume (.firstItem stack) (lineBreak indent (level + 1) ++
              write indent (level + 1) item (writeItems indent level rest after)) :=
            resume_token rfl rfl opened
        _ = resume (.firstItem stack)
              (write indent (level + 1) item (writeItems indent level rest after)) :=
            resume_lineBreak indent (level + 1) _ _
        _ = resume (.nextItem [item.settled] stack) (writeItems indent level rest after) :=
            resume_write indent (level + 1) item (ends_writeItems indent level rest after)
              isExact.1 (awaits_firstItem stack)
        _ = resume (deliver (array (item :: rest)).settled stack) after :=
            resume_writeItems indent level rest isExact.2 [item.settled] stack after
  | keyed members =>
    have opened : step phase .openObject = some (.firstKey stack) := awaits .openObject nofun
    cases members with
    | nil =>
      have closed : step (.firstKey stack) .closeObject = some (deliver (.keyed []) stack) := rfl
      exact (resume_token rfl rfl opened).trans (resume_token rfl rfl closed)
    | cons member rest =>
      obtain ⟨key, item⟩ := member
      calc resume phase (write indent level (keyed ((key, item) :: rest)) after)
        _ = resume (.firstKey stack) (lineBreak indent (level + 1) ++ quotedText key ++
              ':' :: ' ' :: write indent (level + 1) item (writeMembers indent level rest after)) :=
            resume_token rfl rfl opened
        _ = resume (.firstKey stack) (quotedText key ++ ':' :: ' ' ::
              write indent (level + 1) item (writeMembers indent level rest after)) := by
            rw [List.append_assoc, resume_lineBreak]
        _ = resume (.colon [] key.joined stack) (':' :: ' ' ::
              write indent (level + 1) item (writeMembers indent level rest after)) :=
            resume_quoted rfl _
        _ = resume (.value (.object [] key.joined :: stack))
              (write indent (level + 1) item (writeMembers indent level rest after)) :=
            (resume_token rfl rfl rfl).trans (resume_space rfl _ _)
        _ = resume (.nextKey [(key.joined, item.settled)] stack)
              (writeMembers indent level rest after) :=
            resume_write indent (level + 1) item (ends_writeMembers indent level rest after)
              isExact.1 (awaits_value _)
        _ = resume (deliver (objectOf ((settledMembers rest).reverse ++
              [(key.joined, item.settled)])) stack) after :=
            resume_writeMembers indent level rest isExact.2 _ stack after
        _ = resume (deliver (keyed ((key, item) :: rest)).settled stack) after := by
            rw [objectOf, List.reverse_append, List.reverse_reverse, settled, settledMembers]
            rfl

theorem resume_writeItems (indent : Option Nat) (level : Nat) (items : List Json)
    (isExact : ExactItems items) (done : List Json) (stack : List Frame) (after : List Char) :
    resume (.nextItem done stack) (writeItems indent level items after) =
      resume (deliver (.array (done.reverse ++ settledItems items)) stack) after := by
  cases items with
  | nil =>
    have closed : step (.nextItem done stack) .closeArray =
        some (deliver (.array done.reverse) stack) := rfl
    rw [writeItems, resume_lineBreak, settledItems, List.append_nil]
    exact resume_token rfl rfl closed
  | cons item rest =>
    have more : step (.nextItem done stack) .comma = some (.value (.array done :: stack)) := rfl
    calc resume (.nextItem done stack) (writeItems indent level (item :: rest) after)
      _ = resume (.value (.array done :: stack))
            (write indent (level + 1) item (writeItems indent level rest after)) :=
          resume_separator more indent (level + 1) _
      _ = resume (.nextItem (item.settled :: done) stack) (writeItems indent level rest after) :=
          resume_write indent (level + 1) item (ends_writeItems indent level rest after)
            isExact.1 (awaits_value _)
      _ = resume (deliver (.array ((item.settled :: done).reverse ++ settledItems rest)) stack)
            after :=
          resume_writeItems indent level rest isExact.2 _ stack after
      _ = resume (deliver (.array (done.reverse ++ settledItems (item :: rest))) stack) after := by
          rw [List.reverse_cons, List.append_assoc, settledItems]
          rfl

theorem resume_writeMembers (indent : Option Nat) (level : Nat) (members : List (JsonText × Json))
    (isExact : ExactMembers members) (done : List (JsonText × Json)) (stack : List Frame)
    (after : List Char) :
    resume (.nextKey done stack) (writeMembers indent level members after) =
      resume (deliver (objectOf ((settledMembers members).reverse ++ done)) stack) after := by
  cases members with
  | nil =>
    have closed : step (.nextKey done stack) .closeObject =
        some (deliver (objectOf done) stack) := rfl
    rw [writeMembers, resume_lineBreak, settledMembers]
    exact resume_token rfl rfl closed
  | cons member rest =>
    obtain ⟨key, item⟩ := member
    have more : step (.nextKey done stack) .comma = some (.key done stack) := rfl
    calc resume (.nextKey done stack) (writeMembers indent level ((key, item) :: rest) after)
      _ = resume (.key done stack) (quotedText key ++ ':' :: ' ' ::
            write indent (level + 1) item (writeMembers indent level rest after)) := by
          rw [writeMembers, List.append_assoc, resume_separator more]
      _ = resume (.colon done key.joined stack) (':' :: ' ' ::
            write indent (level + 1) item (writeMembers indent level rest after)) :=
          resume_quoted rfl _
      _ = resume (.value (.object done key.joined :: stack))
            (write indent (level + 1) item (writeMembers indent level rest after)) :=
          (resume_token rfl rfl rfl).trans (resume_space rfl _ _)
      _ = resume (.nextKey ((key.joined, item.settled) :: done) stack)
            (writeMembers indent level rest after) :=
          resume_write indent (level + 1) item (ends_writeMembers indent level rest after)
            isExact.1 (awaits_value _)
      _ = resume (deliver (objectOf ((settledMembers rest).reverse ++
            (key.joined, item.settled) :: done)) stack) after :=
          resume_writeMembers indent level rest isExact.2 _ stack after
      _ = resume (deliver (objectOf ((settledMembers ((key, item) :: rest)).reverse ++ done))
            stack) after := by
          rw [settledMembers, List.reverse_cons, List.append_assoc]
          rfl

end

/-- A value is read again from its text on one line, and from its text with any indentation. -/
theorem read?_render (value : Json) (isExact : value.IsExact) (indent : Option Nat) :
    read? (.ofString (value.render indent)) = some value.settled := by
  have ends : Ends [] := by
    rintro c ⟨⟩
  have whole : resume (.value []) (write indent 0 value []) = some (.finished value.settled) := by
    rw [resume_write indent 0 value ends isExact (awaits_value []), resume, List.map_nil, tokens?]
    rfl
  obtain ⟨tokens, lexed, run⟩ := Option.bind_eq_some_iff.mp whole
  rw [read?, render, JsonText.ofString, String.toList_ofList, lexed]
  simp only [Option.bind_eq_bind, Option.bind_some, run]

end Json

end CBindings
