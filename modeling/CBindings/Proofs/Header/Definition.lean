import CBindings.Proofs.Header.Predefined
import CBindings.Proofs.Macro.Definition
import CBindings.Proofs.Text.Span
import CBindings.Proofs.Token.Blank
import CBindings.Proofs.Token.Name

/-! Definitions of object-like macros as they stand in a header: which name a line defines, with
which body, and which name a line takes back. -/

namespace CBindings

open Expansion

namespace Text

variable {text front : List Char} {c : Char}

theorem stripRight_append (solid : ∀ c ∈ front.getLast?, isBlank c = false) (text : List Char) :
    stripRight (front ++ text) = front ++ stripRight text := by
  have kept : front.reverse.dropWhile isBlank = front.reverse := by
    cases whole : front.reverse with
    | nil => rfl
    | cons last others =>
      have final : front.getLast? = some last := by
        rw [← List.head?_reverse, whole]
        rfl
      simp [solid last final]
  unfold stripRight
  rw [List.reverse_append, List.dropWhile_append, kept]
  split
  · next none =>
    rw [List.isEmpty_iff.mp none]
    simp
  · simp

/-- A blank in front goes with a text that is blank, and stays in front of any other. -/
theorem stripRight_cons_blank (blank : isBlank c = true) (text : List Char) :
    stripRight (c :: text) = [] ∧ stripRight text = [] ∨
      stripRight (c :: text) = c :: stripRight text := by
  unfold stripRight
  rw [List.reverse_cons, List.dropWhile_append]
  split
  · next none =>
    left
    rw [List.isEmpty_iff.mp none]
    simp [blank]
  · right
    simp

end Text

namespace Lexer

open Text

theorem isBlank_of_isSpace {c : Char} (space : isSpace c = true) : isBlank c = true := by
  simp only [isSpace, Bool.or_eq_true, beq_iff_eq] at space
  rcases space with ((((rfl | rfl) | rfl) | rfl) | rfl) | rfl <;> decide

/-- A space in front of a body and blanks behind it are no part of its tokens, but for the blanks
that the lexer does not skip. -/
theorem tokensOf_stripRight {blank : Char} (space : isSpace blank = true) (line : Nat)
    (body : List Char) :
    tokensOf line (stripRight (blank :: body)) ++ strays line (trailing body) =
      tokensOf line body := by
  have stripped : tokensOf line (stripRight (blank :: body)) = tokensOf line (stripRight body) := by
    rcases stripRight_cons_blank (isBlank_of_isSpace space) body with ⟨none, none'⟩ | one
    · rw [none, none']
    · rw [one, tokensOf, if_pos space]
  have whole := tokensOf_append_blanks (blanks_trailing body) line (stripRight body)
  rw [stripRight_append_trailing, tokensOf_blanks (blanks_trailing body)] at whole
  rw [stripped, whole]

end Lexer

namespace Directive

open Text Lexer

variable {name rest : List Char}

/-- The part of a name that a definition takes for the name: what stands in front of a dollar
sign. -/
def defined (name : List Char) : List Char := name.takeWhile (· != '$')

theorem isWord_eq {c : Char} (inside : isIdentChar c = true) : isWord c = (c != '$') := by
  have small := (lexeme_range (.inr inside)).2
  rw [isWord, if_pos small]
  by_cases dollar : c = '$'
  · subst dollar
    rfl
  · have other : (c == '$') = false := beq_eq_false_iff_ne.mpr dollar
    rw [isIdentChar, isIdentStart, other, Bool.or_false] at inside
    rw [bne, other, Bool.not_false, Bool.or_right_comm, inside]

theorem isNameStart_eq {c : Char} (starts : isIdentStart c = true) :
    isNameStart c = (c != '$') := by
  by_cases dollar : c = '$'
  · subst dollar
    rfl
  · have other : (c == '$') = false := beq_eq_false_iff_ne.mpr dollar
    rw [isIdentStart, other, Bool.or_false] at starts
    rw [bne, other, Bool.not_false, isNameStart, starts]

/-- What follows the part of a name that is taken starts with a dollar sign or not in the name. -/
theorem head_dropWhile_dollar (name rest : List Char) :
    ∀ c ∈ (name.dropWhile (· != '$') ++ rest).head?, c = '$' ∨ c ∈ rest.head? := by
  intro c first
  have dollars := List.head?_dropWhile_not (· != '$') name
  cases back : name.dropWhile (· != '$') with
  | nil =>
    rw [back] at first
    exact .inr first
  | cons d more =>
    rw [back] at first dollars
    obtain rfl : d = c := Option.some.inj first
    exact .inl (by simpa using dollars)

theorem nameAt?_name (isName : IsName name) (stops : ∀ c ∈ rest.head?, isWord c = false) :
    nameAt? (name ++ rest) =
      if defined name = [] then none
      else some (defined name, name.dropWhile (· != '$') ++ rest) := by
  obtain ⟨c, tail, rfl, starts, inside⟩ := isName.exists_cons
  rw [List.cons_append, nameAt?, isNameStart_eq starts]
  by_cases dollar : c = '$'
  · subst dollar
    rfl
  · have front : (c != '$') = true := bne_iff_ne.mpr dollar
    have words : ∀ d ∈ tail.takeWhile (· != '$'), isWord d = true := by
      intro d member
      have before : (d != '$') = true := List.mem_takeWhile_imp (p := (· != '$')) member
      rw [isWord_eq (inside d ((List.takeWhile_prefix _).subset member)), before]
    have ends : ∀ d ∈ (tail.dropWhile (· != '$') ++ rest).head?, isWord d = false := by
      intro d first
      rcases head_dropWhile_dollar tail rest d first with rfl | after
      · rfl
      · exact stops d after
    have span := span_append words ends
    rw [← List.append_assoc, List.takeWhile_append_dropWhile] at span
    simp [front, span.1, span.2, defined]

theorem not_isWord_of_isSpace {c : Char} (space : isSpace c = true) : isWord c = false := by
  simp only [isSpace, Bool.or_eq_true, beq_iff_eq] at space
  rcases space with ((((rfl | rfl) | rfl) | rfl) | rfl) | rfl <;> decide

theorem definition?_name (isName : IsName name) (stops : ∀ c ∈ rest.head?, isSpace c = true) :
    definition? (name ++ rest) =
      if defined name = [] then none
      else some ⟨String.ofList (defined name), none, false,
        String.ofList (name.dropWhile (· != '$') ++ rest)⟩ := by
  have read := nameAt?_name isName fun c first => not_isWord_of_isSpace (stops c first)
  unfold definition?
  rw [read]
  by_cases empty : defined name = []
  · rw [if_pos empty, if_pos empty]
  · rw [if_neg empty, if_neg empty]
    simp only
    split
    · next inner opens =>
      have first : '(' ∈ (name.dropWhile (· != '$') ++ rest).head? := by
        rw [opens]
        rfl
      rcases head_dropWhile_dollar name rest '(' first with dollar | space
      · cases dollar
      · cases stops '(' space
    · rfl

/-! ### Lines -/

theorem ofLine?_define (rest : List Char) :
    ofLine? ("#define".toList ++ ' ' :: rest) = some ⟨"define", strip rest⟩ := rfl

theorem ofLine?_undef (rest : List Char) :
    ofLine? ("#undef".toList ++ ' ' :: rest) = some ⟨"undef", strip rest⟩ := rfl

theorem not_isBlank_of_isIdentChar {c : Char} (inside : isIdentChar c = true) :
    isBlank c = false := by
  cases blank : isBlank c with
  | false => rfl
  | true => cases inside.symm.trans (not_isIdentChar blank)

theorem strip_name (isName : IsName name) (rest : List Char) :
    strip (name ++ rest) = name ++ stripRight rest := by
  have solid : ∀ c ∈ name, isBlank c = false := fun c member =>
    not_isBlank_of_isIdentChar (isName.2 c member)
  have left : stripLeft (name ++ rest) = name ++ rest := by
    obtain ⟨c, tail, rfl, -, -⟩ := isName.exists_cons
    simp [stripLeft, solid c List.mem_cons_self]
  rw [strip, left, stripRight_append fun c last => solid c (List.mem_of_getLast? last)]

theorem firstWord_name (isName : IsName name) : firstWord name = String.ofList name := by
  have solid : ∀ c ∈ name, (!isBlank c) = true := by
    intro c member
    rw [not_isBlank_of_isIdentChar (isName.2 c member), Bool.not_false]
  have left : stripLeft name = name := by
    obtain ⟨c, tail, rfl, -, -⟩ := isName.exists_cons
    have here := solid c List.mem_cons_self
    simp only [Bool.not_eq_true'] at here
    simp [stripLeft, here]
  rw [firstWord, left, List.takeWhile_eq_self_iff.mpr solid]

end Directive

namespace IncludeGraph

open Text Lexer Directive

variable {reading : Reading} {scan : Scan} {walk : Walk} {name : String} {line : Nat}

theorem readLine_act (active : Branches.active scan.branches = true) {text : List Char}
    {directive : Directive} (isDirective : Directive.ofLine? text = some directive)
    (plain : directive.name ∉ structural) :
    readLine reading scan walk ⟨line, text⟩ = .ok (.plain
      (act directive line (flush scan walk).1 (flush scan walk).2)) := by
  have still : Branches.active (flush scan walk).1.branches = true := active
  rw [readLine, isDirective]
  simp only
  rw [carryOut_act plain, if_pos still]

/-- What a definition does to a name that the lexer reads as one identifier: its part in front of
the first dollar sign is defined, and the rest of it belongs to the body. -/
theorem readLine_define (reading : Reading) (walk : Walk) (line : Nat)
    (active : Branches.active scan.branches = true)
    (isName : IsName name.toList) {blank : Char} (space : isSpace blank = true)
    (body : List Char) : ∃ scan' walk',
      readLine reading scan walk ⟨line, "#define".toList ++ ' ' :: (name.toList ++ blank :: body)⟩ =
        .ok (.plain (scan', walk')) ∧
      walk'.table =
        if defined name.toList = [] then walk.table
        else walk.table.define
          { name := String.ofList (defined name.toList)
            body := tokensOf line (name.toList.dropWhile (· != '$') ++ stripRight (blank :: body))
            source := some scan.header.name
            line := some line } := by
  have isDirective := ofLine?_define (name.toList ++ blank :: body)
  rw [strip_name isName] at isDirective
  have plain : "define" ∉ structural := by decide
  let defined' := define (name.toList ++ stripRight (blank :: body)) line (flush scan walk).1
    (flush scan walk).2
  refine ⟨defined'.1, defined'.2, readLine_act active isDirective plain, ?_⟩
  have stops : ∀ c ∈ (stripRight (blank :: body)).head?, isSpace c = true := by
    intro c first
    rcases stripRight_cons_blank (isBlank_of_isSpace space) body with ⟨none, -⟩ | one
    · rw [none] at first
      cases first
    · rw [one] at first
      obtain rfl : blank = c := Option.some.inj first
      exact space
  have reads := definition?_name isName stops
  by_cases empty : defined name.toList = []
  · rw [if_pos empty] at reads ⊢
    simp only [defined', define, reads]
    rfl
  · rw [if_neg empty] at reads ⊢
    simp only [defined', define, reads, tokenize, String.toList_ofList]
    rfl

theorem readLine_undef (reading : Reading) (walk : Walk) (line : Nat)
    (active : Branches.active scan.branches = true)
    (isName : IsName name.toList) : ∃ scan' walk',
      readLine reading scan walk ⟨line, "#undef".toList ++ ' ' :: name.toList⟩ =
        .ok (.plain (scan', walk')) ∧ walk'.table = walk.table.undefine name := by
  have isDirective := ofLine?_undef name.toList
  have whole := strip_name isName []
  have empty : stripRight [] = [] := rfl
  rw [List.append_nil, empty, List.append_nil] at whole
  rw [whole] at isDirective
  have plain : "undef" ∉ structural := by decide
  have word := firstWord_name isName
  rw [String.ofList_toList] at word
  refine ⟨(flush scan walk).1,
    { (flush scan walk).2 with table := (flush scan walk).2.table.undefine name }, ?_, rfl⟩
  rw [readLine_act active isDirective plain]
  simp only [act, String.reduceEq, if_true, if_false, word]

theorem defined_eq_self {name : List Char} (plain : '$' ∉ name) :
    defined name = name ∧ name.dropWhile (· != '$') = [] := by
  have all : ∀ c ∈ name, (c != '$') = true := by
    intro c member
    rw [bne_iff_ne]
    rintro rfl
    exact plain member
  exact ⟨List.takeWhile_eq_self_iff.mpr all, List.dropWhile_eq_nil_iff.mpr all⟩

theorem dollar_not_mem_defined (name : List Char) : '$' ∉ defined name := by
  intro member
  have other : ('$' != '$') = true := List.mem_takeWhile_imp (p := (· != '$')) member
  cases other

/-- A definition and its removal act on the identifier that the lexer sees, on no other name, and
with the tokens of the body, but for blanks behind the body that the lexer does not skip. A dollar
sign in the name is the one exception: the definition is then one of the name in front of it. -/
theorem define_undef_lines (reading : Reading) (active : Branches.active scan.branches = true)
    (single : tokenize name line = [⟨.ident, name, line⟩])
    (free : walk.table.isPredefined name = false) (ordinary : name ≠ "defined") :
    (∀ blank, isSpace blank = true → ∀ body, ∃ scan' walk',
      readLine reading scan walk
          ⟨line, "#define".toList ++ ' ' :: (name.toList ++ blank :: body)⟩ =
        .ok (.plain (scan', walk')) ∧
      ('$' ∉ name.toList →
        (∃ replacement, tokensOf line body = replacement ++ strays line (trailing body) ∧
          Abbreviates walk'.table name replacement) ∧
        ∀ other, other ≠ name → walk'.table.lookup other = walk.table.lookup other) ∧
      ('$' ∈ name.toList →
        walk'.table.lookup name = walk.table.lookup name ∧
        walk'.table =
          if defined name.toList = [] then walk.table
          else walk.table.define
            { name := String.ofList (defined name.toList)
              body := tokensOf line
                (name.toList.dropWhile (· != '$') ++ stripRight (blank :: body))
              source := some scan.header.name
              line := some line })) ∧
    ∃ scan' walk',
      readLine reading scan walk ⟨line, "#undef".toList ++ ' ' :: name.toList⟩ =
        .ok (.plain (scan', walk')) ∧
      walk'.table.lookup name = none ∧
      ∀ other, other ≠ name → walk'.table.lookup other = walk.table.lookup other := by
  have isName : IsName name.toList := tokensOf_eq_name.mp single
  constructor
  · intro blank space body
    obtain ⟨scan', walk', read, table⟩ := readLine_define reading walk line active isName space body
    refine ⟨scan', walk', read, fun plain => ?_, fun dollar => ⟨?_, table⟩⟩
    · have someName : name.toList ≠ [] := by
        obtain ⟨c, rest, whole, -⟩ := isName.exists_cons
        rw [whole]
        exact List.cons_ne_nil c rest
      obtain ⟨whole, none⟩ := defined_eq_self plain
      rw [whole, none, if_neg someName, String.ofList_toList, List.nil_append] at table
      constructor
      · refine ⟨_, (tokensOf_stripRight space line body).symm, ?_⟩
        let m : Macro :=
          { name := name
            body := tokensOf line (stripRight (blank :: body))
            source := some scan.header.name
            line := some line }
        have found : walk'.table.lookup name = some m := by
          rw [table, MacroTable.lookup_define free, if_pos rfl]
        exact abbreviates found rfl ordinary
      · intro other different
        rw [table, MacroTable.lookup_define_ne walk.table different]
    · rw [table]
      split
      · rfl
      · have different : name ≠ String.ofList (defined name.toList) := by
          intro same
          have inside := dollar_not_mem_defined name.toList
          rw [← String.toList_ofList (l := defined name.toList), ← same] at inside
          exact inside dollar
        exact MacroTable.lookup_define_ne walk.table different
  · obtain ⟨scan', walk', read, table⟩ := readLine_undef reading walk line active isName
    refine ⟨scan', walk', read, ?_, fun other different => ?_⟩
    · rw [table, MacroTable.lookup_undefine free, if_pos rfl]
    · rw [table, MacroTable.lookup_undefine free, if_neg different]

def blankScan : Scan := { header := { path := ⟨"", ["a.h"]⟩, name := "a.h" } }

def blankWalk : Walk := { table := .ofPredefined ∅ }

theorem define_undef_a :
    Branches.active blankScan.branches = true ∧ tokenize "A" 1 = [⟨.ident, "A", 1⟩] ∧
      blankWalk.table.isPredefined "A" = false ∧ "A" ≠ "defined" ∧
      ∃ scan' walk',
        readLine (readingOf "") blankScan blankWalk ⟨1, "#define A 1".toList⟩ =
          .ok (.plain (scan', walk')) ∧
        Abbreviates walk'.table "A" [⟨.number, "1", 1⟩] := by
  have single : tokenize "A" 1 = [⟨.ident, "A", 1⟩] := by cbv
  have active : Branches.active blankScan.branches = true := rfl
  have free : blankWalk.table.isPredefined "A" = false := rfl
  have lines := define_undef_lines (readingOf "") active single free (by decide)
  obtain ⟨scan', walk', read, plain, -⟩ := lines.1 ' ' rfl ['1']
  obtain ⟨⟨replacement, tokens, abbreviates⟩, -⟩ := plain (by decide)
  have body : tokensOf 1 ['1'] = [⟨.number, "1", 1⟩] := by cbv
  have none : strays 1 (trailing ['1']) = [] := by cbv
  rw [body, none, List.append_nil] at tokens
  rw [← tokens] at abbreviates
  exact ⟨rfl, single, rfl, by decide, scan', walk', read, abbreviates⟩

/-- Of a name with a dollar sign only the front is defined, with the rest in its body. -/
theorem dollar_name_cut :
    tokenize "A$B" 1 = [⟨.ident, "A$B", 1⟩] ∧
      ∃ scan' walk',
        readLine (readingOf "") blankScan blankWalk ⟨1, "#define A$B 1".toList⟩ =
          .ok (.plain (scan', walk')) ∧
        walk'.table.lookup "A$B" = none ∧
        (walk'.table.lookup "A").map Macro.bodyText = some ["$B", "1"] := by
  have isName : IsName "A$B".toList := by decide
  have active : Branches.active blankScan.branches = true := rfl
  have space : isSpace ' ' = true := rfl
  obtain ⟨scan', walk', read, table⟩ :=
    readLine_define (readingOf "") blankWalk 1 active isName space ['1']
  refine ⟨tokensOf_eq_name.mpr isName, scan', walk', read, ?_, ?_⟩
  · rw [table]
    rfl
  · rw [table]
    cbv

end IncludeGraph

end CBindings
