import CBindings.Proofs.Macro.Unfolding
import Mathlib.Data.Finset.Basic
import Mathlib.Data.Finset.Card

/-! The expansion of a source in which all macros are object-like: each token unfolds by itself, down
to the names that stand inside their own unfolding, and each such name is reported once. -/

namespace CBindings

theorem MacroTable.named_movedTo (table : MacroTable) (token origin : Token) :
    table.named (token.movedTo origin) = table.named token := rfl

namespace Expansion

variable {table : MacroTable} {inside : Finset String} {token : Token} {m : Macro}

/-! ### Unfolding -/

def remaining (table : MacroTable) (inside : Finset String) : Nat :=
  (table.macros.keys.toFinset \ inside).card

theorem remaining_insert (named : table.named token = some m) (outside : token.text ∉ inside) :
    remaining table (insert token.text inside) < remaining table inside := by
  have isKey : token.text ∈ table.macros.keys :=
    OrderedMap.mem_keys_iff.mpr ⟨m, (MacroTable.named_eq_some named).2⟩
  rw [remaining, Finset.sdiff_insert]
  apply Finset.card_erase_lt_of_mem
  exact Finset.mem_sdiff.mpr ⟨List.mem_toFinset.mpr isKey, outside⟩

set_option linter.unusedVariables false in
/-- What a token becomes inside the expansions of some macros. The name of any other macro becomes
what the tokens of its body do inside one expansion more, and every other token stays. -/
def unfold (table : MacroTable) (inside : Finset String) (token : Token) : List Token :=
  match named : table.named token with
  | none => [token]
  | some m =>
    if within : token.text ∈ inside then [token]
    else m.body.flatMap fun part => unfold table (insert token.text inside) part
termination_by remaining table inside
decreasing_by exact remaining_insert named within

set_option linter.unusedVariables false in
/-- The tokens met in the unfolding of a token that name a macro inside whose expansion they
stand. -/
def selfNaming (table : MacroTable) (inside : Finset String) (token : Token) : List Token :=
  match named : table.named token with
  | none => []
  | some m =>
    if within : token.text ∈ inside then [token]
    else m.body.flatMap fun part => selfNaming table (insert token.text inside) part
termination_by remaining table inside
decreasing_by exact remaining_insert named within

theorem unfold_eq (table : MacroTable) (inside : Finset String) (token : Token) :
    unfold table inside token =
      match table.named token with
      | none => [token]
      | some m =>
        if token.text ∈ inside then [token]
        else m.body.flatMap (unfold table (insert token.text inside)) := by
  rw [unfold]
  split
  · next unnamed => rw [unnamed]
  · next named => simp only [named, dite_eq_ite]

theorem selfNaming_eq (table : MacroTable) (inside : Finset String) (token : Token) :
    selfNaming table inside token =
      match table.named token with
      | none => []
      | some m =>
        if token.text ∈ inside then [token]
        else m.body.flatMap (selfNaming table (insert token.text inside)) := by
  rw [selfNaming]
  split
  · next unnamed => rw [unnamed]
  · next named => simp only [named, dite_eq_ite]

theorem selfNaming_eq_filter (table : MacroTable) (inside : Finset String) (token : Token) :
    selfNaming table inside token =
      (unfold table inside token).filter fun part => (table.named part).isSome := by
  fun_induction unfold table inside token with
  | case1 inside token unnamed => simp [selfNaming_eq, unnamed]
  | case2 inside token m named within => simp [selfNaming_eq, named, within]
  | case3 inside token m named outside ih =>
    rw [List.filter_flatMap, selfNaming_eq]
    simp only [named, outside, if_false]
    exact List.flatMap_congr fun part _ => ih part

/-- Where a token stands has no part in what it becomes but for the places. -/
theorem unfold_movedTo (table : MacroTable) (inside : Finset String) (token place origin : Token) :
    (unfold table inside (token.movedTo place)).map (·.movedTo origin) =
      (unfold table inside token).map (·.movedTo origin) := by
  have text : (token.movedTo place).text = token.text := rfl
  rw [unfold_eq, unfold_eq table inside token, table.named_movedTo, text]
  cases table.named token with
  | none => rfl
  | some m =>
    simp only
    split
    · rfl
    · rfl

/-! ### One run of the expansion -/

def outcome (table : MacroTable) (p : Pending) : List Token :=
  (unfold table p.hidden.toFinset p.token).map (·.movedTo p.token)

variable {p : Pending} {rest : List Pending}

theorem outcome_of_stays (stays : table.named p.token = none ∨ p.token.text ∈ p.hidden) :
    outcome table p = [p.token] := by
  rw [outcome, unfold_eq]
  cases named : table.named p.token with
  | none => rfl
  | some m =>
    have within : p.token.text ∈ p.hidden := stays.resolve_left (by simp [named])
    simp only [List.mem_toFinset.mpr within, if_true]
    rfl

theorem outcome_of_invokes (invokes : Invokes table p m) : outcome table p =
    (placed (objectHidden p m) (p.depth + 1) (fresh p.token m.body)).flatMap (outcome table) := by
  have outside : p.token.text ∉ p.hidden.toFinset := by simpa using invokes.visible
  have hides : (objectHidden p m).toFinset = insert p.token.text p.hidden.toFinset := by
    ext name
    simp only [objectHidden, List.mem_toFinset, mem_union, List.mem_singleton, Finset.mem_insert,
      MacroTable.name_of_lookup invokes.lookup]
    exact Or.comm
  rw [outcome, unfold_eq]
  simp only [invokes.named, outside, if_false, placed, fresh, List.map_map, List.flatMap_map,
    List.map_flatMap]
  apply List.flatMap_congr
  intro part _
  simp only [outcome, Function.comp, union, List.filter_nil, List.append_nil, hides]
  exact (unfold_movedTo ..).symm

theorem turn_cycle (here : turn table p rest = .cycle) : (table.named p.token).isSome := by
  unfold turn at here
  split at here
  · cases here
  · split at here
    · cases here
    · next named => simp [named]

variable {sort : Lexeme → Prop}

/-- The run gives what each waiting token becomes, and reports the names that are left. -/
theorem expandPending_outcomes (unfoldable : Unfoldable table sort) (header : Option String)
    (ps : List Pending) (findings : Findings) (layers : List String)
    (nested : Nested table layers ps) (fits : ∀ p ∈ ps, sort p.token.lexeme) :
    let out := ps.flatMap (outcome table)
    (expandPending table header ps findings).1.map Pending.token = out ∧
      (expandPending table header ps findings).2 =
        (out.filter fun token => (table.named token).isSome).foldl
          (fun findings token => findings.reportCycle header token) findings := by
  fun_induction expandPending table header ps findings generalizing layers with
  | case1 findings => exact ⟨rfl, rfl⟩
  | case2 findings p rest keep here ih =>
    have unnamed : table.named p.token = none := by
      simpa [here] using unfoldable.turn (fits p List.mem_cons_self) rest
    obtain ⟨tokens, found⟩ := ih findings layers
      (nested.of_sublist (List.sublist_cons_self p rest))
      fun q member => fits q (List.mem_cons_of_mem p member)
    simp only [List.flatMap_cons, outcome_of_stays (.inl unnamed), keep]
    constructor
    · rw [List.map_cons, tokens]
      rfl
    · rw [found, List.filter_append]
      simp [unnamed]
  | case3 findings p rest here n after ih' ih =>
    have turns := unfoldable.turn (fits p List.mem_cons_self) rest
    simp [here] at turns
  | case4 findings p rest keep here ih =>
    have hides : p.token.text ∈ p.hidden := by
      simpa [here] using unfoldable.turn (fits p List.mem_cons_self) rest
    obtain ⟨tokens, found⟩ := ih (findings.reportCycle header p.token) layers
      (nested.of_sublist (List.sublist_cons_self p rest))
      fun q member => fits q (List.mem_cons_of_mem p member)
    simp only [List.flatMap_cons, outcome_of_stays (.inr hides), keep]
    constructor
    · rw [List.map_cons, tokens]
      rfl
    · rw [found, List.filter_append]
      simp [turn_cycle here]
  | case5 findings p rest m here within body ih' ih =>
    have invokes := turn_object here
    rw [List.flatMap_cons, outcome_of_invokes invokes, ← List.flatMap_append]
    exact ih _ (nested.object_body here (fresh p.token m.body)) fun q member => by
      rcases List.mem_append.mp member with inside | after
      · exact unfoldable.placed (fits p List.mem_cons_self) invokes q inside
      · exact fits q (List.mem_cons_of_mem p after)
  | case6 findings p rest keep m here outside ih =>
    exact absurd (nested.object_within here) outside
  | case7 findings p rest m group here depth within bound expanded filled body _ ihArgument _ ih =>
    have turns := unfoldable.turn (fits p List.mem_cons_self) rest
    simp [here] at turns
  | case8 findings p rest keep m group here depth outside ih =>
    exact absurd (nested.call_within here) outside

/-! ### Reports -/

/-- The report of a name that stands inside its own unfolding. -/
def cycleReport (header : Option String) (token : Token) : Diagnostic where
  kind := Diagnostic.macroCycle
  message := "macro " ++ Text.quoted token.text ++ " expands to itself; left unexpanded"
  header := header
  line := if token.line = 0 then none else some token.line
  symbol := some token.text

def firstOfEach (tokens : List Token) : List Token :=
  tokens.eraseDupsBy fun later earlier => later.text == earlier.text

/-- Of many names each is reported where it comes first, if it was not before. -/
theorem foldl_reportCycle (header : Option String) (tokens : List Token) (findings : Findings) :
    let news := firstOfEach (tokens.filter fun token => token.text ∉ findings.reported)
    tokens.foldl (fun findings token => findings.reportCycle header token) findings =
      { reported := findings.reported ++ news.map Token.text
        diagnostics := findings.diagnostics ++ news.map (cycleReport header) } := by
  induction tokens generalizing findings with
  | nil => simp [firstOfEach]
  | cons token tokens ih =>
    rw [List.foldl_cons, ih]
    by_cases known : token.text ∈ findings.reported
    · simp [Findings.reportCycle, known]
    · have others : (tokens.filter fun other => other.text ∉ findings.reported).filter
          (fun other => (other.text == token.text) = false) =
          tokens.filter fun other => other.text ∉ findings.reported ++ [token.text] := by
        rw [List.filter_filter]
        apply List.filter_congr
        intro other _
        simp [and_comm]
      have front : firstOfEach ((token :: tokens).filter fun other =>
          other.text ∉ findings.reported) = token :: firstOfEach
            (tokens.filter fun other => other.text ∉ findings.reported ++ [token.text]) := by
        rw [List.filter_cons_of_pos (by simpa using known), firstOfEach, List.eraseDupsBy_cons,
          others]
        rfl
      simp only [front]
      simp [Findings.reportCycle, Findings.add, known, cycleReport]

/-! ### A whole source -/

/-- A source expands to the unfoldings of its tokens, each in the place of its token. The names met
inside their own unfolding that were not reported before are reported, each once, in the order in
which they are first met. -/
theorem expand_eq_unfold (table : MacroTable) (tokens : List Token) (header : Option String)
    (findings : Findings)
    (objectLike : ∀ name m, table.lookup name = some m → m.isObjectLike)
    (bodies : ∀ name m, table.lookup name = some m → ∀ t ∈ m.body, ¬ t.isIdent "defined")
    (source : ∀ t ∈ tokens, ¬ t.isIdent "defined") :
    let met := tokens.flatMap fun t => (selfNaming table ∅ t).map (·.movedTo t)
    let news := firstOfEach (met.filter fun t => t.text ∉ findings.reported)
    expand table tokens header findings =
      (tokens.flatMap fun t => (unfold table ∅ t).map (·.movedTo t),
        { reported := findings.reported ++ news.map Token.text
          diagnostics := findings.diagnostics ++ news.map (cycleReport header) }) := by
  intro met news
  have plain : ∀ t : Token, ¬ t.isIdent "defined" → t.lexeme ≠ .word "defined" := by
    intro t other same
    simp only [Token.lexeme, Lexeme.word, Lexeme.mk.injEq] at same
    exact other (by simp [Token.isIdent, same])
  have unfoldable : Unfoldable table (· ≠ .word "defined") := by
    constructor
    · simp
    · intro name m _ found
      exact objectLike name m found
    · intro name m _ found t member
      exact plain t (bodies name m found t member)
  have outcomes : (tokens.map fun token => (⟨token, [], 0⟩ : Pending)).flatMap (outcome table) =
      tokens.flatMap fun t => (unfold table ∅ t).map (·.movedTo t) := by
    rw [List.flatMap_map]
    rfl
  have left : met = (tokens.flatMap fun t => (unfold table ∅ t).map (·.movedTo t)).filter
      fun token => (table.named token).isSome := by
    simp only [met, selfNaming_eq_filter, List.filter_flatMap, List.filter_map]
    rfl
  have run := expandPending_outcomes unfoldable header
    (tokens.map fun token => ⟨token, [], 0⟩) findings [] (nested_of_tokens table tokens) (by
      intro p member
      obtain ⟨t, listed, rfl⟩ := List.mem_map.mp member
      exact plain t (source t listed))
  simp only [outcomes, ← left, foldl_reportCycle] at run
  exact Prod.ext run.1 run.2

/-- Two macros that name each other, the first with one token more. -/
def loopTable : MacroTable :=
  ((MacroTable.ofPredefined ∅).define
    ⟨"A", [⟨.ident, "B", 1⟩, ⟨.punct, "+", 1⟩], none, false, none, none⟩).define
    ⟨"B", [⟨.ident, "A", 2⟩, ⟨.ident, "A", 2⟩], none, false, none, none⟩

/-- A name that is met twice inside its own unfolding is reported once, in the place of the token of
the source. -/
theorem expand_loopTable :
    (∀ name m, loopTable.lookup name = some m → m.isObjectLike) ∧
    (∀ name m, loopTable.lookup name = some m → ∀ t ∈ m.body, ¬ t.isIdent "defined") ∧
    (∀ t ∈ [⟨.ident, "A", 5⟩, ⟨.ident, "x", 6⟩], ¬ Token.isIdent t "defined") ∧
    expand loopTable [⟨.ident, "A", 5⟩, ⟨.ident, "x", 6⟩] none {} =
      ([⟨.ident, "A", 5⟩, ⟨.ident, "A", 5⟩, ⟨.punct, "+", 5⟩, ⟨.ident, "x", 6⟩],
        { reported := ["A"], diagnostics := [cycleReport none ⟨.ident, "A", 5⟩] }) := by
  have listed : ∀ name m, loopTable.lookup name = some m → (name, m) ∈ loopTable.macros.entries :=
    fun name m found => OrderedMap.mem_of_get? found
  have objectLike : ∀ name m, loopTable.lookup name = some m → m.isObjectLike := by
    intro name m found
    have every : ∀ pair ∈ loopTable.macros.entries, pair.2.isObjectLike := by decide
    exact every (name, m) (listed name m found)
  have bodies : ∀ name m, loopTable.lookup name = some m →
      ∀ t ∈ m.body, ¬ t.isIdent "defined" := by
    intro name m found
    have every : ∀ pair ∈ loopTable.macros.entries,
      ∀ t ∈ pair.2.body, ¬ t.isIdent "defined" := by decide
    exact every (name, m) (listed name m found)
  have source : ∀ t ∈ [⟨.ident, "A", 5⟩, ⟨.ident, "x", 6⟩], ¬ Token.isIdent t "defined" := by decide
  refine ⟨objectLike, bodies, source, ?_⟩
  have a : ∀ line, loopTable.named ⟨.ident, "A", line⟩ =
      some ⟨"A", [⟨.ident, "B", 1⟩, ⟨.punct, "+", 1⟩], none, false, none, none⟩ := fun _ => rfl
  have b : ∀ line, loopTable.named ⟨.ident, "B", line⟩ =
      some ⟨"B", [⟨.ident, "A", 2⟩, ⟨.ident, "A", 2⟩], none, false, none, none⟩ := fun _ => rfl
  have x : ∀ line, loopTable.named ⟨.ident, "x", line⟩ = none := fun _ => rfl
  have plus : ∀ line, loopTable.named ⟨.punct, "+", line⟩ = none := fun _ => rfl
  rw [expand_eq_unfold loopTable _ none {} objectLike bodies source]
  simp [unfold_eq, selfNaming_eq, a, b, x, plus, Token.movedTo, firstOfEach, List.eraseDupsBy_cons]

end Expansion

end CBindings
