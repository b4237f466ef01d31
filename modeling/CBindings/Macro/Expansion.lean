import CBindings.Diagnostic
import CBindings.Macro.Basic
import CBindings.Macro.Weight
import CBindings.Text.Quoted
import CBindings.Token.Group

/-! Macro expansion. A token never names a macro whose expansion it stands inside. -/

namespace CBindings

namespace Expansion

/-- The issues found so far, and the macros already reported to expand to themselves. -/
structure Findings where
  reported : List String := []
  diagnostics : List Diagnostic := []
  deriving DecidableEq, Repr

def Findings.add (findings : Findings) (diagnostic : Diagnostic) : Findings :=
  { findings with diagnostics := findings.diagnostics ++ [diagnostic] }

def Findings.reportCycle (findings : Findings) (header : Option String) (token : Token) :
    Findings :=
  if findings.reported.contains token.text then findings
  else
    { findings with reported := findings.reported ++ [token.text] }.add
      { kind := Diagnostic.macroCycle
        message := "macro " ++ Text.quoted token.text ++ " expands to itself; left unexpanded"
        header := header
        line := if token.line = 0 then none else some token.line
        symbol := some token.text }

def union (a b : List String) : List String := a ++ b.filter fun name => !a.contains name

def intersection (a b : List String) : List String := a.filter b.contains

theorem mem_union {a b : List String} {name : String} :
    name ∈ union a b ↔ name ∈ a ∨ name ∈ b := by
  simp only [union, List.mem_append, List.mem_filter, Bool.not_eq_true', List.contains_eq_mem,
    decide_eq_false_iff_not]
  constructor
  · rintro (left | ⟨right, _⟩)
    · exact .inl left
    · exact .inr right
  · rintro (left | right)
    · exact .inl left
    · by_cases left : name ∈ a
      · exact .inl left
      · exact .inr ⟨right, left⟩

theorem mem_intersection {a b : List String} {name : String} :
    name ∈ intersection a b ↔ name ∈ a ∧ name ∈ b := by
  simp [intersection]

def operandLength : List Pending → Nat
  | first :: rest =>
    if first.token.kind = .ident then 1
    else
      match rest with
      | second :: third :: _ =>
        if first.opensParen && second.token.kind = .ident && third.closesParen then 3 else 0
      | _ => 0
  | [] => 0

def argumentsFrom : Nat → List Pending → List (List Pending)
  | _, [] => [[]]
  | nesting, p :: rest =>
    let keep (nesting : Nat) : List (List Pending) :=
      match argumentsFrom nesting rest with
      | [] => [[p]]
      | first :: others => (p :: first) :: others
    if p.opensParen then keep (nesting + 1)
    else if p.closesParen then keep (nesting - 1)
    else if p.isComma && nesting == 0 then [] :: argumentsFrom nesting rest
    else keep nesting

def arguments (inside : List Pending) : List (List Pending) :=
  if inside.isEmpty then [] else argumentsFrom 0 inside

def commaAt (line : Nat) : Pending := ⟨⟨.punct, ",", line⟩, [], 0⟩

def joinArguments (line : Nat) : List (List Pending) → List Pending
  | [] => []
  | [argument] => argument
  | argument :: rest => argument ++ commaAt line :: joinArguments line rest

def parameterNames (m : Macro) : List String :=
  m.parameters.getD [] ++ if m.variadic then ["__VA_ARGS__"] else []

def collected (m : Macro) (count line : Nat) (arguments : List (List Pending)) :
    List (List Pending) :=
  if m.variadic && count < arguments.length then
    arguments.take (count - 1) ++ [joinArguments line (arguments.drop (count - 1))]
  else arguments

def bind (m : Macro) (line : Nat) (arguments : List (List Pending)) :
    List (String × List Pending) :=
  let names := parameterNames m
  let given := collected m names.length line arguments
  names.zip (given ++ List.replicate (names.length - given.length) [])

def argument? (bound : List (String × List Pending)) (name : String) : Option (List Pending) :=
  (bound.reverse.find? (·.1 = name)).map Prod.snd

def stringize (text : String) : String :=
  "\"" ++ String.ofList (text.toList.flatMap fun c =>
    if c = '\\' ∨ c = '"' then ['\\', c] else [c]) ++ "\""

/-- Tokens without memory of where they came from, placed where `origin` stands. -/
def fresh (origin : Token) (tokens : List Token) : List Pending :=
  tokens.map fun token => ⟨token.movedTo origin, [], 0⟩

def paste (m : Macro) (origin : Token) (front : List Pending) (last : Pending) (operand : Token)
    (tokens : List Token) : List Pending :=
  if m.variadic && operand.text = "__VA_ARGS__" && last.isComma then
    (if tokens.isEmpty then front else front ++ [last]) ++ fresh origin tokens
  else
    match tokens with
    | [] => front ++ [{ last with hidden := [] }]
    | token :: rest =>
      front ++ fresh origin (tokenize (last.token.text ++ token.text) origin.line) ++
        fresh origin rest

abbrev Expanded := List (String × List Pending)

section

variable {μ : Type → Type} [Monad μ]

def expandOnce (expanded : String → μ (List Pending)) (known : Expanded) (name : String) :
    μ (List Pending × Expanded) :=
  match known.lookup name with
  | some argument => pure (argument, known)
  | none => do
    let argument ← expanded name
    return (argument, (name, argument) :: known)

def moved (origin : Token) (argument : List Pending) : List Pending :=
  argument.map fun p => { p with token := p.token.movedTo origin }

def substitute (m : Macro) (bound : List (String × List Pending)) (origin : Token)
    (expanded : String → μ (List Pending)) :
    Expanded → List Pending → List Token → μ (List Pending)
  | _, done, [] => pure done
  | known, done, [token] => do
    if token.kind = .ident && (argument? bound token.text).isSome then
      let argument ← expandOnce expanded known token.text
      return done ++ moved origin argument.1
    else return done ++ fresh origin [token]
  | known, done, token :: next :: rest =>
    match (if token.isPunct "#" then argument? bound next.text else none) with
    | some argument =>
      let text := stringize (spell (argument.map Pending.token))
      substitute m bound origin expanded known (done ++ fresh origin [⟨.string, text, 0⟩]) rest
    | none =>
      match (if token.isPunct "##" then done.getLast? else none) with
      | some last =>
        let tokens := match argument? bound next.text with
          | some argument => argument.map Pending.token
          | none => [next]
        substitute m bound origin expanded known (paste m origin done.dropLast last next tokens)
          rest
      | none =>
        match (if token.kind = .ident then argument? bound token.text else none) with
        | some argument => do
          let argument ← if next.isPunct "##" then pure (argument, known)
            else expandOnce expanded known token.text
          substitute m bound origin expanded argument.2 (done ++ moved origin argument.1)
            (next :: rest)
        | none =>
          substitute m bound origin expanded known (done ++ fresh origin [token]) (next :: rest)

end

def placed (hidden : List String) (depth : Nat) (body : List Pending) : List Pending :=
  body.map fun p => ⟨p.token, union hidden p.hidden, depth⟩

theorem placed_depth {hidden : List String} {depth : Nat} {body : List Pending} :
    ∀ p ∈ placed hidden depth body, p.depth = depth := by
  intro p member
  obtain ⟨q, _, rfl⟩ := List.mem_map.mp member
  rfl

theorem argumentsFrom_flatten_sublist (nesting : Nat) (inside : List Pending) :
    (argumentsFrom nesting inside).flatten.Sublist inside := by
  induction inside generalizing nesting with
  | nil => simp [argumentsFrom]
  | cons p rest ih =>
    have keep : ∀ nesting, (match argumentsFrom nesting rest with
        | [] => [[p]]
        | first :: others => (p :: first) :: others).flatten.Sublist (p :: rest) := by
      intro nesting
      have within := ih nesting
      split
      · exact List.Sublist.cons_cons p (List.nil_sublist rest)
      · next first others cut =>
        rw [cut] at within
        simpa using within.cons_cons p
    simp only [argumentsFrom]
    split
    · exact keep _
    · split
      · exact keep _
      · split
        · exact (ih nesting).cons p
        · exact keep _

theorem arguments_flatten_sublist (inside : List Pending) :
    (arguments inside).flatten.Sublist inside := by
  unfold arguments
  split
  · exact List.nil_sublist inside
  · exact argumentsFrom_flatten_sublist 0 inside

theorem weighing_joinArguments (line : Nat) (arguments : List (List Pending)) :
    Pending.weighing (joinArguments line arguments) = Pending.weighing arguments.flatten := by
  fun_induction joinArguments line arguments with
  | case1 => rfl
  | case2 => simp
  | case3 argument rest _ ih =>
    have comma : Pending.weighing (commaAt line :: joinArguments line rest) =
        Pending.weighing (joinArguments line rest) := by
      simp [Pending.weighing, commaAt, Pending.weighs, Pending.closesParen, Token.isPunct]
    rw [Pending.weighing_append, comma, ih, List.flatten_cons, Pending.weighing_append]

theorem weighing_collected {m : Macro} {count line : Nat} {inside argument : List Pending}
    (member : argument ∈ collected m count line (arguments inside)) :
    (Pending.weighing argument).Sublist (Pending.weighing inside) := by
  have whole := Pending.weighing_sublist (arguments_flatten_sublist inside)
  unfold collected at member
  split at member
  · rw [List.mem_append, List.mem_singleton] at member
    rcases member with member | rfl
    · have part := List.sublist_flatten_of_mem (List.mem_of_mem_take member)
      exact (Pending.weighing_sublist part).trans whole
    · rw [weighing_joinArguments]
      have parts := List.take_append_drop (count - 1) (arguments inside)
      rw [← parts, List.flatten_append, Pending.weighing_append] at whole
      exact (List.sublist_append_right _ _).trans whole
  · exact (Pending.weighing_sublist (List.sublist_flatten_of_mem member)).trans whole

/-- The tokens with weight in an argument stand between the parentheses, in the same order. -/
theorem weighing_argument {m : Macro} {line : Nat} {inside argument : List Pending} {name : String}
    (found : argument? (bind m line (arguments inside)) name = some argument) :
    (Pending.weighing argument).Sublist (Pending.weighing inside) := by
  obtain ⟨⟨key, value⟩, pair, rfl⟩ := Option.map_eq_some_iff.mp found
  have member := List.mem_of_find?_eq_some pair
  rw [List.mem_reverse] at member
  have member := (List.of_mem_zip member).2
  rw [List.mem_append] at member
  rcases member with member | member
  · exact weighing_collected member
  · rw [List.mem_replicate] at member
    simp [member.2, Pending.weighing]

theorem weight_drop (limit : Nat) (p : Pending) (rest : List Pending) (n : Nat) :
    WellFoundedRelation.rel (weight limit (rest.drop n)) (weight limit (p :: rest)) := by
  apply weight_lt_of_length
  · intro i
    exact Pending.countAt_sublist ((List.drop_sublist n rest).trans (List.sublist_cons_self p rest))
  · simp only [List.length_drop, List.length_cons]
    omega

theorem weight_tail (limit : Nat) (p : Pending) (rest : List Pending) :
    WellFoundedRelation.rel (weight limit rest) (weight limit (p :: rest)) :=
  weight_drop limit p rest 0

theorem weight_replace {limit : Nat} {p : Pending} {body rest : List Pending}
    (isName : p.weighs = true) (within : p.depth < limit)
    (deeper : ∀ q ∈ body, q.depth = p.depth + 1) :
    WellFoundedRelation.rel (weight limit (body ++ rest)) (weight limit (p :: rest)) := by
  have zero : ∀ i ≤ p.depth, Pending.countAt i body = 0 := fun i le =>
    Pending.countAt_eq_zero deeper (by omega)
  apply weight_lt p.depth (Nat.le_of_lt within)
  · intro i less
    rw [Pending.countAt_append, zero i (Nat.le_of_lt less)]
    simp only [Pending.countAt, List.countP_cons]
    omega
  · rw [Pending.countAt_append, zero p.depth (Nat.le_refl _)]
    simp [Pending.countAt, isName]

/-- What is done with the token in front of the others: it stays, alone or with the operand of
`defined`; it stays since it stands inside an expansion of the macro it names; or it gives way to
the body of a macro, together with its arguments if the macro takes any. -/
inductive Turn where
  | keep
  | operand
  | cycle
  | object (m : Macro)
  | call (m : Macro) (group : Group Pending)

def turn (table : MacroTable) (p : Pending) (rest : List Pending) : Turn :=
  if p.token.isIdent "defined" then .operand
  else
    match table.named p.token with
    | none => .keep
    | some m =>
      if m.isObjectLike then
        if p.hidden.contains p.token.text then .cycle else .object m
      else
        match rest with
        | [] => .keep
        | opening :: more =>
          if !opening.opensParen then .keep
          else if p.hidden.contains p.token.text then .cycle
          else
            match splitGroup? Pending.opensParen Pending.closesParen 0 more with
            | none => .keep
            | some group => .call m group

structure Invokes (table : MacroTable) (p : Pending) (m : Macro) : Prop where
  named : table.named p.token = some m
  visible : p.token.text ∉ p.hidden

theorem Invokes.kind_eq {table : MacroTable} {p : Pending} {m : Macro}
    (invokes : Invokes table p m) : p.token.kind = .ident := by
  have named := invokes.named
  unfold MacroTable.named at named
  split at named
  · assumption
  · cases named

theorem Invokes.weighs {table : MacroTable} {p : Pending} {m : Macro}
    (invokes : Invokes table p m) : p.weighs = true := by
  simp [Pending.weighs, invokes.kind_eq]

theorem Invokes.lookup {table : MacroTable} {p : Pending} {m : Macro}
    (invokes : Invokes table p m) : table.lookup p.token.text = some m := by
  have named := invokes.named
  rwa [MacroTable.named, if_pos invokes.kind_eq] at named

theorem turn_object {table : MacroTable} {p : Pending} {rest : List Pending} {m : Macro}
    (here : turn table p rest = .object m) : Invokes table p m := by
  unfold turn at here
  split at here
  · cases here
  · split at here
    · cases here
    · next named =>
      split at here
      · split at here
        · cases here
        · next visible =>
          cases here
          exact ⟨named, by simpa using visible⟩
      · split at here
        · cases here
        · repeat' split at here
          all_goals cases here

theorem turn_call {table : MacroTable} {p : Pending} {rest : List Pending} {m : Macro}
    {group : Group Pending} (here : turn table p rest = .call m group) :
    Invokes table p m ∧ ∃ opening more, rest = opening :: more ∧
      splitGroup? Pending.opensParen Pending.closesParen 0 more = some group := by
  unfold turn at here
  split at here
  · cases here
  · split at here
    · cases here
    · next named =>
      split at here
      · split at here <;> cases here
      · split at here
        · cases here
        · next opening more =>
          split at here
          · cases here
          · split at here
            · cases here
            · next visible =>
              split at here
              · cases here
              · next cut =>
                cases here
                exact ⟨⟨named, by simpa using visible⟩, opening, more, rfl, cut⟩

/-- The tokens between the parentheses of an invocation and those after it weigh no more than the
whole, and less at the depth of its name or of its closing parenthesis, whichever is less. -/
theorem countAt_call {table : MacroTable} {p : Pending} {rest : List Pending} {m : Macro}
    {group : Group Pending} (here : turn table p rest = .call m group) :
    (∀ i, Pending.countAt i group.inside + Pending.countAt i group.after ≤
      Pending.countAt i (p :: rest)) ∧
    Pending.countAt (Nat.min p.depth group.close.depth) group.inside +
      Pending.countAt (Nat.min p.depth group.close.depth) group.after <
      Pending.countAt (Nat.min p.depth group.close.depth) (p :: rest) := by
  obtain ⟨invokes, opening, more, rfl, cut⟩ := turn_call here
  have whole := splitGroup?_eq cut
  have closing := splitGroup?_closes cut
  have closeWeighs : group.close.weighs = true := by simp [Pending.weighs, closing]
  constructor
  · intro i
    simp only [whole, Pending.countAt, List.countP_cons, List.countP_append]
    omega
  · simp only [whole, Pending.countAt, List.countP_cons, List.countP_append]
    by_cases order : p.depth ≤ group.close.depth
    · rw [show Nat.min p.depth group.close.depth = p.depth from Nat.min_eq_left order]
      simp only [invokes.weighs, beq_self_eq_true, Bool.and_true, if_true]
      omega
    · rw [show Nat.min p.depth group.close.depth = group.close.depth from
        Nat.min_eq_right (by omega)]
      simp only [closeWeighs, beq_self_eq_true, Bool.and_true, if_true]
      omega

/-- An argument weighs less than the invocation, at the depth where the invocation does. -/
theorem weight_argument {table : MacroTable} {p : Pending} {rest argument : List Pending}
    {m : Macro} {group : Group Pending} {name : String}
    (here : turn table p rest = .call m group)
    (within : Nat.min p.depth group.close.depth < table.size)
    (found : argument? (bind m p.token.line (arguments group.inside)) name = some argument) :
    WellFoundedRelation.rel (weight table.size argument) (weight table.size (p :: rest)) := by
  obtain ⟨noMore, fewer⟩ := countAt_call here
  have part := fun i => Pending.countAt_le_of_weighing i (weighing_argument found)
  apply weight_lt (Nat.min p.depth group.close.depth) (Nat.le_of_lt within)
  · intro i _
    have := part i
    have := noMore i
    omega
  · have := part (Nat.min p.depth group.close.depth)
    omega

/-- A body one level deeper than an invocation weighs less than the invocation. -/
theorem weight_call {table : MacroTable} {p : Pending} {rest body : List Pending} {m : Macro}
    {group : Group Pending} (here : turn table p rest = .call m group)
    (within : Nat.min p.depth group.close.depth < table.size)
    (deeper : ∀ q ∈ body, q.depth = Nat.min p.depth group.close.depth + 1) :
    WellFoundedRelation.rel (weight table.size (body ++ group.after))
      (weight table.size (p :: rest)) := by
  obtain ⟨noMore, fewer⟩ := countAt_call here
  have zero : ∀ i ≤ Nat.min p.depth group.close.depth, Pending.countAt i body = 0 := fun i le =>
    Pending.countAt_eq_zero deeper (by omega)
  apply weight_lt (Nat.min p.depth group.close.depth) (Nat.le_of_lt within)
  · intro i less
    rw [Pending.countAt_append, zero i (Nat.le_of_lt less)]
    have := noMore i
    omega
  · rw [Pending.countAt_append, zero _ (Nat.le_refl _)]
    omega

def objectHidden (p : Pending) (m : Macro) : List String := union p.hidden [m.name]

def callHidden (p : Pending) (m : Macro) (group : Group Pending) : List String :=
  union (intersection p.hidden group.close.hidden) [m.name]

end Expansion

open Expansion

set_option linter.unusedVariables false in
/-- Expands waiting tokens from the left. An expansion is put back in front of the tokens that
follow it, one level deeper than the shallower end of its invocation; no level lies beyond the
number of macros. -/
def expandPending (table : MacroTable) (header : Option String) (pending : List Pending)
    (findings : Findings) : List Pending × Findings :=
  match pending with
  | [] => ([], findings)
  | p :: rest =>
    let keep (findings : Findings) : List Pending × Findings :=
      let after := expandPending table header rest findings
      (p :: after.1, after.2)
    match here : turn table p rest with
    | .keep => keep findings
    | .operand =>
      let n := operandLength rest
      let after := expandPending table header (rest.drop n) findings
      (p :: rest.take n ++ after.1, after.2)
    | .cycle => keep (findings.reportCycle header p.token)
    | .object m =>
      if within : p.depth < table.size then
        let body := placed (objectHidden p m) (p.depth + 1) (fresh p.token m.body)
        expandPending table header (body ++ rest) findings
      else keep findings
    | .call m group =>
      let depth := Nat.min p.depth group.close.depth
      if within : depth < table.size then
        let bound := Expansion.bind m p.token.line (arguments group.inside)
        let expanded (name : String) : StateM Findings (List Pending) := fun findings =>
          match found : argument? bound name with
          | none => ([], findings)
          | some argument => expandPending table header argument findings
        let filled := substitute m bound p.token expanded [] [] m.body findings
        let body := placed (callHidden p m group) (depth + 1) filled.1
        expandPending table header (body ++ group.after) filled.2
      else keep findings
termination_by weight table.size pending
decreasing_by
  · exact weight_tail _ _ _
  · exact weight_drop _ _ _ _
  · exact weight_replace (turn_object here).weighs within placed_depth
  · exact weight_argument here within found
  · exact weight_call here within placed_depth

/-- Expands all macros in a sequence of tokens. `header` is named in reports of cycles. -/
def expand (table : MacroTable) (tokens : List Token) (header : Option String)
    (findings : Findings) : List Token × Findings :=
  let expanded := expandPending table header (tokens.map fun token => ⟨token, [], 0⟩) findings
  (expanded.1.map Pending.token, expanded.2)

end CBindings
