import CBindings.Proofs.Macro.Nesting

/-! Expansion ends: a loop that looks at no depth gives the same tokens once it has fuel enough. -/

namespace CBindings

open Expansion

/-- The loop of expansion with nothing but fuel to stop it, one unit for each turn and each argument.
Depths are carried along and never looked at. -/
def expandWithFuel (table : MacroTable) (header : Option String) :
    Nat → List Pending → StateT Findings Option (List Pending)
  | 0, _ => failure
  | _ + 1, [] => pure []
  | fuel + 1, p :: rest => do
    match turn table p rest with
    | .keep => return p :: (← expandWithFuel table header fuel rest)
    | .operand =>
      let n := operandLength rest
      return p :: rest.take n ++ (← expandWithFuel table header fuel (rest.drop n))
    | .cycle =>
      modify (·.reportCycle header p.token)
      return p :: (← expandWithFuel table header fuel rest)
    | .object m =>
      let body := placed (objectHidden p m) (p.depth + 1) (fresh p.token m.body)
      expandWithFuel table header fuel (body ++ rest)
    | .call m group =>
      let bound := Expansion.bind m p.token.line (arguments group.inside)
      let expanded (name : String) : StateT Findings Option (List Pending) :=
        match argument? bound name with
        | none => pure []
        | some argument => expandWithFuel table header fuel argument
      let filled ← substitute m bound p.token expanded [] [] m.body
      let body := placed (callHidden p m group) (Nat.min p.depth group.close.depth + 1) filled
      expandWithFuel table header fuel (body ++ group.after)

def expandTokensWithFuel (table : MacroTable) (tokens : List Token) (header : Option String)
    (fuel : Nat) (findings : Findings) : Option (List Token × Findings) :=
  (expandWithFuel table header fuel (tokens.map fun token => ⟨token, [], 0⟩) findings).map
    fun expanded => (expanded.1.map Pending.token, expanded.2)

def Settles {α : Type} (run : Nat → Option α) (a : α) : Prop :=
  ∃ enough, ∀ fuel ≥ enough, run fuel = some a

def SettlesOn {α : Type} (run : Nat → StateT Findings Option α) (total : StateM Findings α) :
    Prop :=
  ∀ findings, Settles (run · findings) (total findings)

namespace Settles

variable {α β : Type}

theorem of_eq {run : Nat → Option α} {a : α} (always : ∀ fuel, run fuel = some a) :
    Settles run a := ⟨0, fun fuel _ => always fuel⟩

theorem step {run next : Nat → Option α} {a : α} (turns : ∀ fuel, run (fuel + 1) = next fuel)
    (settles : Settles next a) : Settles run a := by
  obtain ⟨enough, settled⟩ := settles
  refine ⟨enough + 1, fun fuel more => ?_⟩
  obtain ⟨fuel, rfl⟩ : ∃ fewer, fuel = fewer + 1 := ⟨fuel - 1, by omega⟩
  rw [turns]
  exact settled fuel (by omega)

theorem bind {run : Nat → Option α} {next : Nat → α → Option β} {a : α} {b : β}
    (first : Settles run a) (second : Settles (fun fuel => next fuel a) b) :
    Settles (fun fuel => (run fuel).bind (next fuel)) b := by
  obtain ⟨enough, settled⟩ := first
  obtain ⟨enough', settled'⟩ := second
  refine ⟨max enough enough', fun fuel more => ?_⟩
  have value := settled fuel (by omega)
  have rest := settled' fuel (by omega)
  simp only [value, Option.bind_some, rest]

end Settles

namespace SettlesOn

variable {α β : Type}

theorem pure (a : α) : SettlesOn (fun _ => Pure.pure a) (Pure.pure a) :=
  fun _ => .of_eq fun _ => rfl

theorem bind {run : Nat → StateT Findings Option α} {total : StateM Findings α}
    {next : Nat → α → StateT Findings Option β} {totalNext : α → StateM Findings β}
    (first : SettlesOn run total) (second : ∀ a, SettlesOn (next · a) (totalNext a)) :
    SettlesOn (fun fuel => run fuel >>= next fuel) (total >>= totalNext) :=
  fun findings => (first findings).bind (second _ _)

end SettlesOn

namespace Expansion

theorem expandOnce_settles {run : Nat → String → StateT Findings Option (List Pending)}
    {total : String → StateM Findings (List Pending)}
    (settles : ∀ name, SettlesOn (run · name) (total name)) (known : Expanded) (name : String) :
    SettlesOn (fun fuel => expandOnce (run fuel) known name) (expandOnce total known name) := by
  unfold expandOnce
  cases known.lookup name with
  | some argument => exact .pure _
  | none => exact (settles name).bind fun argument => .pure _

theorem substitute_settles {run : Nat → String → StateT Findings Option (List Pending)}
    {total : String → StateM Findings (List Pending)}
    (settles : ∀ name, SettlesOn (run · name) (total name)) (m : Macro)
    (bound : List (String × List Pending)) (origin : Token) (known : Expanded)
    (done : List Pending) (body : List Token) :
    SettlesOn (fun fuel => substitute m bound origin (run fuel) known done body)
      (substitute m bound origin total known done body) := by
  fun_induction substitute m bound origin total known done body with
  | case1 known done =>
    simp only [substitute]
    exact .pure _
  | case2 known done token isParameter =>
    simp only [substitute, isParameter, if_true]
    exact (expandOnce_settles settles known token.text).bind fun argument => .pure _
  | case3 known done token notParameter =>
    simp only [substitute, notParameter, if_false, Bool.false_eq_true]
    exact .pure _
  | case4 known done token next rest argument quoted text ih =>
    simp only [substitute, quoted]
    exact ih
  | case5 known done token next rest unquoted last pasted tokens ih =>
    simp only [substitute, unquoted, pasted]
    exact ih
  | case6 known done token next rest unquoted unpasted argument isParameter _ beforePaste ih =>
    simp only [substitute, unquoted, unpasted, isParameter, beforePaste]
    exact (SettlesOn.pure _).bind ih
  | case7 known done token next rest unquoted unpasted argument isParameter _ notBefore ih =>
    simp only [substitute, unquoted, unpasted, isParameter, notBefore]
    exact (expandOnce_settles settles known token.text).bind ih
  | case8 known done token next rest unquoted unpasted notParameter ih =>
    simp only [substitute, unquoted, unpasted, notParameter]
    exact ih

end Expansion

theorem expandWithFuel_settles (table : MacroTable) (header : Option String) (ps : List Pending)
    (findings : Findings) (layers : List String) (nested : Nested table layers ps) :
    Settles (expandWithFuel table header · ps findings)
      (expandPending table header ps findings) := by
  fun_induction expandPending table header ps findings generalizing layers with
  | case1 findings =>
    exact .step (fun fuel => rfl) (.of_eq fun _ => rfl)
  | case2 findings p rest keep here ih =>
    have tail := ih findings layers (nested.of_sublist (List.sublist_cons_self p rest))
    refine .step (fun fuel => by simp only [expandWithFuel, here]; rfl) (tail.bind ?_)
    exact .of_eq fun _ => rfl
  | case3 findings p rest here n after ih' ih =>
    have part := (List.drop_sublist n rest).trans (List.sublist_cons_self p rest)
    have tail := ih layers (nested.of_sublist part)
    refine .step (fun fuel => by simp only [expandWithFuel, here]; rfl) (tail.bind ?_)
    exact .of_eq fun _ => rfl
  | case4 findings p rest keep here ih =>
    have tail := ih (findings.reportCycle header p.token) layers
      (nested.of_sublist (List.sublist_cons_self p rest))
    refine .step (fun fuel => by simp only [expandWithFuel, here]; rfl) (tail.bind ?_)
    exact .of_eq fun _ => rfl
  | case5 findings p rest m here within body ih' ih =>
    have inner := ih _ (nested.object_body here (fresh p.token m.body))
    exact .step (fun fuel => by simp only [expandWithFuel, here]; rfl) inner
  | case6 findings p rest keep m here outside ih =>
    exact absurd (nested.object_within here) outside
  | case7 findings p rest m group here depth within bound expanded filled body _ ihArgument _ ih =>
    let run (fuel : Nat) (name : String) : StateT Findings Option (List Pending) :=
      match argument? bound name with
      | none => pure []
      | some argument => expandWithFuel table header fuel argument
    have given : ∀ name, SettlesOn (run · name) (expanded name) := by
      intro name findings
      simp only [run, expanded]
      split
      · next missing =>
        simp only [missing]
        exact .of_eq fun _ => rfl
      · next argument found =>
        simp only [found]
        exact ihArgument name findings argument found layers (nested.call_argument here found)
    have inner := substitute_settles given m bound p.token [] [] m.body findings
    have outer := ih _ (nested.call_body here filled.1)
    refine .step (fun fuel => by simp only [expandWithFuel, here]; rfl) (inner.bind ?_)
    exact outer
  | case8 findings p rest keep m group here depth outside ih =>
    exact absurd (nested.call_within here) outside

/-- Every source expands: some fuel is enough, and with more the result stays the same. -/
theorem expandTokensWithFuel_eq_expand (table : MacroTable) (tokens : List Token)
    (header : Option String) (findings : Findings) :
    ∃ enough, ∀ more, expandTokensWithFuel table tokens header (enough + more) findings =
      some (expand table tokens header findings) := by
  obtain ⟨enough, settled⟩ := expandWithFuel_settles table header
    (tokens.map fun token => ⟨token, [], 0⟩) findings [] (nested_of_tokens table tokens)
  refine ⟨enough, fun more => ?_⟩
  have expanded := settled (enough + more) (Nat.le_add_right enough more)
  simp only at expanded
  rw [expandTokensWithFuel, expanded]
  rfl

/-- Two macros that name each other: each stays where it stands inside its own expansion. -/
example :
    let table := (MacroTable.define {} ⟨"A", [⟨.ident, "B", 1⟩], none, false, none, none⟩).define
      ⟨"B", [⟨.ident, "A", 2⟩], none, false, none, none⟩
    (expandTokensWithFuel table [⟨.ident, "A", 5⟩] none 4 {}).map Prod.fst =
      some [⟨.ident, "A", 5⟩] := by
  decide

end CBindings
