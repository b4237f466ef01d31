import CBindings.Macro.Condition
import CBindings.Proofs.Macro.Termination

/-! What was found before, and the header that reports name, have no part in what an expansion or a
condition comes to. -/

namespace CBindings

open Expansion

def Alike {α : Type} (first second : StateT Findings Option α) : Prop :=
  ∀ before other, (first before).map Prod.fst = (second other).map Prod.fst

namespace Alike

variable {α β : Type}

theorem pure (a : α) : Alike (Pure.pure a) (Pure.pure a) := fun _ _ => rfl

theorem bind {first second : StateT Findings Option α} {next after : α → StateT Findings Option β}
    (alike : Alike first second) (follow : ∀ a, Alike (next a) (after a)) :
    Alike (first >>= next) (second >>= after) := by
  intro before other
  have same := alike before other
  change ((first before).bind fun found => next found.1 found.2).map Prod.fst =
    ((second other).bind fun found => after found.1 found.2).map Prod.fst
  cases one : first before with
  | none =>
    rw [one, Option.map_none, eq_comm, Option.map_eq_none_iff] at same
    rw [same]
    rfl
  | some found =>
    rw [one, Option.map_some, eq_comm, Option.map_eq_some_iff] at same
    obtain ⟨found', two, value⟩ := same
    rw [two, Option.bind_some, Option.bind_some, value]
    exact follow found.1 found.2 found'.2

theorem after_modify {first second : StateT Findings Option α} (note other : Findings → Findings)
    (alike : Alike first second) :
    Alike (modify note >>= fun _ => first) (modify other >>= fun _ => second) :=
  fun before before' => alike (note before) (other before')

end Alike

namespace Expansion

variable {first second : String → StateT Findings Option (List Pending)}

theorem expandOnce_alike (alike : ∀ name, Alike (first name) (second name)) (known : Expanded)
    (name : String) : Alike (expandOnce first known name) (expandOnce second known name) := by
  unfold expandOnce
  cases known.lookup name with
  | some argument => exact .pure _
  | none => exact (alike name).bind fun argument => .pure _

theorem substitute_alike (alike : ∀ name, Alike (first name) (second name)) (m : Macro)
    (bound : List (String × List Pending)) (origin : Token) (known : Expanded)
    (done : List Pending) (body : List Token) :
    Alike (substitute m bound origin first known done body)
      (substitute m bound origin second known done body) := by
  fun_induction substitute m bound origin first known done body with
  | case1 known done =>
    simp only [substitute]
    exact .pure _
  | case2 known done token isParameter =>
    simp only [substitute, isParameter, if_true]
    exact (expandOnce_alike alike known token.text).bind fun argument => .pure _
  | case3 known done token notParameter =>
    simp only [substitute, notParameter, if_false, Bool.false_eq_true]
    exact .pure _
  | case4 known done token next rest argument quoted text ih =>
    simp only [substitute, quoted]
    exact ih
  | case5 known done token next rest unquoted last pasted tokens ih =>
    simp only [substitute, unquoted, pasted]
    exact ih
  | case6 known done token next rest unquoted unpasted argument isParameter _ beforePaste ih =>
    simp only [substitute, unquoted, unpasted, isParameter, beforePaste]
    exact (Alike.pure _).bind ih
  | case7 known done token next rest unquoted unpasted argument isParameter _ notBefore ih =>
    simp only [substitute, unquoted, unpasted, isParameter, notBefore]
    exact (expandOnce_alike alike known token.text).bind ih
  | case8 known done token next rest unquoted unpasted notParameter ih =>
    simp only [substitute, unquoted, unpasted, notParameter]
    exact ih

end Expansion

theorem expandWithFuel_alike (table : MacroTable) (header other : Option String) (fuel : Nat)
    (ps : List Pending) :
    Alike (expandWithFuel table header fuel ps) (expandWithFuel table other fuel ps) := by
  induction fuel generalizing ps with
  | zero =>
    intro before after
    rfl
  | succ fuel ih =>
    cases ps with
    | nil => exact .pure []
    | cons p rest =>
      simp only [expandWithFuel]
      cases turn table p rest with
      | keep => exact (ih rest).bind fun out => .pure (p :: out)
      | operand => exact (ih _).bind fun out => .pure _
      | cycle => exact ((ih rest).bind fun out => .pure (p :: out)).after_modify _ _
      | object m => exact ih _
      | call m group =>
        refine (substitute_alike (fun name => ?_) m _ p.token [] [] m.body).bind fun filled => ih _
        cases argument? (Expansion.bind m p.token.line (arguments group.inside)) name with
        | none => exact .pure []
        | some argument => exact ih argument

/-- The tokens that an expansion gives are told by the macros and the tokens it starts with. -/
theorem expand_alike (table : MacroTable) (tokens : List Token) (header other : Option String)
    (before after : Findings) :
    (expand table tokens header before).1 = (expand table tokens other after).1 := by
  have nested := nested_of_tokens table tokens
  obtain ⟨enough, settled⟩ := expandWithFuel_settles table header _ before [] nested
  obtain ⟨enough', settled'⟩ := expandWithFuel_settles table other _ after [] nested
  have one := settled (max enough enough') (Nat.le_max_left enough enough')
  have two := settled' (max enough enough') (Nat.le_max_right enough enough')
  have same := expandWithFuel_alike table header other (max enough enough')
    (tokens.map fun token => ⟨token, [], 0⟩) before after
  simp only at one two
  rw [one, two] at same
  exact congrArg (List.map Pending.token) (Option.some.inj same)

theorem value_alike (table : MacroTable) (longWidth : Nat) (tokens : List Token)
    (header other : Option String) (before after : Findings) :
    (Condition.value table longWidth tokens header before).1 =
      (Condition.value table longWidth tokens other after).1 := by
  unfold Condition.value
  cases Condition.resolveDefined table tokens with
  | error error => rfl
  | ok resolved =>
    simp only
    rw [expand_alike table resolved header other before after]

theorem holds_alike (table : MacroTable) (longWidth : Nat) (tokens : List Token)
    (header other : Option String) (line at' : Option Nat) (before after : Findings) :
    (Condition.holds table longWidth tokens header line before).1 =
      (Condition.holds table longWidth tokens other at' after).1 := by
  have same := value_alike table longWidth tokens header other before after
  unfold Condition.holds
  generalize Condition.value table longWidth tokens header before = one at same
  generalize Condition.value table longWidth tokens other after = two at same
  obtain ⟨result, found⟩ := one
  obtain ⟨result', found'⟩ := two
  obtain rfl : result = result' := same
  cases result with
  | ok truth => rfl
  | error error => rfl

end CBindings
