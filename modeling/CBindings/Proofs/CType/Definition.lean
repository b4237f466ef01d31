import CBindings.Unseen
import Mathlib.Logic.Relation
import Mathlib.Order.WellFounded

/-! Names that are defined by values in which other names stand. -/

namespace CBindings

/-- Definitions of finitely many names. What a name stands for is built from its value and from what
the names in that value stand for. -/
structure Definitions (κ α β : Type) where
  names : List κ
  find : κ → Option α
  listed : ∀ name value, find name = some value → name ∈ names
  build : κ → α → (κ → β) → β
  leave : κ → β

theorem not_reached_back {κ : Type} {refers : κ → κ → Prop} {name next : κ}
    (founded : WellFounded (Function.swap refers)) (step : refers name next) :
    ¬ Relation.ReflTransGen refers next name := by
  intro back
  have cycle : Relation.TransGen (Function.swap refers) name name :=
    Relation.transGen_swap.mpr (.head' step back)
  exact founded.transGen.irrefl.irrefl name cycle

namespace Definitions

variable {κ α β : Type} [DecidableEq κ] {definitions : Definitions κ α β}
  {refers : κ → κ → Prop} {name : κ} {value : α} {pending : List κ}

set_option linter.unusedVariables false in
def unfold (definitions : Definitions κ α β) (pending : List κ) (name : κ) : β :=
  match found : definitions.find name with
  | none => definitions.leave name
  | some value =>
    if new : name ∈ pending then definitions.leave name
    else definitions.build name value fun next => definitions.unfold (name :: pending) next
termination_by unseen definitions.names pending
decreasing_by exact unseen_cons_lt (definitions.listed _ _ found) new

def meaning (definitions : Definitions κ α β) : κ → β := definitions.unfold []

theorem unfold_absent (absent : definitions.find name = none) :
    definitions.unfold pending name = definitions.leave name := by
  rw [unfold]
  split
  · rfl
  · next found =>
    rw [absent] at found
    cases found

theorem unfold_new (found : definitions.find name = some value) (new : name ∉ pending) :
    definitions.unfold pending name =
      definitions.build name value (definitions.unfold (name :: pending)) := by
  rw [unfold]
  split
  · next absent =>
    rw [found] at absent
    cases absent
  · next other found' =>
    cases found.symm.trans found'
    rw [dif_neg new]

def Respects (definitions : Definitions κ α β) (refers : κ → κ → Prop) : Prop :=
  ∀ name value, definitions.find name = some value → ∀ first second : κ → β,
    (∀ next, refers name next → first next = second next) →
      definitions.build name value first = definitions.build name value second

/-- What is pending does not matter to a name from which nothing pending is reached. -/
theorem unfold_apart (founded : WellFounded (Function.swap refers))
    (respects : definitions.Respects refers) (name : κ) (pending : List κ)
    (apart : ∀ other ∈ pending, ¬ Relation.ReflTransGen refers name other) :
    definitions.unfold pending name = definitions.meaning name := by
  induction name using founded.induction generalizing pending with
  | _ name ih =>
    cases found : definitions.find name with
    | none => rw [meaning, unfold_absent found, unfold_absent found]
    | some value =>
      have new : name ∉ pending := fun member => apart name member .refl
      have both : ∀ seen : List κ, (∀ other ∈ seen, ¬ Relation.ReflTransGen refers name other) →
          ∀ next, refers name next →
            definitions.unfold (name :: seen) next = definitions.meaning next := by
        intro seen far next step
        refine ih next step (name :: seen) fun other member way => ?_
        rcases List.mem_cons.mp member with rfl | earlier
        · exact not_reached_back founded step way
        · exact far other earlier (.head step way)
      rw [meaning, unfold_new found new, unfold_new found List.not_mem_nil]
      refine respects name value found _ _ fun next step => ?_
      exact (both pending apart next step).trans (both [] (by simp) next step).symm

theorem meaning_eq (founded : WellFounded (Function.swap refers))
    (respects : definitions.Respects refers) (found : definitions.find name = some value) :
    definitions.meaning name = definitions.build name value definitions.meaning := by
  rw [meaning, unfold_new found List.not_mem_nil]
  refine respects name value found _ _ fun next step => ?_
  refine unfold_apart founded respects next [name] fun other member way => ?_
  cases List.mem_singleton.mp member
  exact not_reached_back founded step way

end Definitions

end CBindings
