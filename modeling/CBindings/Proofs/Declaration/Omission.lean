import CBindings.Declaration.Listing

/-! Leaving macros out of a header leaves their constants out of its declarations and changes
nothing else. -/

namespace CBindings

section

variable {α : Type} {le : α → α → Bool}
  (trans : ∀ a b c, le a b = true → le b c = true → le a c = true)
  (total : ∀ a b, (le a b || le b a) = true)

include trans total

/-- Sorting puts a first element between those that are less and all others. -/
theorem mergeSort_cons_eq (a : α) (l : List α) :
    let less := (l.mergeSort le).filter fun b => !le a b
    let others := (l.mergeSort le).filter (le a ·)
    l.mergeSort le = less ++ others ∧ (a :: l).mergeSort le = less ++ a :: others := by
  obtain ⟨before, after, whole, rest, less⟩ := List.mergeSort_cons trans total a l
  have sorted := List.pairwise_mergeSort trans total (a :: l)
  rw [whole] at sorted
  have notLess : ∀ b ∈ after, le a b = true :=
    (List.pairwise_cons.mp (List.pairwise_append.mp sorted).2.1).1
  have noneAfter : after.filter (fun b => !le a b) = [] := by
    rw [List.filter_eq_nil_iff]
    intro b member
    simp [notLess b member]
  have noneBefore : before.filter (le a ·) = [] := by
    rw [List.filter_eq_nil_iff]
    intro b member
    simpa using less b member
  simp only [whole, rest, List.filter_append, noneAfter, noneBefore, List.filter_eq_self.mpr less,
    List.filter_eq_self.mpr notLess, List.append_nil, List.nil_append, and_self]

theorem filter_mergeSort (keep : α → Bool) (l : List α) :
    (l.mergeSort le).filter keep = (l.filter keep).mergeSort le := by
  induction l with
  | nil => simp
  | cons a rest ih =>
    obtain ⟨cut, sorted⟩ := mergeSort_cons_eq trans total a rest
    obtain ⟨cut', sorted'⟩ := mergeSort_cons_eq trans total a (rest.filter keep)
    have swapped (p : α → Bool) : ((rest.mergeSort le).filter p).filter keep =
        ((rest.filter keep).mergeSort le).filter p := by
      rw [← ih, List.filter_filter, List.filter_filter]
      exact List.filter_congr fun b _ => Bool.and_comm _ _
    by_cases kept : keep a = true
    · rw [sorted, List.filter_append, List.filter_cons_of_pos kept, List.filter_cons_of_pos kept,
        sorted', swapped, swapped]
    · rw [sorted, List.filter_append, List.filter_cons_of_neg kept, List.filter_cons_of_neg kept,
        swapped, swapped, ← cut']

end

variable {names : List String} {header : String} {defines others : List (Nat × Macro)}

def withoutMacros (names : List String) (defines : List (Nat × Macro)) : List (Nat × Macro) :=
  defines.filter fun define => !names.contains define.2.name

def isNoConstantOf (names : List String) (declaration : Declaration) : Bool :=
  match declaration.item with
  | .constant name _ => !names.contains name
  | _ => true

def withoutConstants (names : List String) (declarations : List Declaration) :
    List Declaration :=
  declarations.filter (isNoConstantOf names)

theorem byPlace_trans (a b c : Nat × Macro) (first : decide (a.1 ≤ b.1) = true)
    (second : decide (b.1 ≤ c.1) = true) : decide (a.1 ≤ c.1) = true :=
  decide_eq_true (Nat.le_trans (of_decide_eq_true first) (of_decide_eq_true second))

theorem byPlace_total (a b : Nat × Macro) : (decide (a.1 ≤ b.1) || decide (b.1 ≤ a.1)) = true := by
  simpa using Nat.le_total a.1 b.1

theorem pairwise_byPlace (defines : List (Nat × Macro)) :
    (defines.mergeSort fun a b => a.1 ≤ b.1).Pairwise fun a b => a.1 ≤ b.1 :=
  (List.pairwise_mergeSort byPlace_trans byPlace_total defines).imp of_decide_eq_true

theorem filter_byPlace (keep : Nat × Macro → Bool) (defines : List (Nat × Macro)) :
    (defines.mergeSort fun a b => a.1 ≤ b.1).filter keep =
      (defines.filter keep).mergeSort fun a b => a.1 ≤ b.1 :=
  filter_mergeSort byPlace_trans byPlace_total keep defines

theorem takeWhile_eq_filter (sorted : defines.Pairwise fun a b => a.1 ≤ b.1) (place : Nat) :
    (defines.takeWhile fun define => define.1 ≤ place) =
        (defines.filter fun define => define.1 ≤ place) ∧
      (defines.dropWhile fun define => define.1 ≤ place) =
        (defines.filter fun define => !decide (define.1 ≤ place)) := by
  induction sorted with
  | nil => exact ⟨rfl, rfl⟩
  | @cons first rest below _ ih =>
    by_cases before : first.1 ≤ place
    · simp only [List.takeWhile_cons, List.dropWhile_cons, List.filter_cons, before, decide_true,
        if_true, Bool.not_true, Bool.false_eq_true, if_false]
      exact ⟨congrArg _ ih.1, ih.2⟩
    · have after : ∀ define ∈ first :: rest, ¬ define.1 ≤ place := by
        intro define member le
        rcases List.mem_cons.mp member with rfl | later
        · exact before le
        · exact before (Nat.le_trans (below define later) le)
      have none : (first :: rest).filter (fun define => define.1 ≤ place) = [] := by
        simpa [List.filter_eq_nil_iff] using after
      have all : (first :: rest).filter (fun define => !decide (define.1 ≤ place)) =
          first :: rest := by
        rw [List.filter_eq_self]
        intro define member
        simpa using after define member
      rw [none, all, List.takeWhile_cons_of_neg (by simpa using before),
        List.dropWhile_cons_of_neg (by simpa using before)]
      exact ⟨rfl, rfl⟩

theorem withoutMacros_append (names : List String) (first second : List (Nat × Macro)) :
    withoutMacros names (first ++ second) = withoutMacros names first ++ withoutMacros names second :=
  List.filter_append _ _

theorem withoutConstants_append (names : List String) (first second : List Declaration) :
    withoutConstants names (first ++ second) =
      withoutConstants names first ++ withoutConstants names second :=
  List.filter_append _ _

theorem withoutConstants_constants (names : List String) (header : String)
    (defines : List (Nat × Macro)) :
    withoutConstants names (defines.filterMap fun define => define.2.constant? header) =
      withoutConstants names
        ((withoutMacros names defines).filterMap fun define => define.2.constant? header) := by
  unfold withoutMacros withoutConstants
  rw [List.filterMap_filter, List.filter_filterMap, List.filter_filterMap]
  refine congrArg (defines.filterMap ·) (funext fun define => ?_)
  by_cases left : define.2.name ∈ names
  · have dropped : (define.2.constant? header).filter (isNoConstantOf names) = none := by
      unfold Macro.constant?
      split
      · simp [isNoConstantOf, left]
      · rfl
    rw [dropped, if_neg (by simp [left])]
    rfl
  · rw [if_pos (by simp [left])]

/-- Declarations are read from the statements, whatever macros stand between them. -/
theorem interleave_without (names : List String) (header : String) (statements : List Statement)
    (sorted : defines.Pairwise fun a b => a.1 ≤ b.1) :
    withoutConstants names (interleave header defines statements).1 =
        withoutConstants names (interleave header (withoutMacros names defines) statements).1 ∧
      (interleave header defines statements).2 =
        (interleave header (withoutMacros names defines) statements).2 := by
  induction statements generalizing defines with
  | nil => exact ⟨withoutConstants_constants names header defines, rfl⟩
  | cons statement rest ih =>
    have kept : (withoutMacros names defines).Pairwise fun a b => a.1 ≤ b.1 :=
      sorted.filter _
    have commutes (p : Nat × Macro → Bool) :
        (withoutMacros names defines).filter p = withoutMacros names (defines.filter p) := by
      unfold withoutMacros
      rw [List.filter_filter, List.filter_filter]
      exact List.filter_congr fun b _ => Bool.and_comm _ _
    obtain ⟨front, back⟩ := takeWhile_eq_filter sorted statement.position
    obtain ⟨front', back'⟩ := takeWhile_eq_filter kept statement.position
    obtain ⟨same, reports⟩ := ih (sorted.filter fun define =>
      !decide (define.1 ≤ statement.position))
    simp only [interleave, front, back, front', back', commutes, withoutConstants_append]
    exact ⟨by rw [withoutConstants_constants, same], by rw [reports]⟩

/-- Headers with the same tokens whose macros differ in those of some names have the same reports,
and their declarations differ in constants of these names. -/
theorem declarationsOf_without (tokens : List Token) (header : String)
    (same : withoutMacros names defines = withoutMacros names others) :
    withoutConstants names (declarationsOf tokens header defines).1 =
        withoutConstants names (declarationsOf tokens header others).1 ∧
      (declarationsOf tokens header defines).2 = (declarationsOf tokens header others).2 := by
  have first := interleave_without names header (Statement.split (Statement.clean tokens))
    (pairwise_byPlace defines)
  have second := interleave_without names header (Statement.split (Statement.clean tokens))
    (pairwise_byPlace others)
  have kept : withoutMacros names (defines.mergeSort fun a b => a.1 ≤ b.1) =
      withoutMacros names (others.mergeSort fun a b => a.1 ≤ b.1) := by
    unfold withoutMacros at same ⊢
    rw [filter_byPlace, filter_byPlace, same]
  unfold declarationsOf
  rw [first.1, first.2, second.1, second.2, kept]
  exact ⟨rfl, rfl⟩

end CBindings
