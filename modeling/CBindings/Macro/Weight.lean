import CBindings.Token.Basic

/-! The measure that expansion lowers: how many tokens wait at each depth, outermost depth first. -/

namespace CBindings

structure Pending where
  token : Token
  hidden : List String := []
  depth : Nat := 0
  deriving DecidableEq, Repr

namespace Pending

def opensParen (p : Pending) : Bool := p.token.isPunct "("

def closesParen (p : Pending) : Bool := p.token.isPunct ")"

def isComma (p : Pending) : Bool := p.token.isPunct ","

def weighs (p : Pending) : Bool := p.token.kind = .ident || p.closesParen

def weighing (ps : List Pending) : List Pending := ps.filter weighs

def countAt (depth : Nat) (ps : List Pending) : Nat :=
  ps.countP fun p => p.weighs && p.depth == depth

end Pending

def LexBelow : List Nat → List Nat → Prop
  | a :: as, b :: bs => (a < b ∧ as.length = bs.length) ∨ (a = b ∧ LexBelow as bs)
  | _, _ => False

theorem LexBelow.length_eq {as bs : List Nat} (below : LexBelow as bs) : as.length = bs.length := by
  induction as generalizing bs with
  | nil => cases bs <;> simp [LexBelow] at below
  | cons a as ih =>
    cases bs with
    | nil => simp [LexBelow] at below
    | cons b bs =>
      rcases below with ⟨_, same⟩ | ⟨_, below⟩
      · simp [same]
      · simp [ih below]

theorem LexBelow.accessible (n : Nat) : ∀ bs : List Nat, bs.length = n → Acc LexBelow bs := by
  induction n with
  | zero =>
    intro bs empty
    refine ⟨_, fun as below => ?_⟩
    rw [List.length_eq_zero_iff.mp empty] at below
    cases as <;> simp [LexBelow] at below
  | succ n ih =>
    suffices tails : ∀ b bs, bs.length = n → Acc LexBelow (b :: bs) by
      intro bs length
      cases bs with
      | nil => simp at length
      | cons b bs => exact tails b bs (by simpa using length)
    intro b
    induction b using Nat.strongRecOn with
    | ind b smaller =>
      intro bs length
      have tail := ih bs length
      induction tail with
      | intro bs _ lower =>
        refine ⟨_, fun as below => ?_⟩
        cases as with
        | nil => simp [LexBelow] at below
        | cons a as =>
          have same := below.length_eq
          simp only [List.length_cons, Nat.add_right_cancel_iff] at same
          rcases below with ⟨less, _⟩ | ⟨rfl, below⟩
          · exact smaller a less as (same.trans length)
          · exact lower as below (same.trans length)

theorem LexBelow.of_map {f g : Nat → Nat} {last last' : List Nat} (places : List Nat)
    (length : last.length = last'.length)
    (below : (∀ i ∈ places, f i = g i) ∧ LexBelow last last' ∨
      ∃ before place after, places = before ++ place :: after ∧
        (∀ i ∈ before, f i = g i) ∧ f place < g place) :
    LexBelow (places.map f ++ last) (places.map g ++ last') := by
  induction places with
  | nil =>
    rcases below with ⟨_, below⟩ | ⟨before, place, after, split, _⟩
    · simpa using below
    · simp at split
  | cons i places ih =>
    simp only [List.map_cons, List.cons_append, LexBelow]
    rcases below with ⟨same, below⟩ | ⟨before, place, after, split, same, less⟩
    · exact .inr ⟨same i (by simp), ih (.inl ⟨fun j member => same j (by simp [member]), below⟩)⟩
    · cases before with
      | nil =>
        simp only [List.nil_append, List.cons.injEq] at split
        obtain ⟨rfl, rfl⟩ := split
        exact .inl ⟨less, by simp [length]⟩
      | cons j before =>
        simp only [List.cons_append, List.cons.injEq] at split
        obtain ⟨rfl, split⟩ := split
        refine .inr ⟨same i (by simp), ih (.inr ⟨before, place, after, split, ?_, less⟩)⟩
        exact fun j member => same j (by simp [member])

structure Weight where
  counts : List Nat

instance : WellFoundedRelation Weight where
  rel a b := LexBelow a.counts b.counts
  wf := ⟨fun b => InvImage.accessible Weight.counts (LexBelow.accessible _ b.counts rfl)⟩

def weight (limit : Nat) (ps : List Pending) : Weight :=
  ⟨(List.range (limit + 1)).map (Pending.countAt · ps) ++ [ps.length]⟩

/-- The first place at which `f` lies below `g`, if none before it lies above. -/
theorem exists_first_below {f g : Nat → Nat} (d : Nat) (upTo : ∀ i < d, f i ≤ g i)
    (less : f d < g d) : ∃ e ≤ d, (∀ i < e, f i = g i) ∧ f e < g e := by
  induction d using Nat.strongRecOn with
  | ind d ih =>
    by_cases same : ∀ i < d, f i = g i
    · exact ⟨d, Nat.le_refl d, same, less⟩
    · simp only [Classical.not_forall] at same
      obtain ⟨i, small, different⟩ := same
      have := upTo i small
      obtain ⟨e, le, first⟩ := ih i small (fun j lower => upTo j (Nat.lt_trans lower small))
        (Nat.lt_of_le_of_ne this different)
      exact ⟨e, Nat.le_trans le (Nat.le_of_lt small), first⟩

theorem weight_lt {limit : Nat} {ps qs : List Pending} (d : Nat) (within : d ≤ limit)
    (outside : ∀ i < d, Pending.countAt i ps ≤ Pending.countAt i qs)
    (fewer : Pending.countAt d ps < Pending.countAt d qs) :
    WellFoundedRelation.rel (weight limit ps) (weight limit qs) := by
  obtain ⟨e, le, same, less⟩ := exists_first_below (f := (Pending.countAt · ps))
    (g := (Pending.countAt · qs)) d outside fewer
  refine LexBelow.of_map _ rfl
    (.inr ⟨List.range e, e, List.range' (e + 1) (limit - e), ?_, ?_, less⟩)
  · rw [List.range_eq_range', List.range_eq_range', ← List.range'_succ]
    have := @List.range'_append 0 e (limit - e + 1) 1
    rw [show limit + 1 = e + (limit - e + 1) by omega, ← this]
    simp
  · intro i member
    exact same i (List.mem_range.mp member)

theorem weight_lt_of_length {limit : Nat} {ps qs : List Pending}
    (noMore : ∀ i, Pending.countAt i ps ≤ Pending.countAt i qs) (fewer : ps.length < qs.length) :
    WellFoundedRelation.rel (weight limit ps) (weight limit qs) := by
  by_cases same : ∀ i ≤ limit, Pending.countAt i ps = Pending.countAt i qs
  · refine LexBelow.of_map _ rfl (.inl ⟨fun i member => ?_, ?_⟩)
    · exact same i (by simpa [Nat.lt_succ_iff] using member)
    · simp [LexBelow, fewer]
  · simp only [Classical.not_forall] at same
    obtain ⟨d, within, different⟩ := same
    exact weight_lt d within (fun i _ => noMore i) (Nat.lt_of_le_of_ne (noMore d) different)

theorem Pending.countAt_append (depth : Nat) (ps qs : List Pending) :
    countAt depth (ps ++ qs) = countAt depth ps + countAt depth qs := by
  simp [countAt, List.countP_append]

theorem Pending.countAt_sublist {depth : Nat} {ps qs : List Pending} (part : ps.Sublist qs) :
    countAt depth ps ≤ countAt depth qs := part.countP_le

theorem Pending.weighing_append (ps qs : List Pending) :
    weighing (ps ++ qs) = weighing ps ++ weighing qs := List.filter_append ps qs

theorem Pending.weighing_sublist {ps qs : List Pending} (part : ps.Sublist qs) :
    (weighing ps).Sublist (weighing qs) := part.filter weighs

theorem Pending.countAt_le_of_weighing {ps qs : List Pending} (depth : Nat)
    (part : (weighing ps).Sublist (weighing qs)) : countAt depth ps ≤ countAt depth qs := by
  have counted : ∀ ps, countAt depth ps = (weighing ps).countP (·.depth == depth) := by
    intro ps
    rw [weighing, List.countP_filter, countAt]
    congr 1
    funext p
    exact Bool.and_comm _ _
  rw [counted, counted]
  exact part.countP_le

theorem Pending.countAt_eq_zero {depth other : Nat} {ps : List Pending}
    (all : ∀ p ∈ ps, p.depth = other) (different : depth ≠ other) : countAt depth ps = 0 := by
  rw [countAt, List.countP_eq_zero]
  intro p member
  simp [all p member, Ne.symm different]

end CBindings
