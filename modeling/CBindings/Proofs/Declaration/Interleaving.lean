import CBindings.Proofs.Declaration.Omission
import Mathlib.Data.List.Range

/-! Where the constants of a header stand: each in order of place, between the declarations of the
statements that start before it and of those that start after it. -/

namespace CBindings

namespace Statement

theorem afterDecoration_suffix (items : List Placed) : afterDecoration items <:+ items := by
  have dropped := List.dropWhile_suffix isVolatileWord (l := items)
  unfold afterDecoration
  split
  · exact List.nil_suffix
  · next item rest found =>
    rw [found] at dropped
    split
    · split
      · next group cut =>
        have inside : group.after <:+ rest :=
          ⟨group.inside ++ [group.close], by simp [splitGroup?_eq cut]⟩
        exact inside.trans ((List.suffix_cons item rest).trans dropped)
      · exact List.nil_suffix
    · exact dropped

theorem afterBody_suffix (items : List Placed) : afterBody items <:+ items := by
  unfold afterBody
  split
  · next group cut => exact ⟨group.inside ++ [group.close], by simp [splitGroup?_eq cut]⟩
  · exact List.nil_suffix

theorem cleanFrom_sublist (items : List Placed) : (cleanFrom items).Sublist items := by
  fun_induction cleanFrom items with
  | case1 => exact .slnil
  | case2 item rest _ ih => exact (ih.trans (afterDecoration_suffix rest).sublist).cons item
  | case3 item rest _ _ ih => exact ih.cons item
  | case4 item rest _ _ ih => exact ih.cons_cons item

def start (statement : Statement) : Nat × Option Token :=
  (statement.position, statement.tokens.head?)

def placedStart (item : Placed) : Nat × Option Token := (item.1, some item.2)

theorem ofItems_starts (items : List Placed) :
    ((ofItems items).map start).Sublist (items.map placedStart) := by
  cases items with
  | nil => exact .slnil
  | cons first rest => simp [ofItems, start, placedStart]

theorem splitFrom_starts (current : List Placed) (depth : Nat) (items : List Placed) :
    ((splitFrom current depth items).map start).Sublist ((current ++ items).map placedStart) := by
  have later (current : List Placed) {fewer more : List Placed} (fewerTokens : fewer.Sublist more) :
      ((current ++ fewer).map placedStart).Sublist ((current ++ more).map placedStart) :=
    (fewerTokens.append_left current).map placedStart
  have closing {kept current rest more : List Placed} {statements : List Statement}
      (some : kept.Sublist current) (fewerTokens : rest.Sublist more)
      (ih : (statements.map start).Sublist (([] ++ rest).map placedStart)) :
      ((ofItems kept ++ statements).map start).Sublist ((current ++ more).map placedStart) := by
    rw [List.map_append, List.map_append]
    exact ((ofItems_starts kept).trans (some.map placedStart)).append
      (ih.trans (fewerTokens.map placedStart))
  fun_induction splitFrom current depth items with
  | case1 current => simpa using ofItems_starts current
  | case2 current depth item string brace rest _ _ ih =>
    exact ih.trans (later current (((rest.sublist_cons_self brace).cons string).cons item))
  | case3 current depth item string next rest _ _ ih =>
    exact ih.trans (later current (((next :: rest).sublist_cons_self string).cons item))
  | case4 => exact List.nil_sublist _
  | case5 current depth item rest _ _ ih =>
    exact closing (.refl current) (rest.sublist_cons_self item) ih
  | case6 current depth item rest _ _ _ isNamespace kept ih =>
    have some : kept.Sublist current := by
      unfold kept
      split
      · exact .refl current
      · exact List.nil_sublist current
    exact closing some ((afterBody_suffix rest).sublist.cons item) ih
  | case7 current depth item rest _ _ _ _ ih => simpa using ih

theorem split_starts (tokens : List Token) :
    ((split (clean tokens)).map start).Sublist
      (tokens.zipIdx.map fun placed => (placed.2, some placed.1)) := by
  have cleaned : (clean tokens).Sublist (tokens.zipIdx.map fun placed => (placed.2, placed.1)) :=
    cleanFrom_sublist _
  have starts := (splitFrom_starts [] 0 (clean tokens)).trans (cleaned.map placedStart)
  rw [List.map_map] at starts
  exact starts

/-- A statement stands where its first token stands among the tokens of the header. -/
theorem first_of_split {tokens : List Token} {statement : Statement}
    (member : statement ∈ split (clean tokens)) :
    ∃ first, statement.tokens.head? = some first ∧ tokens[statement.position]? = some first := by
  have inside := (split_starts tokens).subset (List.mem_map_of_mem member)
  obtain ⟨⟨token, index⟩, placed, same⟩ := List.mem_map.mp inside
  obtain ⟨index, head⟩ : index = statement.position ∧ some token = statement.tokens.head? := by
    simpa [start] using same
  refine ⟨token, head.symm, ?_⟩
  rw [← index]
  exact List.mem_zipIdx_iff_getElem?.mp placed

/-- No two statements start at one place, and later ones start at later places. -/
theorem split_increasing (tokens : List Token) :
    (split (clean tokens)).Pairwise fun a b => a.position < b.position := by
  have places : ((split (clean tokens)).map position).Sublist (List.range' 0 tokens.length) := by
    have := (split_starts tokens).map Prod.fst
    rw [List.map_map, List.map_map] at this
    rw [← List.zipIdx_map_snd]
    exact this
  exact List.pairwise_map.mp (List.Pairwise.sublist places (List.pairwise_lt_range' 1))

end Statement

namespace Declaration

def isConstant (d : Declaration) : Bool :=
  match d.item with
  | .constant .. => true
  | _ => false

end Declaration

namespace Macro

def isConstant (m : Macro) : Bool := m.isObjectLike && !m.body.isEmpty

end Macro

def constantsOf (header : String) (defines : List (Nat × Macro)) : List Declaration :=
  (defines.filter fun define => define.2.isConstant).map fun define =>
    ⟨.constant define.2.name define.2.bodyText, some ⟨header, define.2.line.getD 0⟩⟩

variable {header : String} {defines : List (Nat × Macro)} {statements : List Statement}

theorem filterMap_constant? (header : String) (defines : List (Nat × Macro)) :
    (defines.filterMap fun define => define.2.constant? header) = constantsOf header defines := by
  rw [constantsOf, ← List.filterMap_eq_map, List.filterMap_filter]
  rfl

theorem constantsOf_append (header : String) (first second : List (Nat × Macro)) :
    constantsOf header (first ++ second) =
      constantsOf header first ++ constantsOf header second := by
  simp [constantsOf]

theorem isConstant_of_mem_constantsOf {d : Declaration} (member : d ∈ constantsOf header defines) :
    d.isConstant = true := by
  obtain ⟨define, -, rfl⟩ := List.mem_map.mp member
  rfl

theorem isConstant_of_mem_tag {given : Option String} {base : Specified} {d : Declaration}
    (member : d ∈ base.tag header given) : d.isConstant = false := by
  cases base with
  | name kind known => cases member
  | opaqueTag isUnion known line =>
    cases isUnion <;> cases List.mem_singleton.mp member <;> rfl
  | record isUnion known line afterTypedef members =>
    simp only [Specified.tag] at member
    split at member
    · cases member
    · cases isUnion <;> cases List.mem_singleton.mp member <;> rfl
  | enum known line afterTypedef values => cases List.mem_singleton.mp member; rfl

mutual

theorem isConstant_of_mem_tags {d : Declaration} (base : Specified) (given : Option String)
    (member : d ∈ base.tags header given) : d.isConstant = false := by
  cases base with
  | name kind known | opaqueTag isUnion known line | enum known line afterTypedef values =>
    rw [Specified.tags] at member
    exact isConstant_of_mem_tag member
  | record isUnion known line afterTypedef members =>
    rw [Specified.tags] at member
    rcases List.mem_append.mp member with inside | own
    · exact isConstant_of_mem_memberTags members _ _ inside
    · exact isConstant_of_mem_tag own

theorem isConstant_of_mem_memberTags {d : Declaration} (members : List Member)
    (owner : Option String) (tally : Tally)
    (member : d ∈ Specified.memberTags header owner tally members) : d.isConstant = false := by
  cases members with
  | nil => cases member
  | cons first rest =>
    obtain ⟨qualifiers, base, declarators⟩ := first
    rcases List.mem_append.mp member with here | later
    · exact isConstant_of_mem_tags base _ here
    · exact isConstant_of_mem_memberTags rest owner _ later

end

theorem isConstant_of_mem_declarations {statement : Statement} {d : Declaration}
    (member : d ∈ (statement.declarations header).1) : d.isConstant = false := by
  unfold Statement.declarations at member
  split at member
  · cases member
  · split at member
    · cases member
    · next source _ =>
      rcases List.mem_append.mp member with tag | declared
      · exact isConstant_of_mem_tags source.base _ tag
      · obtain ⟨item, listed, rfl⟩ := List.mem_map.mp declared
        obtain ⟨declarator, -, declares⟩ := List.mem_filterMap.mp listed
        obtain ⟨name, -, declares⟩ := Option.bind_eq_some_iff.mp declares
        dsimp only at declares
        split at declares
        · cases declares
          rfl
        · split at declares
          · cases declares
          · split at declares <;> cases declares <;> rfl

/-- The constants and the other declarations of a header, each by themselves. -/
theorem interleave_parts (header : String) (defines : List (Nat × Macro))
    (statements : List Statement) :
    (interleave header defines statements).1.filter (·.isConstant) = constantsOf header defines ∧
      (interleave header defines statements).1.filter (!·.isConstant) =
        statements.flatMap (fun statement => (statement.declarations header).1) ∧
      (interleave header defines statements).2 =
        statements.flatMap (fun statement => (statement.declarations header).2) := by
  have all (defines : List (Nat × Macro)) :
      (constantsOf header defines).filter (·.isConstant) = constantsOf header defines ∧
        (constantsOf header defines).filter (!·.isConstant) = [] := by
    rw [List.filter_eq_self, List.filter_eq_nil_iff]
    exact ⟨fun _ => isConstant_of_mem_constantsOf,
      fun d member => by simp [isConstant_of_mem_constantsOf member]⟩
  induction statements generalizing defines with
  | nil =>
    rw [interleave, filterMap_constant?]
    exact ⟨(all defines).1, (all defines).2, rfl⟩
  | cons statement rest ih =>
    have others : (statement.declarations header).1.filter (·.isConstant) = [] ∧
        (statement.declarations header).1.filter (!·.isConstant) =
          (statement.declarations header).1 := by
      rw [List.filter_eq_self, List.filter_eq_nil_iff]
      exact ⟨fun d member => by simp [isConstant_of_mem_declarations member],
        fun d member => by simp [isConstant_of_mem_declarations member]⟩
    obtain ⟨constants, declared, reports⟩ :=
      ih (defines.dropWhile fun define => define.1 ≤ statement.position)
    simp only [interleave, filterMap_constant?, List.filter_append, all, others, constants,
      declared, reports, List.append_nil, List.nil_append, List.flatMap_cons, and_true]
    rw [← constantsOf_append, List.takeWhile_append_dropWhile]

theorem filter_places (defines : List (Nat × Macro)) (p q r : Nat → Prop) [DecidablePred p]
    [DecidablePred q] [DecidablePred r] (same : ∀ place, p place ∧ q place ↔ r place) :
    (defines.filter (p ·.1)).filter (q ·.1) = defines.filter (r ·.1) := by
  rw [List.filter_filter]
  refine List.filter_congr fun define _ => ?_
  rw [← Bool.decide_and, decide_eq_decide, and_comm]
  exact same define.1

/-- In order of place, the definitions before a place, at it and behind it stand in a row. -/
theorem filter_sorted (sorted : defines.Pairwise fun a b => a.1 ≤ b.1) (place : Nat) :
    defines.filter (·.1 < place) ++ defines.filter (·.1 = place) ++
      defines.filter (place < ·.1) = defines := by
  induction sorted with
  | nil => rfl
  | @cons first rest below _ ih =>
    have none {p : Nat → Prop} [DecidablePred p] (apart : ∀ place, first.1 ≤ place → ¬ p place) :
        rest.filter (p ·.1) = [] := by
      rw [List.filter_eq_nil_iff]
      exact fun define member => by simpa using apart define.1 (below define member)
    rcases Nat.lt_trichotomy first.1 place with before | here | behind
    · have other : first.1 ≠ place ∧ ¬ place < first.1 := by omega
      simp [before, other, ih]
    · have less := none (p := (· < place)) (by omega)
      rw [less, List.nil_append] at ih
      simp [here, less, ih]
    · have less := none (p := (· < place)) (by omega)
      have same := none (p := (· = place)) (by omega)
      have other : ¬ first.1 < place ∧ first.1 ≠ place := by omega
      rw [less, same, List.append_nil, List.nil_append] at ih
      simp [behind, less, same, other, ih]

theorem interleave_cons (sorted : defines.Pairwise fun a b => a.1 ≤ b.1) (statement : Statement) :
    (interleave header defines (statement :: statements)).1 =
      constantsOf header (defines.filter (·.1 ≤ statement.position)) ++
        (statement.declarations header).1 ++
        (interleave header (defines.filter (statement.position < ·.1)) statements).1 := by
  obtain ⟨front, back⟩ := takeWhile_eq_filter sorted statement.position
  have behind : (defines.filter fun define => !decide (define.1 ≤ statement.position)) =
      defines.filter (statement.position < ·.1) := by
    refine List.filter_congr fun define _ => ?_
    rw [← decide_not, decide_eq_decide, Nat.not_le]
  rw [interleave, filterMap_constant?, front, back, behind]

theorem interleave_at (sorted : defines.Pairwise fun a b => a.1 ≤ b.1)
    (increasing : statements.Pairwise fun a b => a.position < b.position) (place : Nat) :
    (interleave header defines statements).1 =
      (interleave header (defines.filter (·.1 < place))
          (statements.filter (·.position < place))).1 ++
        constantsOf header (defines.filter (·.1 = place)) ++
        (interleave header (defines.filter (place < ·.1))
          (statements.filter (place ≤ ·.position))).1 := by
  induction increasing generalizing defines with
  | nil =>
    simp only [List.filter_nil, interleave, filterMap_constant?, ← constantsOf_append]
    rw [filter_sorted sorted]
  | @cons statement rest later _ ih =>
    have kept (p : Nat × Macro → Bool) : (defines.filter p).Pairwise fun a b => a.1 ≤ b.1 :=
      sorted.filter p
    rw [interleave_cons sorted]
    by_cases before : statement.position < place
    · have notBehind : ¬ place ≤ statement.position := by omega
      have first := filter_places defines (· < place) (· ≤ statement.position)
        (· ≤ statement.position) (by omega)
      have between := filter_places defines (· < place) (statement.position < ·)
        (fun n => statement.position < n ∧ n < place) (by omega)
      have between' := filter_places defines (statement.position < ·) (· < place)
        (fun n => statement.position < n ∧ n < place) (by omega)
      have here := filter_places defines (statement.position < ·) (· = place) (· = place)
        (by omega)
      have last := filter_places defines (statement.position < ·) (place < ·) (place < ·)
        (by omega)
      rw [List.filter_cons_of_pos (by simpa using before),
        List.filter_cons_of_neg (by simpa using notBehind), interleave_cons (kept _),
        ih (kept _), first, between, between', here, last]
      simp only [List.append_assoc]
    · have behind : place ≤ statement.position := by omega
      have allLater : ∀ other ∈ statement :: rest, place ≤ other.position :=
        List.forall_mem_cons.mpr
          ⟨behind, fun other member => Nat.le_trans behind (Nat.le_of_lt (later other member))⟩
      have noneBefore : (statement :: rest).filter (·.position < place) = [] := by
        simpa only [List.filter_eq_nil_iff, decide_eq_true_eq, Nat.not_lt] using allLater
      have allBehind : (statement :: rest).filter (place ≤ ·.position) = statement :: rest := by
        simpa only [List.filter_eq_self, decide_eq_true_eq] using allLater
      have first := filter_places defines (· ≤ statement.position) (· < place) (· < place)
        (by omega)
      have here := filter_places defines (· ≤ statement.position) (· = place) (· = place)
        (by omega)
      have between := filter_places defines (· ≤ statement.position) (place < ·)
        (fun n => place < n ∧ n ≤ statement.position) (by omega)
      have between' := filter_places defines (place < ·) (· ≤ statement.position)
        (fun n => place < n ∧ n ≤ statement.position) (by omega)
      have last := filter_places defines (place < ·) (statement.position < ·)
        (statement.position < ·) (by omega)
      have row := filter_sorted (kept (·.1 ≤ statement.position)) place
      rw [first, here, between] at row
      rw [noneBefore, allBehind, interleave_cons (kept _), interleave, filterMap_constant?,
        between', last, ← row, constantsOf_append, constantsOf_append]
      simp only [List.append_assoc]

theorem mergeSort_places (defines : List (Nat × Macro)) :
    let order := defines.mergeSort fun a b => a.1 ≤ b.1
    order.Perm defines ∧ order.Pairwise (fun a b => a.1 ≤ b.1) ∧
      ∀ place, order.filter (·.1 = place) = defines.filter (·.1 = place) := by
  refine ⟨List.mergeSort_perm _ _, pairwise_byPlace defines, fun place => ?_⟩
  rw [filter_byPlace]
  refine List.mergeSort_of_pairwise (List.pairwise_of_forall_mem_list fun a first b second => ?_)
  simp only [List.mem_filter, decide_eq_true_eq] at first second ⊢
  omega

/-- The macros of a header change nothing in its other declarations and in its reports. Their
constants stand in order of place, one for each object-like macro with a body. The constants of a
place stand between the declarations of the statements whose first token stands before it and of
those whose first token stands at it or behind it. -/
theorem constants_interleaved (tokens : List Token) (header : String)
    (defines : List (Nat × Macro)) :
    let statements := Statement.split (Statement.clean tokens)
    let declared (statements : List Statement) :=
      statements.flatMap fun statement => (statement.declarations header).1
    let found := declarationsOf tokens header defines
    found.1.filter (!·.isConstant) = (declarationsOf tokens header).1 ∧
      found.2 = (declarationsOf tokens header).2 ∧
      (∀ statement ∈ statements, ∃ first, statement.tokens.head? = some first ∧
        tokens[statement.position]? = some first) ∧
      ∃ order : List (Nat × Macro),
        (order.Perm defines ∧ order.Pairwise (fun a b => a.1 ≤ b.1) ∧
          ∀ place, order.filter (·.1 = place) = defines.filter (·.1 = place)) ∧
        found.1.filter (·.isConstant) = constantsOf header order ∧
        ∀ place, ∃ before behind,
          found.1 = before ++ constantsOf header (defines.filter (·.1 = place)) ++ behind ∧
          before.filter (·.isConstant) = constantsOf header (order.filter (·.1 < place)) ∧
          before.filter (!·.isConstant) = declared (statements.filter (·.position < place)) ∧
          behind.filter (·.isConstant) = constantsOf header (order.filter (place < ·.1)) ∧
          behind.filter (!·.isConstant) = declared (statements.filter (place ≤ ·.position)) := by
  intro statements declared found
  obtain ⟨perm, sorted, stable⟩ := mergeSort_places defines
  have parts (defines : List (Nat × Macro)) (statements : List Statement) :=
    interleave_parts header defines statements
  refine ⟨?_, ?_, fun _ => Statement.first_of_split, _, ⟨perm, sorted, stable⟩, (parts _ _).1,
    fun place => ⟨_, _, ?_, (parts _ _).1, (parts _ _).2.1, (parts _ _).1, (parts _ _).2.1⟩⟩
  · rw [declarationsOf_eq_flatMap]
    exact (parts _ statements).2.1
  · rw [declarationsOf_eq_flatMap]
    exact (parts _ statements).2.2
  · rw [← stable]
    exact interleave_at sorted (Statement.split_increasing tokens) place

end CBindings
