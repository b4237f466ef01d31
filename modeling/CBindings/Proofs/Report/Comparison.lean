import CBindings.Report.Comparison

/-! What one report has beyond another: of every key the issues past as many as the other has, which
are the last ones. Which these are is told by the keys alone. -/

namespace CBindings

/-! ### Lists with keys -/

section

variable {κ : Type} [DecidableEq κ] {others keys : List κ} {key : κ}

/-- The positions of keys that come after as many of the same as the others have. -/
def surplus (others keys : List κ) : List Nat :=
  (List.range keys.length).filter fun i =>
    keys[i]?.any fun key => others.count key ≤ (keys.take i).count key

theorem surplus_cons (others : List κ) (key : κ) (keys : List κ) :
    surplus others (key :: keys) =
      (if key ∈ others then [] else [0]) ++ (surplus (others.erase key) keys).map (· + 1) := by
  have first : (others.count key ≤ 0) ↔ key ∉ others := by
    rw [Nat.le_zero, List.count_eq_zero]
  have later (i : Nat) (other : κ) : others.count other ≤ (key :: keys.take i).count other ↔
      (others.erase key).count other ≤ (keys.take i).count other := by
    by_cases same : other = key
    · rw [same, List.count_cons_self, List.count_erase_self]
      omega
    · rw [List.count_cons_of_ne (Ne.symm same), List.count_erase_of_ne same]
  unfold surplus
  rw [List.length_cons, List.range_succ_eq_map, List.filter_cons, List.filter_map]
  simp only [Function.comp_def, List.getElem?_cons_zero, List.getElem?_cons_succ, Option.any_some,
    List.take_zero, List.take_succ_cons, List.count_nil, first, later]
  by_cases known : key ∈ others <;> simp [known]

namespace Report

theorem unmatched_eq (others : List κ) (pairs : List (κ × Issue)) :
    unmatched others pairs =
      (surplus others (pairs.map Prod.fst)).filterMap fun i => (pairs.map Prod.snd)[i]? := by
  induction pairs generalizing others with
  | nil => rfl
  | cons pair rest ih =>
    obtain ⟨key, issue⟩ := pair
    rw [List.map_cons, List.map_cons, surplus_cons, List.filterMap_append, List.filterMap_map]
    by_cases known : key ∈ others
    · simp only [unmatched, List.contains_eq_mem, known, decide_true, if_true, ih]
      rfl
    · have kept : others.erase key = others := List.erase_of_not_mem known
      simp only [unmatched, List.contains_eq_mem, known, decide_false, Bool.false_eq_true, if_false,
        ih, kept]
      rfl

/-- Of the issues with one key all are left but the first, as many as the others have. -/
theorem filter_unmatched (label : Issue → κ) (others : List κ) (issues : List Issue) (key : κ) :
    (unmatched others (issues.map fun issue => (label issue, issue))).filter (label · = key) =
      (issues.filter (label · = key)).drop (others.count key) := by
  induction issues generalizing others with
  | nil => simp [unmatched]
  | cons issue rest ih =>
    rw [List.map_cons, unmatched]
    -- An issue that is matched uses up one of the others, and one that is not finds none of its key.
    by_cases known : label issue ∈ others
    · simp only [List.contains_eq_mem, known, decide_true, if_true, ih]
      by_cases same : label issue = key
      · obtain ⟨n, count⟩ := Nat.exists_eq_succ_of_ne_zero
          (Nat.ne_of_gt (List.count_pos_iff.mpr (same ▸ known)))
        simp [same, count, List.count_erase_self]
      · simp [same, List.count_erase_of_ne (Ne.symm same)]
    · simp only [List.contains_eq_mem, known, decide_false, Bool.false_eq_true, if_false]
      by_cases same : label issue = key
      · have none : others.count key = 0 := List.count_eq_zero.mpr (same ▸ known)
        have rest := ih others
        rw [none, List.drop_zero] at rest ⊢
        simp [same, rest]
      · simp [same, ih]

theorem filter_unmatched_map (label : Issue → κ) (others issues : List Issue) (key : κ) :
    (unmatched (others.map label) (issues.map fun issue => (label issue, issue))).filter
        (label · = key) =
      (issues.filter (label · = key)).drop (others.countP (label · = key)) := by
  have count : (others.map label).count key = others.countP (label · = key) := by
    rw [List.count, List.countP_map]
    exact List.countP_congr fun issue _ => by simp
  rw [filter_unmatched, count]

end Report

end

/-! ### Reports -/

def Issue.IsKeyed (issue : Issue) : Prop := ∀ part ∈ issue.key, part.scalar?.isSome

def Issue.identity (issue : Issue) : List Scalar := issue.key.filterMap Json.scalar?

theorem Issue.scalarKey_eq {issue : Issue} (keyed : issue.IsKeyed) :
    issue.scalarKey = .ok issue.identity := by
  have each : ∀ parts : List Json, (∀ part ∈ parts, part.scalar?.isSome) →
      parts.mapM Json.scalar = .ok (parts.filterMap Json.scalar?) := by
    intro parts plain
    induction parts with
    | nil => rfl
    | cons part rest ih =>
      obtain ⟨here, later⟩ := List.forall_mem_cons.mp plain
      obtain ⟨scalar, found⟩ := Option.isSome_iff_exists.mp here
      rw [List.mapM_cons, Json.scalar, found, ih later, List.filterMap_cons, found]
      rfl
  exact each issue.key keyed

theorem Issue.isKeyed_ofDiagnostic (d : Diagnostic) : (ofDiagnostic d).IsKeyed := by
  have option : ∀ text : Option String, (Json.ofOption Json.string text).scalar?.isSome := by
    rintro (_ | text) <;> rfl
  simp only [IsKeyed, key, ofDiagnostic, List.forall_mem_cons]
  exact ⟨rfl, option _, option _, rfl, nofun⟩

namespace Report

variable {baseline target earlier later : Report}

/-- All parts of keys are such that reports can be compared. -/
def IsKeyed (r : Report) : Prop := ∀ issue ∈ r.issues, issue.IsKeyed

theorem isKeyed_ofRun (entry target : String) (headers : List String)
    (diagnostics : List Diagnostic) : (ofRun entry target headers diagnostics).IsKeyed :=
  List.forall_mem_map.mpr fun d _ => Issue.isKeyed_ofDiagnostic d

def keys (r : Report) : List (List Scalar) := r.issues.map Issue.identity

def issuesAt (r : Report) (positions : List Nat) : List Issue :=
  positions.filterMap fun i => r.issues[i]?

def Moved (r moved : Report) : Prop := moved.issues.map Issue.key = r.issues.map Issue.key

theorem Moved.isKeyed (moved : baseline.Moved earlier) (keyed : baseline.IsKeyed) :
    earlier.IsKeyed := by
  have parts : ∀ parts ∈ baseline.issues.map Issue.key, ∀ part ∈ parts, part.scalar?.isSome :=
    List.forall_mem_map.mpr keyed
  rw [← moved] at parts
  exact fun issue member => parts issue.key (List.mem_map_of_mem member)

theorem Moved.keys (moved : baseline.Moved earlier) : earlier.keys = baseline.keys := by
  have identities : ∀ r : Report,
      r.keys = (r.issues.map Issue.key).map (List.filterMap Json.scalar?) :=
    fun r => List.map_map.symm
  rw [identities, identities, moved]

theorem keyed_eq {r : Report} (keyed : r.IsKeyed) :
    r.keyed = .ok (r.issues.map fun issue => (issue.identity, issue)) := by
  have each : ∀ issues : List Issue, (∀ issue ∈ issues, issue.IsKeyed) →
      (issues.mapM fun issue => return (← issue.scalarKey, issue) :
        Except ReportError (List (List Scalar × Issue))) =
        .ok (issues.map fun issue => (issue.identity, issue)) := by
    intro issues plain
    induction issues with
    | nil => rfl
    | cons issue rest ih =>
      obtain ⟨here, later⟩ := List.forall_mem_cons.mp plain
      rw [List.mapM_cons, Issue.scalarKey_eq here, ih later]
      rfl
  exact each r.issues keyed

theorem unmatched_identity (baseline target : Report) :
    unmatched baseline.keys (target.issues.map fun issue => (issue.identity, issue)) =
      target.issuesAt (surplus baseline.keys target.keys) := by
  rw [unmatched_eq, List.map_map, List.map_map]
  simp only [Function.comp_def, List.map_id']
  rfl

theorem compare_eq (keyed : baseline.IsKeyed) (keyed' : target.IsKeyed) :
    baseline.compare target =
      .ok ⟨target.issuesAt (surplus baseline.keys target.keys),
        baseline.issuesAt (surplus target.keys baseline.keys)⟩ := by
  have labels : ∀ r : Report,
      (r.issues.map fun issue => (issue.identity, issue)).map Prod.fst = r.keys :=
    fun r => List.map_map
  unfold compare
  rw [keyed_eq keyed, keyed_eq keyed']
  simp only [bind, Except.bind, pure, Except.pure, labels, unmatched_identity]

def countOf (r : Report) (key : List Scalar) : Nat := r.issues.countP (·.identity = key)

def withKey (key : List Scalar) (issues : List Issue) : List Issue :=
  issues.filter (·.identity = key)

theorem withKey_issuesAt (baseline target : Report) (key : List Scalar) :
    withKey key (target.issuesAt (surplus baseline.keys target.keys)) =
      (withKey key target.issues).drop (baseline.countOf key) := by
  rw [← unmatched_identity]
  exact filter_unmatched_map Issue.identity baseline.issues target.issues key

theorem length_withKey (r : Report) (key : List Scalar) :
    (withKey key r.issues).length = r.countOf key := List.countP_eq_length_filter.symm

theorem countOf_of_perm (same : baseline.keys.Perm target.keys) (key : List Scalar) :
    baseline.countOf key = target.countOf key := by
  have counts : ∀ r : Report, r.keys.countP (· = key) = r.countOf key := fun r => List.countP_map
  rw [← counts, ← counts, same.countP_eq]

theorem issuesAt_of_perm (same : baseline.keys.Perm target.keys) :
    target.issuesAt (surplus baseline.keys target.keys) = [] := by
  rw [List.eq_nil_iff_forall_not_mem]
  intro issue member
  have own : issue ∈ withKey issue.identity
      (target.issuesAt (surplus baseline.keys target.keys)) :=
    List.mem_filter.mpr ⟨member, by simp⟩
  rw [withKey_issuesAt, countOf_of_perm same, ← length_withKey, List.drop_length] at own
  exact List.not_mem_nil own

/-- Two reports are compared by their keys. What is new in the later one are the issues at positions
that the keys tell, so that issues may move and change their severity; of each key these are the
last ones, as many as there are more of it than before. What is resolved is what would be new the
other way round. Nothing is either if the keys are the same in any order. -/
theorem compare_surplus (baseline target : Report) (keyed : baseline.IsKeyed)
    (keyed' : target.IsKeyed) :
    let fresh := surplus baseline.keys target.keys
    let gone := surplus target.keys baseline.keys
    (∀ earlier later, baseline.Moved earlier → target.Moved later →
      earlier.compare later = .ok ⟨later.issuesAt fresh, earlier.issuesAt gone⟩ ∧
      later.compare earlier = .ok ⟨earlier.issuesAt gone, later.issuesAt fresh⟩) ∧
    (∀ key,
      withKey key (target.issuesAt fresh) =
        (withKey key target.issues).drop (baseline.countOf key) ∧
      (withKey key (target.issuesAt fresh)).length = target.countOf key - baseline.countOf key ∧
      withKey key (baseline.issuesAt gone) =
        (withKey key baseline.issues).drop (target.countOf key) ∧
      (withKey key (baseline.issuesAt gone)).length =
        baseline.countOf key - target.countOf key) ∧
    (baseline.keys.Perm target.keys →
      target.issuesAt fresh = [] ∧ baseline.issuesAt gone = []) := by
  intro fresh gone
  refine ⟨fun earlier later before after => ?_, fun key => ?_, fun same => ?_⟩
  · have first := compare_eq (before.isKeyed keyed) (after.isKeyed keyed')
    have second := compare_eq (after.isKeyed keyed') (before.isKeyed keyed)
    rw [before.keys, after.keys] at first second
    exact ⟨first, second⟩
  · have new := withKey_issuesAt baseline target key
    have resolved := withKey_issuesAt target baseline key
    refine ⟨new, ?_, resolved, ?_⟩
    · rw [new, List.length_drop, length_withKey]
    · rw [resolved, List.length_drop, length_withKey]
  · exact ⟨issuesAt_of_perm same, issuesAt_of_perm same.symm⟩

def missing (symbol : String) (line : Int) (severity : String) : Diagnostic where
  kind := Diagnostic.unresolvedReference
  message := "references unknown type"
  header := some "a.h"
  line := some line
  symbol := some symbol
  severity := severity

def earlierRun : Report :=
  .ofRun "a.h" "x86-64" ["a.h"]
    [missing "S" 1 "warning", missing "T" 2 "warning", missing "S" 3 "warning"]

def laterRun : Report :=
  .ofRun "a.h" "x86-64" ["a.h"]
    [missing "S" 5 "error", missing "S" 6 "warning", missing "S" 7 "warning",
      missing "S" 8 "error"]

theorem compare_runs :
    earlierRun.IsKeyed ∧ laterRun.IsKeyed ∧
      earlierRun.compare laterRun = .ok
        ⟨[.ofDiagnostic (missing "S" 7 "warning"), .ofDiagnostic (missing "S" 8 "error")],
          [.ofDiagnostic (missing "T" 2 "warning")]⟩ := by
  have keyed : earlierRun.IsKeyed := isKeyed_ofRun _ _ _ _
  have keyed' : laterRun.IsKeyed := isKeyed_ofRun _ _ _ _
  have compared := (compare_surplus earlierRun laterRun keyed keyed').1 earlierRun laterRun rfl rfl
  have fresh : surplus earlierRun.keys laterRun.keys = [2, 3] := by decide +kernel
  have gone : surplus laterRun.keys earlierRun.keys = [1] := by decide +kernel
  rw [fresh, gone] at compared
  exact ⟨keyed, keyed', compared.1⟩

end Report

end CBindings
