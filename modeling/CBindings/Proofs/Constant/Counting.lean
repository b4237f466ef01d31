import CBindings.Proofs.Constant.Folding
import CBindings.Proofs.Constant.Shape
import CBindings.Proofs.Integer.Range
import CBindings.Proofs.Integer.Word

/-! How the enumerators of an enum are numbered: each counts on from the last one before it that has a
value of its own, and the sum is wrapped once. -/

namespace CBindings

theorem IntType.int_wrap_succ (x : Int) : int.wrap (int.wrap x + 1) = int.wrap (x + 1) := by
  simp only [int_wrap_eq_toInt, BitVec.toInt_ofInt, Int.bmod_add_bmod]

namespace ConstantScope

variable {scope : ConstantScope} {resolve : String → Evaluating IntValue} {memo : ConstantMemo}
  {done values : List (String × Option Int)} {enumerators : List Enumerator} {e : Enumerator}

/-! ### One place after the other -/

def firstEnumerators (scope : ConstantScope) (resolve : String → Evaluating IntValue)
    (memo : ConstantMemo) (enumerators : List Enumerator) (count : Nat) :
    List (String × Option Int) × ConstantMemo :=
  scope.enumeratorsFrom resolve [] (some 0) (enumerators.take count) memo

def next (done : List (String × Option Int)) : Option Int :=
  done.getLast?.elim (some 0) fun last => last.2.map (· + 1)

theorem next_concat (done : List (String × Option Int)) (name : String) (value : Option Int) :
    next (done ++ [(name, value)]) = value.map (· + 1) := by
  simp [next]

theorem assigned_implicit (following : Option Int) :
    scope.assigned resolve done following .implicit = pure following := rfl

theorem enumeratorsFrom_append (scope : ConstantScope) (resolve : String → Evaluating IntValue)
    (first second : List Enumerator)
    (done : List (String × Option Int)) :
    scope.enumeratorsFrom resolve done (next done) (first ++ second) =
      scope.enumeratorsFrom resolve done (next done) first >>= fun values =>
        scope.enumeratorsFrom resolve values (next values) second := by
  induction first generalizing done with
  | nil => simp [enumeratorsFrom]
  | cons e rest ih =>
    simp only [List.cons_append, enumeratorsFrom, bind_assoc]
    congr 1
    funext given
    rw [← next_concat done e.name, ih]

theorem length_enumeratorsFrom (resolve : String → Evaluating IntValue) (memo : ConstantMemo)
    (enumerators : List Enumerator) :
    (scope.enumeratorsFrom resolve [] (some 0) enumerators memo).1.length = enumerators.length := by
  have counted : (scope.enumeratorsFrom resolve [] (some 0) enumerators memo).1.length =
      [].length + enumerators.length :=
    (enumeratorsFrom_length (fun _ => ensures_trivial _) enumerators [] (some 0) memo trivial).1
  simpa using counted

/-- The enumerators before a place are the first of all, and the next one follows them. -/
theorem enumeratorsFrom_place (scope : ConstantScope) (resolve : String → Evaluating IntValue)
    (memo : ConstantMemo) {i : Nat} (place : enumerators[i]? = some e) :
    let values := (scope.enumeratorsFrom resolve [] (some 0) enumerators memo).1
    let before := scope.firstEnumerators resolve memo enumerators i
    values.take i = before.1 ∧ values[i]? = some (e.name,
      (scope.assigned resolve before.1 (next before.1) e.value before.2).1.map
        IntType.int.wrap) := by
  intro values before
  obtain ⟨inside, here⟩ := List.getElem?_eq_some_iff.mp place
  have length : before.1.length = i := by
    have counted : before.1.length = (enumerators.take i).length :=
      length_enumeratorsFrom resolve memo (enumerators.take i)
    rw [counted, List.length_take_of_le (Nat.le_of_lt inside)]
  let given := scope.assigned resolve before.1 (next before.1) e.value before.2
  let value := given.1.map IntType.int.wrap
  have run : values = (scope.enumeratorsFrom resolve (before.1 ++ [(e.name, value)])
      (value.map (· + 1)) (enumerators.drop (i + 1)) given.2).1 := by
    have parts := enumeratorsFrom_append scope resolve
      (enumerators.take i) (enumerators.drop i) []
    rw [List.take_append_drop, List.drop_eq_getElem_cons inside, here] at parts
    exact congrArg Prod.fst (congrFun parts memo)
  obtain ⟨behind, whole⟩ : before.1 ++ [(e.name, value)] <+: values := by
    rw [run]
    exact (enumeratorsFrom_extends resolve _ _ _ given.2 trivial).1
  rw [← whole]
  constructor
  · simp [← length]
  · simp [← length, value, given]

/-- An enumerator without a value of its own counts on from the one before it. -/
theorem enumeratorsFrom_counts {i : Nat} {name : String} {value : Option Int}
    (previous : (scope.enumeratorsFrom resolve [] (some 0) enumerators memo).1[i]? =
      some (name, value))
    (place : enumerators[i + 1]? = some e) (implicit : e.value = .implicit) :
    (scope.enumeratorsFrom resolve [] (some 0) enumerators memo).1[i + 1]? =
      some (e.name, value.map fun n => IntType.int.wrap (n + 1)) := by
  obtain ⟨taken, found⟩ := enumeratorsFrom_place scope resolve memo place
  have follows : next (scope.firstEnumerators resolve memo enumerators (i + 1)).1 =
      value.map (· + 1) := by
    rw [← taken, List.take_add_one, previous]
    exact next_concat _ name value
  rw [found, implicit, assigned_implicit, follows]
  change some (e.name, (value.map (· + 1)).map IntType.int.wrap) = _
  rw [Option.map_map]
  rfl

theorem enumeratorsFrom_fromZero (i : Nat) (place : enumerators[i]? = some e)
    (implicit : ∀ k ≤ i, ∀ other, enumerators[k]? = some other → other.value = .implicit) :
    (scope.enumeratorsFrom resolve [] (some 0) enumerators memo).1[i]? =
      some (e.name, some (IntType.int.wrap i)) := by
  induction i generalizing e with
  | zero =>
    obtain ⟨-, found⟩ := enumeratorsFrom_place scope resolve memo place
    rw [found, implicit 0 le_rfl e place]
    rfl
  | succ i ih =>
    obtain ⟨before, known⟩ : ∃ before, enumerators[i]? = some before :=
      ⟨_, List.getElem?_eq_getElem (by have := (List.getElem?_eq_some_iff.mp place).1; omega)⟩
    have previous := ih known fun k upTo => implicit k (by omega)
    rw [enumeratorsFrom_counts previous place (implicit _ le_rfl e place)]
    simp [IntType.int_wrap_succ]

theorem enumeratorsFrom_onwards {j i : Nat} {own : Enumerator} {given : Option Int}
    (start : enumerators[j]? = some own)
    (known : (scope.enumeratorsFrom resolve [] (some 0) enumerators memo).1[j]? =
      some (own.name, given.map IntType.int.wrap))
    (upTo : j ≤ i) (place : enumerators[i]? = some e)
    (implicit : ∀ k, j < k → k ≤ i → ∀ other, enumerators[k]? = some other →
      other.value = .implicit) :
    (scope.enumeratorsFrom resolve [] (some 0) enumerators memo).1[i]? =
      some (e.name, given.map fun v => IntType.int.wrap (v + (i - j))) := by
  induction i, upTo using Nat.le_induction generalizing e with
  | base =>
    obtain rfl : own = e := Option.some.inj (start.symm.trans place)
    simpa using known
  | succ i upTo ih =>
    obtain ⟨before, found⟩ : ∃ before, enumerators[i]? = some before :=
      ⟨_, List.getElem?_eq_getElem (by have := (List.getElem?_eq_some_iff.mp place).1; omega)⟩
    have previous := ih found fun k after within => implicit k after (by omega)
    have sum (v : Int) : v + (i - j) + 1 = v + ((i + 1 : Nat) - j) := by omega
    rw [enumeratorsFrom_counts previous place (implicit _ (by omega) le_rfl e place), Option.map_map]
    simp only [Function.comp_def, IntType.int_wrap_succ, sum]

/-! ### The closed form -/

/-- What C says of the values of an enum, with given meanings for the names in it. The value of an
expression is known where those of its names that are no earlier enumerators are clear. -/
structure Numbering (scope : ConstantScope) (meaning : String → Except ExpressionError IntValue)
    (clear : String → Prop) (enumerators : List Enumerator) (values : List (String × Option Int)) :
    Prop where
  names : values.map Prod.fst = enumerators.map Enumerator.name
  ranged : ∀ name n, (name, some n) ∈ values → IntType.int.fits n = true
  fromZero : ∀ (i : Nat) (e : Enumerator), enumerators[i]? = some e →
    (∀ k ≤ i, ∀ other, enumerators[k]? = some other → other.value = .implicit) →
      values[i]? = some (e.name, some (IntType.int.wrap i))
  fromExplicit : ∀ (j i : Nat) (own e : Enumerator), j ≤ i → enumerators[j]? = some own →
    own.value ≠ .implicit → enumerators[i]? = some e →
    (∀ k, j < k → k ≤ i → ∀ other, enumerators[k]? = some other → other.value = .implicit) →
    (∀ name ∈ scope.namesAsked ((enumerators.take j).map Enumerator.name) own.value, clear name) →
      values[i]? = some (e.name,
        (scope.assignedUnder meaning (values.take j) none own.value).map
          fun v => IntType.int.wrap (v + (i - j)))

theorem assignedUnder_explicit {meaning : String → Except ExpressionError IntValue}
    {given : Assigned} (explicit : given ≠ .implicit) (following : Option Int) :
    scope.assignedUnder meaning done following given =
      scope.assignedUnder meaning done none given := by
  cases given with
  | implicit => exact absurd rfl explicit
  | number n => rfl
  | text expression => rfl

theorem map_fst_enumeratorsFrom (resolve : String → Evaluating IntValue) (memo : ConstantMemo)
    (enumerators : List Enumerator) :
    (scope.enumeratorsFrom resolve [] (some 0) enumerators memo).1.map Prod.fst =
      enumerators.map Enumerator.name := by
  apply List.ext_getElem (by simp [length_enumeratorsFrom])
  intro i inside within
  have here : i < enumerators.length := by simpa using within
  obtain ⟨-, found⟩ := enumeratorsFrom_place scope resolve memo (List.getElem?_eq_getElem here)
  obtain ⟨_, known⟩ := List.getElem?_eq_some_iff.mp found
  simpa only [List.getElem_map] using congrArg Prod.fst known

theorem fits_enumeratorsFrom {name : String} {n : Int}
    (member : (name, some n) ∈ (scope.enumeratorsFrom resolve [] (some 0) enumerators memo).1) :
    IntType.int.fits n = true := by
  obtain ⟨i, found⟩ := List.mem_iff_getElem?.mp member
  have inside := (List.getElem?_eq_some_iff.mp found).1
  rw [length_enumeratorsFrom] at inside
  obtain ⟨-, value⟩ := enumeratorsFrom_place scope resolve memo (List.getElem?_eq_getElem inside)
  obtain ⟨m, -, wrapped⟩ := Option.map_eq_some_iff.mp
    (Prod.mk.inj (Option.some.inj (value.symm.trans found))).2
  exact wrapped ▸ IntType.fits_wrap _ _

variable {holds : ConstantMemo → Prop} {meaning : String → Except ExpressionError IntValue}
  {clear : String → Prop}

/-- Enumerators are numbered as C says if their names are right, also those after one that has no
value. -/
theorem numbering_ensures
    (named : ∀ name ∈ scope.namesFrom [] enumerators,
      Ensures holds (resolve name).run fun result => clear name → result = meaning name) :
    Ensures holds (scope.enumeratorsFrom resolve [] (some 0) enumerators)
      (scope.Numbering meaning clear enumerators) := by
  intro memo held
  have keeps : ∀ part, (∀ name ∈ scope.namesFrom [] part, name ∈ scope.namesFrom [] enumerators) →
      holds (scope.enumeratorsFrom resolve [] (some 0) part memo).2 := by
    intro part among
    have kept : Ensures holds (scope.enumeratorsFrom resolve [] (some 0) part) fun result =>
        False → result = scope.enumeratorsUnder meaning [] (some 0) part :=
      enumeratorsFrom_ensures [] (some 0) fun name member =>
        (named name (among name member)).mono fun _ _ => False.elim
    exact (kept memo held).2
  refine ⟨⟨map_fst_enumeratorsFrom resolve memo enumerators, fun _ _ => fits_enumeratorsFrom,
    fun i e => enumeratorsFrom_fromZero i, ?_⟩, keeps enumerators fun _ => id⟩
  intro j i own e upTo start explicit place implicit isClear
  obtain ⟨taken, found⟩ := enumeratorsFrom_place scope resolve memo start
  let before := scope.firstEnumerators resolve memo enumerators j
  have right : ∀ name ∈ scope.namesAsked (before.1.map Prod.fst) own.value,
      Ensures holds (resolve name).run fun result => True → result = meaning name := by
    intro name asked
    have earlier : before.1.map Prod.fst = (enumerators.take j).map Enumerator.name :=
      map_fst_enumeratorsFrom resolve memo _
    rw [earlier] at asked
    exact (named name (mem_namesFrom start asked)).mono
      fun result known _ => known (isClear name asked)
  have given : (scope.assigned resolve before.1 (next before.1) own.value before.2).1 =
      scope.assignedUnder meaning before.1 none own.value :=
    ((assigned_ensures right before.2 (keeps _ fun _ => namesFrom_take)).1 trivial).trans
      (assignedUnder_explicit explicit _)
  rw [given, ← taken] at found
  exact enumeratorsFrom_onwards start found upTo place implicit

end ConstantScope

end CBindings
