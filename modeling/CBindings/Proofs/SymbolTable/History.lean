import CBindings.Proofs.SymbolTable.Holder
import Mathlib.Data.List.Induction

/-! The holder of a name after any history of insertions. -/

namespace CBindings

namespace SymbolTable

/-- The table that a history of insertions leaves. A refused insertion does not end it. -/
def ofHistory (policy : DuplicatePolicy) (history : List Declaration) : SymbolTable :=
  history.foldl (fun table declaration => (table.insert declaration).1) { policy := policy }

/-- The declarations of a history with the serial numbers they get. -/
def symbolsOf (history : List Declaration) : List Symbol :=
  history.zipIdx.map fun entry => ⟨entry.2, entry.1⟩

/-- The symbols of a history that claim a name, in their order. -/
def claimants (history : List Declaration) (name : String) : List Symbol :=
  (symbolsOf history).filter fun symbol => name ∈ symbol.item.claimed

def complete (claims : List Symbol) : List Symbol := claims.filter fun symbol => !symbol.item.isOpaque

def firstHolder (claims : List Symbol) : Option Symbol :=
  (complete claims).head? <|> claims.head?

/-- The holder declares what the last complete claimant does, else it is the first claimant. -/
def HeldByLast (claims : List Symbol) (held : Option Symbol) : Prop :=
  match (complete claims).getLast? with
  | some last => ∃ symbol, held = some symbol ∧ symbol.agrees last
  | none => held = claims.head?

theorem ofHistory_append (policy : DuplicatePolicy) (history : List Declaration)
    (declaration : Declaration) :
    ofHistory policy (history ++ [declaration]) =
      ((ofHistory policy history).insert declaration).1 := by
  simp [ofHistory]

theorem claimants_append (history : List Declaration) (declaration : Declaration) (name : String) :
    claimants (history ++ [declaration]) name =
      claimants history name ++
        if name ∈ declaration.item.claimed then [⟨history.length, declaration⟩] else [] := by
  simp only [claimants, symbolsOf, List.zipIdx_append, List.map_append, List.filter_append]
  congr 1
  by_cases claims : name ∈ declaration.item.claimed
  · simp [Symbol.item, claims]
  · simp [Symbol.item, claims]

theorem complete_append_shown (claims : List Symbol) {symbol : Symbol}
    (shown : symbol.item.isOpaque = false) :
    complete (claims ++ [symbol]) = complete claims ++ [symbol] := by
  simp [complete, shown]

theorem complete_append_hidden (claims : List Symbol) {symbol : Symbol}
    (hidden : symbol.item.isOpaque = true) :
    complete (claims ++ [symbol]) = complete claims := by
  simp [complete, hidden]

theorem opaque_of_no_complete {claims : List Symbol} {held : Symbol}
    (nothing : complete claims = []) (first : claims.head? = some held) :
    held.item.isOpaque = true := by
  have member : held ∈ claims := List.mem_of_head? first
  simpa using List.filter_eq_nil_iff.mp nothing held member

/-! ### One more claimant -/

theorem firstHolder_append (claims : List Symbol) (symbol : Symbol) :
    firstHolder (claims ++ [symbol]) =
      some (DuplicatePolicy.first.resolve (firstHolder claims) symbol) := by
  unfold firstHolder
  cases found : complete claims with
  | cons held rest =>
    have shown : held.item.isOpaque = false := by
      have member : held ∈ complete claims := by simp [found]
      simpa [complete] using (List.mem_filter.mp member).2
    have stays : DuplicatePolicy.first.resolve (some held) symbol = held := by
      simp [DuplicatePolicy.resolve, shown]
    rcases symbol.item.isOpaque.eq_false_or_eq_true with hidden | complete
    · rw [complete_append_hidden claims hidden, found]
      simp [stays]
    · rw [complete_append_shown claims complete, found]
      simp [stays]
  | nil =>
    rcases hidden : symbol.item.isOpaque with _ | _
    · rw [complete_append_shown claims hidden, found]
      cases first : claims.head? with
      | none => simp [DuplicatePolicy.resolve]
      | some held =>
        have waiting := opaque_of_no_complete found first
        have completes : DuplicatePolicy.first.resolve (some held) symbol = symbol :=
          resolve_completes .first waiting (by simp [hidden])
        simp [completes]
    · rw [complete_append_hidden claims hidden, found]
      cases claims with
      | nil => simp [DuplicatePolicy.resolve]
      | cons held rest => simp [resolve_hidden .first hidden]

theorem heldByLast_append {claims : List Symbol} {held : Option Symbol} (symbol : Symbol)
    (before : HeldByLast claims held) :
    HeldByLast (claims ++ [symbol]) (some (DuplicatePolicy.last.resolve held symbol)) := by
  unfold HeldByLast at before ⊢
  rcases hidden : symbol.item.isOpaque with _ | _
  · rw [complete_append_shown claims hidden, List.getLast?_append]
    refine ⟨_, rfl, ?_⟩
    cases held with
    | none => exact symbol.agrees_self
    | some held =>
      by_cases agrees : held.agrees symbol
      · rw [resolve_agrees .last agrees]
        exact agrees
      · rcases waiting : held.item.isOpaque with _ | _
        · rw [resolve_clash .last ⟨agrees, waiting, hidden⟩]
          exact symbol.agrees_self
        · rw [resolve_completes .last waiting (by simp [hidden])]
          exact symbol.agrees_self
  · rw [complete_append_hidden claims hidden]
    cases last : (complete claims).getLast? with
    | some winner =>
      rw [last] at before
      obtain ⟨symbol', rfl, agrees⟩ := before
      exact ⟨symbol', by rw [resolve_hidden .last hidden], agrees⟩
    | none =>
      rw [last] at before
      subst before
      cases claims with
      | nil => rfl
      | cons held rest => simp [resolve_hidden .last hidden]

/-! ### A whole history -/

variable {policy : DuplicatePolicy} {history : List Declaration}

theorem consistent_empty (policy : DuplicatePolicy) :
    Consistent { policy := policy } where
  named name symbol found := by cases found
  owned name symbol found := by cases found
  apart name := .inl rfl

structure Running (policy : DuplicatePolicy) (count : Nat) (table : SymbolTable) : Prop where
  policy : table.policy = policy
  opened : table.isFinal = false
  counted : table.inserted = count
  consistent : table.Consistent

theorem running_ofHistory (policy : DuplicatePolicy) (history : List Declaration)
    (unspaced : ∀ declaration ∈ history, declaration.item.Unspaced) :
    Running policy history.length (ofHistory policy history) := by
  induction history using List.reverseRecOn with
  | nil => exact ⟨rfl, rfl, rfl, consistent_empty policy⟩
  | append_singleton history declaration ih =>
    have running := ih fun other member => unspaced other (List.mem_append_left _ member)
    have claim := insert_spec running.consistent running.opened (unspaced declaration (by simp))
    rw [ofHistory_append]
    generalize (ofHistory policy history).insert declaration = outcome at claim
    have kept : Kept (ofHistory policy history).counted outcome.1 := by
      cases claim with
      | granted after answer kept => exact kept
      | refused after name held kept => exact kept
    constructor
    · exact kept.policy.trans running.policy
    · exact kept.isFinal.trans running.opened
    · rw [kept.inserted, List.length_append, List.length_singleton, ← running.counted]
      rfl
    · exact kept.consistent

theorem holder?_ofHistory_append {declaration : Declaration} (lenient : policy ≠ .error)
    (unspaced : ∀ other ∈ history ++ [declaration], other.item.Unspaced) (name : String) :
    (ofHistory policy (history ++ [declaration])).holder? name =
      if name ∈ declaration.item.claimed then
        some (policy.resolve ((ofHistory policy history).holder? name) ⟨history.length, declaration⟩)
      else (ofHistory policy history).holder? name := by
  have running := running_ofHistory policy history
    fun other member => unspaced other (List.mem_append_left _ member)
  have claim := insert_spec running.consistent running.opened (unspaced declaration (by simp))
  rw [running.counted] at claim
  rw [ofHistory_append]
  generalize (ofHistory policy history).insert declaration = outcome at claim
  cases claim with
  | granted after answer kept free holder =>
    have settled := holder name
    rw [show (ofHistory policy history).counted.policy = policy from running.policy] at settled
    exact settled
  | refused after rival held kept strict member found clashes =>
    exact absurd (running.policy.symm.trans strict) lenient

theorem first_holder_of_history
    (unspaced : ∀ declaration ∈ history, declaration.item.Unspaced) (name : String) :
    (ofHistory .first history).holder? name = firstHolder (claimants history name) := by
  induction history using List.reverseRecOn with
  | nil => rfl
  | append_singleton history declaration ih =>
    have before := ih fun other member => unspaced other (List.mem_append_left _ member)
    rw [holder?_ofHistory_append (by simp) unspaced, claimants_append, before]
    by_cases claims : name ∈ declaration.item.claimed
    · simp only [claims, if_true]
      exact (firstHolder_append _ _).symm
    · simp only [claims, if_false, List.append_nil]

theorem last_holder_of_history
    (unspaced : ∀ declaration ∈ history, declaration.item.Unspaced) (name : String) :
    HeldByLast (claimants history name) ((ofHistory .last history).holder? name) := by
  induction history using List.reverseRecOn with
  | nil => rfl
  | append_singleton history declaration ih =>
    have before := ih fun other member => unspaced other (List.mem_append_left _ member)
    rw [holder?_ofHistory_append (by simp) unspaced, claimants_append]
    by_cases claims : name ∈ declaration.item.claimed
    · simp only [claims, if_true]
      exact heldByLast_append _ before
    · simpa only [claims, if_false, List.append_nil] using before

theorem insert_refused_iff {declaration : Declaration}
    (unspaced : ∀ other ∈ history, other.item.Unspaced) (plain : declaration.item.Unspaced) :
    (∃ name first second, ((ofHistory .error history).insert declaration).2 =
        .error (.duplicate name first second)) ↔
      declaration.item.isOpaque = false ∧ ∃ name ∈ declaration.item.claimed, ∃ held,
        (ofHistory .error history).holder? name = some held ∧ held.item.isOpaque = false ∧
          held.item ≠ declaration.item := by
  have running := running_ofHistory .error history unspaced
  have claim := insert_spec running.consistent running.opened plain
  generalize (ofHistory .error history).insert declaration = outcome at claim
  constructor
  · rintro ⟨name, first, second, refused⟩
    cases claim with
    | granted after answer kept free holder => cases refused
    | refused after rival held kept strict member found clashes =>
      obtain ⟨differ, heldShown, shown⟩ := clashes
      exact ⟨shown, rival, member, held, found, heldShown,
        fun same => differ (Symbol.agrees_iff.mpr same)⟩
  · rintro ⟨shown, name, member, held, found, heldShown, differ⟩
    cases claim with
    | granted after answer kept free holder =>
      have clashes : held.Clashes ⟨(ofHistory .error history).inserted, declaration⟩ :=
        ⟨mt Symbol.agrees_iff.mp differ, heldShown, shown⟩
      exact absurd running.policy (free name member held found clashes)
    | refused after rival held kept strict member found clashes => exact ⟨_, _, _, rfl⟩

/-- Who holds a name is told by the history alone. -/
theorem holder_of_history (history : List Declaration)
    (unspaced : ∀ declaration ∈ history, declaration.item.Unspaced) :
    (∀ policy name, (ofHistory policy history).get? name = none ∨
      (ofHistory policy history).free.get? name = none) ∧
    (∀ name, (ofHistory .first history).holder? name = firstHolder (claimants history name)) ∧
    (∀ name, HeldByLast (claimants history name) ((ofHistory .last history).holder? name)) ∧
    ∀ declaration : Declaration, declaration.item.Unspaced →
      ((∃ name first second, ((ofHistory .error history).insert declaration).2 =
          .error (.duplicate name first second)) ↔
        declaration.item.isOpaque = false ∧ ∃ name ∈ declaration.item.claimed, ∃ held,
          (ofHistory .error history).holder? name = some held ∧ held.item.isOpaque = false ∧
            held.item ≠ declaration.item) := by
  refine ⟨?_, first_holder_of_history unspaced, last_holder_of_history unspaced, ?_⟩
  · intro policy
    exact (running_ofHistory policy history unspaced).consistent.apart
  · intro declaration plain
    exact insert_refused_iff unspaced plain

def flagHistory : List Declaration :=
  [{ item := .enum none [⟨"FLAG_A", .number 1⟩, ⟨"FLAG_B", .implicit⟩] false },
   { item := .struct (some "S") none false },
   { item := .constant "FLAG_A" ["2"] },
   { item := .struct (some "S") (some []) false }]

theorem holder_of_flags :
    (∀ declaration ∈ flagHistory, declaration.item.Unspaced) ∧
    (ofHistory .first flagHistory).holder? "FLAG_A" = (symbolsOf flagHistory)[0]? ∧
    (ofHistory .first flagHistory).holder? "struct S" = (symbolsOf flagHistory)[3]? ∧
    HeldByLast [⟨0, flagHistory[0]⟩, ⟨2, flagHistory[2]⟩]
      ((ofHistory .last flagHistory).holder? "FLAG_A") ∧
    ∃ name first second, ((ofHistory .error flagHistory).insert
      { item := .constant "FLAG_B" ["3"] }).2 = .error (.duplicate name first second) := by
  have unspaced : ∀ declaration ∈ flagHistory, declaration.item.Unspaced := by decide
  obtain ⟨-, first, last, refused⟩ := holder_of_history flagHistory unspaced
  refine ⟨unspaced, ?_, ?_, ?_, ?_⟩
  · rw [first]
    decide
  · rw [first]
    decide
  · exact last "FLAG_A"
  · apply (refused { item := .constant "FLAG_B" ["3"] } (by decide)).mpr
    exact ⟨rfl, "FLAG_B", by decide, ⟨0, flagHistory[0]⟩, by decide, rfl, by decide⟩

end SymbolTable

end CBindings
