import CBindings.SymbolTable.Insertion

/-! What one insertion does to the holders of names: a declaration claims some names, and each
claim is settled by the same rule whether an entry or an enum without a name holds it so far. -/

namespace CBindings

namespace Item

def plainNames : Item → List String
  | struct .. | union .. => []
  | enum _ values _ => values.map Enumerator.name
  | function name .. | typedef name _ | object name _ | constant name _ => [name]

def Unspaced (item : Item) : Prop := ∀ name ∈ item.plainNames, ' ' ∉ name.toList

instance (item : Item) : Decidable item.Unspaced :=
  inferInstanceAs (Decidable (∀ name ∈ item.plainNames, ' ' ∉ name.toList))

/-- The names for which a declaration wants to be the holder. -/
def claimed (item : Item) : List String :=
  match item.qualifiedName with
  | some key => [key]
  | none => item.enumerators.map Enumerator.name

theorem claimed_of_key {item : Item} {key : String} (known : item.qualifiedName = some key) :
    item.claimed = [key] := by
  simp only [claimed, known]

theorem claimed_of_anonymous {item : Item} (anonymous : item.qualifiedName = none) :
    item.claimed = item.enumerators.map Enumerator.name := by
  simp only [claimed, anonymous]

theorem tagName_eq_some {kind key : String} {name : Option String}
    (known : tagName kind name = some key) : ∃ tag, key = kind ++ " " ++ tag := by
  obtain ⟨tag, -, rfl⟩ := Option.map_eq_some_iff.mp known
  exact ⟨tag, rfl⟩

theorem blank_mem_of_hidden {item : Item} {key : String} (hidden : item.isOpaque)
    (known : item.qualifiedName = some key) : ' ' ∈ key.toList := by
  cases item with
  | struct name fields isTypedef =>
    obtain ⟨tag, rfl⟩ := tagName_eq_some known
    simp
  | union name fields =>
    obtain ⟨tag, rfl⟩ := tagName_eq_some known
    simp
  | _ => simp [isOpaque] at hidden

/-- The kinds of two tags with one key are the same, since the key begins with the kind. -/
theorem kind_eq_of_hidden {first second : Item} {key : String} (hidden : first.isOpaque)
    (firstKnown : first.qualifiedName = some key) (secondKnown : second.qualifiedName = some key)
    (unspaced : second.Unspaced) : second.kind = first.kind := by
  have blank := blank_mem_of_hidden hidden firstKnown
  cases first with
  | struct name fields isTypedef =>
    obtain ⟨tag, rfl⟩ := tagName_eq_some firstKnown
    cases second with
    | struct => rfl
    | union | enum =>
      obtain ⟨other, same⟩ := tagName_eq_some secondKnown
      simp [String.ext_iff] at same
    | function | typedef | object | constant =>
      exact absurd blank (unspaced _ (by simpa [plainNames, qualifiedName] using secondKnown.symm))
  | union name fields =>
    obtain ⟨tag, rfl⟩ := tagName_eq_some firstKnown
    cases second with
    | union => rfl
    | struct | enum =>
      obtain ⟨other, same⟩ := tagName_eq_some secondKnown
      simp [String.ext_iff] at same
    | function | typedef | object | constant =>
      exact absurd blank (unspaced _ (by simpa [plainNames, qualifiedName] using secondKnown.symm))
  | _ => simp [isOpaque] at hidden

theorem not_opaque_of_enumerator {item : Item} {name : String}
    (anonymous : item.qualifiedName = none) (claims : name ∈ item.claimed) :
    item.isOpaque = false ∧ name ∈ item.plainNames := by
  rw [claimed_of_anonymous anonymous] at claims
  cases item with
  | enum tag values isTypedef => exact ⟨rfl, claims⟩
  | _ => simp [enumerators] at claims

end Item

namespace Symbol

def Clashes (held new : Symbol) : Prop :=
  ¬ held.agrees new ∧ held.item.isOpaque = false ∧ new.item.isOpaque = false

instance (held new : Symbol) : Decidable (held.Clashes new) :=
  inferInstanceAs (Decidable (_ ∧ _))

theorem agrees_iff {held new : Symbol} : held.agrees new ↔ held.item = new.item :=
  decide_eq_true_iff

theorem agrees_self (symbol : Symbol) : symbol.agrees symbol := agrees_iff.mpr rfl

theorem not_clashes_of_agrees {held new : Symbol} (agrees : held.agrees new) :
    ¬ held.Clashes new :=
  fun clashes => clashes.1 agrees

end Symbol

def DuplicatePolicy.resolve (policy : DuplicatePolicy) (held : Option Symbol) (new : Symbol) :
    Symbol :=
  match held with
  | none => new
  | some held =>
    if held.Clashes new then (if policy = .last then new else held)
    else if held.item.isOpaque ∧ ¬ new.item.isOpaque then new
    else held

namespace SymbolTable

variable {table before after : SymbolTable} {symbol held owner : Symbol} {key name : String}

/-- Entries are filed under their own keys, free constants belong to enums without a name that
have them, and no name is both. -/
structure Consistent (table : SymbolTable) : Prop where
  named : ∀ name symbol, table.get? name = some symbol →
    symbol.item.qualifiedName = some name ∧ symbol.item.Unspaced
  owned : ∀ name symbol, table.free.get? name = some symbol →
    symbol.item.qualifiedName = none ∧ name ∈ symbol.item.claimed ∧ symbol.item.Unspaced
  apart : ∀ name, table.get? name = none ∨ table.free.get? name = none

/-- A step that leaves the settings of a table alone and its contents consistent. -/
structure Kept (before after : SymbolTable) : Prop where
  policy : after.policy = before.policy
  isFinal : after.isFinal = before.isFinal
  inserted : after.inserted = before.inserted
  consistent : after.Consistent

theorem Kept.trans {middle : SymbolTable} (first : Kept before middle) (second : Kept middle after) :
    Kept before after where
  policy := second.policy.trans first.policy
  isFinal := second.isFinal.trans first.isFinal
  inserted := second.inserted.trans first.inserted
  consistent := second.consistent

/-- What a claim on `names` comes to: every name gets the holder that the policy wants, or one of
them is held by a symbol that does not give way. -/
inductive Claim (before : SymbolTable) (symbol : Symbol) (names : List String) {α : Type} :
    Outcome α → Prop where
  | granted (after : SymbolTable) (answer : α) (kept : Kept before after)
      (free : ∀ name ∈ names, ∀ held, before.holder? name = some held → held.Clashes symbol →
        before.policy ≠ .error)
      (holder : ∀ name, after.holder? name =
        if name ∈ names then some (before.policy.resolve (before.holder? name) symbol)
        else before.holder? name) :
      Claim before symbol names (after, .ok answer)
  | refused (after : SymbolTable) (name : String) (held : Symbol) (kept : Kept before after)
      (strict : before.policy = .error) (member : name ∈ names)
      (found : before.holder? name = some held) (clashes : held.Clashes symbol) :
      Claim before symbol names (after, .error (.duplicate name held.header symbol.header))

/-! ### The parts of a table that a step writes -/

theorem holder?_own (value : Enumerator) (other : String) :
    (table.own symbol value).holder? other =
      if other = value.name then some symbol else table.holder? other := by
  by_cases same : other = value.name
  · simp [holder?, own, get?, same]
  · simp [holder?, own, get?, OrderedMap.get?_erase, OrderedMap.get?_insert, same]

theorem holder?_place (other : String) :
    (table.place key symbol).holder? other =
      if other = key then some symbol else table.holder? other := by
  by_cases same : other = key
  · simp [holder?, place, get?, same]
  · simp [holder?, place, get?, OrderedMap.get?_erase, OrderedMap.get?_insert, same]

theorem holder?_release (other : String) :
    (table.release key).holder? other =
      if other = key then table.get? key else table.holder? other := by
  by_cases same : other = key
  · simp [holder?, release, get?, same]
  · simp [holder?, release, get?, OrderedMap.get?_erase, same]

theorem Consistent.holder?_of_owner (consistent : table.Consistent)
    (found : table.free.get? name = some owner) : table.holder? name = some owner := by
  have unused : table.get? name = none := by
    rcases consistent.apart name with unused | unowned
    · exact unused
    · rw [unowned] at found
      cases found
  simp [holder?, unused, found]

theorem get?_or_free_of_holder? (found : table.holder? name = some held) :
    table.get? name = some held ∨ table.free.get? name = some held := by
  unfold holder? at found
  cases entry : table.get? name with
  | none =>
    rw [entry] at found
    exact .inr found
  | some other =>
    rw [entry] at found
    exact .inl found

theorem Consistent.own {value : Enumerator} (consistent : table.Consistent)
    (anonymous : symbol.item.qualifiedName = none) (claims : value.name ∈ symbol.item.claimed)
    (unspaced : symbol.item.Unspaced) : (table.own symbol value).Consistent where
  named other entry found := by
    simp only [SymbolTable.own, get?, OrderedMap.get?_erase] at found
    split at found
    · cases found
    · exact consistent.named other entry found
  owned other entry found := by
    simp only [SymbolTable.own, OrderedMap.get?_insert] at found
    split at found
    · next same =>
      cases found
      rw [same]
      exact ⟨anonymous, claims, unspaced⟩
    · exact consistent.owned other entry found
  apart other := by
    simp only [SymbolTable.own, get?, OrderedMap.get?_erase, OrderedMap.get?_insert]
    split
    · exact .inl rfl
    · exact consistent.apart other

theorem Consistent.place (consistent : table.Consistent) (unowned : table.free.get? key = none)
    (known : symbol.item.qualifiedName = some key) (unspaced : symbol.item.Unspaced) :
    (table.place key symbol).Consistent where
  named other entry found := by
    simp only [SymbolTable.place, get?, OrderedMap.get?_insert, OrderedMap.get?_erase] at found
    split at found
    · next same =>
      cases found
      rw [same]
      exact ⟨known, unspaced⟩
    · exact consistent.named other entry found
  owned := consistent.owned
  apart other := by
    by_cases same : other = key
    · rw [same]
      exact .inr unowned
    · simp only [SymbolTable.place, get?, OrderedMap.get?_insert, OrderedMap.get?_erase, same,
        if_false]
      exact consistent.apart other

theorem Consistent.release (consistent : table.Consistent) : (table.release key).Consistent where
  named := consistent.named
  owned other entry found := by
    simp only [SymbolTable.release, OrderedMap.get?_erase] at found
    split at found
    · cases found
    · exact consistent.owned other entry found
  apart other := by
    rcases consistent.apart other with unused | unowned
    · exact .inl unused
    · refine .inr ?_
      simp only [SymbolTable.release, OrderedMap.get?_erase, unowned, ite_self]

theorem Consistent.recordClash (consistent : table.Consistent) (existing : Symbol)
    (replaces : Bool) : (table.recordClash name existing symbol replaces).Consistent :=
  ⟨consistent.named, consistent.owned, consistent.apart⟩

theorem Consistent.kept (consistent : table.Consistent) : Kept table table :=
  ⟨rfl, rfl, rfl, consistent⟩

theorem Consistent.kept_recordClash (consistent : table.Consistent) (existing : Symbol)
    (replaces : Bool) : Kept table (table.recordClash name existing symbol replaces) :=
  ⟨rfl, rfl, rfl, consistent.recordClash existing replaces⟩

/-! ### One name -/

section Resolve

variable (policy : DuplicatePolicy)

theorem resolve_agrees (agrees : held.agrees symbol) :
    policy.resolve (some held) symbol = held := by
  have same : held.item = symbol.item := Symbol.agrees_iff.mp agrees
  simp [DuplicatePolicy.resolve, Symbol.Clashes, agrees, same]

theorem resolve_clash (clashes : held.Clashes symbol) :
    policy.resolve (some held) symbol = if policy = .last then symbol else held := by
  simp [DuplicatePolicy.resolve, clashes]

theorem resolve_hidden (hidden : symbol.item.isOpaque) :
    policy.resolve (some held) symbol = held := by
  simp [DuplicatePolicy.resolve, Symbol.Clashes, hidden]

theorem resolve_completes (hidden : held.item.isOpaque) (shown : ¬ symbol.item.isOpaque) :
    policy.resolve (some held) symbol = symbol := by
  simp [DuplicatePolicy.resolve, Symbol.Clashes, hidden, shown]

theorem resolve_again (found : Option Symbol) :
    policy.resolve (some (policy.resolve found symbol)) symbol = policy.resolve found symbol := by
  cases found with
  | none => exact resolve_agrees policy symbol.agrees_self
  | some held =>
    by_cases clashes : held.Clashes symbol
    · rw [resolve_clash policy clashes]
      split
      · exact resolve_agrees policy symbol.agrees_self
      · next kept => rw [resolve_clash policy clashes, if_neg kept]
    · by_cases completes : held.item.isOpaque ∧ ¬ symbol.item.isOpaque
      · rw [resolve_completes policy completes.1 completes.2]
        exact resolve_agrees policy symbol.agrees_self
      · have stays : policy.resolve (some held) symbol = held := by
          simp only [DuplicatePolicy.resolve, clashes, completes, if_false]
        rw [stays, stays]

theorem resolve_settled (found : Option Symbol)
    (free : ∀ held, found = some held → held.Clashes symbol → policy ≠ .error)
    (strict : policy = .error) : ¬ (policy.resolve found symbol).Clashes symbol := by
  cases found with
  | none => exact Symbol.not_clashes_of_agrees symbol.agrees_self
  | some held =>
    have peaceful : ¬ held.Clashes symbol := fun clashes => free held rfl clashes strict
    by_cases completes : held.item.isOpaque ∧ ¬ symbol.item.isOpaque
    · rw [resolve_completes policy completes.1 completes.2]
      exact Symbol.not_clashes_of_agrees symbol.agrees_self
    · have stays : policy.resolve (some held) symbol = held := by
        simp only [DuplicatePolicy.resolve, peaceful, completes, if_false]
      rwa [stays]

end Resolve

theorem Claim.single {α : Type} {answer : α} (kept : Kept before after)
    (free : ∀ held, before.holder? key = some held → held.Clashes symbol → before.policy ≠ .error)
    (here : after.holder? key = some (before.policy.resolve (before.holder? key) symbol))
    (elsewhere : ∀ other, other ≠ key → after.holder? other = before.holder? other) :
    Claim before symbol [key] (after, .ok answer) := by
  refine .granted after answer kept ?_ ?_
  · intro name member
    rw [List.mem_singleton.mp member]
    exact free
  · intro name
    by_cases same : name = key
    · rw [same, here, if_pos List.mem_cons_self]
    · rw [elsewhere name same, if_neg (fun member => same (List.mem_singleton.mp member))]

theorem Claim.unchanged {α : Type} {answer : α} (kept : Kept before after)
    (found : before.holder? key = some held) (peaceful : ¬ held.Clashes symbol)
    (stays : before.policy.resolve (some held) symbol = held)
    (same : ∀ other, after.holder? other = before.holder? other) :
    Claim before symbol [key] (after, .ok answer) := by
  refine .single kept ?_ ?_ (fun other _ => same other)
  · intro rival rivalFound clashes
    rw [found] at rivalFound
    cases rivalFound
    exact absurd clashes peaceful
  · rw [same, found, stays]

theorem Claim.replaced {α : Type} {answer : α} (kept : Kept before after)
    (free : ∀ held, before.holder? key = some held → held.Clashes symbol → before.policy ≠ .error)
    (wins : before.policy.resolve (before.holder? key) symbol = symbol)
    (holder : ∀ other, after.holder? other = if other = key then some symbol
      else before.holder? other) :
    Claim before symbol [key] (after, .ok answer) := by
  refine .single kept free ?_ ?_
  · rw [holder, if_pos rfl, wins]
  · intro other different
    rw [holder, if_neg different]

theorem clash_cases (found : table.holder? key = some held) (clashes : held.Clashes symbol) :
    (table.policy = .error ∧
      table.clash key held symbol = (table, .error (.duplicate key held.header symbol.header))) ∨
    (table.policy ≠ .error ∧ ∃ replaces,
      table.clash key held symbol = (table.recordClash key held symbol replaces, .ok replaces) ∧
      table.policy.resolve (table.holder? key) symbol = if replaces then symbol else held) := by
  rw [found, resolve_clash table.policy clashes]
  cases policy : table.policy with
  | first => exact .inr ⟨by simp, false, by simp [clash, policy], by simp⟩
  | last => exact .inr ⟨by simp, true, by simp [clash, policy], by simp⟩
  | error => exact .inl ⟨rfl, by simp [clash, policy]⟩

theorem claim_spec (value : Enumerator) (consistent : table.Consistent)
    (anonymous : symbol.item.qualifiedName = none) (claims : value.name ∈ symbol.item.claimed)
    (unspaced : symbol.item.Unspaced) :
    Claim table symbol [value.name] (table.claim symbol value) := by
  have owned : Kept table (table.own symbol value) :=
    ⟨rfl, rfl, rfl, consistent.own anonymous claims unspaced⟩
  have shown : symbol.item.isOpaque = false :=
    (Item.not_opaque_of_enumerator anonymous claims).1
  unfold claim
  cases found : table.holder? value.name with
  | none =>
    refine .replaced owned ?_ ?_ (fun other => holder?_own value other)
    · intro held heldFound
      rw [found] at heldFound
      cases heldFound
    · rw [found]
      rfl
  | some rival =>
    by_cases agrees : rival.agrees symbol
    · simp only [agrees, if_true]
      exact .unchanged consistent.kept found (Symbol.not_clashes_of_agrees agrees)
        (resolve_agrees table.policy agrees) (fun _ => rfl)
    · have rivalShown : rival.item.isOpaque = false := by
        refine Bool.eq_false_iff.mpr fun hidden => ?_
        have plain := (Item.not_opaque_of_enumerator anonymous claims).2
        rcases get?_or_free_of_holder? found with entry | owner
        · exact unspaced _ plain
            (Item.blank_mem_of_hidden hidden (consistent.named _ _ entry).1)
        · obtain ⟨free, member, -⟩ := consistent.owned _ _ owner
          rw [(Item.not_opaque_of_enumerator free member).1] at hidden
          cases hidden
      have clashes : rival.Clashes symbol := ⟨agrees, rivalShown, shown⟩
      simp only [agrees]
      rcases clash_cases found clashes with ⟨strict, refused⟩ | ⟨lenient, replaces, settled, winner⟩
      · rw [refused]
        exact .refused table value.name rival consistent.kept strict List.mem_cons_self found
          clashes
      · rw [settled]
        cases replaces with
        | true =>
          refine .replaced ⟨rfl, rfl, rfl, (consistent.recordClash rival true).own anonymous claims
            unspaced⟩ (fun _ _ _ => lenient) winner (fun other => holder?_own value other)
        | false =>
          refine .single (consistent.kept_recordClash rival false) (fun _ _ _ => lenient) ?_
            (fun _ _ => rfl)
          rw [winner]
          exact found

theorem settle_spec (consistent : table.Consistent) (unowned : table.free.get? key = none)
    (known : symbol.item.qualifiedName = some key) (unspaced : symbol.item.Unspaced) :
    Claim table symbol [key] (table.settle key symbol) := by
  have placed : Kept table (table.place key symbol) :=
    ⟨rfl, rfl, rfl, consistent.place unowned known unspaced⟩
  have holder : table.holder? key = table.get? key := by simp [holder?, unowned]
  unfold settle
  cases entry : table.get? key with
  | none =>
    refine .replaced placed ?_ ?_ (fun other => holder?_place other)
    · intro held found
      rw [holder, entry] at found
      cases found
    · rw [holder, entry]
      rfl
  | some existing =>
    have found : table.holder? key = some existing := by rw [holder, entry]
    obtain ⟨existingKnown, existingUnspaced⟩ := consistent.named _ _ entry
    by_cases agrees : existing.agrees symbol
    · simp only [agrees, if_true]
      exact .unchanged consistent.kept found (Symbol.not_clashes_of_agrees agrees)
        (resolve_agrees table.policy agrees) (fun _ => rfl)
    · by_cases hidden : symbol.item.isOpaque
      · have sameKind : existing.item.kind = symbol.item.kind :=
          Item.kind_eq_of_hidden hidden known existingKnown existingUnspaced
        simp only [agrees, hidden, sameKind, and_self, if_true]
        refine .unchanged consistent.kept found ?_ (resolve_hidden table.policy hidden)
          (fun _ => rfl)
        intro clashes
        rw [clashes.2.2] at hidden
        cases hidden
      · by_cases waiting : existing.item.isOpaque
        · have sameKind : existing.item.kind = symbol.item.kind :=
            (Item.kind_eq_of_hidden waiting existingKnown known unspaced).symm
          simp only [agrees, hidden, waiting, sameKind, and_self, if_true]
          refine .replaced placed ?_ ?_ (fun other => holder?_place other)
          · intro held heldFound clashes
            rw [found] at heldFound
            cases heldFound
            rw [clashes.2.1] at waiting
            cases waiting
          · rw [found]
            exact resolve_completes table.policy waiting hidden
        · have clashes : existing.Clashes symbol :=
            ⟨agrees, Bool.not_eq_true _ ▸ waiting, Bool.not_eq_true _ ▸ hidden⟩
          simp only [agrees, hidden, waiting, Bool.false_eq_true, false_and, if_false]
          rcases clash_cases found clashes with
            ⟨strict, refused⟩ | ⟨lenient, replaces, settled, winner⟩
          · rw [refused]
            exact .refused table key existing consistent.kept strict List.mem_cons_self found
              clashes
          · rw [settled]
            cases replaces with
            | true =>
              refine .replaced ⟨rfl, rfl, rfl, (consistent.recordClash existing true).place unowned
                known unspaced⟩ (fun _ _ _ => lenient) winner (fun other => holder?_place other)
            | false =>
              refine .single (consistent.kept_recordClash existing false)
                (fun _ _ _ => lenient) ?_ (fun _ _ => rfl)
              rw [winner]
              exact found

theorem claimName_spec (consistent : table.Consistent)
    (known : symbol.item.qualifiedName = some key) (unspaced : symbol.item.Unspaced) :
    Claim table symbol [key] (table.claimName key symbol) := by
  unfold claimName
  cases owned : table.free.get? key with
  | none => exact settle_spec consistent owned known unspaced
  | some owner =>
    obtain ⟨anonymous, member, ownerUnspaced⟩ := consistent.owned _ _ owned
    obtain ⟨ownerShown, plain⟩ := Item.not_opaque_of_enumerator anonymous member
    have found : table.holder? key = some owner := consistent.holder?_of_owner owned
    have differ : ¬ owner.agrees symbol := by
      intro agrees
      rw [Symbol.agrees_iff.mp agrees, known] at anonymous
      cases anonymous
    have shown : symbol.item.isOpaque = false := by
      refine Bool.eq_false_iff.mpr fun hidden => ?_
      exact ownerUnspaced _ plain (Item.blank_mem_of_hidden hidden known)
    have clashes : owner.Clashes symbol := ⟨differ, ownerShown, shown⟩
    rcases clash_cases found clashes with ⟨strict, refused⟩ | ⟨lenient, replaces, settled, winner⟩
    · simp only [refused]
      exact .refused table key owner consistent.kept strict List.mem_cons_self found clashes
    · simp only [settled]
      cases replaces with
      | false =>
        refine .single (consistent.kept_recordClash owner false) (fun _ _ _ => lenient) ?_
          (fun _ _ => rfl)
        rw [winner]
        exact found
      | true =>
        -- The name is free once its enum has lost it, for no entry had it besides.
        have unused : table.get? key = none := by
          rcases consistent.apart key with unused | unowned
          · exact unused
          · rw [unowned] at owned
            cases owned
        have vacant : ((table.recordClash key owner symbol true).release key).get? key = none :=
          unused
        have released : ((table.recordClash key owner symbol true).release key).Consistent :=
          (consistent.recordClash owner true).release
        simp only [settle, vacant]
        refine .replaced ⟨rfl, rfl, rfl, released.place (OrderedMap.get?_erase_self _ _) known
          unspaced⟩ (fun _ _ _ => lenient) winner ?_
        intro other
        rw [holder?_place, holder?_release]
        by_cases same : other = key
        · simp only [same, if_true]
        · simp only [same, if_false]
          rfl

/-! ### All names of a declaration -/

theorem claimAll_spec (values : List Enumerator) (consistent : table.Consistent)
    (anonymous : symbol.item.qualifiedName = none)
    (claims : ∀ value ∈ values, value.name ∈ symbol.item.claimed)
    (unspaced : symbol.item.Unspaced) :
    Claim table symbol (values.map Enumerator.name) (table.claimAll symbol values) := by
  induction values generalizing table with
  | nil => exact .granted table () consistent.kept (by simp) (by simp)
  | cons value rest ih =>
    have head := claim_spec value consistent anonymous (claims value List.mem_cons_self) unspaced
    rw [claimAll, List.map_cons]
    generalize table.claim symbol value = outcome at head
    cases head with
    | refused after name held kept strict member found clashes =>
      rw [List.mem_singleton.mp member] at found ⊢
      exact .refused after value.name held kept strict List.mem_cons_self found clashes
    | granted middle answer kept free holder =>
      have tail := ih kept.consistent (fun value member => claims value (List.mem_cons_of_mem _ member))
      simp only
      generalize middle.claimAll symbol rest = outcome at tail
      have here := holder value.name
      rw [if_pos List.mem_cons_self] at here
      have elsewhere : ∀ other, other ≠ value.name →
          middle.holder? other = table.holder? other := by
        intro other different
        rw [holder, if_neg (fun member => different (List.mem_singleton.mp member))]
      cases tail with
      | refused after name held keptAfter strict member found clashes =>
        have different : name ≠ value.name := by
          rintro rfl
          rw [here] at found
          cases found
          exact resolve_settled table.policy _ (free _ List.mem_cons_self)
            (kept.policy.symm.trans strict) clashes
        exact .refused after name held (kept.trans keptAfter) (kept.policy.symm.trans strict)
          (List.mem_cons_of_mem _ member) (elsewhere name different ▸ found) clashes
      | granted after answer keptAfter freeAfter holderAfter =>
        refine .granted after () (kept.trans keptAfter) ?_ ?_
        · intro name member held found clashes
          by_cases same : name = value.name
          · exact free name (same ▸ List.mem_cons_self) held found clashes
          · rw [← kept.policy]
            exact freeAfter name ((List.mem_cons.mp member).resolve_left same) held
              ((elsewhere name same).trans found) clashes
        · intro name
          rw [holderAfter, kept.policy]
          by_cases same : name = value.name
          · rw [same, here, resolve_again, ite_self, if_pos List.mem_cons_self]
          · simp only [elsewhere name same, List.mem_cons, same, false_or]

def counted (table : SymbolTable) : SymbolTable := { table with inserted := table.inserted + 1 }

theorem Claim.of_kept {α : Type} {middle : SymbolTable} {names : List String} {outcome : Outcome α}
    (kept : Kept before middle) (same : ∀ name, middle.holder? name = before.holder? name)
    (claim : Claim middle symbol names outcome) : Claim before symbol names outcome := by
  cases claim with
  | granted after answer keptAfter free holder =>
    refine .granted after answer (kept.trans keptAfter) ?_ ?_
    · intro name member held found clashes
      rw [← kept.policy]
      exact free name member held ((same name).trans found) clashes
    · intro name
      rw [holder, same, kept.policy]
  | refused after name held keptAfter strict member found clashes =>
    exact .refused after name held (kept.trans keptAfter) (kept.policy.symm.trans strict) member
      ((same name).symm.trans found) clashes

theorem insert_spec {declaration : Declaration} (consistent : table.Consistent)
    (opened : table.isFinal = false) (unspaced : declaration.item.Unspaced) :
    Claim table.counted ⟨table.inserted, declaration⟩ declaration.item.claimed
      (table.insert declaration) := by
  let symbol : Symbol := ⟨table.inserted, declaration⟩
  have enlisted : Kept table.counted (table.enlist symbol) :=
    ⟨rfl, rfl, rfl, consistent.named, consistent.owned, consistent.apart⟩
  simp only [insert, opened, Bool.false_eq_true, if_false]
  cases known : declaration.item.qualifiedName with
  | some key =>
    rw [Item.claimed_of_key known]
    have indexed (values : List Enumerator) :
        Kept table.counted ((table.enlist symbol).indexEnumerators symbol values) :=
      ⟨rfl, rfl, rfl, consistent.named, consistent.owned, consistent.apart⟩
    have plain : Claim table.counted symbol [key] ((table.enlist symbol).claimName key symbol) :=
      .of_kept enlisted (fun _ => rfl) (claimName_spec enlisted.consistent known unspaced)
    cases item : declaration.item with
    | enum name values isTypedef =>
      exact .of_kept (indexed values) (fun _ => rfl)
        (claimName_spec (indexed values).consistent known unspaced)
    | struct | union | function | typedef | object | constant => exact plain
  | none =>
    rw [Item.claimed_of_anonymous known]
    have silent {answer : Bool} : Claim table.counted symbol [] (table.enlist symbol, .ok answer) :=
      .granted _ _ enlisted (by simp) (fun _ => rfl)
    cases item : declaration.item with
    | enum name values isTypedef =>
      have anonymous : symbol.item.qualifiedName = none := known
      have claims : ∀ value ∈ values, value.name ∈ symbol.item.claimed := by
        intro value member
        rw [Item.claimed_of_anonymous anonymous]
        have same : symbol.item.enumerators = values := congrArg Item.enumerators item
        rw [same]
        exact List.mem_map_of_mem member
      have all := Claim.of_kept enlisted (fun _ => rfl)
        (claimAll_spec values enlisted.consistent anonymous claims unspaced)
      simp only [Item.enumerators]
      generalize (table.enlist symbol).claimAll symbol values = outcome at all
      cases all with
      | granted after answer kept free holder =>
        exact .granted _ _ ⟨kept.policy, kept.isFinal, kept.inserted, kept.consistent.named,
          kept.consistent.owned, kept.consistent.apart⟩ free holder
      | refused after name held kept strict member found clashes =>
        exact .refused after name held kept strict member found clashes
    | struct | union | function | typedef | object | constant => exact silent

end SymbolTable

end CBindings
