import CBindings.Proofs.SymbolTable.History
import CBindings.Proofs.SymbolTable.Winner

/-! What the index of enumerators finds. An enum without a name is found only by the constants it
owns. An enum with a tag stays in the index even if its tag goes to another declaration. -/

namespace CBindings

namespace SymbolTable

variable {table before middle after : SymbolTable} {symbol owner : Symbol} {name tag : String}
  {value : Enumerator} {policy : DuplicatePolicy} {history : List Declaration}

def Indexed (table : SymbolTable) : Prop :=
  ∀ name owner value, table.enumerator? name = some (owner, value) →
    owner.item.qualifiedName = none → table.free.get? name = some owner

/-- A step after which the index finds, beside what it found before, enumerators of one symbol. -/
structure Indexes (symbol : Symbol) (before after : SymbolTable) : Prop where
  found : ∀ name owner value, after.enumerator? name = some (owner, value) →
    before.enumerator? name = some (owner, value) ∨
      owner = symbol ∧ value ∈ symbol.item.enumerators ∧ value.name = name
  indexed : before.Indexed → after.Indexed

theorem Indexes.refl (symbol : Symbol) (table : SymbolTable) : Indexes symbol table table :=
  ⟨fun _ _ _ found => .inl found, id⟩

theorem Indexes.trans (first : Indexes symbol before middle)
    (second : Indexes symbol middle after) : Indexes symbol before after where
  found name owner value found := by
    rcases second.found name owner value found with earlier | new
    · exact first.found name owner value earlier
    · exact .inr new
  indexed := second.indexed ∘ first.indexed

theorem get?_foldl_absent {index : OrderedMap String (Symbol × Enumerator)}
    {values : List Enumerator}
    (found : (values.foldl (fun index value =>
      if index.contains value.name then index else index.insert value.name (symbol, value))
      index).get? name = some (owner, value)) :
    index.get? name = some (owner, value) ∨
      owner = symbol ∧ value ∈ values ∧ value.name = name := by
  induction values generalizing index with
  | nil => exact .inl found
  | cons first rest ih =>
    rcases ih found with earlier | ⟨same, member, named⟩
    · simp only at earlier
      split at earlier
      · exact .inl earlier
      · rw [OrderedMap.get?_insert] at earlier
        split at earlier
        · next here =>
          cases earlier
          exact .inr ⟨rfl, List.mem_cons_self, here.symm⟩
        · exact .inl earlier
    · exact .inr ⟨same, List.mem_cons_of_mem _ member, named⟩

theorem indexes_index (known : symbol.item.qualifiedName ≠ none) :
    Indexes symbol table (table.indexEnumerators symbol symbol.item.enumerators) where
  found name owner value found := get?_foldl_absent found
  indexed indexed := by
    intro name owner value found anonymous
    rcases get?_foldl_absent found with earlier | ⟨rfl, -, -⟩
    · exact indexed name owner value earlier anonymous
    · exact absurd anonymous known

theorem indexes_own (member : value ∈ symbol.item.enumerators) :
    Indexes symbol table (table.own symbol value) where
  found name owner other found := by
    simp only [own, enumerator?, OrderedMap.get?_insert] at found
    split at found
    · next here =>
      cases found
      exact .inr ⟨rfl, member, here.symm⟩
    · exact .inl found
  indexed indexed := by
    intro name owner other found anonymous
    simp only [own, enumerator?, OrderedMap.get?_insert] at found ⊢
    split at found
    · next here =>
      cases found
      simp [here]
    · next elsewhere =>
      rw [if_neg elsewhere]
      exact indexed name owner other found anonymous

theorem indexes_release (key : String) : Indexes symbol table (table.release key) where
  found name owner value found := by
    simp only [release, enumerator?, OrderedMap.get?_erase] at found
    split at found
    · cases found
    · exact .inl found
  indexed indexed := by
    intro name owner value found anonymous
    simp only [release, enumerator?, OrderedMap.get?_erase] at found ⊢
    split at found
    · cases found
    · next elsewhere =>
      rw [if_neg elsewhere]
      exact indexed name owner value found anonymous

theorem indexes_stepwise (symbol : Symbol) : Stepwise symbol (Indexes symbol) where
  refl := .refl symbol
  trans := .trans
  record _ _ _ _ := ⟨fun _ _ _ found => .inl found, fun indexed => indexed⟩
  place _ _ := ⟨fun _ _ _ found => .inl found, fun indexed => indexed⟩
  keep _ := ⟨fun _ _ _ found => .inl found, fun indexed => indexed⟩
  release _ := indexes_release
  own _ _ _ := indexes_own
  index _ := indexes_index

theorem indexes_insert (opened : table.isFinal = false) (declaration : Declaration) :
    Indexes ⟨table.inserted, declaration⟩ table (table.insert declaration).1 := by
  have steps := (indexes_stepwise ⟨table.inserted, declaration⟩).insert opened
  exact ⟨steps.found, steps.indexed⟩

/-! ### After any history -/

structure SameSettings (before after : SymbolTable) : Prop where
  policy : after.policy = before.policy
  isFinal : after.isFinal = before.isFinal
  inserted : after.inserted = before.inserted

theorem sameSettings_stepwise (symbol : Symbol) : Stepwise symbol SameSettings where
  refl _ := ⟨rfl, rfl, rfl⟩
  trans first second := ⟨second.policy.trans first.policy, second.isFinal.trans first.isFinal,
    second.inserted.trans first.inserted⟩
  record _ _ _ _ := ⟨rfl, rfl, rfl⟩
  place _ _ := ⟨rfl, rfl, rfl⟩
  release _ _ := ⟨rfl, rfl, rfl⟩
  own _ _ _ _ := ⟨rfl, rfl, rfl⟩
  index _ _ := ⟨rfl, rfl, rfl⟩
  keep _ := ⟨rfl, rfl, rfl⟩

theorem counted_ofHistory (policy : DuplicatePolicy) (history : List Declaration) :
    (ofHistory policy history).isFinal = false ∧
      (ofHistory policy history).inserted = history.length := by
  induction history using List.reverseRecOn with
  | nil => exact ⟨rfl, rfl⟩
  | append_singleton history declaration ih =>
    obtain ⟨opened, counted⟩ := ih
    have steps := (sameSettings_stepwise
      ⟨(ofHistory policy history).inserted, declaration⟩).insert opened
    rw [ofHistory_append]
    constructor
    · exact steps.isFinal.trans opened
    · rw [steps.inserted, List.length_append, List.length_singleton, ← counted]
      rfl

theorem symbolsOf_append (history : List Declaration) (declaration : Declaration) :
    symbolsOf (history ++ [declaration]) = symbolsOf history ++ [⟨history.length, declaration⟩] := by
  simp [symbolsOf, List.zipIdx_append]

theorem mem_symbolsOf :
    symbol ∈ symbolsOf history ↔ history[symbol.serial]? = some symbol.declaration := by
  simp only [symbolsOf, List.mem_map, Prod.exists, List.mk_mem_zipIdx_iff_getElem?]
  constructor
  · rintro ⟨declaration, serial, found, rfl⟩
    exact found
  · intro found
    exact ⟨symbol.declaration, symbol.serial, found, rfl⟩

theorem eq_of_serial (first : symbol ∈ symbolsOf history) (second : owner ∈ symbolsOf history)
    (same : symbol.serial = owner.serial) : symbol = owner := by
  rw [mem_symbolsOf] at first second
  rw [same, second] at first
  cases symbol
  cases owner
  cases first
  cases same
  rfl

theorem enumerator?_ofHistory
    (found : (ofHistory policy history).enumerator? name = some (owner, value)) :
    owner ∈ symbolsOf history ∧ value ∈ owner.item.enumerators ∧ value.name = name := by
  induction history using List.reverseRecOn with
  | nil => cases found
  | append_singleton history declaration ih =>
    obtain ⟨opened, counted⟩ := counted_ofHistory policy history
    have indexes := indexes_insert opened declaration
    rw [ofHistory_append] at found
    rw [symbolsOf_append]
    rcases indexes.found name owner value found with earlier | ⟨rfl, member, named⟩
    · obtain ⟨listed, member, named⟩ := ih earlier
      exact ⟨List.mem_append_left _ listed, member, named⟩
    · rw [counted]
      exact ⟨List.mem_append_right _ List.mem_cons_self, member, named⟩

theorem indexed_ofHistory (policy : DuplicatePolicy) (history : List Declaration) :
    (ofHistory policy history).Indexed := by
  induction history using List.reverseRecOn with
  | nil => exact fun name owner value found => by cases found
  | append_singleton history declaration ih =>
    rw [ofHistory_append]
    exact (indexes_insert (counted_ofHistory policy history).1 declaration).indexed ih

theorem get?_ofHistory (found : (ofHistory policy history).get? name = some symbol) :
    symbol ∈ symbolsOf history := by
  induction history using List.reverseRecOn with
  | nil => cases found
  | append_singleton history declaration ih =>
    obtain ⟨opened, counted⟩ := counted_ofHistory policy history
    rw [ofHistory_append] at found
    rw [symbolsOf_append]
    rcases (admits_insert opened declaration).entries name symbol found with earlier | rfl
    · exact List.mem_append_left _ (ih earlier)
    · rw [counted]
      exact List.mem_append_right _ List.mem_cons_self

theorem contributedBy_ofHistory (policy : DuplicatePolicy) (history : List Declaration)
    (header : String) : (ofHistory policy history).contributedBy header =
      (symbolsOf history).filter fun symbol => header = symbol.header := by
  induction history using List.reverseRecOn with
  | nil => rfl
  | append_singleton history declaration ih =>
    obtain ⟨opened, counted⟩ := counted_ofHistory policy history
    have same : (ofHistory policy (history ++ [declaration])).contributedBy header =
        ((ofHistory policy history).enlist ⟨history.length, declaration⟩).contributedBy header := by
      rw [ofHistory_append, ← counted]
      simp only [contributedBy, (admits_insert opened declaration).contributed]
    rw [same, contributedBy_enlist, symbolsOf_append, List.filter_append, ih]
    by_cases here : header = (Symbol.mk history.length declaration).header
    · simp [here]
    · simp [here]

/-! ### Who holds a tag -/

/-- Whether a policy lets a symbol stand of all that claim a tag: it is the first of them, or it is
the first of those at the end that all declare the same. -/
def Prevails : DuplicatePolicy → List Symbol → Symbol → Prop
  | .first, claims, symbol | .error, claims, symbol => claims.head? = some symbol
  | .last, claims, symbol =>
    ∃ earlier later, claims = earlier ++ symbol :: later ∧ (∀ other ∈ later, symbol.agrees other) ∧
      ∀ other, earlier.getLast? = some other → ¬ other.agrees symbol

theorem prevails_alone (policy : DuplicatePolicy) (symbol : Symbol) :
    Prevails policy [symbol] symbol := by
  cases policy with
  | first | error => rfl
  | last => exact ⟨[], [], rfl, by simp, by simp⟩

theorem prevails_head {claims : List Symbol} {held : Symbol}
    (before : claims.head? = some held) (symbol : Symbol) :
    (claims ++ [symbol]).head? = some held := by
  simp [before]

/-- Between the symbol that stands and the end of all claims nothing differs from it. -/
theorem agrees_last {earlier later : List Symbol} {held other : Symbol}
    (same : ∀ other ∈ later, held.agrees other)
    (final : (earlier ++ held :: later).getLast? = some other) : held.agrees other := by
  rw [List.getLast?_append, List.getLast?_cons, Option.some_or, Option.some_inj] at final
  cases last : later.getLast? with
  | none =>
    rw [last] at final
    exact final ▸ held.agrees_self
  | some symbol =>
    rw [last] at final
    exact final ▸ same symbol (List.mem_of_getLast? last)

theorem prevails_append {claims : List Symbol} {held : Symbol}
    (before : Prevails policy claims held) (heldShown : held.item.isOpaque = false)
    (shown : symbol.item.isOpaque = false) :
    Prevails policy (claims ++ [symbol]) (policy.resolve (some held) symbol) := by
  by_cases agrees : held.agrees symbol
  · rw [resolve_agrees policy agrees]
    cases policy with
    | first | error => exact prevails_head before symbol
    | last =>
      obtain ⟨earlier, later, rfl, same, differs⟩ := before
      refine ⟨earlier, later ++ [symbol], by simp, fun other member => ?_, differs⟩
      rcases List.mem_append.mp member with member | member
      · exact same other member
      · rw [List.mem_singleton.mp member]
        exact agrees
  · rw [resolve_clash policy ⟨agrees, heldShown, shown⟩]
    cases policy with
    | first | error => exact prevails_head before symbol
    | last =>
      obtain ⟨earlier, later, rfl, same, -⟩ := before
      refine ⟨earlier ++ held :: later, [], rfl, by simp, fun other final again => agrees ?_⟩
      have agreed := Symbol.agrees_iff.mp (agrees_last same final)
      exact Symbol.agrees_iff.mpr (agreed.trans (Symbol.agrees_iff.mp again))

/-- Of two places where a symbol may stand, the later one is right behind a symbol that differs, so
they are one place. -/
theorem standing_unique {earlier later earlier' later' : List Symbol} {first second : Symbol}
    (split : earlier ++ first :: later = earlier' ++ second :: later')
    (same : ∀ other ∈ later, first.agrees other)
    (differs : ∀ other, earlier'.getLast? = some other → ¬ other.agrees second)
    (shorter : earlier.length ≤ earlier'.length) : first = second := by
  rcases List.append_eq_append_iff.mp split with ⟨between, rfl, rest⟩ | ⟨between, rfl, rest⟩
  · cases between with
    | nil => exact (List.cons.inj rest).1
    | cons other between =>
      obtain ⟨rfl, rfl⟩ := List.cons.inj rest
      have behind : first.agrees second :=
        same second (List.mem_append_right _ List.mem_cons_self)
      have agreed : ∀ other, (earlier ++ first :: between).getLast? = some other →
          other.agrees second := by
        intro other final
        have before := agrees_last (fun other member => same other (List.mem_append_left _ member))
          final
        exact Symbol.agrees_iff.mpr
          ((Symbol.agrees_iff.mp before).symm.trans (Symbol.agrees_iff.mp behind))
      cases final : (earlier ++ first :: between).getLast? with
      | none => simp at final
      | some other => exact absurd (agreed other final) (differs other final)
  · cases between with
    | nil => exact (List.cons.inj rest).1.symm
    | cons other between =>
      simp only [List.length_append, List.length_cons] at shorter
      omega

theorem prevails_unique {claims : List Symbol} {first second : Symbol}
    (one : Prevails policy claims first) (other : Prevails policy claims second) :
    first = second := by
  cases policy with
  | first | error => exact Option.some.inj (one.symm.trans other)
  | last =>
    obtain ⟨earlier, later, rfl, same, differs⟩ := one
    obtain ⟨earlier', later', split, same', differs'⟩ := other
    rcases Nat.le_total earlier.length earlier'.length with shorter | longer
    · exact standing_unique split same differs' shorter
    · exact (standing_unique split.symm same' differs longer).symm

theorem prevails_mem {claims : List Symbol} (stands : Prevails policy claims symbol) :
    symbol ∈ claims := by
  cases policy with
  | first | error => exact List.mem_of_head? stands
  | last =>
    obtain ⟨earlier, later, rfl, -, -⟩ := stands
    exact List.mem_append_right _ List.mem_cons_self

theorem mem_claimants (listed : symbol ∈ symbolsOf history) :
    symbol ∈ claimants history name ↔ name ∈ symbol.item.claimed := by
  simp [claimants, listed]

theorem mem_history (listed : symbol ∈ symbolsOf history) : symbol.declaration ∈ history :=
  List.mem_of_getElem? (mem_symbolsOf.mp listed)

/-- The holder of a name that only complete declarations claim is the one that the policy lets
stand. -/
theorem holder_prevails (lenient : policy ≠ .error)
    (unspaced : ∀ declaration ∈ history, declaration.item.Unspaced) (name : String)
    (shown : ∀ other ∈ claimants history name, other.item.isOpaque = false) :
    match (ofHistory policy history).holder? name with
    | some held => Prevails policy (claimants history name) held
    | none => claimants history name = [] := by
  induction history using List.reverseRecOn with
  | nil => rfl
  | append_singleton history declaration ih =>
    have before := ih (fun other member => unspaced other (List.mem_append_left _ member))
    rw [holder?_ofHistory_append lenient unspaced]
    rw [claimants_append] at shown ⊢
    by_cases claims : name ∈ declaration.item.claimed
    · simp only [claims, if_true] at shown ⊢
      specialize before fun other member => shown other (List.mem_append_left _ member)
      have newShown := shown ⟨history.length, declaration⟩
        (List.mem_append_right _ List.mem_cons_self)
      cases found : (ofHistory policy history).holder? name with
      | none =>
        rw [found] at before
        simp only at before
        rw [before]
        exact prevails_alone policy _
      | some held =>
        rw [found] at before
        have heldShown := shown held (List.mem_append_left _ (prevails_mem before))
        exact prevails_append before heldShown newShown
    · simp only [claims, if_false, List.append_nil] at shown ⊢
      exact before shown

theorem shown_of_claims_tag {other : Symbol} (known : owner.item.qualifiedName = some tag)
    (member : value ∈ owner.item.enumerators) (unspaced : owner.item.Unspaced)
    (claims : tag ∈ other.item.claimed) : other.item.isOpaque = false := by
  refine Bool.eq_false_iff.mpr fun hidden => ?_
  have otherKnown : other.item.qualifiedName = some tag := by
    cases found : other.item.qualifiedName with
    | none =>
      rw [(Item.not_opaque_of_enumerator found claims).1] at hidden
      cases hidden
    | some key =>
      rw [Item.claimed_of_key found] at claims
      rw [List.mem_singleton.mp claims]
  have kinds := Item.kind_eq_of_hidden hidden otherKnown known unspaced
  cases item : owner.item with
  | enum enumTag values isTypedef =>
    cases otherItem : other.item with
    | struct | union => simp [item, otherItem, Item.kind] at kinds
    | _ => simp [otherItem, Item.isOpaque] at hidden
  | _ => simp [item, Item.enumerators] at member

theorem get?_eq_holder? (consistent : table.Consistent) (known : owner.item.qualifiedName = some tag)
    (member : value ∈ owner.item.enumerators) : table.holder? tag = table.get? tag := by
  have unowned : table.free.get? tag = none := by
    cases found : table.free.get? tag with
    | none => rfl
    | some enum =>
      obtain ⟨anonymous, claims, unspaced⟩ := consistent.owned tag enum found
      have plain := (Item.not_opaque_of_enumerator anonymous claims).2
      cases item : owner.item with
      | enum enumTag values isTypedef =>
        rw [item] at known
        obtain ⟨text, rfl⟩ := Item.tagName_eq_some known
        exact absurd (by simp) (unspaced _ plain)
      | _ => simp [item, Item.enumerators] at member
  simp [holder?, unowned]

theorem isNamed_of_qualifiedName {item : Item} (known : item.qualifiedName = some tag) :
    item.isNamed := by
  cases item with
  | struct itemName | union itemName | enum itemName =>
    obtain ⟨text, given, -⟩ := Option.map_eq_some_iff.mp known
    simp [Item.isNamed, (Option.filter_eq_some_iff.mp given).1]
  | function | typedef | object | constant => rfl

theorem get?_tag_iff (lenient : policy ≠ .error)
    (unspaced : ∀ declaration ∈ history, declaration.item.Unspaced)
    (listed : owner ∈ symbolsOf history) (member : value ∈ owner.item.enumerators)
    (known : owner.item.qualifiedName = some tag) :
    (ofHistory policy history).get? tag = some owner ↔
      Prevails policy (claimants history tag) owner := by
  have consistent := (running_ofHistory policy history unspaced).consistent
  have ownerUnspaced := unspaced _ (mem_history listed)
  have holder := holder_prevails lenient unspaced tag fun other claims =>
    shown_of_claims_tag known member ownerUnspaced
      (of_decide_eq_true (List.mem_filter.mp claims).2)
  rw [get?_eq_holder? consistent known member] at holder
  have claims : owner ∈ claimants history tag :=
    (mem_claimants listed).mpr (by simp [Item.claimed_of_key known])
  cases entry : (ofHistory policy history).get? tag with
  | none =>
    rw [entry] at holder
    simp only at holder
    rw [holder] at claims
    cases claims
  | some held =>
    rw [entry] at holder
    constructor
    · intro same
      cases same
      exact holder
    · intro stands
      rw [prevails_unique holder stands]

theorem mem_winners_iff (listed : owner ∈ symbolsOf history)
    (found : (ofHistory policy history).enumerator? name = some (owner, value)) :
    owner ∈ (ofHistory policy history).winners owner.header ↔
      ∀ tag, owner.item.qualifiedName = some tag →
        (ofHistory policy history).get? tag = some owner := by
  obtain ⟨-, member, named⟩ := enumerator?_ofHistory found
  have contributes : owner ∈ (ofHistory policy history).contributedBy owner.header := by
    simp [contributedBy_ofHistory, listed]
  simp only [winners, List.mem_filter, contributes, true_and, isEmitted]
  cases known : owner.item.qualifiedName with
  | some tag =>
    simp only [Option.some.injEq, forall_eq']
    constructor
    · intro emitted
      cases entry : (ofHistory policy history).get? tag with
      | none => simp [entry] at emitted
      | some held =>
        have same : held.serial = owner.serial := by simpa [entry] using emitted
        rw [eq_of_serial (get?_ofHistory entry) listed same]
    · intro entry
      simp [entry]
  | none =>
    cases item : owner.item with
    | enum enumTag values isTypedef =>
      have owned := indexed_ofHistory policy history name owner value found known
      rw [item] at member
      simp only [reduceCtorEq, false_implies, implies_true, iff_true, List.any_eq_true]
      exact ⟨value, member, by simp [ownsFree, named, owned]⟩
    | _ => simp [item, Item.enumerators] at member

/-- The enum that a look-up of an enumerator finds has that enumerator, and it is emitted just if
the policy lets it stand among all that claim its tag; an enum without a tag always is. -/
theorem enumerator_of_history (policy : DuplicatePolicy) (lenient : policy ≠ .error)
    (history : List Declaration) (unspaced : ∀ declaration ∈ history, declaration.item.Unspaced)
    (name : String) (owner : Symbol) (value : Enumerator)
    (found : (ofHistory policy history).enumerator? name = some (owner, value)) :
    owner ∈ symbolsOf history ∧ value ∈ owner.item.enumerators ∧ value.name = name ∧
      (ofHistory policy history).emitsEnumerator owner name ∧
      (∀ tag, owner.item.qualifiedName = some tag →
        ((ofHistory policy history).get? tag = some owner ↔
          Prevails policy (claimants history tag) owner)) ∧
      (owner ∈ (ofHistory policy history).winners owner.header ↔
        ∀ tag, owner.item.qualifiedName = some tag →
          Prevails policy (claimants history tag) owner) := by
  obtain ⟨listed, member, named⟩ := enumerator?_ofHistory found
  have stands := fun tag (known : owner.item.qualifiedName = some tag) =>
    get?_tag_iff lenient unspaced listed member known
  refine ⟨listed, member, named, ?_, stands, ?_⟩
  · cases known : owner.item.qualifiedName with
    | some tag => simp [emitsEnumerator, isNamed_of_qualifiedName known]
    | none =>
      have owned := indexed_ofHistory policy history name owner value found known
      simp [emitsEnumerator, ownsFree, owned]
  · rw [mem_winners_iff listed found]
    constructor
    · exact fun entries tag known => (stands tag known).mp (entries tag known)
    · exact fun prevails tag known => (stands tag known).mpr (prevails tag known)

def grownHistory : List Declaration :=
  [{ item := .enum (some "E") [⟨"A", .number 1⟩] false },
   { item := .enum (some "E") [⟨"A", .number 1⟩, ⟨"B", .number 2⟩] false }]

/-- The new enumerator is found although its enum is not emitted. -/
theorem enumerator_of_rejected_enum :
    (ofHistory .first grownHistory).enumerator? "B" =
        some (⟨1, grownHistory[1]⟩, ⟨"B", .number 2⟩) ∧
      (⟨1, grownHistory[1]⟩ : Symbol) ∉ (ofHistory .first grownHistory).winners "<unknown>" ∧
      (ofHistory .first grownHistory).get? "enum E" = some ⟨0, grownHistory[0]⟩ := by
  decide

theorem enumerator_of_grown_enum :
    (∀ declaration ∈ grownHistory, declaration.item.Unspaced) ∧
    (ofHistory .last grownHistory).enumerator? "B" =
      some (⟨1, grownHistory[1]⟩, ⟨"B", .number 2⟩) ∧
    (⟨1, grownHistory[1]⟩ : Symbol) ∈ (ofHistory .last grownHistory).winners "<unknown>" := by
  have unspaced : ∀ declaration ∈ grownHistory, declaration.item.Unspaced := by decide
  have found : (ofHistory .last grownHistory).enumerator? "B" =
    some (⟨1, grownHistory[1]⟩, ⟨"B", .number 2⟩) := by decide
  obtain ⟨-, -, -, -, -, wins⟩ :=
    enumerator_of_history .last (by decide) grownHistory unspaced "B" _ _ found
  refine ⟨unspaced, found, wins.mpr fun tag known => ?_⟩
  have isTag : tag = "enum E" := by
    have key : (⟨1, grownHistory[1]⟩ : Symbol).item.qualifiedName = some "enum E" := by decide
    exact Option.some.inj (known.symm.trans key)
  subst isTag
  exact ⟨[⟨0, grownHistory[0]⟩], [], by decide, by simp, by decide⟩

end SymbolTable

end CBindings
