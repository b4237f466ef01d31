/-! Finite maps that keep the order in which their keys first came. -/

namespace CBindings

theorem mem_of_lookup {κ α : Type} [BEq κ] [LawfulBEq κ] {pairs : List (κ × α)} {key : κ}
    {value : α} (found : pairs.lookup key = some value) : (key, value) ∈ pairs := by
  obtain ⟨before, after, rfl, -⟩ := List.lookup_eq_some_iff.mp found
  exact List.mem_append_right _ List.mem_cons_self

structure OrderedMap (κ α : Type) where
  entries : List (κ × α)
  distinct : (entries.map Prod.fst).Nodup

namespace OrderedMap

variable {κ α β : Type}

def empty : OrderedMap κ α := ⟨[], List.nodup_nil⟩

instance : EmptyCollection (OrderedMap κ α) := ⟨empty⟩

instance : Inhabited (OrderedMap κ α) := ⟨empty⟩

@[simp] theorem entries_empty : (∅ : OrderedMap κ α).entries = [] := rfl

def keys (m : OrderedMap κ α) : List κ := m.entries.map Prod.fst

def values (m : OrderedMap κ α) : List α := m.entries.map Prod.snd

def size (m : OrderedMap κ α) : Nat := m.entries.length

variable [DecidableEq κ]

def put (key : κ) (value : α) : List (κ × α) → List (κ × α)
  | [] => [(key, value)]
  | (k, v) :: rest => if k = key then (k, value) :: rest else (k, v) :: put key value rest

theorem mem_keys_put (key : κ) (value : α) (pairs : List (κ × α)) (k : κ) :
    k ∈ (put key value pairs).map Prod.fst ↔ k ∈ pairs.map Prod.fst ∨ k = key := by
  induction pairs with
  | nil => simp [put]
  | cons pair rest ih =>
    obtain ⟨k', v⟩ := pair
    by_cases same : k' = key
    · subst same
      simp only [put, if_true, List.map_cons, List.mem_cons]
      constructor
      · rintro (rfl | member)
        · exact .inr rfl
        · exact .inl (.inr member)
      · rintro ((rfl | member) | rfl)
        · exact .inl rfl
        · exact .inr member
        · exact .inl rfl
    · simp only [put, same, if_false, List.map_cons, List.mem_cons, ih, or_assoc]

theorem nodup_put (key : κ) (value : α) (pairs : List (κ × α))
    (distinct : (pairs.map Prod.fst).Nodup) : ((put key value pairs).map Prod.fst).Nodup := by
  induction pairs with
  | nil => simp [put]
  | cons pair rest ih =>
    obtain ⟨k, v⟩ := pair
    simp only [List.map_cons, List.nodup_cons] at distinct
    by_cases same : k = key
    · subst same
      simpa [put] using distinct
    · simp only [put, same, if_false, List.map_cons, List.nodup_cons]
      refine ⟨fun member => ?_, ih distinct.2⟩
      rcases (mem_keys_put key value rest k).mp member with old | new
      · exact distinct.1 old
      · exact same new

def insert (m : OrderedMap κ α) (key : κ) (value : α) : OrderedMap κ α :=
  ⟨put key value m.entries, nodup_put key value m.entries m.distinct⟩

def erase (m : OrderedMap κ α) (key : κ) : OrderedMap κ α :=
  ⟨m.entries.filter (fun pair => pair.1 ≠ key),
    m.distinct.sublist (List.filter_sublist.map Prod.fst)⟩

def get? (m : OrderedMap κ α) (key : κ) : Option α :=
  (m.entries.find? (fun pair => pair.1 = key)).map Prod.snd

def contains (m : OrderedMap κ α) (key : κ) : Bool := (m.get? key).isSome

theorem mem_of_get? {m : OrderedMap κ α} {key : κ} {value : α} (found : m.get? key = some value) :
    (key, value) ∈ m.entries := by
  obtain ⟨pair, first, rfl⟩ := Option.map_eq_some_iff.mp found
  have same : pair.1 = key := by simpa using List.find?_some first
  rw [← same]
  exact List.mem_of_find?_eq_some first

theorem get?_of_mem {m : OrderedMap κ α} {key : κ} {value : α}
    (member : (key, value) ∈ m.entries) : m.get? key = some value := by
  obtain ⟨entries, distinct⟩ := m
  simp only [get?] at member ⊢
  induction entries with
  | nil => simp at member
  | cons pair rest ih =>
    simp only [List.map_cons, List.nodup_cons] at distinct
    rcases List.mem_cons.mp member with rfl | later
    · simp
    · have other : pair.1 ≠ key := fun same =>
        distinct.1 (same ▸ List.mem_map_of_mem (f := Prod.fst) later)
      rw [List.find?_cons_of_neg (by simpa using other)]
      exact ih distinct.2 later

theorem mem_keys_iff {m : OrderedMap κ α} {key : κ} :
    key ∈ m.keys ↔ ∃ value, m.get? key = some value := by
  constructor
  · intro member
    obtain ⟨⟨k, value⟩, present, rfl⟩ := List.mem_map.mp member
    exact ⟨value, get?_of_mem present⟩
  · rintro ⟨value, found⟩
    exact List.mem_map_of_mem (f := Prod.fst) (mem_of_get? found)

theorem mem_insert {m : OrderedMap κ α} {key : κ} {value : α} {pair : κ × α}
    (member : pair ∈ (m.insert key value).entries) : pair ∈ m.entries ∨ pair = (key, value) := by
  suffices put : ∀ pairs : List (κ × α), pair ∈ put key value pairs →
      pair ∈ pairs ∨ pair = (key, value) from put m.entries member
  intro pairs member
  induction pairs with
  | nil => exact .inr (by simpa [put] using member)
  | cons first rest ih =>
    obtain ⟨k, v⟩ := first
    by_cases same : k = key
    · simp only [put, same, if_true, List.mem_cons] at member
      rcases member with rfl | later
      · exact .inr rfl
      · exact .inl (List.mem_cons_of_mem _ later)
    · simp only [put, same, if_false, List.mem_cons] at member
      rcases member with rfl | later
      · exact .inl List.mem_cons_self
      · exact (ih later).imp_left (List.mem_cons_of_mem _)

theorem keys_insert (m : OrderedMap κ α) (key : κ) (value : α) :
    (m.insert key value).keys = if key ∈ m.keys then m.keys else m.keys ++ [key] := by
  suffices put : ∀ pairs : List (κ × α), (put key value pairs).map Prod.fst =
      if key ∈ pairs.map Prod.fst then pairs.map Prod.fst else pairs.map Prod.fst ++ [key] from
    put m.entries
  intro pairs
  induction pairs with
  | nil => rfl
  | cons first rest ih =>
    obtain ⟨k, v⟩ := first
    by_cases same : k = key
    · simp [put, same]
    · by_cases later : key ∈ rest.map Prod.fst
      · rw [if_pos later] at ih
        have present : key ∈ ((k, v) :: rest).map Prod.fst := List.mem_cons_of_mem _ later
        rw [if_pos present]
        simp only [put, same, if_false, List.map_cons, ih]
      · rw [if_neg later] at ih
        have absent : key ∉ ((k, v) :: rest).map Prod.fst := by
          intro member
          rcases List.mem_cons.mp member with here | there
          · exact same here.symm
          · exact later there
        rw [if_neg absent]
        simp only [put, same, if_false, List.map_cons, ih, List.cons_append]

theorem not_mem_keys_iff {m : OrderedMap κ α} {key : κ} : key ∉ m.keys ↔ m.get? key = none := by
  rw [mem_keys_iff]
  cases m.get? key with
  | none => simp
  | some value => simp

@[simp] theorem get?_empty (key : κ) : (∅ : OrderedMap κ α).get? key = none := rfl

theorem get?_insert (m : OrderedMap κ α) (key : κ) (value : α) (other : κ) :
    (m.insert key value).get? other = if other = key then some value else m.get? other := by
  suffices put : ∀ pairs : List (κ × α),
      ((put key value pairs).find? fun pair => pair.1 = other).map Prod.snd =
        if other = key then some value
        else (pairs.find? fun pair => pair.1 = other).map Prod.snd from put m.entries
  intro pairs
  induction pairs with
  | nil =>
    by_cases same : other = key
    · simp [put, same]
    · simp [put, same, Ne.symm same]
  | cons first rest ih =>
    obtain ⟨k, v⟩ := first
    by_cases here : k = key
    · subst here
      by_cases same : other = k
      · simp [put, same]
      · simp [put, same, Ne.symm same]
    · by_cases found : k = other
      · subst found
        simp [put, here]
      · simp only [put, here, if_false, List.find?_cons, found, decide_false, ih]

@[simp] theorem get?_insert_self (m : OrderedMap κ α) (key : κ) (value : α) :
    (m.insert key value).get? key = some value := by
  simp [get?_insert]

theorem get?_insert_ne (m : OrderedMap κ α) {key other : κ} (value : α) (different : other ≠ key) :
    (m.insert key value).get? other = m.get? other := by
  simp [get?_insert, different]

theorem get?_erase (m : OrderedMap κ α) (key other : κ) :
    (m.erase key).get? other = if other = key then none else m.get? other := by
  simp only [get?, erase, List.find?_filter]
  by_cases same : other = key
  · subst same
    simp
  · simp only [same, if_false]
    congr 2
    funext pair
    by_cases here : pair.1 = other
    · simp [here, same]
    · simp [here]

@[simp] theorem get?_erase_self (m : OrderedMap κ α) (key : κ) :
    (m.erase key).get? key = none := by
  simp [get?_erase]

theorem erase_of_absent {m : OrderedMap κ α} {key : κ} (absent : m.get? key = none) :
    m.erase key = m := by
  have others : ∀ pair ∈ m.entries, pair.1 ≠ key := fun pair member same =>
    not_mem_keys_iff.mpr absent (same ▸ List.mem_map_of_mem (f := Prod.fst) member)
  have kept : m.entries.filter (fun pair => pair.1 ≠ key) = m.entries :=
    List.filter_eq_self.mpr fun pair member => decide_eq_true (others pair member)
  obtain ⟨entries, distinct⟩ := m
  simp only [erase] at kept ⊢
  congr

theorem mem_erase {m : OrderedMap κ α} {key : κ} {pair : κ × α}
    (member : pair ∈ (m.erase key).entries) : pair ∈ m.entries :=
  (List.mem_filter.mp member).1

def ofList (pairs : List (κ × α)) : OrderedMap κ α :=
  pairs.foldl (fun m pair => m.insert pair.1 pair.2) empty

theorem mem_ofList {pairs : List (κ × α)} {pair : κ × α}
    (member : pair ∈ (ofList pairs).entries) : pair ∈ pairs := by
  suffices fold : ∀ (pairs : List (κ × α)) (m : OrderedMap κ α),
      pair ∈ (pairs.foldl (fun m pair => m.insert pair.1 pair.2) m).entries →
        pair ∈ m.entries ∨ pair ∈ pairs from (fold pairs empty member).resolve_left (by simp [empty])
  intro pairs
  induction pairs with
  | nil => exact fun m member => .inl member
  | cons first rest ih =>
    intro m member
    rcases ih (m.insert first.1 first.2) member with inserted | later
    · rcases mem_insert inserted with old | rfl
      · exact .inl old
      · exact .inr List.mem_cons_self
    · exact .inr (List.mem_cons_of_mem _ later)

theorem get?_ofList {pairs : List (κ × α)} (distinct : (pairs.map Prod.fst).Nodup) {key : κ}
    {value : α} (member : (key, value) ∈ pairs) : (ofList pairs).get? key = some value := by
  have kept : ∀ (pairs : List (κ × α)) (m : OrderedMap κ α), key ∉ pairs.map Prod.fst →
      (pairs.foldl (fun m pair => m.insert pair.1 pair.2) m).get? key = m.get? key := by
    intro pairs
    induction pairs with
    | nil => exact fun m absent => rfl
    | cons first rest ih =>
      intro m absent
      rw [List.map_cons, List.mem_cons, not_or] at absent
      rw [List.foldl_cons, ih _ absent.2]
      exact get?_insert_ne m first.2 absent.1
  suffices fold : ∀ (pairs : List (κ × α)) (m : OrderedMap κ α), (pairs.map Prod.fst).Nodup →
      (key, value) ∈ pairs →
      (pairs.foldl (fun m pair => m.insert pair.1 pair.2) m).get? key = some value from
    fold pairs empty distinct member
  intro pairs
  induction pairs with
  | nil =>
    intro m distinct member
    cases member
  | cons first rest ih =>
    intro m distinct member
    rw [List.map_cons, List.nodup_cons] at distinct
    rcases List.mem_cons.mp member with rfl | later
    · rw [List.foldl_cons, kept rest _ distinct.1]
      exact get?_insert_self m key value
    · exact ih _ distinct.2 later

theorem ofList_concat (pairs : List (κ × α)) (key : κ) (value : α) :
    ofList (pairs ++ [(key, value)]) = (ofList pairs).insert key value := by
  rw [ofList, List.foldl_append]
  rfl

theorem keys_ofList {pairs : List (κ × α)} (distinct : (pairs.map Prod.fst).Nodup) :
    (ofList pairs).keys = pairs.map Prod.fst := by
  suffices fold : ∀ (pairs : List (κ × α)) (m : OrderedMap κ α),
      (m.keys ++ pairs.map Prod.fst).Nodup →
        (pairs.foldl (fun m pair => m.insert pair.1 pair.2) m).keys =
          m.keys ++ pairs.map Prod.fst from fold pairs empty distinct
  intro pairs
  induction pairs with
  | nil => exact fun m _ => (List.append_nil _).symm
  | cons first rest ih =>
    intro m distinct
    have absent : first.1 ∉ m.keys := fun member =>
      (List.nodup_append.mp distinct).2.2 _ member _ List.mem_cons_self rfl
    have keys : (m.insert first.1 first.2).keys = m.keys ++ [first.1] := by
      rw [keys_insert, if_neg absent]
    rw [List.map_cons, List.append_cons] at distinct ⊢
    rw [List.foldl_cons, ih _ (keys ▸ distinct), keys]

def update (m other : OrderedMap κ α) : OrderedMap κ α :=
  other.entries.foldl (fun m pair => m.insert pair.1 pair.2) m

end OrderedMap

end CBindings
