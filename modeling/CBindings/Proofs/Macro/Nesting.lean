import CBindings.Macro.Expansion
import Mathlib.Data.List.Nodup

/-! Waiting tokens nest: what they hide grows with their depth, and depths do not rise. -/

namespace CBindings.Expansion

open Pending

/-- `layers` are macros whose expansions stand inside each other, the outermost first. A token with
weight at depth `d` hides the first `d` of them. -/
structure Nested (table : MacroTable) (layers : List String) (ps : List Pending) : Prop where
  distinct : layers.Nodup
  defined : ∀ name ∈ layers, name ∈ table.macros.keys
  within : ∀ p ∈ weighing ps, p.depth ≤ layers.length
  hides : ∀ p ∈ weighing ps, ∀ name ∈ layers.take p.depth, name ∈ p.hidden
  falling : (weighing ps).Pairwise fun p q => q.depth ≤ p.depth

variable {table : MacroTable} {layers : List String} {ps qs : List Pending}

theorem nested_of_tokens (table : MacroTable) (tokens : List Token) :
    Nested table [] (tokens.map fun token => ⟨token, [], 0⟩) := by
  have flat : ∀ p ∈ weighing (tokens.map fun token => (⟨token, [], 0⟩ : Pending)), p.depth = 0 := by
    intro p member
    obtain ⟨token, _, rfl⟩ := List.mem_map.mp (List.mem_filter.mp member).1
    rfl
  constructor
  · exact List.nodup_nil
  · intro name member
    cases member
  · intro p member
    exact Nat.le_of_eq (flat p member)
  · intro p _ name member
    simp at member
  · apply List.pairwise_of_forall_mem_list
    intro p _ q member
    rw [flat q member]
    exact Nat.zero_le _

theorem Nested.of_weighing (nested : Nested table layers ps)
    (part : (weighing qs).Sublist (weighing ps)) : Nested table layers qs where
  distinct := nested.distinct
  defined := nested.defined
  within := fun p member => nested.within p (part.subset member)
  hides := fun p member => nested.hides p (part.subset member)
  falling := nested.falling.sublist part

theorem Nested.of_sublist (nested : Nested table layers ps) (part : qs.Sublist ps) :
    Nested table layers qs := nested.of_weighing (weighing_sublist part)

theorem Nested.distinct_push (nested : Nested table layers ps) {d : Nat} {name : String}
    (new : name ∉ layers.take d) : (layers.take d ++ [name]).Nodup := by
  rw [← List.concat_eq_append, List.nodup_concat]
  exact ⟨new, nested.distinct.sublist (List.take_sublist d layers)⟩

theorem Nested.defined_push (nested : Nested table layers ps) {d : Nat} {name : String}
    (isMacro : name ∈ table.macros.keys) :
    ∀ other ∈ layers.take d ++ [name], other ∈ table.macros.keys := by
  intro other member
  rcases List.mem_append.mp member with inside | last
  · exact nested.defined other (List.mem_of_mem_take inside)
  · rw [List.mem_singleton.mp last]
    exact isMacro

theorem length_push {d : Nat} {name : String} (bounded : d ≤ layers.length) :
    (layers.take d ++ [name]).length = d + 1 := by
  rw [List.length_append, List.length_take, Nat.min_eq_left bounded, List.length_singleton]

/-- A macro that a token does not hide makes a new layer above `d` others, so there are more than
`d` macros. -/
theorem Nested.depth_lt (nested : Nested table layers ps) {d : Nat} {name : String}
    (bounded : d ≤ layers.length) (isMacro : name ∈ table.macros.keys)
    (new : name ∉ layers.take d) : d < table.size := by
  have shorter :=
    (nested.distinct_push new).length_le_of_subset (nested.defined_push isMacro)
  rw [length_push bounded, OrderedMap.keys, List.length_map] at shorter
  exact shorter

/-- An expansion put in front of tokens that stand no deeper than `d` makes a new layer. -/
theorem Nested.push (nested : Nested table layers qs) {d : Nat} {name : String}
    {body : List Pending} (bounded : d ≤ layers.length) (isMacro : name ∈ table.macros.keys)
    (new : name ∉ layers.take d) (deep : ∀ p ∈ body, p.depth = d + 1)
    (hidden : ∀ p ∈ body, ∀ other ∈ layers.take d ++ [name], other ∈ p.hidden)
    (shallow : ∀ q ∈ weighing qs, q.depth ≤ d) :
    Nested table (layers.take d ++ [name]) (body ++ qs) := by
  have inBody : ∀ p ∈ weighing body, p ∈ body := fun p member => (List.mem_filter.mp member).1
  constructor
  · exact nested.distinct_push new
  · exact nested.defined_push isMacro
  · intro p member
    rw [length_push bounded]
    rw [weighing_append, List.mem_append] at member
    rcases member with inside | after
    · exact Nat.le_of_eq (deep p (inBody p inside))
    · exact Nat.le_succ_of_le (shallow p after)
  · intro p member other above
    rw [weighing_append, List.mem_append] at member
    rcases member with inside | after
    · exact hidden p (inBody p inside) other (List.mem_of_mem_take above)
    · have low := shallow p after
      rw [List.take_append_of_le_length (by rw [List.length_take]; omega), List.take_take,
        Nat.min_eq_left low] at above
      exact nested.hides p after other above
  · rw [weighing_append, List.pairwise_append]
    refine ⟨?_, nested.falling, ?_⟩
    · apply List.pairwise_of_forall_mem_list
      intro p first q second
      exact Nat.le_of_eq ((deep q (inBody q second)).trans (deep p (inBody p first)).symm)
    · intro p first q second
      rw [deep p (inBody p first)]
      exact Nat.le_succ_of_le (shallow q second)

section

variable {p : Pending} {rest : List Pending} {m : Macro} {group : Group Pending}

theorem mem_hidden_of_placed {hidden : List String} {depth : Nat} {body : List Pending}
    {name : String} (member : name ∈ hidden) :
    ∀ q ∈ placed hidden depth body, name ∈ q.hidden := by
  intro q placed
  obtain ⟨source, _, rfl⟩ := List.mem_map.mp placed
  exact mem_union.mpr (.inl member)

theorem Nested.new_layer (nested : Nested table layers (p :: rest)) (invokes : Invokes table p m)
    {d : Nat} (le : d ≤ p.depth) : m.name ∉ layers.take d := by
  have front : p ∈ weighing (p :: rest) := by simp [weighing, invokes.weighs]
  rw [MacroTable.name_of_lookup invokes.lookup]
  intro member
  have below : p.token.text ∈ layers.take p.depth :=
    (List.take_sublist_take_left le).subset member
  exact invokes.visible (nested.hides p front _ below)

theorem Invokes.mem_keys (invokes : Invokes table p m) : m.name ∈ table.macros.keys := by
  rw [MacroTable.name_of_lookup invokes.lookup]
  exact OrderedMap.mem_keys_iff.mpr ⟨m, invokes.lookup⟩

theorem Nested.front_within (nested : Nested table layers (p :: rest))
    (invokes : Invokes table p m) : p.depth ≤ layers.length :=
  nested.within p (by simp [weighing, invokes.weighs])

theorem Nested.object_within (nested : Nested table layers (p :: rest))
    (here : turn table p rest = .object m) : p.depth < table.size :=
  have invokes := turn_object here
  nested.depth_lt (nested.front_within invokes) invokes.mem_keys
    (nested.new_layer invokes (Nat.le_refl p.depth))

theorem Nested.object_body (nested : Nested table layers (p :: rest))
    (here : turn table p rest = .object m) (body : List Pending) :
    Nested table (layers.take p.depth ++ [m.name])
      (placed (objectHidden p m) (p.depth + 1) body ++ rest) := by
  have invokes := turn_object here
  have front : p ∈ weighing (p :: rest) := by simp [weighing, invokes.weighs]
  apply (nested.of_sublist (List.sublist_cons_self p rest)).push (nested.front_within invokes)
    invokes.mem_keys (nested.new_layer invokes (Nat.le_refl p.depth)) placed_depth
  · intro q inside name above
    apply mem_hidden_of_placed _ q inside
    rcases List.mem_append.mp above with outer | last
    · exact mem_union.mpr (.inl (nested.hides p front name outer))
    · exact mem_union.mpr (.inr last)
  · intro q after
    have falling := nested.falling
    rw [weighing, List.filter_cons_of_pos invokes.weighs, List.pairwise_cons] at falling
    exact falling.1 q after

theorem call_parts (here : turn table p rest = .call m group) :
    (p :: group.close :: group.after).Sublist (p :: rest) ∧ group.inside.Sublist (p :: rest) ∧
      group.close.weighs = true := by
  obtain ⟨_, opening, more, rfl, cut⟩ := turn_call here
  have whole := splitGroup?_eq cut
  refine ⟨?_, ?_, ?_⟩
  · rw [whole]
    exact ((List.sublist_append_right _ _).cons opening).cons_cons p
  · rw [whole]
    exact ((List.sublist_append_left _ _).cons opening).cons p
  · simp [Pending.weighs, splitGroup?_closes cut]

theorem Nested.call_argument (nested : Nested table layers (p :: rest))
    (here : turn table p rest = .call m group) {name : String} {argument : List Pending}
    (found : argument? (bind m p.token.line (arguments group.inside)) name = some argument) :
    Nested table layers argument :=
  (nested.of_sublist (call_parts here).2.1).of_weighing (weighing_argument found)

/-- The end of an invocation is no deeper than its name, and what follows no deeper than its end. -/
theorem Nested.call_falling (nested : Nested table layers (p :: rest))
    (here : turn table p rest = .call m group) :
    group.close.depth ≤ p.depth ∧ (∀ q ∈ weighing group.after, q.depth ≤ group.close.depth) ∧
      ∀ name ∈ layers.take group.close.depth, name ∈ group.close.hidden := by
  have ends := nested.of_sublist (call_parts here).1
  have parts : weighing (p :: group.close :: group.after) =
      p :: group.close :: weighing group.after := by
    rw [weighing, List.filter_cons_of_pos (turn_call here).1.weighs,
      List.filter_cons_of_pos (call_parts here).2.2]
    rfl
  have falling := ends.falling
  rw [parts, List.pairwise_cons, List.pairwise_cons] at falling
  refine ⟨falling.1 group.close List.mem_cons_self, falling.2.1, ?_⟩
  exact ends.hides group.close (by simp [parts])

theorem Nested.call_within (nested : Nested table layers (p :: rest))
    (here : turn table p rest = .call m group) :
    Nat.min p.depth group.close.depth < table.size := by
  have invokes := (turn_call here).1
  have low : Nat.min p.depth group.close.depth ≤ p.depth := Nat.min_le_left _ _
  exact nested.depth_lt (Nat.le_trans low (nested.front_within invokes)) invokes.mem_keys
    (nested.new_layer invokes low)

theorem Nested.call_body (nested : Nested table layers (p :: rest))
    (here : turn table p rest = .call m group) (body : List Pending) :
    Nested table (layers.take (Nat.min p.depth group.close.depth) ++ [m.name])
      (placed (callHidden p m group) (Nat.min p.depth group.close.depth + 1) body ++
        group.after) := by
  have invokes := (turn_call here).1
  obtain ⟨closeLow, afterLow, closeHides⟩ := nested.call_falling here
  have front : p ∈ weighing (p :: rest) := by simp [weighing, invokes.weighs]
  rw [show Nat.min p.depth group.close.depth = group.close.depth from Nat.min_eq_right closeLow]
  have afterPart := (List.sublist_cons_self _ _).trans ((List.sublist_cons_self _ _).trans
    (call_parts here).1)
  apply (nested.of_sublist afterPart).push (Nat.le_trans closeLow (nested.front_within invokes))
    invokes.mem_keys (nested.new_layer invokes closeLow) placed_depth
  · intro q inside name above
    apply mem_hidden_of_placed _ q inside
    rcases List.mem_append.mp above with outer | last
    · have below := (List.take_sublist_take_left closeLow).subset outer
      have both := mem_intersection.mpr ⟨nested.hides p front name below, closeHides name outer⟩
      exact mem_union.mpr (.inl both)
    · exact mem_union.mpr (.inr last)
  · exact afterLow

end

end CBindings.Expansion
