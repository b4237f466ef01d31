import CBindings.Proofs.Macro.Nesting

/-! What a definition does to the table, and what the table then does to the name in a text. -/

namespace CBindings

namespace MacroTable

variable {table : MacroTable} {m : Macro} {name other : String}

theorem lookup_define (free : table.isPredefined m.name = false) (other : String) :
    (table.define m).lookup other = if other = m.name then some m else table.lookup other := by
  rw [define, if_neg (by simp [free])]
  exact OrderedMap.get?_insert table.macros m.name m other

theorem lookup_define_ne (table : MacroTable) (different : other ≠ m.name) :
    (table.define m).lookup other = table.lookup other := by
  cases known : table.isPredefined m.name with
  | true => rw [define, if_pos known]
  | false => rw [lookup_define known, if_neg different]

theorem lookup_undefine (free : table.isPredefined name = false) (other : String) :
    (table.undefine name).lookup other = if other = name then none else table.lookup other := by
  rw [undefine, if_neg (by simp [free])]
  exact OrderedMap.get?_erase table.macros name other

end MacroTable

namespace Expansion

variable {table : MacroTable} {header : Option String} {m : Macro}

/-- A token that names no macro and is no operator stays where it is, whatever follows. -/
theorem turn_keep {p : Pending} (unnamed : table.named p.token = none)
    (plain : p.token.isIdent "defined" = false) (rest : List Pending) :
    turn table p rest = .keep := by
  rw [turn, unnamed, plain]
  rfl

theorem turn_of_named {p : Pending} (ident : p.token.kind = .ident)
    (found : table.lookup p.token.text = some m) (object : m.isObjectLike = true)
    (plain : p.token.text ≠ "defined") (visible : p.token.text ∉ p.hidden) (rest : List Pending) :
    turn table p rest = .object m := by
  have noOperator : p.token.isIdent "defined" = false := by
    simp [Token.isIdent, plain]
  have named : table.named p.token = some m := by
    rw [MacroTable.named, if_pos ident, found]
  simp [turn, noOperator, named, object, visible]

theorem expandPending_keep {p : Pending} {rest : List Pending} (keeps : turn table p rest = .keep)
    (findings : Findings) : expandPending table header (p :: rest) findings =
      (p :: (expandPending table header rest findings).1,
        (expandPending table header rest findings).2) := by
  rw [expandPending]
  split
  · rfl
  · next operand => cases keeps.symm.trans operand
  · next cycle => cases keeps.symm.trans cycle
  · next object => cases keeps.symm.trans object
  · next call => cases keeps.symm.trans call

theorem expandPending_object {p : Pending} {rest : List Pending}
    (gives : turn table p rest = .object m) (within : p.depth < table.size) (findings : Findings) :
    expandPending table header (p :: rest) findings =
      expandPending table header
        (placed (objectHidden p m) (p.depth + 1) (fresh p.token m.body) ++ rest) findings := by
  rw [expandPending]
  split
  · next keep => cases gives.symm.trans keep
  · next operand => cases gives.symm.trans operand
  · next cycle => cases gives.symm.trans cycle
  · next object =>
    cases gives.symm.trans object
    rw [dif_pos within]
  · next call => cases gives.symm.trans call

/-- Plain tokens in front stay, and the others expand as if they stood alone. -/
theorem expandPending_append_plain {front : List Pending} (plain : ∀ p ∈ front,
      table.named p.token = none ∧ p.token.isIdent "defined" = false)
    (rest : List Pending) (findings : Findings) :
    expandPending table header (front ++ rest) findings =
      (front ++ (expandPending table header rest findings).1,
        (expandPending table header rest findings).2) := by
  induction front with
  | nil => rfl
  | cons p front ih =>
    obtain ⟨unnamed, noOperator⟩ := plain p List.mem_cons_self
    have later := ih fun other member => plain other (List.mem_cons_of_mem p member)
    rw [List.cons_append, expandPending_keep (turn_keep unnamed noOperator _), later]
    rfl

/-- The name of an object-like macro with a given body. In every text it gives way to the body
wherever the expansion comes to it outside of its own expansion. -/
structure Abbreviates (table : MacroTable) (name : String) (body : List Token) : Prop where
  defined : ∃ m, table.lookup name = some m ∧ m.isObjectLike = true ∧ m.body = body
  reached : ∀ (header : Option String) (findings : Findings) (layers : List String) (p : Pending)
    (rest : List Pending), Nested table layers (p :: rest) → p.token.kind = .ident →
    p.token.text = name → name ∉ p.hidden →
    expandPending table header (p :: rest) findings =
      expandPending table header
        (placed (union p.hidden [name]) (p.depth + 1) (fresh p.token body) ++ rest) findings
  written : ∀ (header : Option String) (findings : Findings) (token : Token)
    (front back : List Token), token.kind = .ident → token.text = name →
    (∀ t ∈ front, table.named t = none ∧ t.isIdent "defined" = false) →
    expand table (front ++ token :: back) header findings =
      let expanded := expandPending table header
        (placed [name] 1 (fresh token body) ++ back.map fun t => ⟨t, [], 0⟩) findings
      (front ++ expanded.1.map Pending.token, expanded.2)

theorem abbreviates {name : String} (found : table.lookup name = some m)
    (object : m.isObjectLike = true) (ordinary : name ≠ "defined") :
    Abbreviates table name m.body := by
  have sameName : m.name = name := MacroTable.name_of_lookup found
  have reached (header : Option String) (findings : Findings) (layers : List String) (p : Pending)
      (rest : List Pending) (nested : Nested table layers (p :: rest))
      (ident : p.token.kind = .ident) (named : p.token.text = name) (visible : name ∉ p.hidden) :
      expandPending table header (p :: rest) findings =
        expandPending table header
          (placed (union p.hidden [name]) (p.depth + 1) (fresh p.token m.body) ++ rest)
          findings := by
    have gives : turn table p rest = .object m := by
      apply turn_of_named ident _ object _ _ rest
      · rw [named, found]
      · rwa [named]
      · rwa [named]
    rw [expandPending_object gives (nested.object_within gives), objectHidden, sameName]
  refine ⟨⟨m, found, object, rfl⟩, reached, ?_⟩
  intro header findings token front back ident named plain
  have visible : name ∉ ([] : List String) := List.not_mem_nil
  have gives := reached header findings [] ⟨token, [], 0⟩ (back.map fun t => ⟨t, [], 0⟩)
    (nested_of_tokens table (token :: back)) ident named visible
  have pending : ∀ p ∈ front.map fun t => (⟨t, [], 0⟩ : Pending),
      table.named p.token = none ∧ p.token.isIdent "defined" = false := by
    intro p member
    obtain ⟨t, inside, rfl⟩ := List.mem_map.mp member
    exact plain t inside
  rw [expand, List.map_append, List.map_cons, expandPending_append_plain pending, gives]
  simp [union, Function.comp_def]

end Expansion

end CBindings
