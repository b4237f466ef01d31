import CBindings.Proofs.Declaration.Interleaving
import CBindings.Proofs.Declaration.Untagged
import CBindings.Proofs.SymbolTable.Holder

/-! Where the names without a tag come from: each stands in the header as an identifier, or is the
name of one of its macros. -/

namespace CBindings

variable {header name : String} {tokens part : List Token}

namespace Specified

theorem mem_memberTags {owner : Option String} {tally : Tally} {members : List Member}
    {d : Declaration} (member : d ∈ memberTags header owner tally members) :
    ∃ m ∈ members, ∃ given, d ∈ m.base.tags header given := by
  induction members generalizing tally with
  | nil => cases member
  | cons first rest ih =>
    obtain ⟨qualifiers, base, declarators⟩ := first
    rw [memberTags] at member
    rcases List.mem_append.mp member with here | later
    · exact ⟨_, List.mem_cons_self, _, here⟩
    · obtain ⟨m, among, found⟩ := ih later
      exact ⟨m, List.mem_cons_of_mem _ among, found⟩

end Specified

namespace DeclarationSyntax

theorem plainNames_declared {source : DeclarationSyntax} {d : Declarator} {item : Item}
    (declares : source.declared d = some item) :
    ∃ name, d.identifier = some name ∧ item.plainNames = [name] := by
  obtain ⟨name, identifier, declares⟩ := Option.bind_eq_some_iff.mp declares
  refine ⟨name, identifier, ?_⟩
  dsimp only at declares
  split at declares
  · cases declares
    rfl
  · split at declares
    · cases declares
    · split at declares <;> cases declares <;> rfl

end DeclarationSyntax

namespace DeclarationReader

variable {line : Nat}

theorem HasName.within (has : HasName part name) (inside : part ⊆ tokens) :
    HasName tokens name := by
  obtain ⟨token, member, spelled⟩ := has
  exact ⟨token, inside member, spelled⟩

/-! ### Declarators -/

theorem declarator_hasName {result} (read : declarator line tokens = .ok result)
    (named : result.value.identifier = some name) : HasName tokens name := by
  induction size : tokens.length using Nat.strong_induction_on generalizing tokens result with
  | _ size ih =>
    obtain ⟨_, _, value, spelled, -⟩ | ⟨rest, inner, _, _, _, fewer, inside, declared, value, -⟩ :=
      declarator_eq_ok read
    · rw [value] at named
      exact spelled name named
    · rw [value] at named
      exact (ih rest.length (size ▸ fewer) declared named rfl).within inside.subset

theorem declarators_haveName {list : List Declarator} (read : declarators line tokens = .ok list) :
    ∀ d ∈ list, ∀ name, d.identifier = some name → HasName tokens name := by
  induction size : tokens.length using Nat.strong_induction_on generalizing tokens list with
  | _ size ih =>
    obtain ⟨first, others, declared, rfl, -, further⟩ := declarators_eq_ok read
    refine List.forall_mem_cons.mpr ⟨fun name => declarator_hasName declared, ?_⟩
    obtain rfl | ⟨rest, fewer, behind, more⟩ := further
    · exact List.forall_mem_nil _
    · intro d member name named
      have inTokens := behind.trans (declarator_suffix declared)
      exact (ih rest.length (size ▸ fewer) more rfl d member name named).within inTokens.subset

/-! ### Enumerators -/

theorem enumerator_hasName {value : Enumerator} (read : enumerator tokens = .ok value) :
    HasName tokens value.name := by
  unfold enumerator at read
  split at read
  · cases read
  · next first rest =>
    split at read
    · cases read
    · next ident =>
      have spelled : HasName (first :: rest) first.text :=
        ⟨first, List.mem_cons_self, not_not.mp ident, rfl⟩
      split at read
      · cases read
        exact spelled
      · split at read
        · cases read
        · split at read <;> cases read <;> exact spelled

theorem enumerators_haveName {values : List Enumerator} (read : enumerators tokens = .ok values) :
    ∀ value ∈ values, HasName tokens value.name := by
  intro value member
  obtain ⟨part, isPart, read⟩ := mem_of_mapM_eq_ok read member
  have inside := infix_of_mem_splitTopLevel (List.mem_filter.mp isPart).1
  exact (enumerator_hasName read).within inside.subset

/-- The only plain names in a type are those of enumerators, at any depth. -/
theorem hereditary_hasName : Hereditary fun tokens base =>
    ∀ header given, ∀ d ∈ base.tags header given, ∀ name ∈ d.item.plainNames,
      HasName tokens name where
  mono inside spelled header given d member name among :=
    (spelled header given d member name among).within inside.subset
  name _ _ _ _ _ _ member := nomatch member
  opaqueTag tokens isUnion tag line header given d member name among := by
    cases isUnion <;> cases List.mem_singleton.mp member <;> cases among
  enum tag line isTypedef read header given d member name among := by
    cases List.mem_singleton.mp member
    obtain ⟨value, listed, rfl⟩ := List.mem_map.mp among
    exact enumerators_haveName read value listed
  record isUnion tag line isTypedef lines header given d member name among := by
    rw [Specified.tags, List.mem_append] at member
    rcases member with inner | own
    · obtain ⟨m, listed, other, found⟩ := Specified.mem_memberTags inner
      obtain ⟨part, inside, -, spelled⟩ := lines m listed
      exact (spelled header other d found name among).within inside.subset
    · simp only [Specified.tag] at own
      split at own
      · cases own
      · cases isUnion <;> cases List.mem_singleton.mp own <;> cases among

/-! ### Statements and headers -/

theorem read_hasName {source : DeclarationSyntax} (read : read line tokens = .ok source)
    (header : String) : ∀ d ∈ source.declarations header line, ∀ name ∈ d.item.plainNames,
      HasName tokens name := by
  obtain ⟨draft, base, list, specified, finished, declared, rfl⟩ := read_eq_ok read
  have behind := (specifies_of_read specified).suffix.subset
  rw [DeclarationSyntax.declarations, List.forall_mem_append]
  constructor
  · exact hereditary_hasName.of_read specified finished header _
  · intro found member name among
    obtain ⟨item, listed, rfl⟩ := List.mem_map.mp member
    obtain ⟨d, isDeclared, declares⟩ := List.mem_filterMap.mp listed
    obtain ⟨own, identifier, names⟩ := DeclarationSyntax.plainNames_declared declares
    dsimp only at among
    rw [names, List.mem_singleton] at among
    obtain rfl | declared := declared
    · cases isDeclared
    · exact (declarators_haveName declared d isDeclared name (among ▸ identifier)).within behind

end DeclarationReader

namespace Statement

open DeclarationReader

theorem splitFrom_subset (current : List Placed) (depth : Nat) (items : List Placed) :
    ∀ statement ∈ splitFrom current depth items,
      statement.tokens ⊆ (current ++ items).map Prod.snd := by
  have closed {kept current more : List Placed} (some : kept ⊆ current) :
      ∀ statement ∈ ofItems kept, statement.tokens ⊆ (current ++ more).map Prod.snd := by
    intro statement member
    cases kept with
    | nil => cases member
    | cons first rest =>
      cases List.mem_singleton.mp member
      exact List.map_subset _ (List.Subset.trans some (List.subset_append_left current more))
  have later {statements : List Statement} {fewer more : List Placed} (inside : fewer ⊆ more)
      (ih : ∀ statement ∈ statements, statement.tokens ⊆ fewer.map Prod.snd) :
      ∀ statement ∈ statements, statement.tokens ⊆ more.map Prod.snd :=
    fun statement member => List.Subset.trans (ih statement member) (List.map_subset _ inside)
  fun_induction splitFrom current depth items with
  | case1 current => exact closed (List.Subset.refl current)
  | case2 current depth item string brace rest _ _ ih =>
    exact later (by grind) ih
  | case3 current depth item string next rest _ _ ih =>
    exact later (by grind) ih
  | case4 => exact List.forall_mem_nil _
  | case5 current depth item rest _ _ ih =>
    exact List.forall_mem_append.mpr
      ⟨closed (List.Subset.refl current), later (by grind) ih⟩
  | case6 current depth item rest _ _ _ isNamespace kept ih =>
    have some : kept ⊆ current := by
      unfold kept
      split
      · exact List.Subset.refl current
      · exact List.nil_subset current
    have behind := (afterBody_suffix rest).subset
    exact List.forall_mem_append.mpr ⟨closed some, later (by grind) ih⟩
  | case7 current depth item rest _ _ _ _ ih => simpa using ih

theorem split_subset {statement : Statement} (member : statement ∈ split (clean tokens)) :
    statement.tokens ⊆ tokens := by
  have cleaned := (cleanFrom_sublist (tokens.zipIdx.map Prod.swap)).subset
  have inside := List.Subset.trans (splitFrom_subset [] 0 (clean tokens) statement member)
    (List.map_subset _ cleaned)
  intro token among
  obtain ⟨placed, known, rfl⟩ := List.mem_map.mp (inside among)
  obtain ⟨source, found, rfl⟩ := List.mem_map.mp known
  exact List.fst_mem_of_mem_zipIdx found

theorem declarations_haveName (statement : Statement) (header : String) :
    ∀ d ∈ (statement.declarations header).1, ∀ name ∈ d.item.plainNames,
      HasName statement.tokens name := by
  unfold declarations
  split
  · exact List.forall_mem_nil _
  · split
    · exact List.forall_mem_nil _
    · next source read => exact read_hasName read header

end Statement

/-- A name without a tag is an identifier of its header, or the name of one of the macros there. -/
theorem declarationsOf_names (tokens : List Token) (header : String)
    (defines : List (Nat × Macro)) :
    ∀ d ∈ (declarationsOf tokens header defines).1, ∀ name ∈ d.item.plainNames,
      DeclarationReader.HasName tokens name ∨ ∃ define ∈ defines, define.2.name = name := by
  intro d member name among
  obtain ⟨constants, others, -⟩ := interleave_parts header
    (defines.mergeSort fun a b => a.1 ≤ b.1) (Statement.split (Statement.clean tokens))
  cases isConstant : d.isConstant with
  | true =>
    have listed : d ∈ constantsOf header (defines.mergeSort fun a b => a.1 ≤ b.1) :=
      constants ▸ List.mem_filter.mpr ⟨member, isConstant⟩
    obtain ⟨define, kept, rfl⟩ := List.mem_map.mp listed
    have defined := List.mem_mergeSort.mp (List.mem_filter.mp kept).1
    exact .inr ⟨define, defined, (List.mem_singleton.mp among).symm⟩
  | false =>
    have listed := others ▸ List.mem_filter.mpr ⟨member, by simp [isConstant]⟩
    obtain ⟨statement, read, found⟩ := List.mem_flatMap.mp listed
    exact .inl ((statement.declarations_haveName header d found name among).within
      (Statement.split_subset read))

end CBindings
