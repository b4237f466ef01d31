import CBindings.Declaration.Listing
import CBindings.Proofs.Declaration.Untagged
import CBindings.Proofs.Integer.Decimal

/-! The names of the tags that a statement defines. A tag that the source does not name is named
after the one around it or the first declarator, with a number for each step inwards. Such a name
may repeat one that the source gives elsewhere, but two that come from the same place differ. -/

namespace CBindings

/-! ### Generated names -/

def numbered : List Nat → String
  | [] => ""
  | n :: others => "__anon" ++ toString n ++ numbered others

theorem numbered_append (first second : List Nat) :
    numbered (first ++ second) = numbered first ++ numbered second := by
  induction first with
  | nil => simp [numbered]
  | cons n others ih => simp [numbered, ih, String.append_assoc]

theorem numbered_eq_empty_iff {numbers : List Nat} : numbered numbers = "" ↔ numbers = [] := by
  cases numbers with
  | nil => simp [numbered]
  | cons n others => simp [numbered, String.append_eq_empty_iff]

/-- The digits at the end of a name that ends in a number are those of this number. -/
theorem takeWhile_digits (name : String) (n : Nat) :
    (name ++ "__anon" ++ toString n).toList.reverse.takeWhile Text.isAsciiDigit =
      (Nat.toDigits 10 n).reverse := by
  have digits : ∀ c ∈ (Nat.toDigits 10 n).reverse, Text.isAsciiDigit c = true :=
    fun c member => Text.mem_toDigits (List.mem_reverse.mp member)
  have word : ("__anon".toList.reverse ++ name.toList.reverse).takeWhile Text.isAsciiDigit =
      [] := rfl
  rw [String.toList_append, String.toList_append, Nat.toString_eq_repr, Nat.toList_repr,
    List.reverse_append, List.takeWhile_append_of_pos digits, List.reverse_append, word,
    List.append_nil]

/-- A number behind a word that ends in no digit can be told from the word. -/
theorem append_number_inj {first second : String} {m n : Nat}
    (same : first ++ "__anon" ++ toString m = second ++ "__anon" ++ toString n) :
    first = second ∧ m = n := by
  have digits : (Nat.toDigits 10 m).reverse = (Nat.toDigits 10 n).reverse := by
    rw [← takeWhile_digits first m, same, takeWhile_digits]
  have numbers : m = n := by
    rw [← Text.ofDigits_toDigits m, List.reverse_injective digits, Text.ofDigits_toDigits]
  subst numbers
  rw [String.append_left_inj, String.append_left_inj] at same
  exact ⟨same, rfl⟩

theorem eq_nil_of_append_numbered {name : String} {numbers : List Nat}
    (same : name = name ++ numbered numbers) : numbers = [] := by
  exact numbered_eq_empty_iff.mp (String.append_eq_left_iff.mp same.symm)

/-- Two generated names are the same if the same numbers come after names of which one is generated
from the other. -/
theorem append_numbered_eq {first second : String} {some others : List Nat}
    (same : first ++ numbered some = second ++ numbered others) :
    (∃ more, first = second ++ numbered more ∧ others = more ++ some) ∨
      ∃ more, second = first ++ numbered more ∧ some = more ++ others := by
  induction some using List.reverseRecOn generalizing others with
  | nil => exact .inl ⟨others, by simpa [numbered] using same, by simp⟩
  | append_singleton front m ih =>
    cases others using List.reverseRecOn with
    | nil => exact .inr ⟨front ++ [m], by simpa [numbered] using same.symm, by simp⟩
    | append_singleton others n =>
      have last (name : String) (numbers : List Nat) (n : Nat) :
          name ++ numbered (numbers ++ [n]) =
            name ++ numbered numbers ++ "__anon" ++ toString n := by
        simp [numbered_append, numbered, String.append_assoc]
      rw [last, last] at same
      obtain ⟨front, rfl⟩ := append_number_inj same
      obtain ⟨more, name, rfl⟩ | ⟨more, name, rfl⟩ := ih front
      · exact .inl ⟨more, name, by simp⟩
      · exact .inr ⟨more, name, by simp⟩

/-! ### Where names come from -/

/-- What a tag is named after: a name that the source gives, the place where it gives it, and the
numbers of the unnamed tags on the way in from there. -/
structure Origin where
  place : List Nat
  given : Option String
  numbers : List Nat
  deriving DecidableEq, Repr

namespace Origin

def name (origin : Origin) : Option String := origin.given.map (· ++ numbered origin.numbers)

def step (origin : Origin) (number : Nat) : Origin :=
  { origin with numbers := origin.numbers ++ [number] }

theorem name_step (origin : Origin) (tally : Tally) :
    (origin.step (tally.unnamed + 1)).name = Member.givenName origin.name tally := by
  cases given : origin.given with
  | none => simp [name, step, Member.givenName, given]
  | some first =>
    simp [name, step, Member.givenName, given, numbered_append, numbered, String.append_assoc]

end Origin

/-- A tag that is defined. Its place is told by the lines of the field lists around it, from the
outermost one in. -/
structure DefinedTag where
  place : List Nat
  kind : NameKind
  written : Option String
  origin : Origin
  deriving DecidableEq, Repr

namespace DefinedTag

def name (d : DefinedTag) : Option String := d.origin.name

def qualifiedName (d : DefinedTag) : Option String := Item.tagName d.kind.word d.name

/-- A tag without any name is listed only if it is an enum. -/
def listed? (d : DefinedTag) : Option (NameKind × Option String) :=
  if d.name.isSome || d.kind = .enum then some (d.kind, d.name) else none

end DefinedTag

def Item.definedTag? : Item → Option (NameKind × Option String)
  | struct name (some _) _ => some (.struct, name)
  | union name (some _) => some (.union, name)
  | enum name _ _ => some (.enum, name)
  | struct _ none _ | union _ none | function .. | typedef .. | object .. | constant .. => none

namespace Specified

def origin (base : Specified) (place : List Nat) (outer : Origin) : Origin :=
  match base.writtenName with
  | some written => ⟨place, some written, []⟩
  | none => outer

theorem name_origin (base : Specified) (place : List Nat) (outer : Origin) :
    (base.origin place outer).name = base.nameOr outer.name := by
  rw [origin, nameOr]
  cases base.writtenName <;> simp [Origin.name, numbered]

mutual

/-- The tags that a type defines at some place, each after those inside it. -/
def definedTags (place : List Nat) (outer : Origin) : Specified → List DefinedTag
  | record isUnion written line afterTypedef members =>
    let own := origin (record isUnion written line afterTypedef members) place outer
    memberDefinedTags place own 0 {} members ++
      [⟨place, if isUnion then .union else .struct, written, own⟩]
  | enum written line afterTypedef values =>
    [⟨place, .enum, written, origin (enum written line afterTypedef values) place outer⟩]
  | name .. | opaqueTag .. => []

def memberDefinedTags (place : List Nat) (owner : Origin) (index : Nat) (tally : Tally) :
    List Member → List DefinedTag
  | [] => []
  | .mk qualifiers base declarators :: rest =>
    definedTags (place ++ [index]) (owner.step (tally.unnamed + 1)) base ++
      memberDefinedTags place owner (index + 1)
        (Member.count tally (.mk qualifiers base declarators)) rest

end

mutual

theorem tags_defined (header : String) (place : List Nat) (outer : Origin) (base : Specified) :
    (tags header outer.name base).filterMap (·.item.definedTag?) =
      (definedTags place outer base).filterMap DefinedTag.listed? := by
  cases base with
  | record isUnion written line afterTypedef members =>
    let own := origin (record isUnion written line afterTypedef members) place outer
    have named : own.name = (record isUnion written line afterTypedef members).nameOr outer.name :=
      name_origin _ place outer
    have inner := memberTags_defined header place own 0 {} members
    have self : (tag header outer.name (record isUnion written line afterTypedef members)).filterMap
        (·.item.definedTag?) =
          [(⟨place, if isUnion then .union else .struct, written, own⟩ : DefinedTag)].filterMap
            DefinedTag.listed? := by
      simp only [tag, ← named]
      cases known : own.name <;> cases isUnion <;>
        simp [DefinedTag.listed?, DefinedTag.name, known, Item.definedTag?]
    rw [named] at inner
    rw [tags, definedTags, List.filterMap_append, List.filterMap_append, self]
    exact congrArg (· ++ _) inner
  | enum written line afterTypedef values =>
    simp [tags, tag, definedTags, DefinedTag.listed?, DefinedTag.name, name_origin,
      Item.definedTag?]
  | name kind written => rfl
  | opaqueTag isUnion written line => cases isUnion <;> rfl

theorem memberTags_defined (header : String) (place : List Nat) (owner : Origin) (index : Nat)
    (tally : Tally) (members : List Member) :
    (memberTags header owner.name tally members).filterMap (·.item.definedTag?) =
      (memberDefinedTags place owner index tally members).filterMap DefinedTag.listed? := by
  cases members with
  | nil => rfl
  | cons first rest =>
    obtain ⟨qualifiers, base, declarators⟩ := first
    rw [memberTags, memberDefinedTags, List.filterMap_append, List.filterMap_append,
      ← Origin.name_step, tags_defined header (place ++ [index]), memberTags_defined header place]

end

end Specified

/-! ### Origins tell tags apart -/

theorem prefix_concat_inj {place whole : List Nat} {i j : Nat} (first : place ++ [i] <+: whole)
    (second : place ++ [j] <+: whole) : i = j := by
  have same := (List.prefix_of_prefix_length_le first second (by simp)).eq_of_length (by simp)
  simpa using same

theorem not_prefix_of_concat {place whole : List Nat} {i : Nat} (beyond : place ++ [i] <+: whole) :
    ¬ whole <+: place := by
  intro within
  have := (beyond.trans within).length_le
  simp at this

namespace DefinedTag

/-- Two tags stand at different places and have different numbers where they are named after the
same one. -/
structure Apart (a b : DefinedTag) : Prop where
  places : a.place ≠ b.place
  numbers : a.origin.place = b.origin.place →
    a.origin.given = b.origin.given ∧ a.origin.numbers ≠ b.origin.numbers

/-- A tag at some place or inside it is named after one that is, or after what the tag there is
named after if that is unnamed. -/
structure Inside (place : List Nat) (outer : Origin) (unnamed : Prop) (d : DefinedTag) : Prop where
  within : place <+: d.place
  origin : place <+: d.origin.place ∨ unnamed ∧ d.origin.place = outer.place ∧
    d.origin.given = outer.given ∧ outer.numbers <+: d.origin.numbers

variable {d e : DefinedTag} {place : List Nat} {owner : Origin} {unnamed : Prop}

theorem Inside.mono {weaker : Prop} (inside : d.Inside place owner unnamed)
    (imp : unnamed → weaker) : d.Inside place owner weaker :=
  ⟨inside.within, inside.origin.imp_right fun found => ⟨imp found.1, found.2⟩⟩

theorem Inside.apart {i j m n : Nat} (first : d.Inside (place ++ [i]) (owner.step m) unnamed)
    (second : e.Inside (place ++ [j]) (owner.step n) True) (lines : i < j)
    (numbers : unnamed → m < n) (within : owner.place <+: place) : d.Apart e := by
  refine ⟨fun same => ?_, fun same => ?_⟩
  · have second := second.within
    rw [← same] at second
    exact absurd (prefix_concat_inj first.within second) (Nat.ne_of_lt lines)
  · obtain own | ⟨none, at1, given1, numbers1⟩ := first.origin
    · obtain other | ⟨-, at2, -⟩ := second.origin
      · rw [← same] at other
        exact absurd (prefix_concat_inj own other) (Nat.ne_of_lt lines)
      · rw [same, at2] at own
        exact absurd within (not_prefix_of_concat own)
    · obtain other | ⟨-, at2, given2, numbers2⟩ := second.origin
      · rw [← same, at1] at other
        exact absurd within (not_prefix_of_concat other)
      · refine ⟨given1.trans given2.symm, fun same => ?_⟩
        rw [← same] at numbers2
        exact absurd (prefix_concat_inj numbers1 numbers2) (Nat.ne_of_lt (numbers none))

theorem Inside.apart_self {i m : Nat} (inside : d.Inside (place ++ [i]) (owner.step m) unnamed)
    (within : owner.place <+: place) {kind : NameKind} {written : Option String} :
    d.Apart ⟨place, kind, written, owner⟩ := by
  refine ⟨fun same => ?_, fun same => ?_⟩
  · have beyond := inside.within
    rw [same] at beyond
    exact not_prefix_of_concat beyond List.prefix_rfl
  · obtain own | ⟨-, -, given, numbers⟩ := inside.origin
    · rw [same] at own
      exact absurd within (not_prefix_of_concat own)
    · refine ⟨given, fun same => ?_⟩
      rw [same] at numbers
      exact not_prefix_of_concat numbers List.prefix_rfl

theorem Inside.outward {base : Specified} {outer : Origin} {i m : Nat}
    (inside : d.Inside (place ++ [i]) ((base.origin place outer).step m) unnamed) :
    d.Inside place outer (base.isUnnamed = true) := by
  have front : place <+: place ++ [i] := List.prefix_append place [i]
  refine ⟨front.trans inside.within, ?_⟩
  obtain own | ⟨-, atOrigin, given, numbers⟩ := inside.origin
  · exact .inl (front.trans own)
  · rw [Specified.isUnnamed]
    rw [Specified.origin] at atOrigin given numbers
    cases named : base.writtenName with
    | some written =>
      rw [named] at atOrigin
      exact .inl (atOrigin ▸ List.prefix_rfl)
    | none =>
      rw [named] at atOrigin given numbers
      exact .inr ⟨rfl, atOrigin, given, (List.prefix_append _ [m]).trans numbers⟩

end DefinedTag

namespace Specified

open DefinedTag

theorem origin_within (base : Specified) {place : List Nat} {outer : Origin}
    (within : outer.place <+: place) : (base.origin place outer).place <+: place := by
  rw [origin]
  cases base.writtenName with
  | some written => exact List.prefix_rfl
  | none => exact within

theorem inside_origin (base : Specified) (place : List Nat) (outer : Origin) (kind : NameKind)
    (written : Option String) :
    (⟨place, kind, written, base.origin place outer⟩ : DefinedTag).Inside place outer
      (base.isUnnamed = true) := by
  refine ⟨List.prefix_rfl, ?_⟩
  rw [isUnnamed, origin]
  cases base.writtenName with
  | some written => exact .inl List.prefix_rfl
  | none => exact .inr ⟨rfl, rfl, rfl, List.prefix_rfl⟩

mutual

theorem definedTags_inside (place : List Nat) (outer : Origin) (base : Specified) :
    ∀ d ∈ definedTags place outer base, d.Inside place outer (base.isUnnamed = true) := by
  cases base with
  | record isUnion written line afterTypedef members =>
    rw [definedTags, List.forall_mem_append, List.forall_mem_singleton]
    refine ⟨fun d member => ?_, inside_origin _ place outer _ written⟩
    obtain ⟨i, m, -, -, inside⟩ := memberDefinedTags_inside place _ 0 {} members d member
    exact inside.outward
  | enum written line afterTypedef values =>
    rw [definedTags, List.forall_mem_singleton]
    exact inside_origin _ place outer _ written
  | name | opaqueTag => exact List.forall_mem_nil _

theorem memberDefinedTags_inside (place : List Nat) (owner : Origin) (index : Nat) (tally : Tally)
    (members : List Member) :
    ∀ d ∈ memberDefinedTags place owner index tally members, ∃ i m, index ≤ i ∧ tally.unnamed < m ∧
      d.Inside (place ++ [i]) (owner.step m) True := by
  cases members with
  | nil => exact List.forall_mem_nil _
  | cons first rest =>
    obtain ⟨qualifiers, base, declarators⟩ := first
    rw [memberDefinedTags, List.forall_mem_append]
    constructor
    · intro d member
      have inside := definedTags_inside (place ++ [index]) (owner.step (tally.unnamed + 1)) base d
        member
      exact ⟨index, tally.unnamed + 1, le_rfl, Nat.lt_succ_self _, inside.mono fun _ => trivial⟩
    · intro d member
      obtain ⟨i, m, later, more, inside⟩ := memberDefinedTags_inside place owner _ _ rest d member
      have grows : tally.unnamed ≤
          (Member.count tally (.mk qualifiers base declarators)).unnamed := by
        unfold Member.count
        dsimp only
        split <;> omega
      exact ⟨i, m, Nat.le_of_succ_le later, Nat.lt_of_le_of_lt grows more, inside⟩

end

mutual

theorem definedTags_apart (place : List Nat) (outer : Origin) (base : Specified)
    (within : outer.place <+: place) : (definedTags place outer base).Pairwise Apart := by
  cases base with
  | record isUnion written line afterTypedef members =>
    rw [definedTags, List.pairwise_append]
    have owns := origin_within (record isUnion written line afterTypedef members) within
    refine ⟨memberDefinedTags_apart place _ 0 {} members owns, List.pairwise_singleton _ _, ?_⟩
    intro d member self isSelf
    obtain ⟨i, m, -, -, inside⟩ := memberDefinedTags_inside place _ 0 {} members d member
    rw [List.mem_singleton.mp isSelf]
    exact inside.apart_self owns
  | enum written line afterTypedef values => exact List.pairwise_singleton _ _
  | name | opaqueTag => exact List.Pairwise.nil

theorem memberDefinedTags_apart (place : List Nat) (owner : Origin) (index : Nat) (tally : Tally)
    (members : List Member) (within : owner.place <+: place) :
    (memberDefinedTags place owner index tally members).Pairwise Apart := by
  cases members with
  | nil => exact List.Pairwise.nil
  | cons first rest =>
    obtain ⟨qualifiers, base, declarators⟩ := first
    rw [memberDefinedTags, List.pairwise_append]
    refine ⟨definedTags_apart _ _ base (within.trans (List.prefix_append place [index])),
      memberDefinedTags_apart place owner _ _ rest within, ?_⟩
    intro d member e later
    have inside := definedTags_inside _ _ base d member
    obtain ⟨i, m, after, more, other⟩ := memberDefinedTags_inside place owner _ _ rest e later
    refine inside.apart other after (fun unnamed => ?_) within
    simpa [Member.count, Member.base, unnamed] using more

end

end Specified

/-! ### What the source gives -/

/-- A tag with a name of its own is named after itself, and every other one after a tag with a name
or after what the outermost one is given. -/
structure DefinedTag.Sourced (tags : List DefinedTag) (place : List Nat) (given : Option String)
    (d : DefinedTag) : Prop where
  own : ∀ name, d.written = some name → d.origin = ⟨d.place, some name, []⟩
  source : (∃ owner ∈ tags, owner.place = d.origin.place ∧ owner.written.isSome = true ∧
      d.origin.given = owner.written) ∨ d.origin.place = place ∧ d.origin.given = given

theorem DefinedTag.Sourced.mono {first second : List DefinedTag} {place : List Nat}
    {given : Option String} {d : DefinedTag} (sourced : d.Sourced first place given)
    (subset : first ⊆ second) : d.Sourced second place given :=
  ⟨sourced.own, sourced.source.imp_left fun ⟨owner, among, found⟩ => ⟨owner, subset among, found⟩⟩

/-- What is named after the origin of a tag is named after this tag or what is around it. -/
theorem DefinedTag.Sourced.outward {base : Specified} {place : List Nat} {outer : Origin}
    {tags : List DefinedTag} {kind : NameKind} {d : DefinedTag}
    (sourced : d.Sourced tags (base.origin place outer).place (base.origin place outer).given)
    (self : ⟨place, kind, base.writtenName, base.origin place outer⟩ ∈ tags) :
    d.Sourced tags outer.place outer.given := by
  refine ⟨sourced.own, ?_⟩
  obtain owned | ⟨atOrigin, given⟩ := sourced.source
  · exact .inl owned
  · rw [Specified.origin] at self atOrigin given
    cases written : base.writtenName with
    | some name =>
      rw [written] at self atOrigin given
      exact .inl ⟨_, self, atOrigin.symm, rfl, given⟩
    | none =>
      rw [written] at atOrigin given
      exact .inr ⟨atOrigin, given⟩

namespace Specified

open DefinedTag

theorem origin_sourced (base : Specified) (place : List Nat) (outer : Origin) (kind : NameKind)
    (tags : List DefinedTag) :
    (⟨place, kind, base.writtenName, base.origin place outer⟩ : DefinedTag).Sourced tags
      (base.origin place outer).place (base.origin place outer).given := by
  refine ⟨fun name written => ?_, .inr ⟨rfl, rfl⟩⟩
  have written : base.writtenName = some name := written
  rw [origin, written]

mutual

theorem definedTags_sourced (place : List Nat) (outer : Origin) (base : Specified) :
    ∀ d ∈ definedTags place outer base,
      d.Sourced (definedTags place outer base) outer.place outer.given := by
  cases base with
  | record isUnion written line afterTypedef members =>
    let base := record isUnion written line afterTypedef members
    let self : DefinedTag :=
      ⟨place, if isUnion then .union else .struct, written, base.origin place outer⟩
    have last : self ∈ definedTags place outer base :=
      List.mem_append_right _ (List.mem_singleton_self self)
    intro d member
    obtain member | isSelf := List.mem_append.mp member
    · have inner := memberDefinedTags_sourced place (base.origin place outer) 0 {} members d member
      exact (inner.mono (List.subset_append_left _ [self])).outward last
    · rw [List.mem_singleton.mp isSelf]
      exact (origin_sourced base place outer _ _).outward last
  | enum written line afterTypedef values =>
    rw [definedTags, List.forall_mem_singleton]
    exact (origin_sourced (enum written line afterTypedef values) place outer _ _).outward
      (List.mem_singleton_self _)
  | name | opaqueTag => exact List.forall_mem_nil _

theorem memberDefinedTags_sourced (place : List Nat) (owner : Origin) (index : Nat) (tally : Tally)
    (members : List Member) :
    ∀ d ∈ memberDefinedTags place owner index tally members,
      d.Sourced (memberDefinedTags place owner index tally members) owner.place owner.given := by
  cases members with
  | nil => exact List.forall_mem_nil _
  | cons first rest =>
    obtain ⟨qualifiers, base, declarators⟩ := first
    rw [memberDefinedTags, List.forall_mem_append]
    constructor
    · intro d member
      exact (definedTags_sourced _ _ base d member).mono (List.subset_append_left _ _)
    · intro d member
      exact (memberDefinedTags_sourced place owner _ _ rest d member).mono
        (List.subset_append_right _ _)

end

end Specified

/-! ### Names that are repeated -/

theorem Item.tagName_inj {kind other : NameKind} {first second : Option String} {key : String}
    (left : Item.tagName kind.word first = some key)
    (right : Item.tagName other.word second = some key) :
    kind = other ∧ ∃ name, first = some name ∧ second = some name := by
  obtain ⟨name, named, rfl⟩ := Option.map_eq_some_iff.mp left
  obtain ⟨name', named', same⟩ := Option.map_eq_some_iff.mp right
  have kinds : kind = other := by
    have letters := congrArg (fun text => text.toList.head?) same
    cases kind <;> cases other <;> first | rfl | simp [NameKind.word] at letters
  subst kinds
  have names : name' = name := by simpa using same
  subst names
  exact ⟨rfl, name', (Option.filter_eq_some_iff.mp named).1,
    (Option.filter_eq_some_iff.mp named').1⟩

namespace DefinedTag

/-- Two tags that come to the same name are of one kind, and the source gives the names they are
made from at different places: one of these is the other with the numbers that its tag has more. Two
tags with names of their own have the same. -/
structure Collides (a b : DefinedTag) : Prop where
  kinds : a.kind = b.kind
  places : a.origin.place ≠ b.origin.place
  names : ∃ first second, a.origin.given = some first ∧ b.origin.given = some second ∧
    ∃ more, first = second ++ numbered more ∧ b.origin.numbers = more ++ a.origin.numbers ∨
      second = first ++ numbered more ∧ a.origin.numbers = more ++ b.origin.numbers
  written : ∀ first second, a.written = some first → b.written = some second → first = second

theorem Apart.collides {a b : DefinedTag} (apart : a.Apart b)
    (ownA : ∀ name, a.written = some name → a.origin = ⟨a.place, some name, []⟩)
    (ownB : ∀ name, b.written = some name → b.origin = ⟨b.place, some name, []⟩) {key : String}
    (left : a.qualifiedName = some key) (right : b.qualifiedName = some key) : a.Collides b := by
  obtain ⟨kinds, name, nameA, nameB⟩ := Item.tagName_inj left right
  obtain ⟨first, givenA, rfl⟩ := Option.map_eq_some_iff.mp nameA
  obtain ⟨second, givenB, same⟩ := Option.map_eq_some_iff.mp nameB
  have names := append_numbered_eq same.symm
  refine ⟨kinds, fun places => ?_, ⟨first, second, givenA, givenB, ?_⟩, fun x y isA isB => ?_⟩
  · obtain ⟨given, numbers⟩ := apart.numbers places
    obtain rfl : first = second := Option.some.inj (givenA.symm.trans (given.trans givenB))
    obtain ⟨more, name, longer⟩ | ⟨more, name, longer⟩ := names
    · rw [eq_nil_of_append_numbered name] at longer
      exact numbers longer.symm
    · rw [eq_nil_of_append_numbered name] at longer
      exact numbers longer
  · obtain ⟨more, found⟩ | ⟨more, found⟩ := names
    · exact ⟨more, .inl found⟩
    · exact ⟨more, .inr found⟩
  · have originA := ownA x isA
    have originB := ownB y isB
    rw [originA] at givenA same
    rw [originB] at givenB same
    cases givenA
    cases givenB
    simpa [numbered] using same.symm

end DefinedTag

/-! ### Statements -/

namespace DeclarationSyntax

/-- The tags that a statement defines, also those that are not listed for want of a name. -/
def definedTags (source : DeclarationSyntax) : List DefinedTag :=
  source.base.definedTags [] ⟨[], source.givenName, []⟩

theorem definedTag?_declared {source : DeclarationSyntax} {d : Declarator} {item : Item}
    (declared : source.declared d = some item) : item.definedTag? = none := by
  obtain ⟨name, -, declared⟩ := Option.bind_eq_some_iff.mp declared
  dsimp only at declared
  split at declared
  · cases declared
    rfl
  · split at declared
    · cases declared
    · split at declared <;> cases declared <;> rfl

theorem declarations_defined (source : DeclarationSyntax) (header : String) (line : Nat) :
    (source.declarations header line).filterMap (·.item.definedTag?) =
      source.definedTags.filterMap DefinedTag.listed? := by
  have root : (⟨[], source.givenName, []⟩ : Origin).name = source.givenName := by
    simp [Origin.name, numbered]
  have tags := source.base.tags_defined header [] ⟨[], source.givenName, []⟩
  have others : ((source.declarators.filterMap source.declared).map fun item =>
      (⟨item, some ⟨header, line⟩⟩ : Declaration)).filterMap (·.item.definedTag?) = [] := by
    rw [List.filterMap_map, List.filterMap_eq_nil_iff]
    intro item member
    obtain ⟨d, -, declared⟩ := List.mem_filterMap.mp member
    exact definedTag?_declared declared
  rw [root] at tags
  rw [declarations, List.filterMap_append, tags, others, List.append_nil, definedTags]

end DeclarationSyntax

/-- What a statement declares refers to every tag by a name, but for what a parameter defines
without naming it. The tags that it defines are named after names that the source gives, and two of
them get the same name only if the source gives both of the names they are made from. -/
theorem read_hygienic {line : Nat} {tokens : List Token} {source : DeclarationSyntax}
    (read : DeclarationReader.read line tokens = .ok source) (header : String) :
    (∀ found ∈ source.declarations header line,
      found.item.Refers (DeclarationReader.Accounts tokens)) ∧
    (source.declarations header line).filterMap (·.item.definedTag?) =
      source.definedTags.filterMap DefinedTag.listed? ∧
    (∀ d ∈ source.definedTags, d.Sourced source.definedTags [] source.givenName) ∧
    source.definedTags.Pairwise fun a b => a.place ≠ b.place ∧
      ∀ key, a.qualifiedName = some key → b.qualifiedName = some key → a.Collides b := by
  have sourced := source.base.definedTags_sourced [] ⟨[], source.givenName, []⟩
  refine ⟨DeclarationReader.read_refers read header, source.declarations_defined header line,
    sourced, ?_⟩
  refine (source.base.definedTags_apart [] _ List.prefix_rfl).imp_of_mem ?_
  intro a b isA isB apart
  exact ⟨apart.places, fun key left right =>
    apart.collides (sourced a isA).own (sourced b isB).own left right⟩

/-! ### A name that is repeated, and a reference without one -/

section Examples

open DeclarationReader Lexeme

theorem Declarator.Spelled.name {name : String} (plain : PlainWord name) :
    Declarator.Spelled (.plain (some name) {}) [word name] :=
  .plain .nil (by simpa using plain) .nil

def Lexeme.token (x : Lexeme) : Token := ⟨x.kind, x.text, 1⟩

def integerLine : Member := .mk [] (.name .primitive "int") [(.plain (some "a") {}, none)]

def integerTokens : List Token := [word "int", word "a"].map Lexeme.token

def bodyTokens : List Token :=
  [mark "\x7b", word "int", word "a", mark ";", mark "\x7d"].map Lexeme.token

theorem member_integer (isTypedef : Bool) : member isTypedef integerTokens = .ok integerLine := by
  have plain : PlainWord "a" := by decide +kernel
  have int : Reads (specifiers .fields 1 { isTypedef } integerTokens)
      { words := ["int"], isTypedef } [(word "a").token] := by
    cases isTypedef <;> exact ⟨by decide, by cbv⟩
  have finished : finish { words := ["int"], isTypedef } [(word "a").token] =
      .ok (.name .primitive "int") := by
    cases isTypedef <;> cbv
  exact member_single int finished (by simp) (declarator_read_all (.name plain) (by rfl)) rfl

theorem tag_integer (setting : Setting) (isTypedef : Bool) {written : Option String}
    {tokens rest : List Token} (value : (tagName tokens).value = written)
    (left : (tagName tokens).rest = bodyTokens ++ rest) :
    Reads (tag setting 1 isTypedef .struct 1 tokens)
      (.record false written 1 isTypedef [integerLine]) rest := by
  have found : splitGroup? (·.isPunct "\x7b") (·.isPunct "\x7d") 0 (bodyTokens.tail ++ rest) =
      some ⟨integerTokens ++ [(mark ";").token], (mark "\x7d").token, rest⟩ := by rfl
  have parts : (splitTopLevel (integerTokens ++ [(mark ";").token]) ";").filter (!·.isEmpty) =
      [integerTokens] := by cbv
  refine tag_record (by decide) isTypedef 1 value left (by decide) found ?_
  rw [parts, List.mapM_cons, member_integer]
  rfl

def capturing : List Token :=
  (tokenize "typedef struct \x7b struct T \x7b int a; \x7d x; \x7d T;" 1).dropLast

def capturedTokens : List Token :=
  [word "struct", word "T"].map Lexeme.token ++ bodyTokens ++ [(word "x").token]

def capturedTag : Specified := .record false (some "T") 1 true [integerLine]

def capturingTag : Specified :=
  .record false none 1 true [.mk [] capturedTag [(.plain (some "x") {}, none)]]

def capturingSource : DeclarationSyntax :=
  ⟨true, false, [], capturingTag, [.plain (some "T") {}]⟩

theorem member_captured : member true capturedTokens =
    .ok (.mk [] capturedTag [(.plain (some "x") {}, none)]) := by
  have plain : PlainWord "x" := by decide +kernel
  have defines : Reads (specifiers .fields 1 { isTypedef := true } capturedTokens)
      { base := some capturedTag, isTypedef := true } [(word "x").token] :=
    specifiers_definition (by rfl) (by rfl) rfl rfl
      (tag_integer .fields true (by rfl) (by rfl)) (by exact ⟨by decide, by cbv⟩)
  exact member_single defines rfl (by simp) (declarator_read_all (.name plain) (by rfl)) rfl

theorem read_capturing : DeclarationReader.read 1 capturing = .ok capturingSource := by
  have plain : PlainWord "T" := by decide +kernel
  let inner : List Token := capturedTokens ++ [(mark ";").token]
  have whole : capturing = [(word "typedef").token] ++
      (word "struct").token :: (mark "\x7b").token :: (inner ++ [(mark "\x7d").token,
        (word "T").token]) := by cbv
  have outside : Reads (tag .statement 1 true .struct 1 ((mark "\x7b").token ::
      (inner ++ [(mark "\x7d").token, (word "T").token]))) capturingTag [(word "T").token] := by
    have found : splitGroup? (·.isPunct "\x7b") (·.isPunct "\x7d") 0
        (inner ++ [(mark "\x7d").token, (word "T").token]) =
          some ⟨inner, (mark "\x7d").token, [(word "T").token]⟩ := by rfl
    have parts : (splitTopLevel inner ";").filter (!·.isEmpty) = [capturedTokens] := by cbv
    refine tag_record (by decide) true 1 rfl rfl (by decide) found ?_
    rw [parts, List.mapM_cons, member_captured]
    rfl
  obtain ⟨_, specified⟩ : Reads (specifiers .statement 1 {} capturing)
      { base := some capturingTag, isTypedef := true } [(word "T").token] := by
    have leading : ∀ text ∈ ["typedef"], text ∈ leadingWords := by decide
    rw [whole]
    refine specifiers_leading leading (by rfl) {} ?_
    exact specifiers_definition (by rfl) (by rfl) rfl rfl outside (by exact ⟨by decide, by cbv⟩)
  have named : declarators 1 [(word "T").token] = .ok [.plain (some "T") {}] :=
    declarators_single (declarator_read_all (.name plain) (by rfl)) rfl
  rw [DeclarationReader.read]
  simp only [specified, bind, Except.bind, finish, named]
  rfl

def nameless : List Token := (tokenize "void f(struct \x7b int a; \x7d s);" 1).dropLast

def namelessTokens : List Token :=
  (word "struct").token :: bodyTokens ++ [(word "s").token]

def namelessParameter : Parameter := (some "s", .named ⟨.struct, none, []⟩)

def namelessDeclarator : Declarator :=
  .plain (some "f") { suffixes := [.function [namelessParameter] false] }

theorem parameter_nameless : parameter namelessTokens = .ok namelessParameter := by
  have plain : PlainWord "s" := by decide +kernel
  obtain ⟨_, specified⟩ : Reads (specifiers .parameter 1 {} namelessTokens)
      { base := some (.record false none 1 false [integerLine]) } [(word "s").token] :=
    specifiers_definition (by rfl) (by rfl) rfl rfl
      (tag_integer .parameter false (by rfl) (by rfl)) (by exact ⟨by decide, by cbv⟩)
  obtain ⟨_, declared⟩ : Reads (declarator 1 [(word "s").token]) (.plain (some "s") {}) [] :=
    declarator_read_all (.name plain) (by rfl)
  have line : (namelessTokens.head?.map Token.line).getD 0 = 1 := rfl
  rw [parameter]
  simp only [line, specified, bind, Except.bind, finish, declared]
  rfl

theorem parameters_nameless : parameters namelessTokens = .ok ([namelessParameter], false) := by
  have parts : splitTopLevel namelessTokens "," = [namelessTokens] := by cbv
  have item : parameterItem 1 (namelessTokens, 0) = .ok (some namelessParameter) := by
    rw [parameterItem, parameter_nameless]
    rfl
  rw [parameters_eq, parts]
  change List.mapM (parameterItem 1) [(namelessTokens, 0)] >>= _ = _
  rw [List.mapM_cons, item]
  rfl

theorem read_nameless : DeclarationReader.read 1 nameless =
    .ok ⟨false, false, [], .name .primitive "void", [namelessDeclarator]⟩ := by
  have plain : PlainWord "f" := by decide +kernel
  let list : List Token := (mark "(").token :: (namelessTokens ++ [(mark ")").token])
  have whole : nameless = (word "void").token :: (word "f").token :: list := by cbv
  have after : Reads (suffixes 1 list) [.function [namelessParameter] false] [] := by
    have cut : group "(" ")" 1 (namelessTokens ++ [(mark ")").token]) =
        .ok ⟨⟨namelessTokens, (mark ")").token, []⟩, by decide⟩ := by cbv
    have stop : suffixes 1 [] = .ok (.stay [] []) := by rw [suffixes]
    rw [suffixes]
    simp only [cut, bind, Except.bind, parameters_nameless, stop]
    exact ⟨_, rfl⟩
  have declared : Reads (declarator 1 ((word "f").token :: list)) namelessDeclarator [] :=
    declarator_named (by cbv) (by cbv) (by rfl) plain after
  obtain ⟨_, specified⟩ : Reads (specifiers .statement 1 {} nameless) { words := ["void"] }
      ((word "f").token :: list) := by
    rw [whole]
    exact ⟨by decide, by cbv⟩
  have finished : finish { words := ["void"] } ((word "f").token :: list) =
      .ok (.name .primitive "void") := by cbv
  have named := declarators_single declared rfl
  rw [DeclarationReader.read]
  simp only [specified, bind, Except.bind, finished, named]
  rfl

/-- A tag without a name may get one that the source gives to another tag, and a reference to a tag
that is defined in a parameter has no name. -/
theorem capturing_repeats_and_nameless_lacks :
    (∃ source, DeclarationReader.read 1 capturing = .ok source ∧
      (source.declarations "h.h" 1).map (·.qualifiedName) =
        [some "struct T", some "struct T", some "T"] ∧
      source.definedTags.map (fun d => (d.qualifiedName, d.written)) =
        [(some "struct T", some "T"), (some "struct T", none)]) ∧
    ∃ source, DeclarationReader.read 1 nameless = .ok source ∧
      ∃ found ∈ source.declarations "h.h" 1, ∃ type ∈ found.item.types, ∃ t ∈ type.names,
        t.kind = .struct ∧ t.name = none := by
  refine ⟨⟨_, read_capturing, by decide, by decide⟩, _, read_nameless, _, List.mem_singleton_self _,
    namelessParameter.2, by decide, _, List.mem_singleton_self _, rfl, rfl⟩

theorem read_hygienic_capturing :
    DeclarationReader.read 1 capturing = .ok capturingSource ∧
      (∀ found ∈ capturingSource.declarations "h.h" 1,
        found.item.Refers (DeclarationReader.Accounts capturing)) ∧
      (capturingSource.declarations "h.h" 1).filterMap (·.item.definedTag?) =
        capturingSource.definedTags.filterMap DefinedTag.listed? ∧
      (∀ d ∈ capturingSource.definedTags,
        d.Sourced capturingSource.definedTags [] capturingSource.givenName) ∧
      capturingSource.definedTags.Pairwise fun a b => a.place ≠ b.place ∧
        ∀ key, a.qualifiedName = some key → b.qualifiedName = some key → a.Collides b :=
  ⟨read_capturing, read_hygienic read_capturing "h.h"⟩

end Examples

end CBindings
