import CBindings.Proofs.Declaration.Kind

/-! What declarations refer to. Every reference has a name, also one to a tag that is defined
without one, unless that is where a parameter begins. -/

namespace CBindings

namespace CType

mutual

/-- The parameters in a type, and those in the types of these. -/
def parameters : CType → List Parameter
  | named _ => []
  | pointer target _ => parameters target
  | array element _ => parameters element
  | function result own _ _ => parameters result ++ nestedParameters own

def nestedParameters : List (Option String × CType) → List Parameter
  | [] => []
  | (name, type) :: rest => (name, type) :: parameters type ++ nestedParameters rest

end

theorem mem_nestedParameters {own : List Parameter} {p : Parameter} :
    p ∈ nestedParameters own ↔ ∃ q ∈ own, p = q ∨ p ∈ q.2.parameters := by
  induction own with
  | nil => simp [nestedParameters]
  | cons first rest ih =>
    obtain ⟨name, type⟩ := first
    simp [nestedParameters, ih, or_assoc]

theorem exists_names_of_mem_parameterNames {own : List Parameter} {t : TypeName}
    (member : t ∈ parameterNames own) : ∃ q ∈ own, t ∈ q.2.names := by
  induction own with
  | nil => cases member
  | cons first rest ih =>
    rcases List.mem_append.mp member with here | later
    · exact ⟨first, List.mem_cons_self .., here⟩
    · obtain ⟨q, among, inside⟩ := ih later
      exact ⟨q, List.mem_cons_of_mem _ among, inside⟩

/-- A name in a type stands at its root or at the root of one of its parameters. -/
theorem mem_names {type : CType} {t : TypeName} (member : t ∈ type.names) :
    t = type.base ∨ ∃ p ∈ type.parameters, t = p.2.base := by
  induction type using CType.induction with
  | named t' => exact .inl (List.mem_singleton.mp member)
  | pointer target qualifiers ih => exact ih member
  | array element extent ih => exact ih member
  | function result own variadic convention ih each =>
    simp only [parameters, List.mem_append, mem_nestedParameters]
    rcases List.mem_append.mp member with member | member
    · rcases ih member with root | ⟨p, inside, root⟩
      · exact .inl root
      · exact .inr ⟨p, .inl inside, root⟩
    · obtain ⟨q, among, member⟩ := exists_names_of_mem_parameterNames member
      rcases each q among member with root | ⟨p, inside, root⟩
      · exact .inr ⟨q, .inr ⟨q, among, .inl rfl⟩, root⟩
      · exact .inr ⟨p, .inr ⟨q, among, .inr inside⟩, root⟩

@[simp] theorem base_asParameter (type : CType) : type.asParameter.base = type.base := by
  cases type <;> rfl

@[simp] theorem parameters_asParameter (type : CType) :
    type.asParameter.parameters = type.parameters := by
  cases type <;> rfl

end CType

def Suffix.parameters : Suffix → List Parameter
  | array _ => []
  | function own _ => CType.nestedParameters own

namespace Declarator

/-- The parameters around a name, and those in the types of these. -/
def parameters : Declarator → List Parameter
  | plain _ wrapping => wrapping.suffixes.flatMap Suffix.parameters
  | nested inner wrapping => inner.parameters ++ wrapping.suffixes.flatMap Suffix.parameters

theorem foldl_pointer (pointers : List (List String)) (type : CType) :
    let pointed := pointers.foldl (fun type qualifiers => CType.pointer type qualifiers) type
    pointed.base = type.base ∧ pointed.parameters = type.parameters := by
  induction pointers generalizing type with
  | nil => exact ⟨rfl, rfl⟩
  | cons qualifiers others ih => exact ih (.pointer type qualifiers)

theorem wrap_refers (convention : Option String) (wrapping : Wrapping) (type : CType) :
    (wrap convention wrapping type).base = type.base ∧
      ∀ p, p ∈ (wrap convention wrapping type).parameters ↔
        p ∈ type.parameters ∨ p ∈ wrapping.suffixes.flatMap Suffix.parameters := by
  obtain ⟨pointers, announced, suffixes⟩ := wrapping
  induction suffixes with
  | nil =>
    obtain ⟨base, parameters⟩ := foldl_pointer pointers type
    exact ⟨base, by simp [wrap, parameters]⟩
  | cons suffix others ih =>
    refine ⟨?_, fun p => ?_⟩
    · cases suffix <;> exact ih.1
    · cases suffix with
      | array extent => exact ih.2 p
      | function own variadic =>
        change p ∈ (wrap convention ⟨pointers, announced, others⟩ type).parameters ++
          CType.nestedParameters own ↔ _
        rw [List.mem_append, ih.2 p, List.flatMap_cons, List.mem_append, Suffix.parameters,
          or_assoc, or_comm (a := p ∈ CType.nestedParameters own)]

theorem apply_refers (d : Declarator) (type : CType) :
    (d.apply type).base = type.base ∧
      ∀ p, p ∈ (d.apply type).parameters ↔ p ∈ type.parameters ∨ p ∈ d.parameters := by
  induction d generalizing type with
  | plain name wrapping => exact wrap_refers _ wrapping type
  | nested inner wrapping ih =>
    obtain ⟨base, members⟩ := wrap_refers (nested inner wrapping).convention wrapping type
    obtain ⟨baseInner, membersInner⟩ := ih (wrap (nested inner wrapping).convention wrapping type)
    refine ⟨baseInner.trans base, fun p => ?_⟩
    rw [apply, membersInner, members, parameters, List.mem_append, or_assoc,
      or_comm (a := p ∈ inner.parameters)]

end Declarator

namespace Specified

mutual

def fieldDeclarators : Specified → List Declarator
  | record _ _ _ _ members => memberDeclarators members
  | name .. | opaqueTag .. | enum .. => []

def memberDeclarators : List Member → List Declarator
  | [] => []
  | .mk _ base declarators :: rest =>
    fieldDeclarators base ++ declarators.map Prod.fst ++ memberDeclarators rest

end

theorem mem_memberDeclarators {members : List Member} {d : Declarator} :
    d ∈ memberDeclarators members ↔
      ∃ m ∈ members, d ∈ m.base.fieldDeclarators ++ m.declarators.map Prod.fst := by
  induction members with
  | nil => simp [memberDeclarators]
  | cons first rest ih =>
    obtain ⟨qualifiers, base, declarators⟩ := first
    rw [memberDeclarators, List.mem_append, ih]
    simp [Member.base, Member.declarators]

end Specified

namespace DeclarationReader

variable {setting : Setting} {line : Nat} {draft : Draft} {tokens rest part : List Token}

/-! ### What is left -/

theorem tag_suffix {isTypedef : Bool} {kind : NameKind} {tagLine : Nat} {result}
    (read : tag setting line isTypedef kind tagLine tokens = .ok result) :
    result.rest <:+ tokens := by
  obtain ⟨-, -, behind⟩ | ⟨-, front, brace, inside, close, whole, -⟩ := tag_eq_ok read
  · exact behind
  · exact ⟨front ++ brace :: (inside ++ [close]), by simp [whole]⟩

theorem Specifies.suffix {final : Draft} {left : List Token}
    (specifies : Specifies setting line draft tokens final left) : left <:+ tokens := by
  induction specifies with
  | stop => exact List.suffix_rfl
  | storage _ _ ih | qualifier _ _ ih | keyword _ _ _ ih | name _ _ _ ih =>
    exact ih.trans (List.suffix_cons _ _)
  | tag _ _ _ _ defined _ ih => exact (ih.trans (tag_suffix defined)).trans (List.suffix_cons _ _)

theorem suffixes_suffix {result} (read : suffixes line tokens = .ok result) :
    result.rest <:+ tokens := by
  obtain ⟨size, bound⟩ : ∃ size, tokens.length < size := ⟨_, Nat.lt_succ_self _⟩
  induction size generalizing tokens with
  | zero => exact absurd bound (Nat.not_lt_zero _)
  | succ size ih =>
    obtain ⟨-, same⟩ | ⟨opening, inside, close, after, -, others, whole, more, -, same, -⟩ :=
      suffixes_eq_ok read
    · rw [same]
    · have behind : after <:+ tokens := ⟨opening :: (inside ++ [close]), by simp [whole]⟩
      have fewer : after.length < size := by simp [whole] at bound; omega
      exact same ▸ (ih more fewer).trans behind

theorem declarator_suffix {result} (read : declarator line tokens = .ok result) :
    result.rest <:+ tokens := by
  obtain ⟨size, bound⟩ : ∃ size, tokens.length < size := ⟨_, Nat.lt_succ_self _⟩
  induction size generalizing tokens with
  | zero => exact absurd bound (Nat.not_lt_zero _)
  | succ size ih =>
    obtain ⟨-, -, -, -, ⟨-, none⟩ | ⟨rest, after, behind, more, same, -⟩⟩ |
      ⟨rest, inner, -, behind, after, fewer, inside, declared, -, back, more, same, -⟩ :=
        declarator_eq_ok read
    · exact none ▸ List.nil_suffix
    · exact same ▸ (suffixes_suffix more).trans behind
    · have front := ih declared (Nat.lt_of_lt_of_le fewer (Nat.le_of_lt_succ bound))
      exact same ▸ (((suffixes_suffix more).trans back).trans front).trans inside

/-! ### Parameters -/

def DefinesUntagged (part : List Token) : Prop :=
  ∃ front keyword brace rest, part = front ++ keyword :: brace :: rest ∧
    (∀ q ∈ front, isQualifier q = true) ∧ keyword.kind = .ident ∧
    (tagKind? keyword.text).isSome = true ∧ brace.isPunct "\x7b" = true

/-- Either the type of a parameter has a name at its root, or the parameter defines a tag there that
it does not name, somewhere in the tokens. -/
def Accounts (tokens : List Token) (p : Parameter) : Prop :=
  p.2.base.name.isSome = true ∨
    ∃ part, part <:+: tokens ∧ parameter part = .ok p ∧ DefinesUntagged part

theorem Accounts.within {p : Parameter} (accounts : Accounts part p) (inside : part <:+: tokens) :
    Accounts tokens p :=
  accounts.imp_right fun ⟨smaller, among, found⟩ => ⟨smaller, among.trans inside, found⟩

theorem writtenName_tagReference (setting : Setting) (isTypedef : Bool) (kind : NameKind)
    (name : String) (line : Nat) (rest : List Token) :
    (tagReference setting isTypedef kind name line rest).writtenName = some name := by
  unfold tagReference
  split <;> rfl

/-- A parameter whose type is a tag without a name begins with the definition of this tag. -/
theorem Specifies.definesUntagged {final : Draft} {left : List Token} {base : Specified}
    (specifies : Specifies .parameter line draft tokens final left) (bare : draft.base = none)
    (new : draft.words = []) (read : final.base = some base) (untagged : base.writtenName = none) :
    DefinesUntagged tokens := by
  induction specifies with
  | stop => exact absurd (bare.symm.trans read) (by simp)
  | storage statement => cases statement
  | qualifier qualifies _ ih =>
    obtain ⟨front, keyword, brace, rest, rfl, qualifiers, tag⟩ := ih bare new read
    exact ⟨_ :: front, keyword, brace, rest, rfl, List.forall_mem_cons.mpr ⟨qualifies, qualifiers⟩,
      tag⟩
  | keyword _ some more =>
    have kept := more.base_kept (.inr some)
    exact absurd ((kept.trans bare).symm.trans read) (by simp)
  | @tag _ _ token rest _ kind tagged _ _ ident known defined more =>
    have kept := more.base_kept (.inl rfl)
    obtain rfl : tagged.value = base := Option.some.inj (kept.symm.trans read)
    obtain ⟨name, reference, -⟩ | ⟨name, front, brace, inside, close, whole, first, opens, kinds⟩ :=
      tag_eq_ok defined
    · rw [reference, writtenName_tagReference] at untagged
      cases untagged
    · have noName : name = none := by
        obtain ⟨values, same, -⟩ | ⟨members, same, -⟩ := kinds
        · exact (congrArg Specified.writtenName same).symm.trans untagged
        · exact (congrArg Specified.writtenName same).symm.trans untagged
      rw [first noName] at whole
      exact ⟨[], token, brace, _, by rw [whole]; rfl, List.forall_mem_nil _, ident,
        by rw [known]; rfl, opens⟩
  | name _ _ more =>
    have kept := more.base_kept (.inl rfl)
    cases Option.some.inj (kept.symm.trans read)
    cases untagged

def AccountsBelow (size : Nat) : Prop :=
  ∀ (line : Nat) (tokens : List Token) result, tokens.length < size →
    declarator line tokens = .ok result → ∀ p ∈ result.value.parameters, Accounts tokens p

theorem parameter_accounts {size : Nat} (below : AccountsBelow size) (fewer : tokens.length < size)
    {p : Parameter} (read : parameter tokens = .ok p) :
    Accounts tokens p ∧ ∀ q ∈ p.2.parameters, Accounts tokens q := by
  obtain ⟨draft, base, declared, specified, finished, more, same⟩ := parameter_eq_ok read
  have specifies := specifies_of_read specified
  have left : draft.rest.length < size := Nat.lt_of_le_of_lt specifies.suffix.length_le fewer
  obtain ⟨root, inner⟩ := declared.value.apply_refers
    (.named (base.typeName draft.value.qualifiers))
  constructor
  · have root : p.2.base.name = base.writtenName := by
      rw [same, CType.base_asParameter, root]
      rfl
    cases named : base.writtenName with
    | some name => exact .inl (by rw [root, named]; rfl)
    | none =>
      obtain found | ⟨name, rfl⟩ := finish_eq_ok finished
      · exact .inr ⟨tokens, List.infix_rfl, read, specifies.definesUntagged rfl rfl found named⟩
      · cases named
  · intro q member
    rw [same, CType.parameters_asParameter, inner] at member
    obtain none | member := member
    · cases none
    · exact (below _ _ _ left more q member).within specifies.suffix.isInfix

theorem suffixes_accounts {size : Nat} (below : AccountsBelow size) (fewer : tokens.length ≤ size)
    {result} (read : suffixes line tokens = .ok result) :
    ∀ p ∈ result.value.flatMap Suffix.parameters, Accounts tokens p := by
  obtain ⟨bound, within⟩ : ∃ bound, tokens.length < bound := ⟨_, Nat.lt_succ_self _⟩
  induction bound generalizing tokens with
  | zero => exact absurd within (Nat.not_lt_zero _)
  | succ bound ih =>
    obtain ⟨none, -⟩ | ⟨opening, inside, close, after, first, others, whole, more, value, -,
      kinds⟩ := suffixes_eq_ok read
    · simp [none]
    · have length : tokens.length = inside.length + after.length + 2 := by
        simp [whole]
        omega
      have behind : after <:+ tokens := ⟨opening :: (inside ++ [close]), by simp [whole]⟩
      have between : inside <:+: tokens := ⟨[opening], close :: after, by simp [whole]⟩
      intro p member
      rw [value, List.flatMap_cons, List.mem_append] at member
      obtain member | member := member
      · obtain rfl | ⟨list, listed, rfl⟩ := kinds
        · cases member
        · obtain ⟨q, among, found⟩ := CType.mem_nestedParameters.mp member
          obtain ⟨part, isPart, read⟩ := parameters_eq_ok listed q among
          have fewer : part.length < size := by
            have := splitTopLevel_length isPart
            omega
          have inside := (infix_of_mem_splitTopLevel isPart).trans between
          obtain ⟨own, inner⟩ := parameter_accounts below fewer read
          obtain rfl | found := found
          · exact own.within inside
          · exact (inner p found).within inside
      · exact (ih (by omega) more (by omega) p member).within behind.isInfix

theorem accountsBelow (size : Nat) : AccountsBelow size := by
  induction size with
  | zero => exact fun _ _ _ fewer => absurd fewer (Nat.not_lt_zero _)
  | succ size ih =>
    intro line tokens result bound read p member
    have bound : tokens.length ≤ size := Nat.le_of_lt_succ bound
    obtain ⟨name, wrapping, value, -, ⟨none, -⟩ | ⟨rest, after, behind, more, -, suffixes⟩⟩ |
      ⟨rest, inner, wrapping, behind, after, fewer, inside, declared, value, back, more, -,
        suffixes⟩ := declarator_eq_ok read
    · rw [value, Declarator.parameters, none] at member
      cases member
    · rw [value, Declarator.parameters, suffixes] at member
      exact (suffixes_accounts ih (behind.length_le.trans bound) more p member).within
        behind.isInfix
    · have within : behind <:+ tokens := (back.trans (declarator_suffix declared)).trans inside
      rw [value, Declarator.parameters, suffixes, List.mem_append] at member
      obtain member | member := member
      · exact (ih line rest inner (Nat.lt_of_lt_of_le fewer bound) declared p member).within
          inside.isInfix
      · exact (suffixes_accounts ih (within.length_le.trans bound) more p member).within
          within.isInfix

theorem declarator_accounts {result} (read : declarator line tokens = .ok result) :
    ∀ p ∈ result.value.parameters, Accounts tokens p :=
  accountsBelow _ line tokens result (Nat.lt_succ_self _) read

/-! ### Fields -/

theorem memberDeclarators_accounts {result} (read : memberDeclarators line tokens = .ok result) :
    ∀ d ∈ result.value.map Prod.fst, ∀ p ∈ d.parameters, Accounts tokens p := by
  obtain ⟨size, bound⟩ : ∃ size, tokens.length < size := ⟨_, Nat.lt_succ_self _⟩
  induction size generalizing tokens with
  | zero => exact absurd bound (Nat.not_lt_zero _)
  | succ size ih =>
    obtain ⟨first, width, others, declared, value, further⟩ := memberDeclarators_eq_ok read
    rw [value, List.map_cons, List.forall_mem_cons]
    refine ⟨declarator_accounts declared, ?_⟩
    obtain rfl | ⟨rest, more, fewer, behind, read, rfl⟩ := further
    · exact List.forall_mem_nil _
    · intro d member p inside
      have inTokens := behind.trans (declarator_suffix declared)
      exact (ih read (by omega) d member p inside).within inTokens.isInfix

theorem hereditary_accounts : Hereditary fun tokens base =>
    ∀ d ∈ base.fieldDeclarators, ∀ p ∈ d.parameters, Accounts tokens p where
  mono inside accounts d member p own := (accounts d member p own).within inside
  name _ _ _ := List.forall_mem_nil _
  opaqueTag _ _ _ _ := List.forall_mem_nil _
  enum _ _ _ _ := List.forall_mem_nil _
  record _ _ _ _ lines d member p own := by
    obtain ⟨m, among, member⟩ := Specified.mem_memberDeclarators.mp member
    obtain ⟨part, inside, read, accounts⟩ := lines m among
    refine Accounts.within ?_ inside
    obtain member | member := List.mem_append.mp member
    · exact accounts d member p own
    · obtain ⟨draft, base, list, specified, -, rfl, declared⟩ := member_eq_ok read
      have behind := (specifies_of_read specified).suffix.isInfix
      obtain rfl | ⟨parts, rfl, declared⟩ := declared
      · cases member
      · exact (memberDeclarators_accounts declared d member p own).within behind

end DeclarationReader

/-! ### What is listed -/

namespace Item

def wholeTypes : Item → List CType
  | struct _ fields _ | union _ fields => (fields.getD []).map Field.type
  | function _ result own variadic convention => [.function result own variadic convention]
  | typedef _ type | object _ type => [type]
  | enum .. | constant .. => []

/-- What is known of the references of an item: those at the roots of its types have names, those of
its parameters are accounted for, and there are no others. -/
structure Refers (accounts : Parameter → Prop) (item : Item) : Prop where
  root : ∀ type ∈ item.wholeTypes, type.base.name.isSome = true
  parameter : ∀ type ∈ item.wholeTypes, ∀ p ∈ type.parameters, accounts p
  only : ∀ type ∈ item.types, ∀ t ∈ type.names,
    ∃ whole ∈ item.wholeTypes, t = whole.base ∨ ∃ p ∈ whole.parameters, t = p.2.base

theorem refers_of_whole {accounts : Parameter → Prop} {item : Item}
    (whole : ∀ type ∈ item.wholeTypes, type.base.name.isSome = true ∧
      ∀ p ∈ type.parameters, accounts p) : item.Refers accounts := by
  refine ⟨fun type member => (whole type member).1, fun type member => (whole type member).2, ?_⟩
  intro type member t inside
  have within : ∃ whole ∈ item.wholeTypes, t ∈ whole.names := by
    cases item with
    | struct | union | typedef | object => exact ⟨type, member, inside⟩
    | function name result own variadic convention =>
      refine ⟨_, List.mem_singleton_self _, List.mem_append.mpr ?_⟩
      obtain rfl | member := List.mem_cons.mp member
      · exact .inl inside
      · obtain ⟨q, among, rfl⟩ := List.mem_map.mp member
        exact .inr (CType.mem_parameterNames among inside)
    | enum | constant => cases member
  obtain ⟨own, among, inside⟩ := within
  exact ⟨own, among, CType.mem_names inside⟩

end Item

namespace Specified

theorem isSome_nameOr (base : Specified) {given : Option String} (known : given.isSome = true) :
    (base.nameOr given).isSome = true := by
  rw [nameOr]
  cases base.writtenName with
  | none => simpa using known
  | some name => rfl

variable {accounts : Parameter → Prop}

theorem allFields_refer {owner : Option String} (named : owner.isSome = true) (tally : Tally)
    {members : List Member}
    (fields : ∀ d ∈ memberDeclarators members, ∀ p ∈ d.parameters, accounts p) :
    ∀ f ∈ Member.allFields owner tally members,
      f.type.base.name.isSome = true ∧ ∀ p ∈ f.type.parameters, accounts p := by
  induction members generalizing tally with
  | nil => exact List.forall_mem_nil _
  | cons first rest ih =>
    obtain ⟨qualifiers, base, declarators⟩ := first
    simp only [memberDeclarators, List.forall_mem_append] at fields
    obtain ⟨⟨-, own⟩, others⟩ := fields
    rw [Member.allFields, List.forall_mem_append]
    refine ⟨?_, ih _ others⟩
    have root : (base.nameOr (Member.givenName owner tally)).isSome = true :=
      base.isSome_nameOr (by rw [Member.givenName, Option.isSome_map, named])
    rw [Member.fields]
    split
    · rw [List.forall_mem_singleton]
      exact ⟨root, List.forall_mem_nil _⟩
    · intro f member
      obtain ⟨⟨⟨d, width⟩, index⟩, isPart, rfl⟩ := List.mem_map.mp member
      have among : d ∈ declarators.map Prod.fst :=
        List.mem_map_of_mem (List.fst_mem_of_mem_zipIdx isPart)
      obtain ⟨same, inner⟩ :=
        d.apply_refers (Member.type owner tally (.mk qualifiers base declarators))
      refine ⟨by rw [same]; exact root, fun p member => ?_⟩
      obtain none | member := (inner p).mp member
      · cases none
      · exact own d among p member

theorem tag_refers (header : String) (given : Option String) (base : Specified)
    (fields : ∀ d ∈ base.fieldDeclarators, ∀ p ∈ d.parameters, accounts p) :
    ∀ found ∈ tag header given base, found.item.Refers accounts := by
  intro found member
  apply Item.refers_of_whole
  cases base with
  | name => cases member
  | opaqueTag isUnion name line =>
    cases List.mem_singleton.mp member
    cases isUnion <;> exact List.forall_mem_nil _
  | enum name line afterTypedef values =>
    cases List.mem_singleton.mp member
    exact List.forall_mem_nil _
  | record isUnion name line afterTypedef members =>
    simp only [tag] at member
    split at member
    · cases member
    · next known =>
      have refer := allFields_refer (Option.isSome_iff_ne_none.mpr (by simpa using known)) {} fields
      cases List.mem_singleton.mp member
      intro type inside
      have inside : type ∈ (Member.allFields
          (nameOr (.record isUnion name line afterTypedef members) given) {} members).map
            Field.type := by
        cases isUnion <;> exact inside
      obtain ⟨f, among, rfl⟩ := List.mem_map.mp inside
      exact refer f among

mutual

theorem tags_refer (header : String) (given : Option String) (base : Specified)
    (fields : ∀ d ∈ base.fieldDeclarators, ∀ p ∈ d.parameters, accounts p) :
    ∀ found ∈ tags header given base, found.item.Refers accounts := by
  cases base with
  | record isUnion name line afterTypedef members =>
    rw [tags, List.forall_mem_append]
    exact ⟨memberTags_refer header _ _ members fields, tag_refers header given _ fields⟩
  | name | opaqueTag | enum =>
    rw [tags]
    exact tag_refers header given _ fields

theorem memberTags_refer (header : String) (owner : Option String) (tally : Tally)
    (members : List Member)
    (fields : ∀ d ∈ memberDeclarators members, ∀ p ∈ d.parameters, accounts p) :
    ∀ found ∈ memberTags header owner tally members, found.item.Refers accounts := by
  cases members with
  | nil => exact List.forall_mem_nil _
  | cons first rest =>
    obtain ⟨qualifiers, base, declarators⟩ := first
    simp only [memberDeclarators, List.forall_mem_append] at fields
    rw [memberTags, List.forall_mem_append]
    exact ⟨tags_refer header _ base fields.1.1, memberTags_refer header owner _ rest fields.2⟩

end

end Specified

namespace DeclarationSyntax

theorem declared_refers {accounts : Parameter → Prop} {source : DeclarationSyntax} {d : Declarator}
    {item : Item} (declared : source.declared d = some item)
    (named : source.givenName.isSome = true) (own : ∀ p ∈ d.parameters, accounts p) :
    item.Refers accounts := by
  obtain ⟨root, inner⟩ := d.apply_refers (source.base.typeNameOr source.givenName source.qualifiers)
  have whole : item.wholeTypes =
      [d.apply (source.base.typeNameOr source.givenName source.qualifiers)] := by
    obtain ⟨name, -, declared⟩ := Option.bind_eq_some_iff.mp declared
    dsimp only at declared
    split at declared
    · cases declared
      rfl
    · split at declared
      · cases declared
      · split at declared
        · next type =>
          cases declared
          rw [type]
          rfl
        · cases declared
          rfl
  apply Item.refers_of_whole
  rw [whole, List.forall_mem_singleton, root]
  refine ⟨source.base.isSome_nameOr named, fun p member => ?_⟩
  obtain none | member := (inner p).mp member
  · cases none
  · exact own p member

end DeclarationSyntax

namespace DeclarationReader

theorem givenName_of_read {line : Nat} {tokens : List Token} {source : DeclarationSyntax}
    (read : DeclarationReader.read line tokens = .ok source) {d : Declarator}
    (member : d ∈ source.declarators) : source.givenName.isSome = true := by
  cases declared : source.declarators with
  | nil =>
    rw [declared] at member
    cases member
  | cons first others =>
    have named := identifier_of_read read first (declared ▸ List.mem_cons_self)
    rw [DeclarationSyntax.givenName, declared, Option.isSome_map]
    exact named

theorem declarators_accounts {line : Nat} {tokens : List Token} {list : List Declarator}
    (read : declarators line tokens = .ok list) :
    ∀ d ∈ list, ∀ p ∈ d.parameters, Accounts tokens p := by
  induction size : tokens.length using Nat.strong_induction_on generalizing tokens list with
  | _ size ih =>
    obtain ⟨first, others, declared, rfl, -, further⟩ := declarators_eq_ok read
    refine List.forall_mem_cons.mpr ⟨declarator_accounts declared, ?_⟩
    obtain rfl | ⟨rest, fewer, behind, more⟩ := further
    · exact List.forall_mem_nil _
    · intro d member p own
      have inTokens := behind.trans (declarator_suffix declared)
      exact (ih rest.length (size ▸ fewer) more rfl d member p own).within inTokens.isInfix

theorem read_refers {line : Nat} {tokens : List Token} {source : DeclarationSyntax}
    (read : DeclarationReader.read line tokens = .ok source) (header : String) :
    ∀ found ∈ source.declarations header line, found.item.Refers (Accounts tokens) := by
  obtain ⟨draft, base, list, specified, finished, declared, rfl⟩ := read_eq_ok read
  have specifies := specifies_of_read specified
  rw [DeclarationSyntax.declarations, List.forall_mem_append]
  constructor
  · exact Specified.tags_refer header _ base (hereditary_accounts.of_read specified finished)
  · intro found member
    obtain ⟨item, listed, rfl⟩ := List.mem_map.mp member
    obtain ⟨d, among, same⟩ := List.mem_filterMap.mp listed
    obtain rfl | declared := declared
    · cases among
    · exact DeclarationSyntax.declared_refers same (givenName_of_read read among) fun p own =>
        (declarators_accounts declared d among p own).within specifies.suffix.isInfix

end DeclarationReader

end CBindings
