import CBindings.Proofs.Declaration.Single
import CBindings.Proofs.Expr.Dependence

/-! What a declaration consists of when it can be read: each reader by the readers it calls, and the
tokens they leave. -/

namespace CBindings.DeclarationReader

variable {setting : Setting} {line : Nat} {tokens : List Token}

/-! ### Pieces -/

theorem group_eq_ok {opening closing : String} {cut}
    (read : group opening closing line tokens = .ok cut) :
    ∃ close, tokens = cut.val.inside ++ close :: cut.val.after := by
  unfold group at read
  split at read
  · cases read
  · next cut found =>
    cases read
    exact ⟨cut.close, splitGroup?_eq found⟩

theorem expect_eq_ok {text : String} {result} (read : expect text line tokens = .ok result) :
    ∃ token, tokens = token :: result.rest := by
  unfold expect at read
  split at read
  · cases read
  · split at read
    · cases read
      exact ⟨_, rfl⟩
    · cases read

theorem takeUntil_suffix (text : String) (depth : Int) (tokens : List Token) :
    (takeUntil text depth tokens).2 <:+ tokens := by
  induction tokens generalizing depth with
  | nil => exact List.suffix_rfl
  | cons token rest ih =>
    have further (depth : Int) : (takeUntil text depth rest).2 <:+ token :: rest :=
      (ih depth).trans (List.suffix_cons token rest)
    simp only [takeUntil]
    split
    · exact further _
    · split
      · exact further _
      · split
        · exact List.suffix_rfl
        · exact further _

theorem wrappingBefore_suffix (wrapping : Wrapping) (tokens : List Token) :
    (wrappingBefore wrapping tokens).rest <:+ tokens := by
  fun_induction wrappingBefore wrapping tokens with
  | case1 => exact List.suffix_rfl
  | case2 wrapping token rest star shorter qualifiers ih =>
    exact (ih.trans (List.dropWhile_suffix isQualifier)).trans (List.suffix_cons token rest)
  | case3 wrapping token rest noStar ident convention known ih =>
    exact ih.trans (List.suffix_cons token rest)
  | case4 wrapping token rest noStar ident unknown qualifies ih =>
    exact ih.trans (List.suffix_cons token rest)
  | case5 => exact List.suffix_rfl
  | case6 => exact List.suffix_rfl

theorem wrappingBefore_suffixes (wrapping : Wrapping) (tokens : List Token) :
    (wrappingBefore wrapping tokens).value.suffixes = wrapping.suffixes := by
  fun_induction wrappingBefore wrapping tokens with
  | case1 => rfl
  | case2 wrapping token rest star shorter qualifiers ih => exact ih
  | case3 wrapping token rest noStar ident convention known ih => exact ih
  | case4 wrapping token rest noStar ident unknown qualifies ih => exact ih
  | case5 => rfl
  | case6 => rfl

theorem tagName_eq (tokens : List Token) :
    ∃ front, tokens = front ++ (tagName tokens).rest ∧
      ((tagName tokens).value = none → front = []) := by
  unfold tagName
  split
  · next token rest =>
    split
    · exact ⟨[token], rfl, fun untagged => nomatch untagged⟩
    · exact ⟨[], rfl, fun _ => rfl⟩
  · exact ⟨[], rfl, fun _ => rfl⟩

theorem mem_of_mapM_eq_ok {ε α β : Type} {f : α → Except ε β} {xs : List α} {ys : List β}
    (read : xs.mapM f = .ok ys) {y : β} (member : y ∈ ys) : ∃ x ∈ xs, f x = .ok y := by
  induction xs generalizing ys with
  | nil =>
    cases read
    cases member
  | cons x rest ih =>
    rw [List.mapM_cons] at read
    obtain ⟨first, here, read⟩ := Except.bind_eq_ok.mp read
    obtain ⟨others, more, same⟩ := Except.bind_eq_ok.mp read
    cases same
    rcases List.mem_cons.mp member with rfl | member
    · exact ⟨x, List.mem_cons_self, here⟩
    · obtain ⟨x, among, same⟩ := ih more member
      exact ⟨x, List.mem_cons_of_mem _ among, same⟩

/-- The first part stands in front of all tokens, and the others among them. -/
theorem splitTopLevelFrom_infix {separator : String} {depth : Int} {tokens first : List Token}
    {others : List (List Token)}
    (cut : splitTopLevelFrom separator depth tokens = first :: others) :
    first <+: tokens ∧ ∀ part ∈ others, part <:+: tokens := by
  induction tokens generalizing depth first others with
  | nil =>
    cases cut
    exact ⟨List.prefix_rfl, List.forall_mem_nil _⟩
  | cons token rest ih =>
    have within {part : List Token} (inside : part <:+: rest) : part <:+: token :: rest :=
      inside.trans (List.suffix_cons token rest).isInfix
    have keep (depth : Int)
        (cut : prependPart [token] (splitTopLevelFrom separator depth rest) = first :: others) :
        first <+: token :: rest ∧ ∀ part ∈ others, part <:+: token :: rest := by
      cases found : splitTopLevelFrom separator depth rest with
      | nil =>
        rw [found] at cut
        cases cut
        exact ⟨⟨rest, rfl⟩, List.forall_mem_nil _⟩
      | cons part parts =>
        rw [found] at cut
        cases cut
        obtain ⟨front, inside⟩ := ih found
        exact ⟨List.cons_prefix_cons.mpr ⟨rfl, front⟩, fun part member =>
          within (inside part member)⟩
    simp only [splitTopLevelFrom] at cut
    split at cut
    · exact keep _ cut
    · split at cut
      · exact keep _ cut
      · split at cut
        · exact keep _ cut
        · split at cut
          · cases cut
            refine ⟨List.nil_prefix, fun part member => ?_⟩
            cases found : splitTopLevelFrom separator depth rest with
            | nil => simp [found] at member
            | cons front parts =>
              obtain ⟨front, inside⟩ := ih found
              rw [found] at member
              rcases List.mem_cons.mp member with rfl | member
              · exact within front.isInfix
              · exact within (inside part member)
          · exact keep _ cut

theorem infix_of_mem_splitTopLevel {separator : String} {tokens part : List Token}
    (member : part ∈ splitTopLevel tokens separator) : part <:+: tokens := by
  cases found : splitTopLevel tokens separator with
  | nil => simp [found] at member
  | cons first others =>
    obtain ⟨front, inside⟩ := splitTopLevelFrom_infix found
    rw [found] at member
    rcases List.mem_cons.mp member with rfl | member
    · exact front.isInfix
    · exact inside part member

/-! ### Specifiers and tags -/

/-- Specifiers as they are read one after the other: from a draft and some tokens to the final draft
and the tokens that are left. -/
inductive Specifies (setting : Setting) (line : Nat) :
    Draft → List Token → Draft → List Token → Prop where
  | stop {draft : Draft} {tokens : List Token} : Specifies setting line draft tokens draft tokens
  | storage {draft final : Draft} {token : Token} {rest left : List Token}
      {isTypedef isStatic : Bool} (statement : setting = .statement)
      (more : Specifies setting line { draft with isTypedef, isStatic } rest final left) :
      Specifies setting line draft (token :: rest) final left
  | qualifier {draft final : Draft} {token : Token} {rest left : List Token}
      {qualifiers : List String} (qualifies : isQualifier token = true)
      (more : Specifies setting line { draft with qualifiers } rest final left) :
      Specifies setting line draft (token :: rest) final left
  | keyword {draft final : Draft} {token : Token} {rest left : List Token} {words : List String}
      (bare : draft.base = none) (some : words ≠ [])
      (more : Specifies setting line { draft with words } rest final left) :
      Specifies setting line draft (token :: rest) final left
  | tag {draft final : Draft} {token : Token} {rest left : List Token} {kind : NameKind} {tagged}
      (bare : draft.base = none) (new : draft.words = []) (ident : token.kind = .ident)
      (known : tagKind? token.text = some kind)
      (defined : tag setting line draft.isTypedef kind token.line rest = .ok tagged)
      (more : Specifies setting line { draft with base := some tagged.value } tagged.rest final
        left) : Specifies setting line draft (token :: rest) final left
  | name {draft final : Draft} {token : Token} {rest left : List Token} {name : String}
      (bare : draft.base = none) (new : draft.words = [])
      (more : Specifies setting line { draft with base := some (.name .typedef name) } rest final
        left) : Specifies setting line draft (token :: rest) final left

theorem specifies_of_read {draft : Draft} {result}
    (read : specifiers setting line draft tokens = .ok result) :
    Specifies setting line draft tokens result.value result.rest := by
  obtain ⟨size, bound⟩ : ∃ size, tokens.length < size := ⟨_, Nat.lt_succ_self _⟩
  induction size generalizing draft tokens with
  | zero => exact absurd bound (Nat.not_lt_zero _)
  | succ size ih =>
    cases tokens with
    | nil =>
      rw [specifiers] at read
      cases read
      exact .stop
    | cons token rest =>
      have fewer : rest.length < size := Nat.lt_of_succ_lt_succ bound
      rw [specifiers] at read
      dsimp only at read
      split at read
      · cases read
        exact .stop
      · next ident =>
        have ident : token.kind = .ident := by simpa using ident
        split at read
        · split at read
          · cases read
          · next statement =>
            obtain ⟨after, more, same⟩ := Except.bind_eq_ok.mp read
            cases same
            exact .storage (by simpa using statement) (ih more fewer)
        · split at read
          · next qualifies =>
            obtain ⟨after, more, same⟩ := Except.bind_eq_ok.mp read
            cases same
            exact .qualifier (by rw [isQualifier, decide_eq_true ident, qualifies]; rfl)
              (ih more fewer)
          · split at read
            · split at read
              · cases read
                exact .stop
              · next bare =>
                obtain ⟨after, more, same⟩ := Except.bind_eq_ok.mp read
                cases same
                exact .keyword (by simpa using bare) (by simp) (ih more fewer)
            · split at read
              · next kind known =>
                split at read
                · cases read
                  exact .stop
                · next fresh =>
                  obtain ⟨bare, new⟩ : draft.base = none ∧ draft.words = [] := by
                    simpa using fresh
                  obtain ⟨tagged, defined, read⟩ := Except.bind_eq_ok.mp read
                  obtain ⟨after, more, same⟩ := Except.bind_eq_ok.mp read
                  cases same
                  exact .tag bare new ident known defined
                    (ih more (Nat.lt_of_le_of_lt (Nat.le_of_lt_succ tagged.shorter) fewer))
              · split at read
                · cases read
                  exact .stop
                · next fresh =>
                  obtain ⟨⟨-, bare⟩, new⟩ : (isConvention token.text = false ∧
                      draft.base = none) ∧ draft.words = [] := by simpa using fresh
                  obtain ⟨after, more, same⟩ := Except.bind_eq_ok.mp read
                  cases same
                  exact .name bare new (ih more fewer)

/-- A tag is a reference by its name, or its body stands in braces behind the name it may have. -/
theorem tag_eq_ok {isTypedef : Bool} {kind : NameKind} {tagLine : Nat} {result}
    (read : tag setting line isTypedef kind tagLine tokens = .ok result) :
    (∃ name, result.value = tagReference setting isTypedef kind name tagLine result.rest ∧
      result.rest <:+ tokens) ∨
    ∃ name front brace inside close,
      tokens = front ++ brace :: (inside ++ close :: result.rest) ∧ (name = none → front = []) ∧
      brace.isPunct "\x7b" = true ∧
      ((∃ values, result.value = .enum name tagLine isTypedef values ∧
          enumerators inside = .ok values) ∨
        ∃ members, result.value = .record (kind = .union) name tagLine isTypedef members ∧
          ∀ m ∈ members, ∃ part ∈ splitTopLevel inside ";", member isTypedef part = .ok m) := by
  obtain ⟨front, whole, untagged⟩ := tagName_eq tokens
  rw [tag] at read
  split at read
  · next afterName =>
    split at read
    · cases read
    · next name named =>
      cases read
      exact .inl ⟨name, rfl, List.nil_suffix⟩
  · next brace inner afterName =>
    rw [afterName] at whole
    dsimp only at read
    split at read
    · next opens =>
      right
      obtain ⟨⟨cut, within⟩, grouped, read⟩ := Except.bind_eq_ok.mp read
      obtain ⟨close, split⟩ := group_eq_ok grouped
      dsimp only at split
      subst split
      dsimp only at read
      split at read
      · obtain ⟨values, listed, same⟩ := Except.bind_eq_ok.mp read
        cases same
        exact ⟨_, front, brace, _, close, whole, untagged, opens, .inl ⟨values, rfl, listed⟩⟩
      · obtain ⟨members, listed, same⟩ := Except.bind_eq_ok.mp read
        cases same
        refine ⟨_, front, brace, _, close, whole, untagged, opens, .inr ⟨members, rfl, ?_⟩⟩
        intro m member
        obtain ⟨⟨part, isPart⟩, -, same⟩ := mem_of_mapM_eq_ok listed member
        exact ⟨part, (List.mem_filter.mp isPart).1, same⟩
    · split at read
      · cases read
      · next name named =>
        cases read
        exact .inl ⟨name, rfl, front, whole.symm⟩

/-! ### Fields -/

theorem member_eq_ok {isTypedef : Bool} {m : Member} (read : member isTypedef tokens = .ok m) :
    ∃ draft base list,
      specifiers .fields ((tokens.head?.map Token.line).getD 0) { isTypedef } tokens = .ok draft ∧
      finish draft.value draft.rest = .ok base ∧ m = .mk draft.value.qualifiers base list ∧
      (list = [] ∨ ∃ parts, list = parts.value ∧
        memberDeclarators ((tokens.head?.map Token.line).getD 0) draft.rest = .ok parts) := by
  rw [member] at read
  obtain ⟨draft, specified, read⟩ := Except.bind_eq_ok.mp read
  obtain ⟨base, finished, read⟩ := Except.bind_eq_ok.mp read
  split at read
  · split at read
    · cases read
      exact ⟨draft, base, [], specified, finished, rfl, .inl rfl⟩
    · cases read
  · obtain ⟨parts, declared, read⟩ := Except.bind_eq_ok.mp read
    split at read
    · cases read
      exact ⟨draft, base, _, specified, finished, rfl, .inr ⟨parts, rfl, declared⟩⟩
    · cases read

theorem memberDeclarators_eq_ok {result} (read : memberDeclarators line tokens = .ok result) :
    ∃ first width others, declarator line tokens = .ok first ∧
      result.value = (first.value, width) :: others ∧
      (others = [] ∨ ∃ rest more, rest.length < tokens.length ∧ rest <:+ first.rest ∧
        memberDeclarators line rest = .ok more ∧ others = more.value) := by
  rw [memberDeclarators] at read
  obtain ⟨first, declared, read⟩ := Except.bind_eq_ok.mp read
  refine ⟨first, ?_⟩
  extract_lets shorter afterWidth at read
  -- what follows does not depend on whether there is a width
  have tail (width : Parsed (Option Int) (tokens.length + 1)) (behind : width.rest <:+ first.rest)
      (read : afterWidth width = .ok result) :
      ∃ width others, declarator line tokens = .ok first ∧
        result.value = (first.value, width) :: others ∧
        (others = [] ∨ ∃ rest more, rest.length < tokens.length ∧ rest <:+ first.rest ∧
          memberDeclarators line rest = .ok more ∧ others = more.value) := by
    dsimp only [afterWidth] at read
    split at read
    · cases read
    · split at read
      · next comma rest after =>
        split at read
        · obtain ⟨others, more, same⟩ := Except.bind_eq_ok.mp read
          cases same
          have left := width.shorter
          rw [after] at behind left
          have fewer : rest.length < tokens.length := Nat.lt_of_succ_lt_succ left
          exact ⟨width.value, others.value, declared, rfl, .inr ⟨rest, others, fewer,
            (List.suffix_cons comma rest).trans behind, more, rfl⟩⟩
        · cases read
          exact ⟨width.value, [], declared, rfl, .inl rfl⟩
      · cases read
        exact ⟨width.value, [], declared, rfl, .inl rfl⟩
  clear_value afterWidth
  split at read
  · next colon rest afterFirst =>
    split at read
    · obtain ⟨value, -, read⟩ := Except.bind_eq_ok.mp read
      have behind : (takeUntil "," 0 rest).2 <:+ first.rest :=
        afterFirst ▸ (takeUntil_suffix _ _ _).trans (List.suffix_cons colon rest)
      exact tail _ behind read
    · exact tail _ List.suffix_rfl read
  · exact tail _ List.nil_suffix read

/-! ### Types inside types -/

theorem Specifies.base_kept {final : Draft} {left : List Token}
    (specifies : Specifies setting line draft tokens final left)
    (done : draft.base.isSome = true ∨ draft.words ≠ []) : final.base = draft.base := by
  induction specifies with
  | stop => rfl
  | storage _ _ ih | qualifier _ _ ih => exact ih done
  | keyword _ some _ ih => exact ih (.inr some)
  | tag bare new | name bare new => simp [bare, new] at done

theorem finish_eq_ok {base : Specified} (read : finish draft rest = .ok base) :
    draft.base = some base ∨ ∃ name, base = .name .primitive name := by
  unfold finish at read
  split at read
  · next found =>
    cases read
    exact .inl found
  · right
    split at read
    · split at read <;> cases read
    · split at read
      · cases read
        exact ⟨_, rfl⟩
      · cases read

/-- A property of types and the tokens they are read from. More tokens do no harm, and a record has
it if the types of its members have it. -/
structure Hereditary (property : List Token → Specified → Prop) : Prop where
  mono : ∀ {part tokens base}, part <:+: tokens → property part base → property tokens base
  name : ∀ tokens kind name, property tokens (.name kind name)
  opaqueTag : ∀ tokens isUnion name line, property tokens (.opaqueTag isUnion name line)
  enum : ∀ {tokens values} name line isTypedef, enumerators tokens = .ok values →
    property tokens (.enum name line isTypedef values)
  record : ∀ {tokens members} isUnion name line isTypedef,
    (∀ m ∈ members, ∃ part, part <:+: tokens ∧ member isTypedef part = .ok m ∧
      property part m.base) → property tokens (.record isUnion name line isTypedef members)

namespace Hereditary

variable {property : List Token → Specified → Prop}

def TagsBelow (property : List Token → Specified → Prop) (size : Nat) : Prop :=
  ∀ (setting : Setting) (line : Nat) (isTypedef : Bool) (kind : NameKind) (tagLine : Nat)
    (tokens : List Token) result, tokens.length < size →
    tag setting line isTypedef kind tagLine tokens = .ok result → property tokens result.value

theorem of_specifies (hereditary : Hereditary property) {size : Nat}
    (below : TagsBelow property size) {draft final : Draft} {left : List Token} {base : Specified}
    (specifies : Specifies setting line draft tokens final left) (fewer : tokens.length ≤ size)
    (bare : draft.base = none) (read : final.base = some base) : property tokens base := by
  have behind {token : Token} {rest : List Token} : rest <:+: token :: rest :=
    (List.suffix_cons token rest).isInfix
  induction specifies with
  | stop => exact absurd (bare.symm.trans read) (by simp)
  | storage _ _ ih | qualifier _ _ ih =>
    exact hereditary.mono behind (ih ((Nat.le_succ _).trans fewer) bare read)
  | keyword _ some more =>
    have kept := more.base_kept (.inr some)
    exact absurd ((kept.trans bare).symm.trans read) (by simp)
  | tag _ _ _ _ defined more =>
    have kept := more.base_kept (.inl rfl)
    cases Option.some.inj (kept.symm.trans read)
    exact hereditary.mono behind (below _ _ _ _ _ _ _ fewer defined)
  | name _ _ more =>
    have kept := more.base_kept (.inl rfl)
    cases Option.some.inj (kept.symm.trans read)
    exact hereditary.name _ _ _

theorem of_finish (hereditary : Hereditary property) {size : Nat}
    (below : TagsBelow property size) {draft} {base : Specified} {isTypedef : Bool}
    (read : specifiers setting line { isTypedef } tokens = .ok draft)
    (fewer : tokens.length ≤ size) (finished : finish draft.value draft.rest = .ok base) :
    property tokens base := by
  obtain own | ⟨name, rfl⟩ := finish_eq_ok finished
  · exact hereditary.of_specifies below (specifies_of_read read) fewer rfl own
  · exact hereditary.name _ _ _

theorem tagsBelow (hereditary : Hereditary property) (size : Nat) : TagsBelow property size := by
  induction size with
  | zero => exact fun _ _ _ _ _ _ _ fewer => absurd fewer (Nat.not_lt_zero _)
  | succ size ih =>
    intro setting line isTypedef kind tagLine tokens result bound read
    obtain ⟨name, reference, -⟩ | ⟨name, front, brace, inside, close, whole, -, -, kinds⟩ :=
      tag_eq_ok read
    · rw [reference, tagReference]
      split
      · exact hereditary.opaqueTag _ _ _ _
      · exact hereditary.name _ _ _
    · have between : inside <:+: tokens :=
        ⟨front ++ [brace], close :: result.rest, by simp [whole]⟩
      have shorter : inside.length < tokens.length := by
        simp [whole]
        omega
      refine hereditary.mono between ?_
      obtain ⟨values, same, listed⟩ | ⟨members, same, parts⟩ := kinds
      · exact same ▸ hereditary.enum name tagLine isTypedef listed
      · rw [same]
        refine hereditary.record _ _ _ _ fun m among => ?_
        obtain ⟨part, isPart, read⟩ := parts m among
        have fewer : part.length ≤ size := by
          have := splitTopLevel_length isPart
          omega
        obtain ⟨draft, base, list, specified, finished, rfl, -⟩ := member_eq_ok read
        exact ⟨part, infix_of_mem_splitTopLevel isPart, read,
          hereditary.of_finish ih specified fewer finished⟩

theorem of_read (hereditary : Hereditary property) {draft} {base : Specified} {isTypedef : Bool}
    (read : specifiers setting line { isTypedef } tokens = .ok draft)
    (finished : finish draft.value draft.rest = .ok base) : property tokens base :=
  hereditary.of_finish (hereditary.tagsBelow _) read le_rfl finished

end Hereditary

/-! ### Declarators -/

def HasName (tokens : List Token) (name : String) : Prop :=
  ∃ token ∈ tokens, token.kind = .ident ∧ token.text = name

/-- A declarator is one around a name it may have, or one in parentheses; suffixes follow. -/
theorem declarator_eq_ok {result} (read : declarator line tokens = .ok result) :
    (∃ name wrapping, result.value = .plain name wrapping ∧ (∀ n ∈ name, HasName tokens n) ∧
      (wrapping.suffixes = [] ∧ result.rest = [] ∨ ∃ rest after, rest <:+ tokens ∧
        suffixes line rest = .ok after ∧ result.rest = after.rest ∧
        wrapping.suffixes = after.value)) ∨
    ∃ rest inner wrapping behind after, rest.length < tokens.length ∧ rest <:+ tokens ∧
      declarator line rest = .ok inner ∧ result.value = .nested inner.value wrapping ∧
      behind <:+ inner.rest ∧ suffixes line behind = .ok after ∧ result.rest = after.rest ∧
      wrapping.suffixes = after.value := by
  have suffix := wrappingBefore_suffix {} tokens
  rw [declarator] at read
  dsimp only at read
  split at read
  · cases read
    exact .inl ⟨none, _, rfl, fun n unnamed => (nomatch unnamed),
      .inl ⟨wrappingBefore_suffixes {} tokens, rfl⟩⟩
  · next token rest afterBefore =>
    rw [afterBefore] at suffix
    have inside : rest <:+ tokens := (List.suffix_cons token rest).trans suffix
    split at read
    · obtain ⟨inner, declared, read⟩ := Except.bind_eq_ok.mp read
      obtain ⟨close, closed, read⟩ := Except.bind_eq_ok.mp read
      obtain ⟨after, more, same⟩ := Except.bind_eq_ok.mp read
      cases same
      obtain ⟨closing, split⟩ := expect_eq_ok closed
      have fewer : rest.length < tokens.length := Nat.lt_of_succ_le suffix.length_le
      exact .inr ⟨rest, inner, _, close.rest, after, fewer, inside, declared, rfl,
        ⟨[closing], split.symm⟩, more, rfl, rfl⟩
    · split at read
      · next named =>
        obtain ⟨ident, -⟩ : token.kind = .ident ∧ _ := by simpa using named
        obtain ⟨after, more, same⟩ := Except.bind_eq_ok.mp read
        cases same
        have spelled : HasName tokens token.text :=
          ⟨token, suffix.subset List.mem_cons_self, ident, rfl⟩
        exact .inl ⟨some token.text, _, rfl, fun n same => Option.some.inj same ▸ spelled,
          .inr ⟨rest, after, inside, more, rfl, rfl⟩⟩
      · obtain ⟨after, more, same⟩ := Except.bind_eq_ok.mp read
        cases same
        exact .inl ⟨none, _, rfl, fun n unnamed => (nomatch unnamed),
          .inr ⟨token :: rest, after, suffix, more, rfl, rfl⟩⟩

theorem suffixes_eq_ok {result} (read : suffixes line tokens = .ok result) :
    (result.value = [] ∧ result.rest = tokens) ∨
    ∃ opening inside close after first more, tokens = opening :: (inside ++ close :: after) ∧
      suffixes line after = .ok more ∧ result.value = first :: more.value ∧
      result.rest = more.rest ∧
      (first = .array (extent inside) ∨
        ∃ list, parameters inside = .ok list ∧ first = .function list.1 list.2) := by
  cases tokens with
  | nil =>
    rw [suffixes] at read
    cases read
    exact .inl ⟨rfl, rfl⟩
  | cons token rest =>
    rw [suffixes] at read
    split at read
    · obtain ⟨⟨cut, within⟩, grouped, read⟩ := Except.bind_eq_ok.mp read
      obtain ⟨close, split⟩ := group_eq_ok grouped
      obtain ⟨others, more, same⟩ := Except.bind_eq_ok.mp read
      cases same
      exact .inr ⟨token, _, close, _, _, others, congrArg _ split, more, rfl, rfl, .inl rfl⟩
    · split at read
      · obtain ⟨⟨cut, within⟩, grouped, read⟩ := Except.bind_eq_ok.mp read
        obtain ⟨close, split⟩ := group_eq_ok grouped
        obtain ⟨list, listed, read⟩ := Except.bind_eq_ok.mp read
        obtain ⟨others, more, same⟩ := Except.bind_eq_ok.mp read
        cases same
        exact .inr ⟨token, _, close, _, _, others, congrArg _ split, more, rfl, rfl,
          .inr ⟨list, listed, rfl⟩⟩
      · cases read
        exact .inl ⟨rfl, rfl⟩

theorem parameters_eq_ok {list} (read : parameters tokens = .ok list) :
    ∀ p ∈ list.1, ∃ part ∈ splitTopLevel tokens ",", parameter part = .ok p := by
  rw [parameters] at read
  dsimp only at read
  split at read
  · cases read
    exact List.forall_mem_nil _
  · obtain ⟨found, listed, same⟩ := Except.bind_eq_ok.mp read
    cases same
    intro p member
    have member : some p ∈ found := by simpa using member
    obtain ⟨⟨⟨part, index⟩, isPart⟩, -, same⟩ := mem_of_mapM_eq_ok listed member
    dsimp only at same
    refine ⟨part, List.fst_mem_of_mem_zipIdx isPart, ?_⟩
    split at same
    · split at same <;> cases same
    · split at same
      · cases same
      · cases read : parameter part with
        | error error => simp [read] at same
        | ok q => simpa [read] using same

theorem parameter_eq_ok {p : Parameter} (read : parameter tokens = .ok p) :
    ∃ draft base declared,
      specifiers .parameter ((tokens.head?.map Token.line).getD 0) {} tokens = .ok draft ∧
      finish draft.value draft.rest = .ok base ∧
      declarator ((tokens.head?.map Token.line).getD 0) draft.rest = .ok declared ∧
      p = (declared.value.identifier,
        (declared.value.apply (.named (base.typeName draft.value.qualifiers))).asParameter) := by
  rw [parameter] at read
  obtain ⟨draft, specified, read⟩ := Except.bind_eq_ok.mp read
  obtain ⟨base, finished, read⟩ := Except.bind_eq_ok.mp read
  obtain ⟨declared, more, read⟩ := Except.bind_eq_ok.mp read
  dsimp only at read
  split at read
  · cases read
    exact ⟨draft, base, declared, specified, finished, more, rfl⟩
  · cases read

/-! ### Statements -/

/-- The first declarator of a statement has a name, and the others are read from what follows. -/
theorem declarators_eq_ok {list : List Declarator} (read : declarators line tokens = .ok list) :
    ∃ first others, declarator line tokens = .ok first ∧ list = first.value :: others ∧
      first.value.identifier.isSome = true ∧
      (others = [] ∨ ∃ rest, rest.length < tokens.length ∧ rest <:+ first.rest ∧
        declarators line rest = .ok others) := by
  rw [declarators] at read
  obtain ⟨first, declared, read⟩ := Except.bind_eq_ok.mp read
  dsimp -zeta only at read
  extract_lets shorter left at read
  have behind : left.rest <:+ first.rest := by
    dsimp only [left]
    split
    · next sign value afterFirst =>
      split
      · have inside : sign :: value <:+ first.rest := ⟨[], afterFirst.symm⟩
        exact ((takeUntil_suffix _ _ _).trans (List.suffix_cons sign value)).trans inside
      · exact List.suffix_rfl
    · exact List.nil_suffix
  clear_value left
  split at read
  · cases read
  · next named =>
    have named : first.value.identifier.isSome = true := by
      simpa [Option.isSome_iff_ne_none] using named
    split at read
    · cases read
      exact ⟨first, [], declared, rfl, named, .inl rfl⟩
    · next token rest after =>
      split at read
      · obtain ⟨list, more, same⟩ := Except.bind_eq_ok.mp read
        cases same
        have fewer := left.shorter
        rw [after] at behind fewer
        exact ⟨first, list, declared, rfl, named, .inr ⟨rest, Nat.lt_of_succ_lt_succ fewer,
          (List.suffix_cons token rest).trans behind, more⟩⟩
      · cases read

theorem read_eq_ok {source : DeclarationSyntax} (read : read line tokens = .ok source) :
    ∃ draft base list, specifiers .statement line {} tokens = .ok draft ∧
      finish draft.value draft.rest = .ok base ∧
      (list = [] ∨ declarators line draft.rest = .ok list) ∧
      source =
        ⟨draft.value.isTypedef, draft.value.isStatic, draft.value.qualifiers, base, list⟩ := by
  obtain ⟨draft, specified, read⟩ := Except.bind_eq_ok.mp read
  obtain ⟨base, finished, read⟩ := Except.bind_eq_ok.mp read
  dsimp only at read
  split at read
  · cases read
    exact ⟨draft, base, [], specified, finished, .inl rfl, rfl⟩
  · obtain ⟨list, declared, same⟩ := Except.bind_eq_ok.mp read
    cases same
    exact ⟨draft, base, list, specified, finished, .inr declared, rfl⟩

end CBindings.DeclarationReader
