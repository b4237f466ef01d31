import CBindings.Declaration.Listing

/-! Properly nested tokens. A header is read in parts: where nested tokens end with a semicolon,
what follows is read as if it stood alone. -/

namespace CBindings

def nestingPairs : List (String × String) := [("(", ")"), ("[", "]"), ("\x7b", "\x7d")]

def Token.isBracket (token : Token) : Bool :=
  token.isStructural && (token.opensBracket || token.closesBracket)

/-- Tokens whose brackets are closed in order, each by its own kind. -/
inductive Nested : List Token → Prop where
  | nil : Nested []
  | plain {token : Token} {rest : List Token} (noBracket : token.isBracket = false)
      (others : Nested rest) : Nested (token :: rest)
  | group {pair : String × String} {opening closing : Token} {inner rest : List Token}
      (known : pair ∈ nestingPairs) (opens : opening.isPunct pair.1 = true)
      (closes : closing.isPunct pair.2 = true) (inside : Nested inner) (others : Nested rest) :
      Nested (opening :: inner ++ closing :: rest)

namespace Token

variable {token : Token} {pair : String × String}

theorem isPunct_eq {mine : String} (is : token.isPunct mine = true) (text : String) :
    token.isPunct text = decide (mine = text) := by
  simp only [isPunct, Bool.and_eq_true, decide_eq_true_eq] at is
  simp [isPunct, is.1, is.2]

theorem kind_of_isPunct {text : String} (is : token.isPunct text = true) :
    token.kind = .punct ∧ token.text = text := by
  simpa [isPunct] using is

theorem opens_nesting (known : pair ∈ nestingPairs) (opens : token.isPunct pair.1 = true) :
    (token.isStructural && token.opensBracket) = true := by
  have brackets : ∀ pair ∈ nestingPairs, ["(", "[", "\x7b"].contains pair.1 = true := by decide
  obtain ⟨kind, text⟩ := kind_of_isPunct opens
  simpa [isStructural, opensBracket, kind, text] using brackets pair known

theorem closes_nesting (known : pair ∈ nestingPairs) (closes : token.isPunct pair.2 = true) :
    (token.isStructural && token.opensBracket) = false ∧
      (token.isStructural && token.closesBracket) = true := by
  have brackets : ∀ pair ∈ nestingPairs, ["(", "[", "\x7b"].contains pair.2 = false ∧
      [")", "]", "\x7d"].contains pair.2 = true := by decide
  obtain ⟨kind, text⟩ := kind_of_isPunct closes
  simpa [isStructural, opensBracket, closesBracket, kind, text] using brackets pair known

theorem not_bracket (noBracket : token.isBracket = false) :
    (token.isStructural && token.opensBracket) = false ∧
      (token.isStructural && token.closesBracket) = false := by
  simpa [isBracket, Bool.and_or_distrib_left] using noBracket

theorem isPunct_of_not_bracket (noBracket : token.isBracket = false) (known : pair ∈ nestingPairs) :
    token.isPunct pair.1 = false ∧ token.isPunct pair.2 = false := by
  obtain ⟨noOpening, noClosing⟩ := not_bracket noBracket
  constructor
  · rw [← Bool.not_eq_true]
    intro opens
    rw [opens_nesting known opens] at noOpening
    cases noOpening
  · rw [← Bool.not_eq_true]
    intro closes
    rw [(closes_nesting known closes).2] at noClosing
    cases noClosing

end Token

section

variable {α : Type} {spelled : α → Token} {items : List α}

namespace Nested

/-- Induction along the groups of anything that is spelled with nested tokens. -/
theorem induct_map {motive : List α → Prop} (nil : motive [])
    (plain : ∀ item rest, (spelled item).isBracket = false → Nested (rest.map spelled) →
      motive rest → motive (item :: rest))
    (group : ∀ pair opening inner closing rest, pair ∈ nestingPairs →
      (spelled opening).isPunct pair.1 = true → (spelled closing).isPunct pair.2 = true →
      Nested (inner.map spelled) → Nested (rest.map spelled) → motive inner → motive rest →
      motive (opening :: inner ++ closing :: rest))
    (nested : Nested (items.map spelled)) : motive items := by
  generalize same : items.map spelled = tokens at nested
  induction nested generalizing items with
  | nil =>
    rw [List.map_eq_nil_iff] at same
    exact same ▸ nil
  | plain noBracket others ih =>
    obtain ⟨item, rest, rfl, rfl, rfl⟩ := List.map_eq_cons_iff.mp same
    exact plain item rest noBracket others (ih rfl)
  | group known opens closes inside others ihInside ih =>
    rw [List.cons_append] at same
    obtain ⟨opening, tail, rfl, rfl, after⟩ := List.map_eq_cons_iff.mp same
    obtain ⟨inner, back, rfl, rfl, behind⟩ := List.map_eq_append_iff.mp after
    obtain ⟨closing, rest, rfl, rfl, rfl⟩ := List.map_eq_cons_iff.mp behind
    exact group _ opening inner closing rest known opens closes inside others (ihInside rfl)
      (ih rfl)

/-- What is spelled with nested tokens is nothing, or starts with a token that is no bracket, or
with a group. -/
theorem cases_map (nested : Nested (items.map spelled)) :
    items = [] ∨
      (∃ item rest, items = item :: rest ∧ (spelled item).isBracket = false ∧
        Nested (rest.map spelled)) ∨
      ∃ pair ∈ nestingPairs, ∃ opening inner closing rest,
        items = opening :: inner ++ closing :: rest ∧ (spelled opening).isPunct pair.1 = true ∧
          (spelled closing).isPunct pair.2 = true ∧ Nested (inner.map spelled) ∧
          Nested (rest.map spelled) := by
  refine induct_map (motive := fun items => items = [] ∨
    (∃ item rest, items = item :: rest ∧ (spelled item).isBracket = false ∧
      Nested (rest.map spelled)) ∨
    ∃ pair ∈ nestingPairs, ∃ opening inner closing rest,
      items = opening :: inner ++ closing :: rest ∧ (spelled opening).isPunct pair.1 = true ∧
        (spelled closing).isPunct pair.2 = true ∧ Nested (inner.map spelled) ∧
        Nested (rest.map spelled)) (.inl rfl) ?_ ?_ nested
  · intro item rest noBracket others _
    exact .inr (.inl ⟨item, rest, rfl, noBracket, others⟩)
  · intro pair opening inner closing rest known opens closes inside others _ _
    exact .inr (.inr ⟨pair, known, opening, inner, closing, rest, rfl, opens, closes, inside,
      others⟩)

theorem tail_of_not_bracket {item : α} {rest : List α}
    (nested : Nested ((item :: rest).map spelled)) (noBracket : (spelled item).isBracket = false) :
    Nested (rest.map spelled) := by
  rcases nested.cases_map with
    nothing | ⟨_, _, same, _, others⟩ | ⟨pair, known, opening, _, _, _, same, opens, _, _, _⟩
  · cases nothing
  · obtain ⟨rfl, rfl⟩ := List.cons.inj same
    exact others
  · obtain rfl : item = opening := (List.cons.inj same).1
    rw [(Token.isPunct_of_not_bracket noBracket known).1] at opens
    cases opens

theorem group_of_opening {pair : String × String} {opening : α} {rest : List α}
    (nested : Nested ((opening :: rest).map spelled)) (known : pair ∈ nestingPairs)
    (opens : (spelled opening).isPunct pair.1 = true) :
    ∃ inner closing others, rest = inner ++ closing :: others ∧
      (spelled closing).isPunct pair.2 = true ∧ Nested (inner.map spelled) ∧
        Nested (others.map spelled) := by
  have unique : ∀ pair ∈ nestingPairs, ∀ other ∈ nestingPairs, pair.1 = other.1 → pair = other := by
    decide
  rcases nested.cases_map with
    nothing | ⟨_, _, same, noBracket, _⟩ |
      ⟨other, knownOther, first, inner, closing, others, same, opensOther, closes, inside, behind⟩
  · cases nothing
  · obtain ⟨rfl, rfl⟩ := List.cons.inj same
    rw [(Token.isPunct_of_not_bracket noBracket known).1] at opens
    cases opens
  · obtain ⟨rfl, rfl⟩ := List.cons.inj same
    have sameText : other.1 = pair.1 := by
      simpa [Token.isPunct_eq opensOther] using opens
    obtain rfl := unique other knownOther pair known sameText
    exact ⟨inner, closing, others, rfl, closes, inside, behind⟩

end Nested

end

def balanced : List String → List Token → Bool
  | waiting, [] => waiting.isEmpty
  | waiting, token :: rest =>
    if !token.isBracket then balanced waiting rest
    else if token.kind ≠ .punct then false
    else
      match nestingPairs.lookup token.text, waiting with
      | some closing, _ => balanced (closing :: waiting) rest
      | none, closing :: waiting => token.text = closing && balanced waiting rest
      | none, [] => false

theorem lookup_nestingPairs : ∀ pair ∈ nestingPairs,
    nestingPairs.lookup pair.1 = some pair.2 ∧ nestingPairs.lookup pair.2 = none := by decide

theorem Nested.balanced_append {tokens : List Token} (nested : Nested tokens)
    (waiting : List String) (rest : List Token) :
    balanced waiting (tokens ++ rest) = balanced waiting rest := by
  induction nested generalizing waiting rest with
  | nil => rfl
  | plain noBracket _ ih => simp [balanced, noBracket, ih]
  | @group pair opening closing inner others known opens closes _ _ ihInside ih =>
    obtain ⟨opensFirst, closesThen⟩ := lookup_nestingPairs pair known
    obtain ⟨openingKind, openingText⟩ := Token.kind_of_isPunct opens
    obtain ⟨closingKind, closingText⟩ := Token.kind_of_isPunct closes
    have opensBracket : opening.isBracket = true := by
      rw [Token.isBracket, Bool.and_or_distrib_left, Token.opens_nesting known opens, Bool.true_or]
    have closesBracket : closing.isBracket = true := by
      rw [Token.isBracket, Bool.and_or_distrib_left, (Token.closes_nesting known closes).2,
        Bool.or_true]
    have shape : opening :: inner ++ closing :: others ++ rest =
        opening :: (inner ++ closing :: (others ++ rest)) := by simp
    have enters : balanced waiting (opening :: (inner ++ closing :: (others ++ rest))) =
        balanced (pair.2 :: waiting) (inner ++ closing :: (others ++ rest)) := by
      simp [balanced, opensBracket, openingKind, openingText, opensFirst]
    have leaves : balanced (pair.2 :: waiting) (closing :: (others ++ rest)) =
        balanced waiting (others ++ rest) := by
      simp [balanced, closesBracket, closingKind, closingText, closesThen]
    rw [shape, enters, ihInside, leaves, ih]

/-- Balanced tokens are nested up to the first bracket that is waited for. -/
theorem nested_of_balanced (tokens : List Token) {waiting : List String}
    (balance : balanced waiting tokens = true) :
    ∃ inner behind, tokens = inner ++ behind ∧ Nested inner ∧
      (waiting = [] ∧ behind = [] ∨ ∃ text outer closing rest, waiting = text :: outer ∧
        behind = closing :: rest ∧ closing.isPunct text = true ∧ balanced outer rest = true) := by
  match tokens with
  | [] =>
    have nothing : waiting = [] := by simpa [balanced] using balance
    exact ⟨[], [], rfl, .nil, .inl ⟨nothing, rfl⟩⟩
  | token :: rest =>
    unfold balanced at balance
    by_cases bracket : token.isBracket
    · by_cases punct : token.kind = .punct
      · cases found : nestingPairs.lookup token.text with
        | some closing =>
          have inside : balanced (closing :: waiting) rest = true := by
            simpa [bracket, punct, found] using balance
          obtain ⟨inner, _, split, nestedInner,
            ⟨impossible, -⟩ | ⟨_, _, last, others, same, rfl, closes, outside⟩⟩ :=
            nested_of_balanced rest inside
          · cases impossible
          · obtain ⟨rfl, rfl⟩ := List.cons.inj same
            obtain ⟨more, behind, rfl, nestedMore, ends⟩ := nested_of_balanced others outside
            exact ⟨token :: inner ++ last :: more, behind, by simp [split],
              .group (mem_of_lookup found) (by simp [Token.isPunct, punct]) closes nestedInner
                nestedMore, ends⟩
        | none =>
          cases waiting with
          | nil => simp [bracket, punct, found] at balance
          | cons text outer =>
            have : token.text = text ∧ balanced outer rest = true := by
              simpa [bracket, punct, found] using balance
            exact ⟨[], token :: rest, rfl, .nil, .inr ⟨text, outer, token, rest, rfl, rfl,
              by simp [Token.isPunct, punct, this.1], this.2⟩⟩
      · simp [bracket, punct] at balance
    · have balance : balanced waiting rest = true := by simpa [bracket] using balance
      obtain ⟨inner, behind, rfl, nested, ends⟩ := nested_of_balanced rest balance
      exact ⟨token :: inner, behind, rfl, .plain (Bool.eq_false_iff.mpr bracket) nested, ends⟩
termination_by tokens.length
decreasing_by
  · simp
  · simp [split]; omega
  · simp

theorem nested_iff_balanced {tokens : List Token} : Nested tokens ↔ balanced [] tokens = true := by
  constructor
  · intro nested
    have passed := nested.balanced_append [] []
    rw [List.append_nil] at passed
    rw [passed]
    rfl
  · intro balance
    obtain ⟨inner, behind, rfl, nested, ⟨-, rfl⟩ | ⟨_, _, _, _, impossible, -⟩⟩ :=
      nested_of_balanced tokens balance
    · rwa [List.append_nil]
    · cases impossible

instance (tokens : List Token) : Decidable (Nested tokens) :=
  decidable_of_iff' _ nested_iff_balanced

section

variable {α : Type} {spelled : α → Token} {items : List α}

/-- What is spelled with nested tokens is passed over by the search for a closing bracket. -/
theorem splitGroup?_nested {pair : String × String} (known : pair ∈ nestingPairs)
    (nested : Nested (items.map spelled)) (depth : Nat) (rest : List α) :
    splitGroup? (fun item => (spelled item).isPunct pair.1)
        (fun item => (spelled item).isPunct pair.2) depth (items ++ rest) =
      (splitGroup? (fun item => (spelled item).isPunct pair.1)
        (fun item => (spelled item).isPunct pair.2) depth rest).map
          fun group => { group with inside := items ++ group.inside } := by
  have apart : ∀ pair ∈ nestingPairs, pair.1 ≠ pair.2 ∧ ∀ other ∈ nestingPairs,
      other = pair ∨ other.1 ≠ pair.1 ∧ other.1 ≠ pair.2 ∧ other.2 ≠ pair.1 ∧
        other.2 ≠ pair.2 := by decide
  obtain ⟨distinct, apart⟩ := apart pair known
  revert depth rest
  refine nested.induct_map (motive := fun items => ∀ depth rest,
    splitGroup? (fun item => (spelled item).isPunct pair.1)
        (fun item => (spelled item).isPunct pair.2) depth (items ++ rest) =
      (splitGroup? (fun item => (spelled item).isPunct pair.1)
        (fun item => (spelled item).isPunct pair.2) depth rest).map
          fun group => { group with inside := items ++ group.inside }) ?_ ?_ ?_
  · intro depth rest
    simp
  · intro item others noBracket _ ih depth rest
    obtain ⟨opens, closes⟩ := Token.isPunct_of_not_bracket noBracket known
    simp only [List.cons_append, splitGroup?, opens, closes, ih, Bool.false_eq_true, if_false,
      Option.map_map]
    rfl
  · intro other opening inner closing others knownOther opens closes _ _ ihInner ih depth rest
    rcases apart other knownOther with rfl | ⟨h1, h2, h3, h4⟩
    · simp [splitGroup?, Token.isPunct_eq opens, Token.isPunct_eq closes, ihInner, ih,
        distinct.symm, Option.map_map, Function.comp_def, Group.push]
    · simp [splitGroup?, Token.isPunct_eq opens, Token.isPunct_eq closes, ihInner, ih,
        h1, h2, h3, h4, Option.map_map, Function.comp_def, Group.push]

theorem splitGroup?_closed {pair : String × String} (known : pair ∈ nestingPairs)
    (nested : Nested (items.map spelled)) {closing : α}
    (closes : (spelled closing).isPunct pair.2 = true) (rest : List α) :
    splitGroup? (fun item => (spelled item).isPunct pair.1)
        (fun item => (spelled item).isPunct pair.2) 0 (items ++ closing :: rest) =
      some ⟨items, closing, rest⟩ := by
  have distinct : ∀ pair ∈ nestingPairs, pair.1 ≠ pair.2 := by decide
  simp [splitGroup?_nested known nested, splitGroup?, Token.isPunct_eq closes,
    (distinct pair known).symm]

end

namespace Statement

variable {items : List Placed}

def Settled (rest : List Placed) : Prop :=
  ∀ item ∈ rest.head?, item.2.opensParen = false ∧ isVolatileWord item = false

theorem isVolatileWord_of_isPunct {item : Placed} {text : String}
    (is : item.2.isPunct text = true) : isVolatileWord item = false := by
  simp [isVolatileWord, Token.isIdent, (Token.kind_of_isPunct is).1]

theorem settled_of_isPunct {item : Placed} {text : String} (is : item.2.isPunct text = true)
    (other : text ≠ "(") (rest : List Placed) : Settled (item :: rest) := by
  intro first same
  obtain rfl : item = first := by simpa using same
  exact ⟨by simpa [Token.opensParen, Token.isPunct_eq is] using other,
    isVolatileWord_of_isPunct is⟩

theorem afterDecoration_volatile {item : Placed} (isVolatile : isVolatileWord item = true)
    (rest : List Placed) : afterDecoration (item :: rest) = afterDecoration rest := by
  simp [afterDecoration, isVolatile]

theorem afterDecoration_other {item : Placed} (noVolatile : isVolatileWord item = false)
    (noParen : item.2.opensParen = false) (rest : List Placed) :
    afterDecoration (item :: rest) = item :: rest := by
  simp [afterDecoration, noVolatile, noParen]

theorem afterDecoration_settled {rest : List Placed} (settled : Settled rest) :
    afterDecoration rest = rest := by
  cases rest with
  | nil => rfl
  | cons item rest =>
    obtain ⟨noParen, noVolatile⟩ := settled item rfl
    exact afterDecoration_other noVolatile noParen rest

theorem afterDecoration_group {opening closing : Placed} {inner : List Placed}
    (opens : opening.2.isPunct "(" = true) (closes : closing.2.isPunct ")" = true)
    (inside : Nested (inner.map Prod.snd)) (rest : List Placed) :
    afterDecoration (opening :: inner ++ closing :: rest) = rest := by
  have cut : splitGroup? (fun p : Placed => p.2.opensParen) (fun p => p.2.closesParen) 0
      (inner ++ closing :: rest) = some ⟨inner, closing, rest⟩ :=
    splitGroup?_closed (.head _) inside closes rest
  simp [afterDecoration, isVolatileWord_of_isPunct opens,
    show opening.2.opensParen = true from opens, cut]

/-- A decoration takes whole groups, so that nested tokens are left nested. -/
theorem afterDecoration_nested (nested : Nested (items.map Prod.snd)) :
    ∃ left : List Placed, Nested (left.map Prod.snd) ∧ left.length ≤ items.length ∧
      ∀ rest, Settled rest → afterDecoration (items ++ rest) = left ++ rest := by
  refine Nested.induct_map (motive := fun items => ∃ left : List Placed,
    Nested (left.map Prod.snd) ∧ left.length ≤ items.length ∧
      ∀ rest, Settled rest → afterDecoration (items ++ rest) = left ++ rest) ?_ ?_ ?_ nested
  · exact ⟨[], .nil, Nat.le_refl _, fun rest settled => afterDecoration_settled settled⟩
  · intro item others noBracket nestedOthers ⟨left, nestedLeft, shorter, same⟩
    cases isVolatile : isVolatileWord item with
    | true =>
      refine ⟨left, nestedLeft, Nat.le_succ_of_le shorter, fun rest settled => ?_⟩
      rw [List.cons_append, afterDecoration_volatile isVolatile, same rest settled]
    | false =>
      have noParen : item.2.opensParen = false :=
        (Token.isPunct_of_not_bracket noBracket (.head _)).1
      exact ⟨item :: others, .plain noBracket nestedOthers, Nat.le_refl _,
        fun rest _ => afterDecoration_other isVolatile noParen _⟩
  · intro pair opening inner closing others known opens closes inside nestedOthers _ _
    by_cases paren : pair = ("(", ")")
    · subst paren
      refine ⟨others, nestedOthers, ?_, fun rest _ => ?_⟩
      · simp only [List.length_append, List.length_cons]
        omega
      · rw [List.append_assoc]
        exact afterDecoration_group opens closes inside (others ++ rest)
    · have other : ∀ pair ∈ nestingPairs, pair ≠ ("(", ")") → pair.1 ≠ "(" := by decide
      have noParen : opening.2.opensParen = false := by
        simpa [Token.opensParen, Token.isPunct_eq opens] using other pair known paren
      refine ⟨opening :: inner ++ closing :: others, ?_, Nat.le_refl _, fun rest _ => ?_⟩
      · rw [List.map_append, List.map_cons, List.map_cons]
        exact .group known opens closes inside nestedOthers
      · exact afterDecoration_other (isVolatileWord_of_isPunct opens) noParen _

theorem cleanFrom_kept {item : Placed} (noWord : item.2.kind ≠ .ident) (rest : List Placed) :
    cleanFrom (item :: rest) = item :: cleanFrom rest := by
  simp [cleanFrom, noWord]

/-- Cleaning nested tokens leaves nested tokens and does not look further. -/
theorem cleanFrom_nested (items : List Placed) (nested : Nested (items.map Prod.snd)) :
    ∃ kept : List Placed, Nested (kept.map Prod.snd) ∧
      ∀ rest, Settled rest → cleanFrom (items ++ rest) = kept ++ cleanFrom rest := by
  rcases nested.cases_map with
    rfl | ⟨item, others, rfl, noBracket, nestedOthers⟩ |
      ⟨pair, known, opening, inner, closing, others, rfl, opens, closes, inside, nestedOthers⟩
  · exact ⟨[], .nil, fun rest _ => rfl⟩
  · by_cases decoration : item.2.kind = .ident && isDecoration item.2.text
    · obtain ⟨left, nestedLeft, shorter, same⟩ := afterDecoration_nested nestedOthers
      obtain ⟨kept, nestedKept, sameKept⟩ := cleanFrom_nested left nestedLeft
      refine ⟨kept, nestedKept, fun rest settled => ?_⟩
      rw [List.cons_append, cleanFrom, if_pos decoration, same rest settled,
        sameKept rest settled]
    · obtain ⟨kept, nestedKept, sameKept⟩ := cleanFrom_nested others nestedOthers
      by_cases ignored : item.2.kind = .ident && ignoredWords.contains item.2.text
      · refine ⟨kept, nestedKept, fun rest settled => ?_⟩
        rw [List.cons_append, cleanFrom, if_neg decoration, if_pos ignored, sameKept rest settled]
      · refine ⟨item :: kept, .plain noBracket nestedKept, fun rest settled => ?_⟩
        rw [List.cons_append, cleanFrom, if_neg decoration, if_neg ignored, sameKept rest settled,
          List.cons_append]
  · obtain ⟨keptInner, nestedInner, sameInner⟩ := cleanFrom_nested inner inside
    obtain ⟨kept, nestedKept, sameKept⟩ := cleanFrom_nested others nestedOthers
    refine ⟨opening :: keptInner ++ closing :: kept, ?_, fun rest settled => ?_⟩
    · rw [List.map_append, List.map_cons, List.map_cons]
      exact .group known opens closes nestedInner nestedKept
    · have notParen : ∀ pair ∈ nestingPairs, pair.2 ≠ "(" := by decide
      have noWord {item : Placed} {text : String} (is : item.2.isPunct text = true) :
          item.2.kind ≠ .ident := by
        simp [(Token.kind_of_isPunct is).1]
      rw [List.append_assoc, List.cons_append, List.cons_append, cleanFrom_kept (noWord opens),
        sameInner _ (settled_of_isPunct closes (notParen pair known) _),
        cleanFrom_kept (noWord closes), sameKept rest settled]
      simp
termination_by items.length
decreasing_by
  all_goals subst_vars
  all_goals simp only [List.length_append, List.length_cons]
  all_goals omega

/-- A token that ends no statement and opens no block goes to the statement that is open. -/
theorem splitFrom_keep {current rest : List Placed} {item : Placed} {depth : Nat}
    (stays : depth ≠ 0 ∨ (current.isEmpty && startsLinkage item rest) = false ∧
      item.2.isPunct ";" = false ∧ item.2.isPunct "\x7d" = false ∧
      (item.2.isPunct "\x7b" && opensBody current) = false) :
    splitFrom current depth (item :: rest) =
      splitFrom (current ++ [item])
        (if item.2.isStructural && item.2.opensBracket then depth + 1
          else if item.2.isStructural && item.2.closesBracket then depth - 1 else depth) rest := by
  conv => lhs; unfold splitFrom
  rcases stays with inside | ⟨noLinkage, noSemicolon, noClosing, noBody⟩
  · simp [inside]
  · simp [noSemicolon, noClosing, Bool.and_assoc, noBody, noLinkage]

theorem splitFrom_within (nested : Nested (items.map Prod.snd)) (current : List Placed)
    (depth : Nat) (rest : List Placed) :
    splitFrom current (depth + 1) (items ++ rest) =
      splitFrom (current ++ items) (depth + 1) rest := by
  revert current depth rest
  refine Nested.induct_map (motive := fun items => ∀ current depth rest,
    splitFrom current (depth + 1) (items ++ rest) =
      splitFrom (current ++ items) (depth + 1) rest) ?_ ?_ ?_ nested
  · intro current depth rest
    rw [List.nil_append, List.append_nil]
  · intro item others noBracket _ ih current depth rest
    obtain ⟨noOpening, noClosing⟩ := Token.not_bracket noBracket
    rw [List.cons_append, splitFrom_keep (.inl (Nat.succ_ne_zero depth)), noOpening, noClosing]
    simpa using ih (current ++ [item]) depth rest
  · intro pair opening inner closing others known opens closes _ _ ihInner ih current depth rest
    obtain ⟨noOpening, closed⟩ := Token.closes_nesting known closes
    rw [List.append_assoc, List.cons_append, List.cons_append,
      splitFrom_keep (.inl (Nat.succ_ne_zero depth)), Token.opens_nesting known opens, if_pos rfl,
      ihInner, splitFrom_keep (.inl (Nat.succ_ne_zero _)), noOpening, closed,
      if_neg Bool.false_ne_true, if_pos rfl, Nat.succ_sub_one, ih]
    simp

def Ends (rest : List Placed) : Prop :=
  ∃ first others, rest = first :: others ∧
    (first.2.isPunct ";" = true ∨ first.2.isPunct "\x7d" = true)

theorem splitFrom_end {item : Placed}
    (ends : item.2.isPunct ";" = true ∨ item.2.isPunct "\x7d" = true) (current rest : List Placed) :
    splitFrom current 0 (item :: rest) = ofItems current ++ splitFrom [] 0 rest := by
  have noWord : item.2.isIdent "extern" = false := by
    rcases ends with is | is <;> simp [Token.isIdent, (Token.kind_of_isPunct is).1]
  conv => lhs; unfold splitFrom
  simp [startsLinkage, noWord, ends]

theorem splitFrom_linkage {item next : Placed} (isExtern : item.2.isIdent "extern" = true)
    (isString : next.2.kind = .string) (first : Placed) (rest : List Placed) :
    splitFrom [] 0 (item :: next :: first :: rest) =
      if first.2.isPunct "\x7b" then splitFrom [] 0 rest else splitFrom [] 0 (first :: rest) := by
  conv => lhs; unfold splitFrom
  simp [startsLinkage, isExtern, isString]

theorem splitFrom_body {opening closing : Placed} {inner : List Placed}
    (opens : opening.2.isPunct "\x7b" = true) (closes : closing.2.isPunct "\x7d" = true)
    (inside : Nested (inner.map Prod.snd)) {current : List Placed}
    (isBody : opensBody current = true) (rest : List Placed) :
    splitFrom current 0 (opening :: (inner ++ closing :: rest)) =
      ofItems (if current.head?.any fun first => first.2.isIdent "namespace" then current else []) ++
        splitFrom [] 0 rest := by
  have noWord : opening.2.isIdent "extern" = false := by
    simp [Token.isIdent, (Token.kind_of_isPunct opens).1]
  have noEnd : opening.2.isPunct ";" = false ∧ opening.2.isPunct "\x7d" = false := by
    simp [Token.isPunct_eq opens]
  have cut : splitGroup? (isBrace "\x7b") (isBrace "\x7d") 0 (inner ++ closing :: rest) =
      some ⟨inner, closing, rest⟩ :=
    splitGroup?_closed (.tail _ (.tail _ (.head _))) inside closes rest
  conv => lhs; unfold splitFrom
  simp [startsLinkage, noWord, noEnd, opens, isBody, afterBody, cut]

theorem splitFrom_group {pair : String × String} {opening closing : Placed} {inner : List Placed}
    (known : pair ∈ nestingPairs) (opens : opening.2.isPunct pair.1 = true)
    (closes : closing.2.isPunct pair.2 = true) (inside : Nested (inner.map Prod.snd))
    {current : List Placed} (noBody : (opening.2.isPunct "\x7b" && opensBody current) = false)
    (rest : List Placed) :
    splitFrom current 0 (opening :: (inner ++ closing :: rest)) =
      splitFrom (current ++ opening :: inner ++ [closing]) 0 rest := by
  have noEnd : ∀ pair ∈ nestingPairs, pair.1 ≠ ";" ∧ pair.1 ≠ "\x7d" := by decide
  obtain ⟨noSemicolon, noClosing⟩ := noEnd pair known
  have noWord : opening.2.isIdent "extern" = false := by
    simp [Token.isIdent, (Token.kind_of_isPunct opens).1]
  obtain ⟨noOpening, closed⟩ := Token.closes_nesting known closes
  rw [splitFrom_keep (.inr ⟨by simp [startsLinkage, noWord],
      by simpa [Token.isPunct_eq opens] using noSemicolon,
      by simpa [Token.isPunct_eq opens] using noClosing, noBody⟩),
    Token.opens_nesting known opens, if_pos rfl, splitFrom_within inside,
    splitFrom_keep (.inl (Nat.succ_ne_zero 0)), noOpening, closed, if_neg Bool.false_ne_true,
    if_pos rfl]
  simp

theorem startsLinkage_append {item : Placed} {others rest : List Placed} (ends : Ends rest) :
    startsLinkage item (others ++ rest) = startsLinkage item others := by
  obtain ⟨first, rest, rfl, ends⟩ := ends
  have noString : first.2.kind ≠ .string := by
    rcases ends with is | is <;> simp [(Token.kind_of_isPunct is).1]
  cases others <;> simp [startsLinkage, noString]

def SplitsAlone (current items : List Placed) : Prop :=
  ∃ (statements : List Statement) (left : List Placed), ∀ rest, Ends rest →
    splitFrom current 0 (items ++ rest) = statements ++ splitFrom left 0 rest

theorem splitsAlone_linkage {item : Placed} {others : List Placed}
    (linkage : startsLinkage item others = true) (nested : Nested (others.map Prod.snd))
    (shorter : ∀ items : List Placed, items.length < others.length →
      Nested (items.map Prod.snd) → SplitsAlone [] items) : SplitsAlone [] (item :: others) := by
  obtain ⟨isExtern, next, more, rfl, isString⟩ : item.2.isIdent "extern" = true ∧
      ∃ next more, others = next :: more ∧ next.2.kind = .string := by
    cases others <;> simp_all [startsLinkage]
  have noString : next.2.isBracket = false := by
    simp [Token.isBracket, Token.isStructural, isString]
  have nestedMore := nested.tail_of_not_bracket noString
  cases more with
  | nil =>
    refine ⟨[], [], fun rest ⟨first, behind, same, ends⟩ => ?_⟩
    have noBrace : first.2.isPunct "\x7b" = false := by
      rcases ends with is | is <;> simp [Token.isPunct_eq is]
    rw [same]
    simp [splitFrom_linkage isExtern isString, noBrace]
  | cons first more =>
    by_cases brace : first.2.isPunct "\x7b"
    · obtain ⟨inner, closing, behind, rfl, closes, inside, nestedBehind⟩ :=
        nestedMore.group_of_opening (.tail _ (.tail _ (.head _))) brace
      obtain ⟨statements, left, same⟩ := shorter inner (by simp; omega) inside
      obtain ⟨later, leftLater, sameLater⟩ := shorter behind (by simp; omega) nestedBehind
      refine ⟨statements ++ ofItems left ++ later, leftLater, fun rest ends => ?_⟩
      have shape : item :: next :: first :: (inner ++ closing :: behind) ++ rest =
          item :: next :: first :: (inner ++ closing :: (behind ++ rest)) := by simp
      rw [shape, splitFrom_linkage isExtern isString, if_pos brace,
        same _ ⟨closing, _, rfl, .inr closes⟩, splitFrom_end (.inr closes), sameLater rest ends]
      simp
    · obtain ⟨statements, left, same⟩ := shorter (first :: more) (by simp) nestedMore
      refine ⟨statements, left, fun rest ends => ?_⟩
      rw [← same rest ends]
      simp [splitFrom_linkage isExtern isString, brace]

theorem splitFrom_nested (items : List Placed) (nested : Nested (items.map Prod.snd))
    (current : List Placed) : SplitsAlone current items := by
  rcases nested.cases_map with
    rfl | ⟨item, others, rfl, noBracket, nestedOthers⟩ |
      ⟨pair, known, opening, inner, closing, others, rfl, opens, closes, inside, nestedOthers⟩
  · exact ⟨[], current, fun rest _ => rfl⟩
  · by_cases linkage : current.isEmpty && startsLinkage item others
    · obtain ⟨none, linkage⟩ := Bool.and_eq_true_iff.mp linkage
      rw [List.isEmpty_iff.mp none]
      exact splitsAlone_linkage linkage nestedOthers fun shorter _ nested =>
        splitFrom_nested shorter nested []
    · by_cases semicolon : item.2.isPunct ";"
      · obtain ⟨statements, left, same⟩ := splitFrom_nested others nestedOthers []
        refine ⟨ofItems current ++ statements, left, fun rest ends => ?_⟩
        rw [List.cons_append, splitFrom_end (.inl semicolon), same rest ends, List.append_assoc]
      · obtain ⟨statements, left, same⟩ := splitFrom_nested others nestedOthers (current ++ [item])
        obtain ⟨noOpening, noClosing⟩ := Token.not_bracket noBracket
        have noBrace := Token.isPunct_of_not_bracket noBracket (.tail _ (.tail _ (.head _)))
        refine ⟨statements, left, fun rest ends => ?_⟩
        rw [List.cons_append, splitFrom_keep, noOpening, noClosing, if_neg Bool.false_ne_true,
          if_neg Bool.false_ne_true, same rest ends]
        rw [startsLinkage_append ends]
        simp [noBrace, Bool.eq_false_iff.mpr semicolon, Bool.eq_false_iff.mpr linkage]
  · have shape rest : opening :: inner ++ closing :: others ++ rest =
        opening :: (inner ++ closing :: (others ++ rest)) := by simp
    by_cases body : opening.2.isPunct "\x7b" && opensBody current
    · obtain ⟨brace, isBody⟩ := Bool.and_eq_true_iff.mp body
      have closesBrace : ∀ pair ∈ nestingPairs, pair.1 = "\x7b" → pair.2 = "\x7d" := by decide
      have sameText : pair.1 = "\x7b" := by simpa [Token.isPunct_eq opens] using brace
      rw [closesBrace pair known sameText] at closes
      obtain ⟨statements, left, same⟩ := splitFrom_nested others nestedOthers []
      refine ⟨ofItems (if current.head?.any fun first => first.2.isIdent "namespace" then current
        else []) ++ statements, left, fun rest ends => ?_⟩
      rw [shape, splitFrom_body brace closes inside isBody, same rest ends, List.append_assoc]
    · obtain ⟨statements, left, same⟩ :=
        splitFrom_nested others nestedOthers (current ++ opening :: inner ++ [closing])
      refine ⟨statements, left, fun rest ends => ?_⟩
      rw [shape, splitFrom_group known opens closes inside (Bool.eq_false_iff.mpr body),
        same rest ends]
termination_by items.length
decreasing_by
  all_goals subst_vars
  all_goals simp only [List.length_append, List.length_cons]
  all_goals omega

end Statement

end CBindings
