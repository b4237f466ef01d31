import CBindings.Proofs.Declaration.Interleaving
import CBindings.Proofs.Declaration.Nesting

/-! Reading in parts. Nested tokens that end with a semicolon are read as if nothing came after
them, and what comes after them as if they were not there. -/

namespace CBindings

theorem splitGroup?_map {α β : Type} (f : β → α) (opens closes : α → Bool) (depth : Nat)
    (xs : List β) :
    splitGroup? opens closes depth (xs.map f) =
      (splitGroup? (fun x => opens (f x)) (fun x => closes (f x)) depth xs).map fun group =>
        ⟨group.inside.map f, f group.close, group.after.map f⟩ := by
  induction xs generalizing depth with
  | nil => rfl
  | cons x rest ih =>
    simp only [List.map_cons, splitGroup?]
    split
    · simp [ih, Option.map_map, Function.comp_def, Group.push]
    · split
      · cases depth with
        | zero => rfl
        | succ depth => simp [ih, Option.map_map, Function.comp_def, Group.push]
      · simp [ih, Option.map_map, Function.comp_def, Group.push]

namespace Statement

def moved (place : Nat → Nat) (statement : Statement) : Statement :=
  { statement with position := place statement.position }

variable (place : Nat → Nat)

theorem afterDecoration_map (items : List Placed) :
    afterDecoration (items.map (Prod.map place id)) =
      (afterDecoration items).map (Prod.map place id) := by
  have dropped : (items.map (Prod.map place id)).dropWhile isVolatileWord =
      (items.dropWhile isVolatileWord).map (Prod.map place id) := List.dropWhile_map ..
  unfold afterDecoration
  rw [dropped]
  cases items.dropWhile isVolatileWord with
  | nil => rfl
  | cons item rest =>
    simp only [List.map_cons, splitGroup?_map, Prod.map_snd, id_eq]
    split
    · cases splitGroup? (fun p : Placed => p.2.opensParen) (fun p => p.2.closesParen) 0 rest <;> rfl
    · rfl

theorem cleanFrom_map (items : List Placed) :
    cleanFrom (items.map (Prod.map place id)) = (cleanFrom items).map (Prod.map place id) := by
  fun_induction cleanFrom items with
  | case1 => simp [cleanFrom]
  | case2 item rest decoration ih =>
    rw [List.map_cons, cleanFrom, Prod.map_snd, id_eq, if_pos decoration, afterDecoration_map, ih]
  | case3 item rest noDecoration ignored ih =>
    rw [List.map_cons, cleanFrom, Prod.map_snd, id_eq, if_neg noDecoration, if_pos ignored, ih]
  | case4 item rest noDecoration notIgnored ih =>
    rw [List.map_cons, cleanFrom, Prod.map_snd, id_eq, if_neg noDecoration, if_neg notIgnored, ih,
      List.map_cons]

theorem ofItems_map (items : List Placed) :
    ofItems (items.map (Prod.map place id)) = (ofItems items).map (moved place) := by
  cases items with
  | nil => rfl
  | cons first rest => simp [ofItems, moved]

theorem opensBody_map (current : List Placed) :
    opensBody (current.map (Prod.map place id)) = opensBody current := by
  cases current with
  | nil => rfl
  | cons first rest =>
    have last : ((first :: rest).map (Prod.map place id)).getLast? =
        (first :: rest).getLast?.map (Prod.map place id) := List.getLast?_map
    rw [List.map_cons] at last ⊢
    simp only [opensBody, last]
    cases (first :: rest).getLast? <;> rfl

theorem afterBody_map (items : List Placed) :
    afterBody (items.map (Prod.map place id)) = (afterBody items).map (Prod.map place id) := by
  unfold afterBody
  rw [splitGroup?_map]
  have same : splitGroup? (fun x => isBrace "\x7b" (Prod.map place id x))
      (fun x => isBrace "\x7d" (Prod.map place id x)) 0 items =
        splitGroup? (isBrace "\x7b") (isBrace "\x7d") 0 items := rfl
  rw [same]
  cases splitGroup? (isBrace "\x7b") (isBrace "\x7d") 0 items <;> rfl

theorem startsLinkage_map (item : Placed) (rest : List Placed) :
    startsLinkage (Prod.map place id item) (rest.map (Prod.map place id)) =
      startsLinkage item rest := by
  cases rest <;> rfl

theorem splitFrom_map (current : List Placed) (depth : Nat) (items : List Placed) :
    splitFrom (current.map (Prod.map place id)) depth (items.map (Prod.map place id)) =
      (splitFrom current depth items).map (moved place) := by
  fun_induction splitFrom current depth items with
  | case1 current =>
    rw [List.map_nil, splitFrom, ofItems_map]
  | case2 current depth item string brace rest opens linkage ih =>
    have linkageThere := (startsLinkage_map place item (string :: brace :: rest)).symm
    conv => lhs; unfold splitFrom
    simp_all
  | case3 current depth item string next rest noBrace linkage ih =>
    have linkageThere := (startsLinkage_map place item (string :: next :: rest)).symm
    conv => lhs; unfold splitFrom
    simp_all
  | case4 current depth item rest linkage short =>
    have linkageThere := (startsLinkage_map place item rest).symm
    conv => lhs; unfold splitFrom
    match rest with
    | [] | [_] => simp_all
    | _ :: _ :: _ => exact (short _ _ _ rfl).elim
  | case5 current depth item rest noLinkage ends ih =>
    have linkageThere := (startsLinkage_map place item rest).symm
    conv => lhs; unfold splitFrom
    simp_all [ofItems_map]
  | case6 current depth item rest noLinkage noEnd body isNamespace kept ih =>
    have linkageThere := (startsLinkage_map place item rest).symm
    have keptThere : (if (current.map (Prod.map place id)).head?.any
          fun first => first.2.isIdent "namespace" then current.map (Prod.map place id) else []) =
        kept.map (Prod.map place id) := by
      have sameHead : ((current.map (Prod.map place id)).head?.any
          fun first => first.2.isIdent "namespace") = isNamespace := by
        cases current <;> rfl
      rw [sameHead]
      unfold kept
      split <;> rfl
    conv => lhs; unfold splitFrom
    simp_all [ofItems_map, afterBody_map, opensBody_map]
  | case7 current depth item rest noLinkage noEnd noBody next ih =>
    have linkageThere := (startsLinkage_map place item rest).symm
    rw [List.map_append] at ih
    rw [List.map_cons, splitFrom_keep]
    · exact ih
    · by_cases outside : depth = 0
      · exact .inr (by simp_all [opensBody_map])
      · exact .inl outside

def placedFrom (n : Nat) (tokens : List Token) : List Placed :=
  (tokens.zipIdx n).map fun (token, index) => (index, token)

theorem placedFrom_append (first second : List Token) :
    placedFrom 0 (first ++ second) =
      placedFrom 0 first ++ (placedFrom 0 second).map (Prod.map (first.length + ·) id) := by
  unfold placedFrom
  rw [List.zipIdx_append, List.map_append, List.zipIdx_eq_map_add (i := 0 + first.length)]
  simp [Function.comp_def]

theorem placedFrom_tokens (n : Nat) (tokens : List Token) :
    (placedFrom n tokens).map Prod.snd = tokens := by
  simp [placedFrom, Function.comp_def]

/-- Nested tokens that end with a semicolon are cut into statements as if nothing came after them. -/
theorem split_append {body : List Token} (nested : Nested body) {last : Token}
    (ends : last.isPunct ";" = true) (others : List Token) :
    split (clean (body ++ [last] ++ others)) =
      split (clean (body ++ [last])) ++
        (split (clean others)).map (moved ((body ++ [last]).length + ·)) := by
  have placedNested : Nested ((placedFrom 0 body).map Prod.snd) := by
    rwa [placedFrom_tokens]
  obtain ⟨kept, nestedKept, cleaned⟩ := cleanFrom_nested (placedFrom 0 body) placedNested
  obtain ⟨statements, left, same⟩ := splitFrom_nested kept nestedKept []
  have whole (later : List Placed) :
      splitFrom [] 0 (cleanFrom (placedFrom 0 (body ++ [last]) ++ later)) =
        statements ++ ofItems left ++ splitFrom [] 0 (cleanFrom later) := by
    have semicolon : (body.length, last).2.isPunct ";" = true := ends
    have noWord : (body.length, last).2.kind ≠ .ident := by
      simp [show last.kind = .punct from (Token.kind_of_isPunct ends).1]
    have placed : placedFrom 0 (body ++ [last]) ++ later =
        placedFrom 0 body ++ (body.length, last) :: later := by
      rw [placedFrom_append]
      simp [placedFrom]
    rw [placed, cleaned _ (settled_of_isPunct semicolon (by decide) later), cleanFrom_kept noWord,
      same _ ⟨_, _, rfl, .inl semicolon⟩, splitFrom_end (.inl semicolon), List.append_assoc]
  have alone := whole []
  rw [List.append_nil, cleanFrom, splitFrom, ofItems, List.append_nil] at alone
  have first : clean (body ++ [last]) = cleanFrom (placedFrom 0 (body ++ [last])) := rfl
  have both : clean (body ++ [last] ++ others) = cleanFrom (placedFrom 0 (body ++ [last]) ++
      (placedFrom 0 others).map (Prod.map ((body ++ [last]).length + ·) id)) :=
    congrArg cleanFrom (placedFrom_append (body ++ [last]) others)
  rw [split, split, split, first, both, whole, alone, cleanFrom_map]
  exact congrArg (_ ++ ·) (splitFrom_map _ [] 0 _)

theorem moved_declarations (header : String) (place : Nat → Nat) (statement : Statement) :
    (moved place statement).declarations header = statement.declarations header := rfl

end Statement

theorem Nested.of_append_plain {body : List Token} {last : Token}
    (nested : Nested (body ++ [last])) (noBracket : last.isBracket = false) : Nested body := by
  generalize whole : body ++ [last] = tokens at nested
  induction nested generalizing body with
  | nil => simp at whole
  | @plain token rest noBracket others ih =>
    cases body with
    | nil => exact .nil
    | cons first body =>
      obtain ⟨rfl, behind⟩ := List.cons.inj whole
      exact .plain noBracket (ih behind)
  | @group pair opening closing inner rest known opens closes inside others _ ih =>
    rcases List.eq_nil_or_concat rest with rfl | ⟨front, final, rfl⟩
    · obtain rfl : last = closing := by
        simpa using (List.append_inj' whole rfl).2
      rw [(Token.isPunct_of_not_bracket noBracket known).2] at closes
      cases closes
    · have whole : body ++ [last] = (opening :: inner ++ closing :: front) ++ [final] := by
        simpa using whole
      obtain ⟨rfl, same⟩ := List.append_inj' whole rfl
      exact .group known opens closes inside (ih (by simp [same]))

/-- Nested tokens that end with a semicolon are read by themselves, and so is what follows them:
nothing in them, not even what cannot be read, is seen by the statements after them. -/
theorem declarationsOf_append (header : String) {tokens : List Token} (others : List Token)
    (nested : Nested tokens) (ends : ∃ last ∈ tokens.getLast?, last.isPunct ";" = true) :
    declarationsOf (tokens ++ others) header =
      ((declarationsOf tokens header).1 ++ (declarationsOf others header).1,
        (declarationsOf tokens header).2 ++ (declarationsOf others header).2) := by
  obtain ⟨last, isLast, semicolon⟩ := ends
  obtain ⟨body, rfl⟩ := List.getLast?_eq_some_iff.mp isLast
  have noBracket : last.isBracket = false := by
    simp [Token.isBracket, Token.isStructural, Token.opensBracket, Token.closesBracket,
      Token.kind_of_isPunct semicolon]
  have cut := Statement.split_append (nested.of_append_plain noBracket) semicolon others
  simp only [declarationsOf_eq_flatMap, cut, List.flatMap_append, List.flatMap_map,
    Statement.moved_declarations]

/-- A statement without a name in a linkage block, and a declaration after it. -/
theorem declarationsOf_append_malformed :
    let tokens : List Token :=
      [⟨.ident, "extern", 1⟩, ⟨.string, "\"C\"", 1⟩, ⟨.punct, "\x7b", 1⟩, ⟨.ident, "int", 1⟩,
        ⟨.punct, "[", 1⟩, ⟨.number, "5", 1⟩, ⟨.punct, "]", 1⟩, ⟨.punct, ";", 1⟩,
        ⟨.punct, "\x7d", 1⟩, ⟨.punct, ";", 1⟩]
    let others : List Token := [⟨.ident, "int", 2⟩, ⟨.ident, "x", 2⟩, ⟨.punct, ";", 2⟩]
    Nested tokens ∧ (∃ last ∈ tokens.getLast?, last.isPunct ";" = true) ∧
      declarationsOf (tokens ++ others) "test.h" =
        ((declarationsOf tokens "test.h").1 ++ (declarationsOf others "test.h").1,
          (declarationsOf tokens "test.h").2 ++ (declarationsOf others "test.h").2) := by
  intro tokens others
  have nested : Nested tokens := by decide
  have ends : ∃ last ∈ tokens.getLast?, last.isPunct ";" = true := ⟨⟨.punct, ";", 1⟩, by decide⟩
  exact ⟨nested, ends, declarationsOf_append "test.h" others nested ends⟩

end CBindings
