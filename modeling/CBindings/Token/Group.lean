import CBindings.Token.Basic

/-! Bracketed groups in sequences of tokens. -/

namespace CBindings

section

variable {α : Type}

structure Group (α : Type) where
  inside : List α
  close : α
  after : List α

def Group.push (x : α) (group : Group α) : Group α := { group with inside := x :: group.inside }

def splitGroup? (opens closes : α → Bool) : Nat → List α → Option (Group α)
  | _, [] => none
  | depth, x :: rest =>
    if opens x then (splitGroup? opens closes (depth + 1) rest).map (.push x)
    else if closes x then
      match depth with
      | 0 => some ⟨[], x, rest⟩
      | depth + 1 => (splitGroup? opens closes depth rest).map (.push x)
    else (splitGroup? opens closes depth rest).map (.push x)

theorem splitGroup?_eq {opens closes : α → Bool} {depth : Nat} {xs : List α} {group : Group α}
    (found : splitGroup? opens closes depth xs = some group) :
    xs = group.inside ++ group.close :: group.after := by
  induction xs generalizing depth group with
  | nil => simp [splitGroup?] at found
  | cons x rest ih =>
    simp only [splitGroup?] at found
    split at found
    · obtain ⟨inner, read, rfl⟩ := Option.map_eq_some_iff.mp found
      simp [Group.push, ← ih read]
    · split at found
      · split at found
        · simp only [Option.some.injEq] at found
          simp [← found]
        · obtain ⟨inner, read, rfl⟩ := Option.map_eq_some_iff.mp found
          simp [Group.push, ← ih read]
      · obtain ⟨inner, read, rfl⟩ := Option.map_eq_some_iff.mp found
        simp [Group.push, ← ih read]

theorem splitGroup?_closes {opens closes : α → Bool} {depth : Nat} {xs : List α} {group : Group α}
    (found : splitGroup? opens closes depth xs = some group) : closes group.close = true := by
  induction xs generalizing depth group with
  | nil => simp [splitGroup?] at found
  | cons x rest ih =>
    simp only [splitGroup?] at found
    split at found
    · obtain ⟨inner, read, rfl⟩ := Option.map_eq_some_iff.mp found
      exact (ih read : closes inner.close = true)
    · split at found
      · next closing =>
        split at found
        · simp only [Option.some.injEq] at found
          simpa [← found] using closing
        · obtain ⟨inner, read, rfl⟩ := Option.map_eq_some_iff.mp found
          exact (ih read : closes inner.close = true)
      · obtain ⟨inner, read, rfl⟩ := Option.map_eq_some_iff.mp found
        exact (ih read : closes inner.close = true)

theorem splitGroup?_length {opens closes : α → Bool} {depth : Nat} {xs : List α} {group : Group α}
    (found : splitGroup? opens closes depth xs = some group) :
    group.inside.length + group.after.length + 1 = xs.length := by
  have := congrArg List.length (splitGroup?_eq found)
  simp only [List.length_append, List.length_cons] at this
  omega

theorem splitGroup?_length_lt {opens closes : α → Bool} {depth : Nat} {xs : List α}
    {group : Group α} (found : splitGroup? opens closes depth xs = some group) :
    group.inside.length + group.after.length < xs.length := by
  have := splitGroup?_length found
  omega

end

namespace Token

def opensParen (token : Token) : Bool := token.isPunct "("

def closesParen (token : Token) : Bool := token.isPunct ")"

def opensBracket (token : Token) : Bool := ["(", "[", "\x7b"].contains token.text

def closesBracket (token : Token) : Bool := [")", "]", "\x7d"].contains token.text

def isStructural (token : Token) : Bool := token.kind != .ident && token.kind != .string

end Token

def splitTopLevelFrom (separator : String) : Int → List Token → List (List Token)
  | _, [] => [[]]
  | depth, token :: rest =>
    let keep (depth : Int) : List (List Token) :=
      match splitTopLevelFrom separator depth rest with
      | [] => [[token]]
      | part :: parts => (token :: part) :: parts
    if !token.isStructural then keep depth
    else if token.opensBracket then keep (depth + 1)
    else if token.closesBracket then keep (depth - 1)
    else if token.text = separator ∧ depth = 0 then [] :: splitTopLevelFrom separator depth rest
    else keep depth

def splitTopLevel (tokens : List Token) (separator : String) : List (List Token) :=
  splitTopLevelFrom separator 0 tokens

theorem splitTopLevelFrom_length {separator : String} {depth : Int} {tokens part : List Token}
    (member : part ∈ splitTopLevelFrom separator depth tokens) : part.length ≤ tokens.length := by
  induction tokens generalizing depth part with
  | nil =>
    simp only [splitTopLevelFrom, List.mem_singleton] at member
    simp [member]
  | cons token rest ih =>
    have keep : ∀ depth, part ∈ (match splitTopLevelFrom separator depth rest with
        | [] => [[token]]
        | first :: parts => (token :: first) :: parts) → part.length ≤ (token :: rest).length := by
      intro depth member
      split at member
      · simp only [List.mem_singleton] at member
        simp [member]
      · next first parts cut =>
        simp only [List.mem_cons] at member
        rcases member with rfl | member
        · have inRest : first ∈ splitTopLevelFrom separator depth rest := by simp [cut]
          simpa using ih inRest
        · have inRest : part ∈ splitTopLevelFrom separator depth rest := by simp [cut, member]
          have := ih inRest
          simp only [List.length_cons]
          omega
    simp only [splitTopLevelFrom] at member
    split at member
    · exact keep _ member
    · split at member
      · exact keep _ member
      · split at member
        · exact keep _ member
        · split at member
          · simp only [List.mem_cons] at member
            rcases member with rfl | member
            · simp
            · have := ih member
              simp only [List.length_cons]
              omega
          · exact keep _ member

theorem splitTopLevel_length {separator : String} {tokens part : List Token}
    (member : part ∈ splitTopLevel tokens separator) : part.length ≤ tokens.length :=
  splitTopLevelFrom_length member

end CBindings
