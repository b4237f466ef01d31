import CBindings.Rust.Name
import Mathlib.Data.List.TakeWhile

/-! Which C names give the same name in Rust. A tag is renamed by its kind and a word that Rust
reserves by an underscore; what comes of it may be a C name of its own. -/

namespace CBindings

def Unmarked (name : String) : Prop := ' ' ∉ name.toList ∧ '#' ∉ name.toList

instance (name : String) : Decidable (Unmarked name) := inferInstanceAs (Decidable (_ ∧ _))

def tagWords : List String := ["struct", "enum", "union"]

/-- The keys of declarations: a tag behind the word for its kind, or a name without marks. -/
inductive IsKey : String → Prop where
  | tag {word name : String} (known : word ∈ tagWords) (some : name ≠ "") :
      IsKey (word ++ " " ++ name)
  | plain {name : String} (unmarked : Unmarked name) : IsKey name

namespace Rust

/-- The first name is not kept in Rust, and the second one is what takes its place. -/
inductive Renames : String → String → Prop where
  | tag {word name : String} (known : word ∈ tagWords) (some : name ≠ "") :
      Renames (word ++ " " ++ name) (word ++ "_" ++ name)
  | reserved {word : String} (known : word ∈ reservedPathWords) : Renames word ("_" ++ word)

variable {name word a b : String}

theorem declaredName_of_unspaced {name : String} (unspaced : ' ' ∉ name.toList) :
    declaredName name = identifier name := by
  have nothing : name.toList.dropWhile (· != ' ') = [] := by
    apply List.dropWhile_eq_nil_iff.mpr
    intro c member
    have different : c ≠ ' ' := fun same => unspaced (same ▸ member)
    simpa using different
  simp only [declaredName, nothing]

theorem declaredName_tag (known : word ∈ tagWords) (some : name ≠ "") :
    declaredName (word ++ " " ++ name) = word ++ "_" ++ name := by
  have unspaced : ∀ w ∈ tagWords, w.toList.all (· != ' ') = true := by decide
  have all := List.all_eq_true.mp (unspaced word known)
  obtain ⟨c, rest, whole⟩ : ∃ c rest, name.toList = c :: rest := by
    cases chars : name.toList with
    | nil => exact absurd (String.toList_eq_nil_iff.mp chars) some
    | cons c rest => exact ⟨c, rest, rfl⟩
  have text : (word ++ " " ++ name).toList = word.toList ++ ' ' :: c :: rest := by
    simp [whole]
  have front : (word ++ " " ++ name).toList.takeWhile (· != ' ') = word.toList := by
    rw [text, List.takeWhile_append_of_pos all, List.takeWhile_cons_of_neg (by simp),
      List.append_nil]
  have behind : (word ++ " " ++ name).toList.dropWhile (· != ' ') = ' ' :: c :: rest := by
    rw [text, List.dropWhile_append_of_pos all, List.dropWhile_cons_of_neg (by simp)]
  have listed : ["struct", "enum", "union"].contains word = true := List.contains_iff_mem.mpr known
  simp only [declaredName, front, behind, String.ofList_toList, listed, if_true]
  rw [← whole, String.ofList_toList]

theorem identifier_cases (name : String) :
    (name ∈ reservedPathWords ∧ identifier name = "_" ++ name) ∨
      (name ∈ keywords ∧ identifier name = "r#" ++ name) ∨ identifier name = name := by
  unfold identifier
  split
  · next isReserved => exact .inl ⟨List.contains_iff_mem.mp isReserved, rfl⟩
  · split
    · next isKeyword => exact .inr (.inl ⟨List.contains_iff_mem.mp isKeyword, rfl⟩)
    · exact .inr (.inr rfl)

theorem identifier_of_underscore (underscore : '_' ∈ name.toList) : identifier name = name := by
  have none : ∀ w ∈ reservedPathWords ++ keywords, '_' ∉ w.toList := by decide
  obtain ⟨known, -⟩ | ⟨known, -⟩ | kept := identifier_cases name
  · exact absurd underscore (none name (List.mem_append_left _ known))
  · exact absurd underscore (none name (List.mem_append_right _ known))
  · exact kept

theorem declaredName_reserved (known : word ∈ reservedPathWords) :
    declaredName word = "_" ++ word := by
  revert word
  decide

theorem tag_ne_renamed {other word' : String} (known : word ∈ tagWords) (known' : word' ∈ tagWords) :
    word ++ " " ++ name ≠ word' ++ "_" ++ other := by
  simp only [tagWords, List.mem_cons, List.not_mem_nil, or_false] at known known'
  intro same
  rcases known with rfl | rfl | rfl <;> rcases known' with rfl | rfl | rfl <;>
    simp [String.ext_iff] at same

theorem renamed_inj {other word' : String} (known : word ∈ tagWords) (known' : word' ∈ tagWords)
    (same : word ++ "_" ++ name = word' ++ "_" ++ other) : word = word' ∧ name = other := by
  simp only [tagWords, List.mem_cons, List.not_mem_nil, or_false] at known known'
  rcases known with rfl | rfl | rfl <;> rcases known' with rfl | rfl | rfl <;>
    simp_all [String.ext_iff]

theorem Renames.declaredName_eq (renames : Renames a b) (isKey : IsKey b) :
    declaredName a = declaredName b := by
  cases renames with
  | @tag word name known some =>
    have unspaced : ' ' ∉ (word ++ "_" ++ name).toList := by
      generalize whole : word ++ "_" ++ name = renamed at isKey
      cases isKey with
      | tag known' => exact absurd whole.symm (tag_ne_renamed known' known)
      | plain unmarked => exact unmarked.1
    rw [declaredName_tag known some, declaredName_of_unspaced unspaced, identifier_of_underscore]
    simp
  | reserved known =>
    have unspaced : ∀ w ∈ reservedPathWords, ' ' ∉ ("_" ++ w).toList := by decide
    rw [declaredName_reserved known, declaredName_of_unspaced (unspaced _ known),
      identifier_of_underscore]
    simp

theorem renames_of_tag (known : word ∈ tagWords) (some : name ≠ "")
    (same : word ++ "_" ++ name = identifier b) : Renames (word ++ " " ++ name) b := by
  have apart {x : String} : word ++ "_" ++ name ≠ "_" ++ x ∧ word ++ "_" ++ name ≠ "r#" ++ x := by
    simp only [tagWords, List.mem_cons, List.not_mem_nil, or_false] at known
    rcases known with rfl | rfl | rfl <;> simp [String.ext_iff]
  obtain ⟨-, kept⟩ | ⟨-, kept⟩ | kept := identifier_cases b <;> rw [kept] at same
  · exact absurd same apart.1
  · exact absurd same apart.2
  · exact same ▸ .tag known some

/-- Two plain names that are the same in Rust. Escaped keywords have a number sign, which no plain
name has, and reserved words do not. -/
theorem renames_of_plain (first : Unmarked a) (second : Unmarked b) (different : a ≠ b)
    (same : identifier a = identifier b) : Renames a b ∨ Renames b a := by
  have apart {x y : String} : "_" ++ x ≠ "r#" ++ y := by simp [String.ext_iff]
  have marked {x y : String} (unmarked : Unmarked y) : "r#" ++ x ≠ y := by
    rintro rfl
    exact unmarked.2 (by simp)
  obtain ⟨known, escaped⟩ | ⟨-, escaped⟩ | kept := identifier_cases a
  · obtain ⟨-, escaped'⟩ | ⟨-, escaped'⟩ | kept' := identifier_cases b
    · exact absurd (by simpa [escaped, escaped', String.ext_iff] using same) different
    · exact absurd (escaped.symm.trans (same.trans escaped')) apart
    · rw [escaped, kept'] at same
      exact .inl (same ▸ .reserved known)
  · obtain ⟨-, escaped'⟩ | ⟨-, escaped'⟩ | kept' := identifier_cases b
    · exact absurd (escaped'.symm.trans (same.symm.trans escaped)) apart
    · exact absurd (by simpa [escaped, escaped', String.ext_iff] using same) different
    · exact absurd (escaped.symm.trans (same.trans kept')) (marked second)
  · obtain ⟨known', escaped'⟩ | ⟨-, escaped'⟩ | kept' := identifier_cases b
    · rw [kept, escaped'] at same
      exact .inr (same ▸ .reserved known')
    · exact absurd (escaped'.symm.trans (same.symm.trans kept)) (marked first)
    · exact absurd (kept.symm.trans (same.trans kept')) different

/-- Two names are the same in Rust if one of them takes the place of the other, and never else. -/
theorem declaredName_eq_iff (first : IsKey a) (second : IsKey b) (different : a ≠ b) :
    declaredName a = declaredName b ↔ Renames a b ∨ Renames b a := by
  constructor
  · intro same
    cases first with
    | tag known some =>
      rw [declaredName_tag known some] at same
      cases second with
      | tag known' some' =>
        rw [declaredName_tag known' some'] at same
        obtain ⟨rfl, rfl⟩ := renamed_inj known known' same
        exact absurd rfl different
      | plain unmarked =>
        rw [declaredName_of_unspaced unmarked.1] at same
        exact .inl (renames_of_tag known some same)
    | plain unmarked =>
      rw [declaredName_of_unspaced unmarked.1] at same
      cases second with
      | tag known some =>
        rw [declaredName_tag known some] at same
        exact .inr (renames_of_tag known some same.symm)
      | plain unmarked' =>
        rw [declaredName_of_unspaced unmarked'.1] at same
        exact renames_of_plain unmarked unmarked' different same
  · rintro (renames | renames)
    · exact renames.declaredName_eq second
    · exact (renames.declaredName_eq first).symm

end Rust

end CBindings
