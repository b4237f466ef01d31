import CBindings.Target
import Mathlib.Data.Multiset.AddSub
import Mathlib.Data.Multiset.Filter
import Mathlib.Data.List.Permutation

/-! Which words form a primitive type. The words that C allows are a relation between multisets and
what they denote; the canonical name is found for these and for the same with idle words added. -/

namespace CBindings.Primitive

/-! ### What words denote -/

inductive Sign where
  | signed
  | unsigned
  deriving DecidableEq, Repr

def Sign.word : Sign → String
  | .signed => "signed"
  | .unsigned => "unsigned"

inductive Size where
  | char
  | short
  | int
  | long
  | longLong
  | int8
  | int16
  | int32
  | int64
  | int3264
  deriving DecidableEq, Repr

namespace Size

def words : Size → List String
  | char => ["char"]
  | short => ["short"]
  | int => ["int"]
  | long => ["long"]
  | longLong => ["long", "long"]
  | int8 => ["__int8"]
  | int16 => ["__int16"]
  | int32 => ["__int32"]
  | int64 => ["__int64"]
  | int3264 => ["__int3264"]

def name : Size → String
  | longLong => "long long"
  | size => size.words.headD ""

def bits (target : Target) : Size → Nat
  | char | int8 => 8
  | short | int16 => 16
  | int | int32 => 32
  | long => target.longWidth
  | longLong | int64 => 64
  | int3264 => target.pointerWidth

def takesInt (size : Size) : Bool := size ∈ [short, long, longLong]

end Size

/-- What a multiset of words stands for. Only for `char` no sign and `signed` are two types. -/
inductive Meaning where
  | void
  | bool
  | float
  | double
  | longDouble
  | integer (sign : Option Sign) (size : Size)
  deriving DecidableEq, Repr

namespace Meaning

def name : Meaning → String
  | void => "void"
  | bool => "_Bool"
  | float => "float"
  | double => "double"
  | longDouble => "long double"
  | integer (some .signed) .char => "signed char"
  | integer (some .unsigned) size => "unsigned " ++ size.name
  | integer _ size => size.name

def width (target : Target) : Meaning → Option (Nat × Bool)
  | integer none .char => some (8, target.charSigned)
  | integer sign size => some (size.bits target, sign ≠ some .unsigned)
  | _ => none

def takesSign : Meaning → Bool
  | integer _ _ => true
  | _ => false

end Meaning

def unsignable : List (List String × Meaning) :=
  [(["void"], .void), (["_Bool"], .bool), (["bool"], .bool), (["float"], .float),
   (["double"], .double), (["long", "double"], .longDouble)]

def signWords (sign : Option Sign) : List String := (sign.map Sign.word).toList

/-- The words C allows together: `int` may be left out beside a sign, and it may stand once beside
`short`, `long` and `long long`. -/
inductive Denotes : Multiset String → Meaning → Prop where
  | alone {words : List String} {m : Meaning} (listed : (words, m) ∈ unsignable) :
    Denotes words m
  | integer (sign : Option Sign) (size : Size) :
    Denotes (signWords sign ++ size.words : List String) (.integer sign size)
  | intOmitted (sign : Sign) : Denotes ([sign.word] : List String) (.integer (some sign) .int)
  | intAdded (sign : Option Sign) {size : Size} (takes : size.takesInt = true) :
    Denotes (signWords sign ++ size.words ++ ["int"] : List String) (.integer sign size)

def Idle (core : Multiset String) (m : Meaning) (word : String) : Prop :=
  word = "int" ∨ ∃ sign : Sign, word = sign.word ∧ (word ∈ core ∨ m.takesSign = false)

def Conflict (words : Multiset String) : Prop :=
  Sign.signed.word ∈ words ∧ Sign.unsigned.word ∈ words

/-- The words that C allows for a meaning, and idle words. -/
def Accepts (words : Multiset String) (m : Meaning) : Prop :=
  ¬Conflict words ∧ ∃ core rest, words = core + rest ∧ Denotes core m ∧ ∀ w ∈ rest, Idle core m w

theorem name_mem_names (m : Meaning) : m.name ∈ names := by
  cases m with
  | integer sign size =>
    have each : ∀ sign : Option Sign, (Meaning.integer sign size).name ∈ names := by
      intro sign
      rcases sign with _ | _ | _ <;> cases size <;> decide +kernel
    exact each sign
  | _ => decide

theorem primitiveWidth_name (target : Target) (m : Meaning) :
    target.primitiveWidth m.name = m.width target := by
  cases m with
  | integer sign size => rcases sign with _ | _ | _ <;> cases size <;> rfl
  | _ => rfl

/-! ### Signs and the words kept -/

variable {words words' : List String} {core rest : Multiset String} {m : Meaning} {name : String}
  {sign : Option Sign} {size : Size}

def HasSign (words : Multiset String) (sign : Option Sign) : Prop :=
  ∀ s : Sign, s.word ∈ words ↔ sign = some s

theorem exists_hasSign {words : Multiset String} (one : ¬Conflict words) :
    ∃ sign, HasSign words sign := by
  by_cases unsigned : Sign.unsigned.word ∈ words
  · have signed : Sign.signed.word ∉ words := fun signed => one ⟨signed, unsigned⟩
    refine ⟨some .unsigned, fun s => ?_⟩
    cases s <;> simp [unsigned, signed]
  · by_cases signed : Sign.signed.word ∈ words
    · refine ⟨some .signed, fun s => ?_⟩
      cases s <;> simp [unsigned, signed]
    · refine ⟨none, fun s => ?_⟩
      cases s <;> simp [unsigned, signed]

theorem HasSign.not_conflict {words : Multiset String} (has : HasSign words sign) :
    ¬Conflict words := by
  intro conflict
  have signed := (has .signed).mp conflict.1
  have unsigned := (has .unsigned).mp conflict.2
  exact absurd (signed.symm.trans unsigned) (by decide)

def IsModifier (word : String) : Prop := word ∈ ["signed", "unsigned", "int"]

instance : DecidablePred IsModifier := fun word =>
  inferInstanceAs (Decidable (word ∈ ["signed", "unsigned", "int"]))

theorem isModifier_word (s : Sign) : IsModifier s.word := by
  cases s <;> decide

def kept (words : List String) : List String := words.filter fun w => ¬IsModifier w

theorem Idle.isModifier {word : String} (idle : Idle core m word) : IsModifier word := by
  rcases idle with rfl | ⟨sign, rfl, -⟩
  · decide
  · exact isModifier_word sign

theorem canonical_congr (signs : ∀ s : Sign, s.word ∈ words ↔ s.word ∈ words')
    (same : kept words = kept words') :
    (canonical words).toOption = (canonical words').toOption := by
  have sameUnsigned : words.contains "unsigned" = words'.contains "unsigned" := by
    rw [Bool.eq_iff_iff, List.contains_iff_mem, List.contains_iff_mem]
    exact signs .unsigned
  have sameSigned : words.contains "signed" = words'.contains "signed" := by
    rw [Bool.eq_iff_iff, List.contains_iff_mem, List.contains_iff_mem]
    exact signs .signed
  have sameKept : words.filter (fun w => w ∉ ["signed", "unsigned", "int"]) =
      words'.filter fun w => w ∉ ["signed", "unsigned", "int"] := same
  unfold canonical
  simp only [sameUnsigned, sameSigned, sameKept]
  split
  · rfl
  · split <;> first | rfl | (split <;> rfl)

theorem canonical_normal (has : HasSign words sign) :
    (canonical words).toOption = (canonical (signWords sign ++ kept words)).toOption := by
  have signs : ∀ s, s.word ∈ signWords sign ↔ sign = some s := by
    intro s
    rcases sign with _ | _ | _ <;> cases s <;> decide
  apply canonical_congr
  · intro s
    have noSign : s.word ∉ kept words := by
      intro member
      exact of_decide_eq_true (List.mem_filter.mp member).2 (isModifier_word s)
    rw [List.mem_append, or_iff_left noSign, signs s]
    exact has s
  · have first : kept (signWords sign) = [] := by
      rcases sign with _ | _ | _ <;> rfl
    have second : kept (kept words) = kept words := by
      unfold kept
      rw [List.filter_filter]
      simp only [Bool.and_self]
    calc kept words = kept (signWords sign) ++ kept (kept words) := by
          rw [first, second, List.nil_append]
      _ = kept (signWords sign ++ kept words) := (List.filter_append ..).symm

/-! ### Canonical names of what is kept -/

theorem canonical_unsignable (listed : (words, m) ∈ unsignable) (order : words'.Perm words)
    (sign : Option Sign) : canonical (signWords sign ++ words') = .ok m.name := by
  have each : ∀ entry ∈ unsignable, ∀ order ∈ entry.1.permutations',
      canonical (signWords none ++ order) = .ok entry.2.name ∧
      canonical (signWords (some .signed) ++ order) = .ok entry.2.name ∧
      canonical (signWords (some .unsigned) ++ order) = .ok entry.2.name := by decide
  have known := each _ listed words' (List.mem_permutations'.mpr order)
  rcases sign with _ | _ | _
  · exact known.1
  · exact known.2.1
  · exact known.2.2

theorem canonical_size (sign : Option Sign) (order : words'.Perm (kept size.words)) :
    canonical (signWords sign ++ words') = .ok (Meaning.integer sign size).name := by
  have each : ∀ order ∈ (kept size.words).permutations',
      canonical (signWords sign ++ order) = .ok (Meaning.integer sign size).name := by
    rcases sign with _ | _ | _ <;> cases size <;> decide +kernel
  exact each words' (List.mem_permutations'.mpr order)

theorem kept_of_canonical (known : ∀ w ∈ words, w ∈ keywords)
    (found : canonical words = .ok name) :
    (∃ entry ∈ unsignable, (kept words).Perm entry.1) ∨
      ∃ size : Size, kept words = kept size.words := by
  have same : words.filter (fun w => w ∉ ["signed", "unsigned", "int"]) = kept words := rfl
  unfold canonical at found
  rw [same] at found
  extract_lets unsigned signed at found
  split at found
  · cases found
  · split at found
    · next none => exact .inr ⟨.int, none⟩
    · next void => exact .inl (by rw [void]; decide)
    · next bool => exact .inl (by rw [bool]; decide)
    · next bool => exact .inl (by rw [bool]; decide)
    · next float => exact .inl (by rw [float]; decide)
    · next double => exact .inl (by rw [double]; decide)
    · next longDouble => exact .inl (by rw [longDouble]; decide)
    · next longDouble => exact .inl (by rw [longDouble]; decide)
    · next char => exact .inr ⟨.char, char⟩
    · next short => exact .inr ⟨.short, short⟩
    · next long => exact .inr ⟨.long, long⟩
    · next longLong => exact .inr ⟨.longLong, longLong⟩
    · next word _ _ _ _ _ _ _ _ one =>
      split at found
      · next exact_width =>
        have keyword : word ∈ keywords := by
          apply known
          have member : word ∈ kept words := one ▸ List.mem_singleton_self word
          exact List.mem_of_mem_filter member
        have each : ∀ w ∈ keywords, "__int".isPrefixOf w = true →
            w ∈ ["__int8", "__int16", "__int32", "__int64", "__int3264"] := by decide +kernel
        have exact_words := each word keyword exact_width
        simp only [List.mem_cons, List.not_mem_nil, or_false] at exact_words
        rcases exact_words with rfl | rfl | rfl | rfl | rfl
        · exact .inr ⟨.int8, one⟩
        · exact .inr ⟨.int16, one⟩
        · exact .inr ⟨.int32, one⟩
        · exact .inr ⟨.int64, one⟩
        · exact .inr ⟨.int3264, one⟩
      · cases found
    · cases found

theorem Denotes.kept_sign (denotes : Denotes core m) :
    (∃ words, (words, m) ∈ unsignable ∧ core = words) ∨
      ∃ sign size words, m = .integer sign size ∧ core = (words : List String) ∧
        kept words = kept size.words ∧ HasSign words sign := by
  have hasSign {words : List String} {sign : Option Sign}
      (each : ∀ s ∈ [Sign.signed, .unsigned], s.word ∈ words ↔ sign = some s) :
      HasSign words sign := by
    intro s
    exact each s (by cases s <;> decide)
  cases denotes with
  | alone listed => exact .inl ⟨_, listed, rfl⟩
  | integer sign size =>
    refine .inr ⟨sign, size, _, rfl, rfl, ?_, hasSign ?_⟩
    · rcases sign with _ | _ | _ <;> cases size <;> decide
    · rcases sign with _ | _ | _ <;> cases size <;> decide
  | intOmitted sign =>
    refine .inr ⟨some sign, .int, _, rfl, rfl, ?_, hasSign ?_⟩
    · cases sign <;> decide
    · cases sign <;> decide
  | @intAdded sign size takes =>
    refine .inr ⟨sign, size, _, rfl, rfl, ?_, hasSign ?_⟩
    · rcases sign with _ | _ | _ <;> cases size <;> decide
    · rcases sign with _ | _ | _ <;> cases size <;> decide

/-! ### Words that are accepted -/

theorem kept_perm (whole : (words : Multiset String) = (words' : Multiset String) + rest)
    (idle : ∀ w ∈ rest, IsModifier w) : (kept words).Perm (kept words') := by
  have none : rest.filter (fun w => ¬IsModifier w) = 0 :=
    Multiset.filter_eq_nil.mpr fun w member => not_not.mpr (idle w member)
  apply Multiset.coe_eq_coe.mp
  calc (kept words : Multiset String)
      = (words : Multiset String).filter fun w => ¬IsModifier w := (Multiset.filter_coe ..).symm
    _ = (words' : Multiset String).filter fun w => ¬IsModifier w := by
      rw [whole, Multiset.filter_add, none, Multiset.add_zero]
    _ = kept words' := Multiset.filter_coe ..

theorem canonical_of_accepts (accepts : Accepts words m) : canonical words = .ok m.name := by
  obtain ⟨one, core, rest, whole, denotes, idle⟩ := accepts
  have modifiers : ∀ w ∈ rest, IsModifier w := fun w member => (idle w member).isModifier
  have of_normal {sign : Option Sign} (has : HasSign words sign)
      (normal : canonical (signWords sign ++ kept words) = .ok m.name) :
      canonical words = .ok m.name := by
    have same := canonical_normal has
    rw [normal] at same
    cases found : canonical words with
    | error => simp [found, Except.toOption] at same
    | ok name =>
      have sameName : name = m.name := by simpa [found, Except.toOption] using same
      rw [sameName]
  rcases denotes.kept_sign with ⟨words', listed, rfl⟩ | ⟨sign, size, words', rfl, rfl, keeps, has⟩
  · have keeps : ∀ entry ∈ unsignable, kept entry.1 = entry.1 := by decide
    have order := kept_perm whole modifiers
    rw [keeps _ listed] at order
    obtain ⟨sign, has⟩ := exists_hasSign one
    exact of_normal has (canonical_unsignable listed order sign)
  · have order := kept_perm whole modifiers
    rw [keeps] at order
    apply of_normal _ (canonical_size sign order)
    intro s
    rw [whole, Multiset.mem_add, ← has s]
    constructor
    · rintro (inCore | inRest)
      · exact inCore
      · rcases idle _ inRest with int | ⟨s', -, present | takesNone⟩
        · cases s <;> exact absurd int (by decide)
        · exact present
        · exact nomatch takesNone
    · exact .inl

theorem not_conflict_of_canonical (found : canonical words = .ok name) : ¬Conflict words := by
  rintro ⟨signed, unsigned⟩
  have both : (words.contains "unsigned" && words.contains "signed") = true := by
    rw [Bool.and_eq_true, List.contains_iff_mem, List.contains_iff_mem]
    exact ⟨unsigned, signed⟩
  unfold canonical at found
  simp only [both, if_true] at found
  cases found

theorem IsModifier.eq_int {word : String} (modifier : IsModifier word)
    (noSign : ∀ s : Sign, word ≠ s.word) : word = "int" := by
  have three : word = "signed" ∨ word = "unsigned" ∨ word = "int" := by
    simpa [IsModifier] using modifier
  rcases three with signed | unsigned | int
  · exact absurd signed (noSign .signed)
  · exact absurd unsigned (noSign .unsigned)
  · exact int

theorem size_kept (size : Size) :
    size = .int ∧ kept size.words = [] ∨ kept size.words = size.words := by
  cases size <;> decide

theorem Accepts.of_core (one : ¬Conflict words) (denotes : Denotes core m)
    (whole : (words : Multiset String) = core + rest) (modifiers : ∀ w ∈ rest, IsModifier w)
    (signs : ∀ s : Sign, s.word ∈ rest → s.word ∈ core ∨ m.takesSign = false) :
    Accepts words m := by
  refine ⟨one, core, rest, whole, denotes, fun w member => ?_⟩
  by_cases sign : ∃ s : Sign, w = s.word
  · obtain ⟨s, rfl⟩ := sign
    exact .inr ⟨s, rfl, signs s member⟩
  · exact .inl ((modifiers w member).eq_int fun s same => sign ⟨s, same⟩)

/-- One of the signs stands beside the words kept, and the others of them repeat it. -/
theorem accepts_signed {s : Sign} (has : HasSign words (some s))
    (whole : (words : Multiset String) = kept size.words + rest)
    (modifiers : ∀ w ∈ rest, IsModifier w) (present : s.word ∈ rest) :
    Accepts words (.integer (some s) size) := by
  obtain ⟨others, rfl⟩ := Multiset.exists_cons_of_mem present
  have denotes : Denotes (s.word :: kept size.words : List String) (.integer (some s) size) := by
    rcases size_kept size with ⟨rfl, none⟩ | all
    · rw [none]
      exact .intOmitted s
    · rw [all]
      exact .integer (some s) size
  have parts : (words : Multiset String) = (s.word :: kept size.words : List String) + others := by
    rw [whole, Multiset.add_cons, ← Multiset.cons_add, Multiset.cons_coe]
  apply Accepts.of_core has.not_conflict denotes parts
  · exact fun w member => modifiers w (Multiset.mem_cons_of_mem member)
  · intro s' member
    have same : some s = some s' := by
      apply (has s').mp
      rw [parts]
      exact Multiset.mem_add.mpr (.inr member)
    obtain rfl := Option.some.inj same
    exact .inl List.mem_cons_self

/-- Without a sign only `int` can stand beside the words kept, and it does where there are none. -/
theorem accepts_plain (has : HasSign words none) (someWord : words ≠ [])
    (whole : (words : Multiset String) = kept size.words + rest)
    (modifiers : ∀ w ∈ rest, IsModifier w) : Accepts words (.integer none size) := by
  have noSign : ∀ s : Sign, s.word ∉ rest := by
    intro s member
    have present : s.word ∈ (words : Multiset String) := by
      rw [whole]
      exact Multiset.mem_add.mpr (.inr member)
    exact nomatch (has s).mp present
  rcases size_kept size with ⟨rfl, empty⟩ | all
  · rw [empty, Multiset.coe_nil, Multiset.zero_add] at whole
    obtain ⟨w, first⟩ := List.exists_mem_of_ne_nil words someWord
    have member : w ∈ rest := whole ▸ Multiset.mem_coe.mpr first
    have int : w = "int" := (modifiers w member).eq_int fun s same => noSign s (same ▸ member)
    obtain ⟨others, rfl⟩ := Multiset.exists_cons_of_mem (int ▸ member)
    apply Accepts.of_core has.not_conflict (.integer none .int) whole
    · exact fun w member => modifiers w (Multiset.mem_cons_of_mem member)
    · exact fun s member => absurd (Multiset.mem_cons_of_mem member) (noSign s)
  · rw [all] at whole
    exact .of_core has.not_conflict (.integer none size) whole modifiers fun s member =>
      absurd member (noSign s)

theorem exists_accepts (known : ∀ w ∈ words, w ∈ keywords) (someWord : words ≠ [])
    (found : canonical words = .ok name) : ∃ m, Accepts words m := by
  have one := not_conflict_of_canonical found
  let others := (words : Multiset String).filter IsModifier
  have whole : (words : Multiset String) = kept words + others := by
    have parts := Multiset.filter_add_not IsModifier (words : Multiset String)
    rw [Multiset.filter_coe (fun w => ¬IsModifier w)] at parts
    rw [Multiset.add_comm]
    exact parts.symm
  have modifiers : ∀ w ∈ others, IsModifier w := fun w => Multiset.of_mem_filter
  rcases kept_of_canonical known found with ⟨entry, listed, order⟩ | ⟨size, keeps⟩
  · have takesNone : ∀ entry ∈ unsignable, entry.2.takesSign = false := by decide
    rw [Multiset.coe_eq_coe.mpr order] at whole
    exact ⟨entry.2, .of_core one (.alone listed) whole modifiers fun _ _ =>
      .inr (takesNone entry listed)⟩
  · rw [keeps] at whole
    obtain ⟨sign, has⟩ := exists_hasSign one
    cases sign with
    | some s =>
      have present : s.word ∈ others :=
        Multiset.mem_filter.mpr ⟨(has s).mpr rfl, isModifier_word s⟩
      exact ⟨_, accepts_signed has whole modifiers present⟩
    | none => exact ⟨_, accepts_plain has someWord whole modifiers⟩

theorem Denotes.accepts (denotes : Denotes core m) : Accepts core m := by
  have one : ¬Conflict core := by
    rcases denotes.kept_sign with ⟨words, listed, rfl⟩ | ⟨sign, size, words, -, rfl, -, has⟩
    · have unsigned : ∀ entry ∈ unsignable, Sign.signed.word ∉ entry.1 := by decide
      exact fun conflict => unsigned _ listed conflict.1
    · exact has.not_conflict
  refine ⟨one, core, 0, (Multiset.add_zero core).symm, denotes, fun w none => ?_⟩
  exact absurd none (Multiset.notMem_zero w)

/-- Words have a canonical name exactly where they are words that C allows and idle words, in any
order. The name is that of what they denote, with its width and its sign on every target. -/
theorem canonical_specifiers (known : ∀ w ∈ words, w ∈ keywords) (someWord : words ≠ []) :
    (∀ name, canonical words = .ok name ↔ ∃ m, Accepts words m ∧ name = m.name) ∧
      (∀ m, Denotes words m → canonical words = .ok m.name) ∧
      (∀ words', words'.Perm words → (canonical words').toOption = (canonical words).toOption) ∧
      ∀ m, Accepts words m →
        m.name ∈ names ∧ ∀ target : Target, target.primitiveWidth m.name = m.width target := by
  have exactly {words : List String} (known : ∀ w ∈ words, w ∈ keywords) (someWord : words ≠ [])
      (name : String) : canonical words = .ok name ↔ ∃ m, Accepts words m ∧ name = m.name := by
    constructor
    · intro found
      obtain ⟨m, accepts⟩ := exists_accepts known someWord found
      have same := found.symm.trans (canonical_of_accepts accepts)
      exact ⟨m, accepts, Except.ok.inj same⟩
    · rintro ⟨m, accepts, rfl⟩
      exact canonical_of_accepts accepts
  refine ⟨exactly known someWord, fun m denotes => canonical_of_accepts denotes.accepts, ?_, ?_⟩
  · intro words' order
    have known' : ∀ w ∈ words', w ∈ keywords := fun w member => known w (order.mem_iff.mp member)
    have someWord' : words' ≠ [] := by
      rintro rfl
      exact someWord order.nil_eq.symm
    have same (name : String) : canonical words' = .ok name ↔ canonical words = .ok name := by
      rw [exactly known someWord, exactly known' someWord', Multiset.coe_eq_coe.mpr order]
    cases found : canonical words' with
    | ok name => rw [(same name).mp found]
    | error =>
      cases other : canonical words with
      | ok name => exact absurd (found.symm.trans ((same name).mpr other)) nofun
      | error => rfl
  · exact fun m _ => ⟨name_mem_names m, fun target => primitiveWidth_name target m⟩

theorem canonical_unsignedLongLong :
    (∀ w ∈ ["long", "unsigned", "int", "long"], w ∈ keywords) ∧
      ["long", "unsigned", "int", "long"] ≠ [] ∧
      Denotes (["long", "unsigned", "int", "long"] : List String)
        (.integer (some .unsigned) .longLong) ∧
      canonical ["long", "unsigned", "int", "long"] = .ok "unsigned long long" := by
  have known : ∀ w ∈ ["long", "unsigned", "int", "long"], w ∈ keywords := by decide
  have someWord : ["long", "unsigned", "int", "long"] ≠ [] := by decide
  have order : ["long", "unsigned", "int", "long"].Perm
      (signWords (some .unsigned) ++ Size.longLong.words ++ ["int"]) := by decide
  have denotes : Denotes (["long", "unsigned", "int", "long"] : List String)
      (.integer (some .unsigned) .longLong) := by
    rw [Multiset.coe_eq_coe.mpr order]
    exact .intAdded (some .unsigned) rfl
  exact ⟨known, someWord, denotes, (canonical_specifiers known someWord).2.1 _ denotes⟩

/-- A sign beside `void` is dropped, although C has no such type. -/
theorem signedVoid_accepted :
    canonical ["signed", "void"] = .ok "void" ∧
      ∀ m, ¬Denotes (["signed", "void"] : List String) m := by
  refine ⟨by decide, fun m denotes => ?_⟩
  rcases denotes.kept_sign with ⟨words, listed, same⟩ | ⟨sign, size, words, -, same, keeps, -⟩
  · have other : ∀ entry ∈ unsignable, ¬["signed", "void"].Perm entry.1 := by decide
    exact other _ listed (Multiset.coe_eq_coe.mp same)
  · have order : (kept ["signed", "void"]).Perm (kept words) :=
      (Multiset.coe_eq_coe.mp same).filter _
    rw [keeps] at order
    have other : ¬(kept ["signed", "void"]).Perm (kept size.words) := by
      cases size <;> decide
    exact other order

end CBindings.Primitive
