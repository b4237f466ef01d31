import CBindings.Proofs.Macro.Nesting
import Mathlib

/-! Expansion keeps lines: whatever comes of a name of the source stands on the line of this name,
so lines do not fall where those of the source do not. -/

namespace CBindings.Expansion

variable {table : MacroTable} {m : Macro} {origin : Token}

/-! ### Bodies -/

def OnLine (line : Nat) (ps : List Pending) : Prop := ∀ p ∈ ps, p.token.line = line

section

variable {line : Nat} {ps qs : List Pending}

theorem onLine_nil : OnLine line [] := fun _ member => absurd member List.not_mem_nil

theorem OnLine.append (first : OnLine line ps) (second : OnLine line qs) : OnLine line (ps ++ qs) :=
  List.forall_mem_append.mpr ⟨first, second⟩

theorem onLine_fresh (origin : Token) (tokens : List Token) :
    OnLine origin.line (fresh origin tokens) := by
  intro p member
  obtain ⟨token, -, rfl⟩ := List.mem_map.mp member
  rfl

theorem onLine_moved (origin : Token) (argument : List Pending) :
    OnLine origin.line (moved origin argument) := by
  intro p member
  obtain ⟨source, -, rfl⟩ := List.mem_map.mp member
  rfl

theorem OnLine.placed (onLine : OnLine line ps) (hidden : List String) (depth : Nat) :
    OnLine line (placed hidden depth ps) := by
  intro p member
  obtain ⟨source, inside, rfl⟩ := List.mem_map.mp member
  exact onLine source inside

theorem OnLine.paste {front : List Pending} {last : Pending} (onLine : OnLine origin.line front)
    (here : last.token.line = origin.line) (m : Macro) (operand : Token) (tokens : List Token) :
    OnLine origin.line (paste m origin front last operand tokens) := by
  have one : ∀ hidden depth, OnLine origin.line [⟨last.token, hidden, depth⟩] := by
    intro hidden depth p member
    rw [List.mem_singleton.mp member]
    exact here
  unfold Expansion.paste
  split
  · refine OnLine.append ?_ (onLine_fresh origin tokens)
    split
    · exact onLine
    · exact onLine.append (one last.hidden last.depth)
  · split
    · exact onLine.append (one [] last.depth)
    · exact (onLine.append (onLine_fresh _ _)).append (onLine_fresh _ _)

end

/-- All that takes the place of an invocation stands on the line of its name: tokens of the body and
of arguments, and what is glued or quoted. -/
theorem onLine_substitute (m : Macro) (bound : List (String × List Pending)) (origin : Token)
    (expanded : String → StateM Findings (List Pending)) (known : Expanded) (done : List Pending)
    (body : List Token) (onLine : OnLine origin.line done) (findings : Findings) :
    OnLine origin.line (substitute m bound origin expanded known done body findings).1 := by
  fun_induction substitute m bound origin expanded known done body generalizing findings with
  | case1 known done => exact onLine
  | case2 known done token isParameter =>
    exact onLine.append (onLine_moved origin _)
  | case3 known done token notParameter => exact onLine.append (onLine_fresh origin _)
  | case4 known done token next rest argument quoted text ih =>
    exact ih (onLine.append (onLine_fresh origin _)) findings
  | case5 known done token next rest unquoted last pasted tokens ih =>
    -- Glueing takes back the last token, which may come from an argument but has been moved.
    refine ih (OnLine.paste ?_ ?_ m next tokens) findings
    · exact fun p member => onLine p ((List.dropLast_prefix done).subset member)
    · split at pasted
      · exact onLine last (List.mem_of_getLast? pasted)
      · cases pasted
  | case6 known done token next rest unquoted unpasted argument isParameter _ beforePaste ih =>
    exact ih _ (onLine.append (onLine_moved origin _)) findings
  | case7 known done token next rest unquoted unpasted argument isParameter _ notBefore ih =>
    exact ih _ (onLine.append (onLine_moved origin _)) _
  | case8 known done token next rest unquoted unpasted notParameter ih =>
    exact ih (onLine.append (onLine_fresh origin _)) findings

/-! ### Runs -/

/-- A waiting token with the token of the source that it comes from: itself, or the name that
started the outermost expansion it stands in. -/
structure Rooted where
  pending : Pending
  root : Token

namespace Rooted

def ofSource (token : Token) : Rooted := ⟨⟨token, [], 0⟩, token⟩

def under (root : Token) (body : List Pending) : List Rooted := body.map fun p => ⟨p, root⟩

def waiting (rs : List Rooted) : List Pending := rs.map Rooted.pending

end Rooted

def expandArgument (table : MacroTable) (header : Option String)
    (bound : List (String × List Pending)) (name : String) : StateM Findings (List Pending) :=
  fun findings =>
    match argument? bound name with
    | none => ([], findings)
    | some argument => expandPending table header argument findings

def Fills (table : MacroTable) (p : Pending) (m : Macro) (group : Group Pending)
    (filled : List Pending) : Prop :=
  let bound := Expansion.bind m p.token.line (arguments group.inside)
  ∃ header findings, filled =
    (substitute m bound p.token (expandArgument table header bound) [] [] m.body findings).1

/-- A run of the expansion that keeps in mind where its tokens come from: what it starts with and
what it gives. An expansion has the root of the name that it takes the place of. -/
inductive Traced (table : MacroTable) : List Rooted → List Rooted → Prop where
  | nil : Traced table [] []
  | keep {r : Rooted} {rest out : List Rooted}
      (here : turn table r.pending (Rooted.waiting rest) = .keep ∨
        turn table r.pending (Rooted.waiting rest) = .cycle)
      (others : Traced table rest out) : Traced table (r :: rest) (r :: out)
  | operand {r : Rooted} {rest out : List Rooted}
      (here : turn table r.pending (Rooted.waiting rest) = .operand)
      (others : Traced table (rest.drop (operandLength (Rooted.waiting rest))) out) :
      Traced table (r :: rest) (r :: rest.take (operandLength (Rooted.waiting rest)) ++ out)
  | object {r : Rooted} {m : Macro} {rest out : List Rooted}
      (here : turn table r.pending (Rooted.waiting rest) = .object m)
      (others : Traced table
        (Rooted.under r.root (placed (objectHidden r.pending m) (r.pending.depth + 1)
          (fresh r.pending.token m.body)) ++ rest) out) : Traced table (r :: rest) out
  | call {r : Rooted} {m : Macro} {group : Group Pending} {filled : List Pending}
      {rest out : List Rooted}
      (here : turn table r.pending (Rooted.waiting rest) = .call m group)
      (fills : Fills table r.pending m group filled)
      (others : Traced table
        (Rooted.under r.root (placed (callHidden r.pending m group)
          (Nat.min r.pending.depth group.close.depth + 1) filled) ++
            rest.drop (group.inside.length + 2)) out) : Traced table (r :: rest) out

theorem waiting_under (root : Token) (body : List Pending) :
    Rooted.waiting (Rooted.under root body) = body := by
  rw [Rooted.waiting, Rooted.under, List.map_map]
  exact List.map_id body

theorem after_of_call {p : Pending} {rest : List Pending} {group : Group Pending}
    (here : turn table p rest = .call m group) :
    rest.drop (group.inside.length + 2) = group.after := by
  obtain ⟨-, opening, more, rfl, cut⟩ := turn_call here
  rw [splitGroup?_eq cut, List.drop_succ_cons, List.drop_append]
  simp

theorem expandPending_traced (header : Option String) (ps : List Pending) (findings : Findings)
    (layers : List String) (nested : Nested table layers ps) (rs : List Rooted)
    (same : Rooted.waiting rs = ps) :
    ∃ out, Traced table rs out ∧
      Rooted.waiting out = (expandPending table header ps findings).1 := by
  -- Each turn of the loop is a step of a run. The turns that give up cannot happen, since what waits
  -- is nested in layers of distinct macros.
  fun_induction expandPending table header ps findings generalizing layers rs with
  | case1 findings =>
    obtain rfl := List.map_eq_nil_iff.mp same
    exact ⟨[], .nil, rfl⟩
  | case2 findings p rest keep here ih =>
    obtain ⟨r, rs, rfl, rfl, rfl⟩ := List.map_eq_cons_iff.mp same
    obtain ⟨out, traced, given⟩ := ih findings layers
      (nested.of_sublist (List.sublist_cons_self _ _)) rs rfl
    exact ⟨r :: out, .keep (.inl here) traced, congrArg (r.pending :: ·) given⟩
  | case3 findings p rest here n after ih' ih =>
    obtain ⟨r, rs, rfl, rfl, rfl⟩ := List.map_eq_cons_iff.mp same
    have part := (List.drop_sublist n (rs.map Rooted.pending)).trans
      (List.sublist_cons_self r.pending _)
    obtain ⟨out, traced, given⟩ := ih layers (nested.of_sublist part) (rs.drop n) List.map_drop
    refine ⟨_, .operand here traced, ?_⟩
    rw [Rooted.waiting, List.map_append, List.map_cons, List.map_take]
    exact congrArg (r.pending :: (rs.map Rooted.pending).take n ++ ·) given
  | case4 findings p rest keep here ih =>
    obtain ⟨r, rs, rfl, rfl, rfl⟩ := List.map_eq_cons_iff.mp same
    obtain ⟨out, traced, given⟩ := ih (findings.reportCycle header r.pending.token) layers
      (nested.of_sublist (List.sublist_cons_self _ _)) rs rfl
    exact ⟨r :: out, .keep (.inr here) traced, congrArg (r.pending :: ·) given⟩
  | case5 findings p rest m here within body ih' ih =>
    obtain ⟨r, rs, rfl, rfl, rfl⟩ := List.map_eq_cons_iff.mp same
    obtain ⟨out, traced, given⟩ := ih _ (nested.object_body here _)
      (Rooted.under r.root body ++ rs) (by
        rw [Rooted.waiting, List.map_append]
        exact congrArg (· ++ _) (waiting_under r.root body))
    exact ⟨out, .object here traced, given⟩
  | case6 findings p rest keep m here outside ih =>
    exact absurd (nested.object_within here) outside
  | case7 findings p rest m group here depth within bound expanded filled body _ ihArgument _ ih =>
    obtain ⟨r, rs, rfl, rfl, rfl⟩ := List.map_eq_cons_iff.mp same
    have arguments : expanded = expandArgument table header bound := by
      funext name findings
      simp only [expanded, expandArgument]
      split
      · next missing => rw [missing]
      · next argument found => rw [found]
    have fills : Fills table r.pending m group filled.1 :=
      ⟨header, findings, by rw [← arguments]⟩
    obtain ⟨out, traced, given⟩ := ih _ (nested.call_body here _)
      (Rooted.under r.root body ++ rs.drop (group.inside.length + 2)) (by
        rw [Rooted.waiting, List.map_append, List.map_drop, after_of_call here]
        exact congrArg (· ++ _) (waiting_under r.root body))
    exact ⟨out, .call here fills traced, given⟩
  | case8 findings p rest keep m group here depth outside ih =>
    exact absurd (nested.call_within here) outside

/-! ### Lines of a run -/

/-- Tokens stand on the lines of their roots, and these do not fall. A token that is not its own
root was made for a macro that its root names. -/
structure InPlace (table : MacroTable) (rs : List Rooted) : Prop where
  lines : ∀ r ∈ rs, r.pending.token.line = r.root.line
  made : ∀ r ∈ rs, r.pending.token = r.root ∨ ∃ m, table.named r.root = some m
  rising : rs.Pairwise fun r s => r.root.line ≤ s.root.line

namespace InPlace

variable {r : Rooted} {rest front back out : List Rooted}

theorem of_sublist (inPlace : InPlace table rest) (part : back.Sublist rest) :
    InPlace table back where
  lines r member := inPlace.lines r (part.subset member)
  made r member := inPlace.made r (part.subset member)
  rising := inPlace.rising.sublist part

theorem settle (inPlace : InPlace table (front ++ back)) (settled : InPlace table out)
    (roots : ∀ r ∈ out, ∃ s ∈ back, r.root = s.root) : InPlace table (front ++ out) where
  lines := List.forall_mem_append.mpr ⟨(List.forall_mem_append.mp inPlace.lines).1, settled.lines⟩
  made := List.forall_mem_append.mpr ⟨(List.forall_mem_append.mp inPlace.made).1, settled.made⟩
  rising := by
    obtain ⟨first, -, across⟩ := List.pairwise_append.mp inPlace.rising
    refine List.pairwise_append.mpr ⟨first, settled.rising, fun r here s later => ?_⟩
    obtain ⟨source, inBack, same⟩ := roots s later
    exact same ▸ across r here source inBack

/-- A body on the line of a name takes the place of the name and of some tokens after it. -/
theorem replace {m : Macro} {body : List Pending} (inPlace : InPlace table (r :: rest))
    (invokes : Invokes table r.pending m) (onLine : OnLine r.pending.token.line body)
    (part : back.Sublist rest) : InPlace table (Rooted.under r.root body ++ back) := by
  have others := inPlace.of_sublist (part.trans (List.sublist_cons_self r rest))
  have line := inPlace.lines r List.mem_cons_self
  have named : ∃ m, table.named r.root = some m := by
    rcases inPlace.made r List.mem_cons_self with same | named
    · exact ⟨m, same ▸ invokes.named⟩
    · exact named
  have least := (List.pairwise_cons.mp inPlace.rising).1
  have inBody : ∀ s ∈ Rooted.under r.root body,
      s.root = r.root ∧ s.pending.token.line = r.root.line := by
    intro s member
    obtain ⟨p, inside, rfl⟩ := List.mem_map.mp member
    exact ⟨rfl, (onLine p inside).trans line⟩
  constructor
  · refine List.forall_mem_append.mpr ⟨fun s member => ?_, others.lines⟩
    rw [(inBody s member).1, (inBody s member).2]
  · refine List.forall_mem_append.mpr ⟨fun s member => .inr ?_, others.made⟩
    rw [(inBody s member).1]
    exact named
  · refine List.pairwise_append.mpr ⟨?_, others.rising, fun s member t later => ?_⟩
    · refine List.pairwise_of_forall_mem_list fun s first t second => ?_
      exact Nat.le_of_eq (congrArg Token.line ((inBody s first).1.trans (inBody t second).1.symm))
    · rw [(inBody s member).1]
      exact least t (part.subset later)

end InPlace

variable {rs out : List Rooted}

theorem Traced.exists_root (traced : Traced table rs out) :
    ∀ r ∈ out, ∃ s ∈ rs, r.root = s.root := by
  have under {body : List Pending} {back rest : List Rooted} {r s : Rooted}
      (part : back.Sublist rest) (member : s ∈ Rooted.under r.root body ++ back) :
      ∃ t ∈ r :: rest, s.root = t.root := by
    rcases List.mem_append.mp member with inBody | later
    · obtain ⟨p, -, rfl⟩ := List.mem_map.mp inBody
      exact ⟨r, List.mem_cons_self, rfl⟩
    · exact ⟨s, List.mem_cons_of_mem _ (part.subset later), rfl⟩
  induction traced with
  | nil => nofun
  | keep here others ih =>
    refine List.forall_mem_cons.mpr ⟨⟨_, List.mem_cons_self, rfl⟩, fun s member => ?_⟩
    obtain ⟨source, inRest, same⟩ := ih s member
    exact ⟨source, List.mem_cons_of_mem _ inRest, same⟩
  | @operand r rest out here others ih =>
    intro s member
    rcases List.mem_append.mp member with kept | later
    · have part : (r :: rest.take (operandLength (Rooted.waiting rest))).Sublist (r :: rest) :=
        (List.take_sublist _ rest).cons_cons r
      exact ⟨s, part.subset kept, rfl⟩
    · obtain ⟨source, inRest, same⟩ := ih s later
      exact ⟨source, List.mem_cons_of_mem _ (List.mem_of_mem_drop inRest), same⟩
  | object here others ih =>
    intro s member
    obtain ⟨source, inside, same⟩ := ih s member
    rw [same]
    exact under (List.Sublist.refl _) inside
  | call here fills others ih =>
    intro s member
    obtain ⟨source, inside, same⟩ := ih s member
    rw [same]
    exact under (List.drop_sublist _ _) inside

theorem Traced.inPlace (traced : Traced table rs out) (inPlace : InPlace table rs) :
    InPlace table out := by
  induction traced with
  | nil => exact inPlace
  | @keep r rest out here others ih =>
    have settled := ih (inPlace.of_sublist (List.sublist_cons_self r rest))
    have parts : InPlace table ([r] ++ rest) := inPlace
    exact parts.settle settled others.exists_root
  | @operand r rest out here others ih =>
    have parts : r :: rest = (r :: rest.take (operandLength (Rooted.waiting rest))) ++
        rest.drop (operandLength (Rooted.waiting rest)) := by
      rw [List.cons_append, List.take_append_drop]
    rw [parts] at inPlace
    have settled := ih (inPlace.of_sublist (List.sublist_append_right _ _))
    exact inPlace.settle settled others.exists_root
  | object here others ih =>
    exact ih (inPlace.replace (turn_object here) ((onLine_fresh _ _).placed _ _)
      (List.Sublist.refl _))
  | call here fills others ih =>
    obtain ⟨header, findings, rfl⟩ := fills
    exact ih (inPlace.replace (turn_call here).1
      ((onLine_substitute _ _ _ _ _ _ _ onLine_nil _).placed _ _) (List.drop_sublist _ _))

theorem inPlace_ofSource {tokens : List Token} (ordered : tokens.Pairwise (·.line ≤ ·.line)) :
    InPlace table (tokens.map Rooted.ofSource) where
  lines := List.forall_mem_map.mpr fun _ _ => rfl
  made := List.forall_mem_map.mpr fun _ _ => .inl rfl
  rising := List.pairwise_map.mpr ordered

/-- If the lines of a source do not fall, those of its expansion do not either, and each is the line
of some token of the source. The expansion has a run in which every token has a root in the source:
the token itself, or the name of a macro that started the expansion it was made in. It stands on the
line of its root. -/
theorem expand_keeps_lines (table : MacroTable) (tokens : List Token) (header : Option String)
    (findings : Findings) (ordered : tokens.Pairwise (·.line ≤ ·.line)) :
    let expanded := (expand table tokens header findings).1
    expanded.Pairwise (·.line ≤ ·.line) ∧
      (∀ token ∈ expanded, ∃ source ∈ tokens, token.line = source.line) ∧
      ∃ out, Traced table (tokens.map Rooted.ofSource) out ∧
        out.map (·.pending.token) = expanded ∧
        ∀ r ∈ out, r.root ∈ tokens ∧ r.pending.token.line = r.root.line ∧
          (r.pending.token = r.root ∨ ∃ m, table.named r.root = some m) := by
  intro expanded
  obtain ⟨out, traced, given⟩ := expandPending_traced header _ findings []
    (nested_of_tokens table tokens) (tokens.map Rooted.ofSource) List.map_map
  have inPlace := traced.inPlace (inPlace_ofSource ordered)
  have tokens' : out.map (·.pending.token) = expanded :=
    List.map_map.symm.trans (congrArg (List.map Pending.token) given)
  have roots : ∀ r ∈ out, r.root ∈ tokens := by
    intro r member
    obtain ⟨s, inside, same⟩ := traced.exists_root r member
    obtain ⟨token, source, rfl⟩ := List.mem_map.mp inside
    exact same ▸ source
  refine ⟨?_, ?_, out, traced, tokens', fun r member => ?_⟩
  · rw [← tokens', List.pairwise_map]
    refine inPlace.rising.imp_of_mem fun first second le => ?_
    rw [inPlace.lines _ first, inPlace.lines _ second]
    exact le
  · rw [← tokens']
    refine List.forall_mem_map.mpr fun r member => ?_
    exact ⟨r.root, roots r member, inPlace.lines r member⟩
  · exact ⟨roots r member, inPlace.lines r member, inPlace.made r member⟩

def spreadTable : MacroTable :=
  ((MacroTable.ofPredefined ∅).define
    ⟨"G", tokenize "F" 1, none, false, none, none⟩).define
    ⟨"F", tokenize "a ## 1 # a , ## __VA_ARGS__ __VA_ARGS__" 2, some ["a"], true, none, none⟩

def spreadSource : List Token :=
  tokenize "x" 3 ++ tokenize "G ( p" 4 ++ tokenize ", x" 5 ++ tokenize ")" 6 ++ tokenize "y" 6

theorem expand_spreadSource :
    let expanded := [("x", 3), ("p1", 4), ("\"p\"", 4), (",", 4), ("x", 4), ("x", 4), ("y", 6)]
    spreadSource.Pairwise (·.line ≤ ·.line) ∧
      (expand spreadTable spreadSource none {}).1.map (fun t => (t.text, t.line)) = expanded ∧
      ∃ out, Traced spreadTable (spreadSource.map Rooted.ofSource) out ∧
        out.map (fun r => (r.pending.token.text, r.root.line)) = expanded := by
  intro expanded
  have ordered : spreadSource.Pairwise (·.line ≤ ·.line) := by decide +kernel
  have given : (expand spreadTable spreadSource none {}).1.map (fun t => (t.text, t.line)) =
      expanded := by cbv
  obtain ⟨-, -, out, traced, tokens, rooted⟩ :=
    expand_keeps_lines spreadTable spreadSource none {} ordered
  refine ⟨ordered, given, out, traced, ?_⟩
  rw [← given, ← tokens, List.map_map]
  refine List.map_congr_left fun r member => ?_
  exact congrArg (Prod.mk _) (rooted r member).2.1.symm

end CBindings.Expansion
