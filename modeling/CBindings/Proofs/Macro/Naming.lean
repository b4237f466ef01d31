import CBindings.Proofs.Macro.Nesting
import CBindings.Proofs.Token.Name

/-! Expansion keeps identifiers: whatever is moved or glued, each identifier that comes of it is one
that the lexer can read. -/

namespace CBindings

open Lexer

def Token.Named (token : Token) : Prop := token.kind = .ident → IsName token.text.toList

theorem named_of_mem_tokensOf {line : Nat} {text : List Char} :
    ∀ token ∈ tokensOf line text, token.Named := fun _ member => isName_of_mem member

def MacroTable.Named (table : MacroTable) : Prop :=
  ∀ name m, table.lookup name = some m → ∀ token ∈ m.body, token.Named

namespace MacroTable

variable {table : MacroTable}

theorem Named.define (named : table.Named) {m : Macro} (body : ∀ token ∈ m.body, token.Named) :
    (table.define m).Named := by
  intro name other found
  unfold MacroTable.define at found
  split at found
  · exact named name other found
  · simp only [lookup, OrderedMap.get?_insert] at found
    split at found
    · cases found
      exact body
    · exact named name other found

theorem Named.undefine (named : table.Named) (name : String) : (table.undefine name).Named := by
  intro other m found
  unfold MacroTable.undefine at found
  split at found
  · exact named other m found
  · simp only [lookup, OrderedMap.get?_erase] at found
    split at found
    · cases found
    · exact named other m found

theorem named_ofPredefined (texts : OrderedMap String String) : (ofPredefined texts).Named := by
  intro name m found
  have listed := OrderedMap.mem_ofList (OrderedMap.mem_of_get? found)
  obtain ⟨⟨key, text⟩, -, same⟩ := List.mem_map.mp listed
  cases same
  exact named_of_mem_tokensOf

end MacroTable

namespace Expansion

open Pending

def Named (ps : List Pending) : Prop := ∀ p ∈ ps, p.token.Named

variable {table : MacroTable} {m : Macro} {origin : Token} {ps qs : List Pending}

theorem Named.append (first : Named ps) (second : Named qs) : Named (ps ++ qs) :=
  List.forall_mem_append.mpr ⟨first, second⟩

theorem Named.subset (named : Named ps) (part : qs ⊆ ps) : Named qs :=
  fun p member => named p (part member)

theorem named_fresh {tokens : List Token} (origin : Token)
    (named : ∀ token ∈ tokens, token.Named) : Named (fresh origin tokens) := by
  intro p member
  obtain ⟨token, inside, rfl⟩ := List.mem_map.mp member
  exact named token inside

theorem Named.moved (named : Named ps) (origin : Token) : Named (moved origin ps) := by
  intro p member
  obtain ⟨source, inside, rfl⟩ := List.mem_map.mp member
  exact named source inside

theorem Named.placed (named : Named ps) (hidden : List String) (depth : Nat) :
    Named (placed hidden depth ps) := by
  intro p member
  obtain ⟨source, inside, rfl⟩ := List.mem_map.mp member
  exact named source inside

/-- All identifiers weigh, so a part with the same weighing tokens is enough. -/
theorem Named.of_weighing (named : Named ps) (part : (weighing qs).Sublist (weighing ps)) :
    Named qs := by
  intro p member ident
  have weighs : p.weighs = true := by simp [Pending.weighs, ident]
  have inside := part.subset (List.mem_filter.mpr ⟨member, weighs⟩)
  exact named p (List.mem_filter.mp inside).1 ident

theorem Named.paste {last : Pending} {tokens : List Token} (front : Named ps)
    (here : last.token.Named) (given : ∀ token ∈ tokens, token.Named) (m : Macro) (origin : Token)
    (operand : Token) : Named (paste m origin ps last operand tokens) := by
  have one (hidden : List String) (depth : Nat) : Named [⟨last.token, hidden, depth⟩] :=
    List.forall_mem_singleton.mpr here
  unfold Expansion.paste
  split
  · refine Named.append ?_ (named_fresh origin given)
    split
    · exact front
    · exact front.append (one last.hidden last.depth)
  · split
    · exact front.append (one [] last.depth)
    · next token rest =>
      have later := (List.forall_mem_cons.mp given).2
      have glued : ∀ t ∈ tokenize (last.token.text ++ token.text) origin.line, t.Named :=
        named_of_mem_tokensOf
      exact (front.append (named_fresh origin glued)).append (named_fresh origin later)

/-- What is found of the arguments that are expanded already, and what they are found to be. -/
theorem named_expandOnce {expanded : String → StateM Findings (List Pending)} {known : Expanded}
    (arguments : ∀ name findings, Named (expanded name findings).1)
    (before : ∀ pair ∈ known, Named pair.2) (name : String) (findings : Findings) :
    Named (expandOnce expanded known name findings).1.1 ∧
      ∀ pair ∈ (expandOnce expanded known name findings).1.2, Named pair.2 := by
  unfold expandOnce
  cases found : known.lookup name with
  | some argument => exact ⟨before _ (mem_of_lookup found), before⟩
  | none => exact ⟨arguments name findings, List.forall_mem_cons.mpr ⟨arguments name findings, before⟩⟩

theorem named_substitute {bound : List (String × List Pending)}
    (given : ∀ name argument, argument? bound name = some argument → Named argument)
    {expanded : String → StateM Findings (List Pending)}
    (arguments : ∀ name findings, Named (expanded name findings).1) (m : Macro) (origin : Token)
    {known : Expanded} (before : ∀ pair ∈ known, Named pair.2) {done : List Pending}
    (named : Named done) {body : List Token} (isBody : ∀ token ∈ body, token.Named)
    (findings : Findings) :
    Named (substitute m bound origin expanded known done body findings).1 := by
  fun_induction substitute m bound origin expanded known done body generalizing findings with
  | case1 known done => exact named
  | case2 known done token isParameter =>
    exact named.append ((named_expandOnce arguments before token.text findings).1.moved origin)
  | case3 known done token notParameter => exact named.append (named_fresh origin isBody)
  | case4 known done token next rest argument quoted text ih =>
    have later : ∀ t ∈ rest, t.Named := fun t member => isBody t (by simp [member])
    refine ih before (named.append (named_fresh origin ?_)) later findings
    exact List.forall_mem_singleton.mpr fun none => nomatch none
  | case5 known done token next rest unquoted last pasted tokens ih =>
    have later : ∀ t ∈ rest, t.Named := fun t member => isBody t (by simp [member])
    have front : Named done.dropLast := named.subset (List.dropLast_prefix done).subset
    have here : last.token.Named := by
      split at pasted
      · exact named last (List.mem_of_getLast? pasted)
      · cases pasted
    have operand : ∀ t ∈ tokens, t.Named := by
      unfold tokens
      split
      · next argument found => simpa [Named] using given next.text argument found
      · exact List.forall_mem_singleton.mpr (isBody next (by simp))
    exact ih before (front.paste here operand m origin next) later findings
  | case6 known done token next rest unquoted unpasted argument isParameter _ beforePaste ih =>
    have later := (List.forall_mem_cons.mp isBody).2
    have own : Named argument := by
      split at isParameter
      · exact given token.text argument isParameter
      · cases isParameter
    exact ih _ before (named.append (own.moved origin)) later findings
  | case7 known done token next rest unquoted unpasted argument isParameter _ notBefore ih =>
    have later := (List.forall_mem_cons.mp isBody).2
    obtain ⟨own, known⟩ := named_expandOnce arguments before token.text findings
    exact ih _ known (named.append (own.moved origin)) later _
  | case8 known done token next rest unquoted unpasted notParameter ih =>
    obtain ⟨here, later⟩ := List.forall_mem_cons.mp isBody
    exact ih before (named.append (named_fresh origin (List.forall_mem_singleton.mpr here))) later
      findings

theorem Named.call {p : Pending} {rest : List Pending} {group : Group Pending}
    (named : Named (p :: rest)) (here : turn table p rest = .call m group) :
    Named group.after ∧ ∀ name argument,
      argument? (Expansion.bind m p.token.line (arguments group.inside)) name = some argument →
        Named argument := by
  obtain ⟨after, inside, -⟩ := call_parts here
  constructor
  · exact named.subset fun q member => after.subset (by simp [member])
  · intro name argument found
    exact (named.subset inside.subset).of_weighing (weighing_argument found)

theorem named_expandPending (bodies : table.Named) (header : Option String) (pending : List Pending)
    (named : Named pending) (findings : Findings) :
    Named (expandPending table header pending findings).1 := by
  fun_induction expandPending table header pending findings with
  | case1 findings => exact named
  | case2 findings p rest keep here ih | case4 findings p rest keep here ih
  | case6 findings p rest keep m here outside ih
  | case8 findings p rest keep m group here depth outside ih =>
    obtain ⟨first, others⟩ := List.forall_mem_cons.mp named
    exact List.forall_mem_cons.mpr ⟨first, ih _ others⟩
  | case3 findings p rest here n after ih' ih =>
    obtain ⟨first, others⟩ : p.token.Named ∧ Named rest := List.forall_mem_cons.mp named
    refine List.forall_mem_cons.mpr ⟨first, Named.append ?_ ?_⟩
    · exact others.subset (List.take_subset n rest)
    · exact ih (others.subset (List.drop_subset n rest))
  | case5 findings p rest m here within body ih' ih =>
    obtain ⟨first, others⟩ := List.forall_mem_cons.mp named
    have own := named_fresh p.token (bodies _ m (turn_object here).lookup)
    exact ih ((own.placed _ _).append others)
  | case7 findings p rest m group here depth within bound expanded filled body _ ihArgument _ ih =>
    obtain ⟨after, arguments⟩ := named.call here
    have given : ∀ name findings, Named (expanded name findings).1 := by
      intro name findings
      simp only [expanded]
      split
      · exact List.forall_mem_nil _
      · next argument found => exact ihArgument name findings argument found (arguments _ _ found)
    have own := named_substitute arguments given m p.token (List.forall_mem_nil _)
      (List.forall_mem_nil _) (bodies _ m (turn_call here).1.lookup) findings
    exact ih ((own.placed _ _).append after)

/-- Identifiers in expanded tokens are such that the lexer can read them, if they were before and
are in the bodies of macros. -/
theorem named_expand (bodies : table.Named) {tokens : List Token}
    (named : ∀ token ∈ tokens, token.Named) (header : Option String) (findings : Findings) :
    ∀ token ∈ (expand table tokens header findings).1, token.Named := by
  have start : Named (tokens.map fun token => ⟨token, [], 0⟩) := by
    intro p member
    obtain ⟨token, inside, rfl⟩ := List.mem_map.mp member
    exact named token inside
  intro token member
  obtain ⟨p, inside, rfl⟩ := List.mem_map.mp member
  exact named_expandPending bodies header _ start findings p inside

end Expansion

end CBindings
