import CBindings.Declaration.ParseError
import CBindings.Declaration.Syntax
import CBindings.Expr.Evaluation
import CBindings.Expr.Parser

/-! Reading a declaration from the tokens of its statement. -/

namespace CBindings.DeclarationReader

def conventions : List (String × String) :=
  [("__stdcall", "stdcall"), ("_stdcall", "stdcall"), ("__cdecl", "cdecl"), ("_cdecl", "cdecl"),
   ("__fastcall", "fastcall"), ("_fastcall", "fastcall"), ("__vectorcall", "vectorcall"),
   ("__thiscall", "thiscall")]

def qualifierWords : List String := ["const", "volatile"]

def isQualifier (token : Token) : Bool :=
  token.kind = .ident && qualifierWords.contains token.text

def storageWords : List String := ["typedef", "extern", "static"]

def isConvention (text : String) : Bool := (conventions.lookup text).isSome

def tagKind? (text : String) : Option NameKind :=
  match text with
  | "struct" => some .struct
  | "union" => some .union
  | "enum" => some .enum
  | _ => none

inductive Setting where
  | statement
  | fields
  | parameter
  deriving DecidableEq, Repr

structure Draft where
  qualifiers : List String := []
  words : List String := []
  base : Option Specified := none
  isTypedef : Bool := false
  isStatic : Bool := false

abbrev Step (α : Type) (tokens : List Token) : Type :=
  Except ParseError (Parsed α (tokens.length + 1))

def fail {α : Type} (cause : ParseCause) (line : Option Nat) : Except ParseError α :=
  .error ⟨cause, line⟩

def expect (text : String) (line : Nat) (tokens : List Token) :
    Except ParseError (Parsed Unit tokens.length) :=
  match tokens with
  | [] => fail .unexpectedEnd line
  | token :: rest =>
    if token.isPunct text then .ok (.take () token rest)
    else fail (.expected text token.text) token.line

def group (opening closing : String) (line : Nat) (tokens : List Token) :
    Except ParseError
      { cut : Group Token // cut.inside.length + cut.after.length < tokens.length } :=
  match found : splitGroup? (·.isPunct opening) (·.isPunct closing) 0 tokens with
  | none => fail .unexpectedEnd line
  | some cut => .ok ⟨cut, splitGroup?_length_lt found⟩

def pastGroup {α : Type} {bound : Nat} (value : α) (cut : Group Token)
    (within : cut.inside.length + cut.after.length < bound) : Parsed α (bound + 1) :=
  ⟨value, cut.after, Nat.lt_succ_of_lt (Nat.lt_of_le_of_lt (Nat.le_add_left _ _) within)⟩

theorem group_lt {all inner : List Token} {brace : Token} {bound size : Nat}
    (split : all = brace :: inner) (lt : all.length < bound + 1) (within : size < inner.length) :
    size < bound := by
  rw [split, List.length_cons] at lt
  omega

def takeUntil (text : String) : Int → List Token → List Token × List Token
  | _, [] => ([], [])
  | depth, token :: rest =>
    let keep (depth : Int) : List Token × List Token :=
      let cut := takeUntil text depth rest
      (token :: cut.1, cut.2)
    if token.opensBracket then keep (depth + 1)
    else if token.closesBracket then keep (depth - 1)
    else if depth = 0 ∧ token.isPunct text then ([], token :: rest)
    else keep depth

theorem takeUntil_length (text : String) (depth : Int) (tokens : List Token) :
    (takeUntil text depth tokens).2.length ≤ tokens.length := by
  induction tokens generalizing depth with
  | nil => simp [takeUntil]
  | cons token rest ih =>
    simp only [takeUntil]
    split
    · exact Nat.le_succ_of_le (ih _)
    · split
      · exact Nat.le_succ_of_le (ih _)
      · split
        · simp
        · exact Nat.le_succ_of_le (ih _)

theorem takeUntil_lt {all rest cut : List Token} {token : Token} {bound : Nat}
    (split : all = token :: rest) (le : cut.length ≤ rest.length) (lt : all.length < bound) :
    cut.length < bound := by
  rw [split, List.length_cons] at lt
  omega

def constant (tokens : List Token) (line : Nat) : Except ParseError Int :=
  match (Expr.parse tokens).bind (Expr.evaluate Expr.noNames Expr.noCasts false) with
  | .ok value => .ok value.value
  | .error error => fail (.expression error) line

def extent (tokens : List Token) : Extent :=
  match tokens with
  | [] => .flexible
  | [token] =>
    if token.kind = .number then
      match Literal.integer token.text with
      | .ok value => .count value.value
      | .error _ => .text (spell [token])
    else .text (spell [token])
  | tokens => .text (spell tokens)

def enumerator (tokens : List Token) : Except ParseError Enumerator :=
  match tokens with
  | [] => fail (.badEnumerator "") none
  | first :: rest =>
    if first.kind ≠ .ident then fail (.badEnumerator first.text) first.line
    else
      match rest with
      | [] => .ok ⟨first.text, .implicit⟩
      | sign :: value =>
        if !sign.isPunct "=" || value.isEmpty then
          fail (.badEnumerator (spell (first :: sign :: value))) first.line
        else
          match constant value first.line with
          | .ok n => .ok ⟨first.text, .number n⟩
          | .error _ => .ok ⟨first.text, .text (spell value)⟩

def enumerators (body : List Token) : Except ParseError (List Enumerator) :=
  ((splitTopLevel body ",").filter (!·.isEmpty)).mapM enumerator

def wrappingBefore (wrapping : Wrapping) (tokens : List Token) :
    Parsed Wrapping (tokens.length + 1) :=
  match tokens with
  | [] => .stay wrapping []
  | token :: rest =>
    if token.isPunct "*" || token.isPunct "^" then
      have shorter : (rest.dropWhile isQualifier).length ≤ rest.length :=
        (List.dropWhile_suffix isQualifier).length_le
      let qualifiers := (rest.takeWhile isQualifier).map Token.text
      (wrappingBefore { wrapping with pointers := wrapping.pointers ++ [qualifiers] }
        (rest.dropWhile isQualifier)).widen
          (Nat.succ_le_succ (Nat.le_succ_of_le shorter))
    else if token.kind = .ident then
      match conventions.lookup token.text with
      | some convention =>
        (wrappingBefore { wrapping with convention := some convention } rest).after token
      | none =>
        if qualifierWords.contains token.text then (wrappingBefore wrapping rest).after token
        else .stay wrapping (token :: rest)
    else .stay wrapping (token :: rest)
termination_by tokens.length
decreasing_by
  · exact Nat.lt_succ_of_le shorter
  · exact Nat.lt_succ_self _
  · exact Nat.lt_succ_self _

def startsDeclarator (tokens : List Token) : Bool :=
  match tokens with
  | [] => false
  | token :: _ =>
    token.isPunct "*" || token.isPunct "^" || (token.kind = .ident && isConvention token.text)

def isEllipsis : List Token → Bool
  | [token] => token.isPunct "..."
  | _ => false

def isEmptyList (parts : List (List Token)) : Bool :=
  match parts with
  | [[]] => true
  | [[token]] => token.isIdent "void"
  | _ => false

def finish (draft : Draft) (rest : List Token) : Except ParseError Specified :=
  match draft.base with
  | some base => .ok base
  | none =>
    if draft.words.isEmpty then
      match rest with
      | [] => fail (.expectedType none) none
      | token :: _ => fail (.expectedType (some token.text)) token.line
    else
      match Primitive.canonical draft.words with
      | .ok name => .ok (.name .primitive name)
      | .error error => fail (.specifiers error) none

def tagReference (setting : Setting) (isTypedef : Bool) (kind : NameKind) (name : String)
    (line : Nat) (rest : List Token) : Specified :=
  if setting = .statement && (isTypedef || rest.isEmpty) && kind != .enum then
    .opaqueTag (kind = .union) name line
  else .name kind name

def isRecord (base : Specified) : Bool := base.kind = .struct || base.kind = .union

def tagName (tokens : List Token) : Parsed (Option String) (tokens.length + 1) :=
  match tokens with
  | token :: rest =>
    if token.kind = .ident then .after token (.stay (some token.text) rest)
    else .stay none (token :: rest)
  | [] => .stay none []

mutual

def specifiers (setting : Setting) (line : Nat) (draft : Draft) (tokens : List Token) :
    Step Draft tokens :=
  match tokens with
  | [] => .ok (.stay draft [])
  | token :: rest =>
    let stop : Step Draft (token :: rest) := .ok (.stay draft (token :: rest))
    let next (draft : Draft) : Step Draft (token :: rest) := do
      return (← specifiers setting line draft rest).after token
    if token.kind ≠ .ident then stop
    else if storageWords.contains token.text then
      if setting ≠ .statement then fail (.unexpected token.text) token.line
      else next
        { draft with
          isTypedef := draft.isTypedef || token.text == "typedef"
          isStatic := draft.isStatic || token.text == "static" }
    else if qualifierWords.contains token.text then
      next { draft with qualifiers := draft.qualifiers ++ [token.text] }
    else if Primitive.keywords.contains token.text then
      if draft.base.isSome then stop else next { draft with words := draft.words ++ [token.text] }
    else
      match tagKind? token.text with
      | some kind =>
        if draft.base.isSome || !draft.words.isEmpty then stop
        else do
          let tag ← tag setting line draft.isTypedef kind token.line rest
          have := tag.shorter
          let after ← specifiers setting line { draft with base := some tag.value } tag.rest
          return after.widen (by simp only [List.length_cons]; omega)
      | none =>
        if isConvention token.text || draft.base.isSome || !draft.words.isEmpty then stop
        else
          let name := if token.text = "__wchar_t" then "wchar_t" else token.text
          next { draft with base := some (.name .typedef name) }
termination_by (tokens.length, 0)

def tag (setting : Setting) (line : Nat) (isTypedef : Bool) (kind : NameKind) (tagLine : Nat)
    (tokens : List Token) : Step Specified tokens :=
  let name := tagName tokens
  have := name.shorter
  match afterName : name.rest with
  | [] =>
    match name.value with
    | none => fail (.incompleteTag kind.word) tagLine
    | some n => .ok (.final (tagReference setting isTypedef kind n tagLine []))
  | brace :: inner =>
    if brace.isPunct "\x7b" then do
      let ⟨cut, within⟩ ← group "\x7b" "\x7d" line inner
      have smaller : cut.inside.length + cut.after.length < tokens.length :=
        group_lt afterName this within
      if kind = .enum then
        let values ← enumerators cut.inside
        return pastGroup (.enum name.value tagLine isTypedef values) cut smaller
      else
        let parts := (splitTopLevel cut.inside ";").filter (!·.isEmpty)
        let members ← parts.attach.mapM fun ⟨part, _isPart⟩ => member isTypedef part
        return pastGroup (.record (kind = .union) name.value tagLine isTypedef members) cut smaller
    else
      match name.value with
      | none => fail (.incompleteTag kind.word) tagLine
      | some n =>
        .ok ⟨tagReference setting isTypedef kind n tagLine (brace :: inner), brace :: inner,
          afterName ▸ this⟩
termination_by (tokens.length, 0)
decreasing_by
  have := splitTopLevel_length (List.mem_filter.mp _isPart).1
  exact Prod.Lex.left _ _ (by omega)

/-- Reads one line of the field list of a tag, which may stand after `typedef`. -/
def member (isTypedef : Bool) (tokens : List Token) : Except ParseError Member := do
  let line := (tokens.head?.map Token.line).getD 0
  let draft ← specifiers .fields line { isTypedef } tokens
  have := draft.shorter
  let base ← finish draft.value draft.rest
  if draft.rest.isEmpty then
    if isRecord base then return .mk draft.value.qualifiers base []
    else fail .unnamedField line
  else
    let parts ← memberDeclarators line draft.rest
    match parts.rest with
    | [] => return .mk draft.value.qualifiers base parts.value
    | token :: _ => fail (.unexpectedInFields token.text) token.line
termination_by (tokens.length, 4)
decreasing_by
  · exact Prod.Lex.right _ (by decide)
  · exact Prod.Lex.right' _ (by omega) (by decide)

def memberDeclarators (line : Nat) (tokens : List Token) :
    Step (List (Declarator × Option Int)) tokens := do
  let first ← declarator line tokens
  have := first.shorter
  let width : Parsed (Option Int) (tokens.length + 1) ←
    match afterFirst : first.rest with
    | colon :: rest =>
      if colon.isPunct ":" then
        let value ← constant (takeUntil "," 0 rest).1 line
        pure ⟨some value, (takeUntil "," 0 rest).2,
          takeUntil_lt afterFirst (takeUntil_length "," 0 rest) first.shorter⟩
      else pure ⟨none, first.rest, by assumption⟩
    | [] => pure (.final none)
  have := width.shorter
  if first.value.identifier.isNone && width.value.isNone then fail .unnamedField line
  else
    match afterWidth : width.rest with
    | comma :: rest =>
      if comma.isPunct "," then
        have : rest.length < tokens.length := by
          rw [afterWidth] at this; simp only [List.length_cons] at this; omega
        let others ← memberDeclarators line rest
        return ⟨(first.value, width.value) :: others.value, others.rest, by
          have := others.shorter; omega⟩
      else return ⟨[(first.value, width.value)], width.rest, this⟩
    | [] => return .final [(first.value, width.value)]
termination_by (tokens.length, 3)

def declarator (line : Nat) (tokens : List Token) : Step Declarator tokens :=
  let before := wrappingBefore {} tokens
  have := before.shorter
  match afterBefore : before.rest with
  | [] => .ok (.final (.plain none before.value))
  | token :: rest =>
    have shorter : rest.length < tokens.length := by
      rw [afterBefore] at this; simp only [List.length_cons] at this; omega
    if token.isPunct "(" && startsDeclarator rest then do
      let inner ← declarator line rest
      have := inner.shorter
      let close ← expect ")" line inner.rest
      have := close.shorter
      let after ← suffixes line close.rest
      return ⟨.nested inner.value { before.value with suffixes := after.value }, after.rest, by
        have := after.shorter; omega⟩
    else if token.kind = .ident && !Primitive.keywords.contains token.text then do
      let after ← suffixes line rest
      return ⟨.plain (some token.text) { before.value with suffixes := after.value }, after.rest, by
        have := after.shorter; omega⟩
    else do
      let after ← suffixes line (token :: rest)
      return ⟨.plain none { before.value with suffixes := after.value }, after.rest, by
        have := after.shorter; simp only [List.length_cons] at this; omega⟩
termination_by (tokens.length, 1)
decreasing_by
  · exact Prod.Lex.left _ _ shorter
  · exact Prod.Lex.left _ _ (by omega)
  · exact Prod.Lex.left _ _ shorter
  · exact Prod.Lex.right' _ (by simpa [afterBefore] using Nat.le_of_lt_succ before.shorter)
      (by decide)

def suffixes (line : Nat) (tokens : List Token) : Step (List Suffix) tokens :=
  match tokens with
  | [] => .ok (.stay [] [])
  | token :: rest =>
    if token.isPunct "[" then do
      let ⟨cut, within⟩ ← group "[" "]" line rest
      let others ← suffixes line cut.after
      return ⟨.array (extent cut.inside) :: others.value, others.rest, by
        have := others.shorter; simp only [List.length_cons]; omega⟩
    else if token.isPunct "(" then do
      let ⟨cut, within⟩ ← group "(" ")" line rest
      let list ← parameters cut.inside
      let others ← suffixes line cut.after
      return ⟨.function list.1 list.2 :: others.value, others.rest, by
        have := others.shorter; simp only [List.length_cons]; omega⟩
    else .ok (.stay [] (token :: rest))
termination_by (tokens.length, 0)

def parameters (tokens : List Token) : Except ParseError (List Parameter × Bool) := do
  let parts := splitTopLevel tokens ","
  if isEmptyList parts then return ([], false)
  else
    let list ← parts.zipIdx.attach.mapM fun ⟨(part, index), _isPart⟩ =>
      if isEllipsis part then
        if index + 1 ≠ parts.length then
          fail .earlyEllipsis (part.head?.map Token.line)
        else pure none
      else if part.isEmpty then fail .emptyParameter none
      else some <$> parameter part
    return (list.filterMap id, (parts.getLast?.map isEllipsis).getD false)
termination_by (tokens.length, 3)
decreasing_by
  have := splitTopLevel_length (List.fst_mem_of_mem_zipIdx _isPart)
  exact Prod.Lex.right' _ this (by decide)

def parameter (tokens : List Token) : Except ParseError Parameter := do
  let line := (tokens.head?.map Token.line).getD 0
  let draft ← specifiers .parameter line {} tokens
  have := draft.shorter
  let base ← finish draft.value draft.rest
  let read ← declarator line draft.rest
  match read.rest with
  | [] =>
    let type := read.value.apply (.named (base.typeName draft.value.qualifiers))
    return (read.value.identifier, type.asParameter)
  | token :: _ => fail (.unexpectedInParameter token.text) token.line
termination_by (tokens.length, 2)
decreasing_by
  · exact Prod.Lex.right _ (by decide)
  · exact Prod.Lex.right' _ (by omega) (by decide)

end

def declarators (line : Nat) (tokens : List Token) : Except ParseError (List Declarator) := do
  let first ← declarator line tokens
  have := first.shorter
  if first.value.identifier.isNone then fail .unnamedDeclaration line
  else
    let rest : Parsed Unit (tokens.length + 1) :=
      match afterFirst : first.rest with
      | sign :: value =>
        if sign.isPunct "=" then
          ⟨(), (takeUntil "," 0 value).2,
            takeUntil_lt afterFirst (takeUntil_length "," 0 value) first.shorter⟩
        else ⟨(), first.rest, by assumption⟩
      | [] => .final ()
    have := rest.shorter
    match after : rest.rest with
    | [] => return [first.value]
    | token :: others =>
      if token.isPunct "," then
        have : others.length < tokens.length := by
          rw [after] at this; simp only [List.length_cons] at this; omega
        return first.value :: (← declarators line others)
      else fail (.unexpected token.text) token.line
termination_by tokens.length

/-- Reads the tokens of a statement whose first token stands on `line`. -/
def read (line : Nat) (tokens : List Token) : Except ParseError DeclarationSyntax := do
  let draft ← specifiers .statement line {} tokens
  let base ← finish draft.value draft.rest
  let list ← if draft.rest.isEmpty then pure [] else declarators line draft.rest
  return ⟨draft.value.isTypedef, draft.value.isStatic, draft.value.qualifiers, base, list⟩

end CBindings.DeclarationReader
