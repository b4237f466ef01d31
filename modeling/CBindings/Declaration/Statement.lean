import CBindings.Text.Blank
import CBindings.Text.Word
import CBindings.Token.Group

/-! Cutting the tokens of a header into statements, with compiler decorations left out. -/

namespace CBindings

abbrev Placed := Nat × Token

/-- The tokens of one statement, and the place of the first. -/
structure Statement where
  tokens : List Token
  position : Nat
  deriving DecidableEq, Repr

namespace Statement

open Text

def line (statement : Statement) : Nat := (statement.tokens.head?.map Token.line).getD 0

def decorations : List String :=
  ["__declspec", "_declspec", "__attribute__", "__attribute", "__pragma", "_Pragma", "__asm",
   "__asm__", "asm", "__alignof", "alignas", "_Alignas"]

def ignoredWords : List String :=
  ["__ptr32", "__ptr64", "__unaligned", "__restrict", "__restrict__", "restrict", "__sptr",
   "__uptr", "__w64", "__inline", "__inline__", "inline", "__forceinline", "__extension__",
   "_Noreturn", "register", "auto", "__volatile__"]

def annotationWords : List String :=
  ["in", "out", "inout", "deref", "field", "success", "checkReturn", "callback", "reserved",
   "nullterminated", "bcount", "ecount"]

def isAlphanumeric (c : Char) : Bool := isAsciiLetter c || isAsciiDigit c

def isAnnotation (text : List Char) : Bool :=
  match splitOn '_' text with
  | [] :: (upper :: lower :: rest) :: parts =>
    ('A' ≤ upper && upper ≤ 'Z') && ('a' ≤ lower && lower ≤ 'z') && rest.all isAlphanumeric &&
      parts.getLast? = some [] &&
      parts.dropLast.all fun part => !part.isEmpty && part.all isAlphanumeric
  | _ => false

def isOldAnnotation (text : List Char) : Bool :=
  annotationWords.any fun word =>
    let start := "__".toList ++ word.toList
    start.isPrefixOf text &&
      match text.drop start.length with
      | [] => true
      | '_' :: rest => !rest.isEmpty && rest.all isWord
      | _ => false

def isDecoration (text : String) : Bool :=
  decorations.contains text || "__drv_".isPrefixOf text || isAnnotation text.toList ||
    isOldAnnotation text.toList

def isVolatileWord (item : Placed) : Bool :=
  item.2.isIdent "volatile" || item.2.isIdent "__volatile__"

def afterDecoration (items : List Placed) : List Placed :=
  match items.dropWhile isVolatileWord with
  | [] => []
  | item :: rest =>
    if item.2.opensParen then
      match splitGroup? (fun p : Placed => p.2.opensParen) (fun p => p.2.closesParen) 0 rest with
      | some group => group.after
      | none => []
    else item :: rest

theorem afterDecoration_length (items : List Placed) :
    (afterDecoration items).length ≤ items.length := by
  unfold afterDecoration
  have drop := (List.dropWhile_suffix isVolatileWord (l := items)).length_le
  split
  · simp
  · next item rest found =>
    rw [found] at drop
    simp only [List.length_cons] at drop
    split
    · split
      · next group cut =>
        have := splitGroup?_length cut
        omega
      · simp
    · simpa using drop

def cleanFrom : List Placed → List Placed
  | [] => []
  | item :: rest =>
    if item.2.kind = .ident && isDecoration item.2.text then cleanFrom (afterDecoration rest)
    else if item.2.kind = .ident && ignoredWords.contains item.2.text then cleanFrom rest
    else item :: cleanFrom rest
termination_by items => items.length
decreasing_by
  · exact Nat.lt_succ_of_le (afterDecoration_length rest)
  · simp
  · simp

/-- The tokens that are left without decorations, each with its place. -/
def clean (tokens : List Token) : List Placed :=
  cleanFrom (tokens.zipIdx.map fun (token, index) => (index, token))

def ofItems (items : List Placed) : List Statement :=
  match items with
  | [] => []
  | first :: _ => [⟨items.map Prod.snd, first.1⟩]

def opensBody (current : List Placed) : Bool :=
  match current with
  | [] => false
  | first :: _ =>
    first.2.isIdent "namespace" ||
      match current.getLast? with
      | some last =>
        last.2.isPunct ")" ||
          (last.2.kind = .ident && ["const", "noexcept", "override"].contains last.2.text)
      | none => false

def isBrace (text : String) (item : Placed) : Bool := item.2.isPunct text

def afterBody (items : List Placed) : List Placed :=
  match splitGroup? (isBrace "\x7b") (isBrace "\x7d") 0 items with
  | some group => group.after
  | none => []

theorem afterBody_length (items : List Placed) : (afterBody items).length ≤ items.length := by
  unfold afterBody
  split
  · next group cut =>
    have := splitGroup?_length cut
    omega
  · simp

def startsLinkage (item : Placed) (rest : List Placed) : Bool :=
  item.2.isIdent "extern" && (rest.head?.any fun next => next.2.kind = .string)

/-- Cuts statements at semicolons outside brackets. `current` holds the tokens of the statement that
is open, which is empty wherever a linkage may start. Linkage blocks are dissolved; functions with a
body are left out with their body. -/
def splitFrom (current : List Placed) (depth : Nat) : List Placed → List Statement
  | [] => ofItems current
  | item :: rest =>
    if depth = 0 && current.isEmpty && startsLinkage item rest then
      match rest with
      | _ :: next :: after =>
        if next.2.isPunct "\x7b" then splitFrom current depth after
        else splitFrom current depth (next :: after)
      | _ => []
    else if depth = 0 && (item.2.isPunct ";" || item.2.isPunct "\x7d") then
      ofItems current ++ splitFrom [] depth rest
    else if depth = 0 && item.2.isPunct "\x7b" && opensBody current then
      let isNamespace := current.head?.any fun first => first.2.isIdent "namespace"
      let kept := if isNamespace then current else []
      ofItems kept ++ splitFrom [] depth (afterBody rest)
    else
      let depth :=
        if item.2.isStructural && item.2.opensBracket then depth + 1
        else if item.2.isStructural && item.2.closesBracket then depth - 1
        else depth
      splitFrom (current ++ [item]) depth rest
termination_by items => items.length
decreasing_by
  · simp only [List.length_cons]; omega
  · simp
  · simp
  · exact Nat.lt_succ_of_le (afterBody_length rest)
  · simp

def split (items : List Placed) : List Statement := splitFrom [] 0 items

def preview (statement : Statement) : String :=
  let text := spell (statement.tokens.take 8)
  if 8 < statement.tokens.length then text ++ " ..." else text

end Statement

end CBindings
