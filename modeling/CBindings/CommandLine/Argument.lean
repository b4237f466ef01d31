import CBindings.Text.Blank
import CBindings.Text.Digit

/-! What the words of a command line are: options, their values, and other words. -/

namespace CBindings.CommandLine

inductive OptionKey where
  | help
  | searchPath
  | target
  | out
  | duplicates
  | namespacePolicy
  | define
  | writer
  | report
  | crateName
  | verbose
  deriving DecidableEq, Repr

namespace OptionKey

def takesValue : OptionKey → Bool
  | help | verbose => false
  | _ => true

end OptionKey

def spellings : List (String × OptionKey) :=
  [("-h", .help), ("--help", .help), ("-I", .searchPath), ("--include", .searchPath),
   ("--arch", .target), ("--out", .out), ("--duplicates", .duplicates),
   ("--namespace", .namespacePolicy), ("-D", .define), ("--define", .define),
   ("--writer", .writer), ("--report", .report), ("--crate-name", .crateName), ("-v", .verbose),
   ("--verbose", .verbose)]

def separatorMark : String := "--"

/-- A word: an option with what stands behind its name, if anything does; the mark after which no
word is an option; or any other word. -/
inductive Argument where
  | known (key : OptionKey) (isLetter : Bool) (attached : Option String)
  | unknown
  | separator
  | plain (text : String)
  deriving DecidableEq, Repr

namespace Argument

def splitAtEquals (text : String) : String × Option String :=
  (String.ofList (text.toList.takeWhile (· != '=')),
    match text.toList.dropWhile (· != '=') with
    | [] => none
    | _ :: value => some (String.ofList value))

def ofSpelling (spelling : String × OptionKey) (attached : Option String) : Argument :=
  known spelling.2 (!"--".isPrefixOf spelling.1) attached

def spelled? (text : String) : Option Argument :=
  let (name, attached) := splitAtEquals text
  (spellings.find? (·.1 = name)).map (ofSpelling · attached)

def abbreviated (text : String) : List Argument :=
  let (name, attached) := splitAtEquals text
  (spellings.filter fun spelling => name.isPrefixOf spelling.1).map (ofSpelling · attached)

def clustered? (text : String) : Option Argument :=
  (spellings.lookup (String.ofList (text.toList.take 2))).map fun key =>
    known key true (some (String.ofList (text.toList.drop 2)))

def isNegativeNumber (text : String) : Bool :=
  let allDigits (part : List Char) : Bool :=
    !part.isEmpty && part.all fun c => (Text.decimalDigit? c).isSome
  match text.toList with
  | '-' :: rest =>
    let rest := if rest.getLast? = some '\n' then rest.dropLast else rest
    match rest.dropWhile fun c => (Text.decimalDigit? c).isSome with
    | [] => !rest.isEmpty
    | '.' :: fraction => allDigits fraction
    | _ => false
  | _ => false

def ofText? (text : String) : Option Argument :=
  if !"-".isPrefixOf text || text = "-" then some (plain text)
  else
    match spelled? text with
    | some argument => some argument
    | none =>
      match if "--".isPrefixOf text then abbreviated text else (clustered? text).toList with
      | [argument] => some argument
      | _ :: _ :: _ => none
      | [] =>
        if isNegativeNumber text || text.toList.contains ' ' then some (plain text)
        else some unknown

def ofTexts? : List String → Option (List Argument)
  | [] => some []
  | text :: rest =>
    if text = separatorMark then some (separator :: rest.map plain)
    else do return (← ofText? text) :: (← ofTexts? rest)

end Argument

end CBindings.CommandLine
