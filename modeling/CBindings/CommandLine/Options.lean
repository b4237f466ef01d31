import CBindings.CommandLine.Argument
import CBindings.Output.Registry
import CBindings.SymbolTable.Basic

/-! The options of a command line. -/

namespace CBindings.CommandLine

def definition? (text : String) : Option (String × String) :=
  let (name, value) := Argument.splitAtEquals text
  let name := Text.strip name.toList
  if name.isEmpty then none else some (String.ofList name, value.getD "1")

def badDefinition (text : String) : String := "invalid macro definition: " ++ Text.quoted text

/-- What options are set to. An option that has only the separator for a value is set to nothing. -/
structure Options where
  entry : Option String := none
  searchPaths : List (Option String) := []
  target : Option String := some Target.defaultName
  out : Option String := some "bindings"
  duplicates : Option String := some "first"
  namespacePolicy : Option String := some "flat"
  definitions : List (Option (String × String)) := []
  writer : Option String := some "rust"
  report : Option String := none
  crateName : Option String := some "bindings"
  deriving DecidableEq, Repr

inductive Stop where
  | rejected
  | help
  deriving DecidableEq, Repr

namespace Options

def set (options : Options) (key : OptionKey) (value : Option String) : Except Stop Options :=
  let choose (choices : List String) (chosen : Options) : Except Stop Options :=
    if value.all choices.contains then .ok chosen else .error .rejected
  match key with
  | .help => .error .help
  | .verbose => .ok options
  | .searchPath => .ok { options with searchPaths := options.searchPaths ++ [value] }
  | .target => choose Target.names { options with target := value }
  | .out => .ok { options with out := value }
  | .duplicates =>
    choose (DuplicatePolicy.all.map DuplicatePolicy.name) { options with duplicates := value }
  | .namespacePolicy =>
    choose (NamespacePolicy.all.map NamespacePolicy.name) { options with namespacePolicy := value }
  | .define =>
    match value.map definition? with
    | none => .ok { options with definitions := options.definitions ++ [none] }
    | some (some definition) =>
      .ok { options with definitions := options.definitions ++ [some definition] }
    | some none => .error .rejected
  | .writer => choose builtinWriters.names { options with writer := value }
  | .report => .ok { options with report := value }
  | .crateName => .ok { options with crateName := value }

abbrev Setting := OptionKey × Option String

def cluster? : List Char → Option (List Setting)
  | [] => some []
  | c :: rest => do
    let key ← spellings.lookup (String.ofList ['-', c])
    if key.takesValue then
      return [(key, if rest.isEmpty then none else some (String.ofList rest))]
    else return (key, none) :: (← cluster? rest)

def settings? (key : OptionKey) (isLetter : Bool) (attached : Option String) :
    Option (List Setting) :=
  match attached with
  | none => some [(key, none)]
  | some text =>
    if key.takesValue then some [(key, some text)]
    else if isLetter && !text.isEmpty then (cluster? text.toList).map ((key, none) :: ·)
    else none

def setAll (options : Options) (next : Option String) : List Setting → Except Stop Options
  | [] => .ok options
  | (key, value) :: rest =>
    match if key.takesValue then value <|> next else some "" with
    | none => .error .rejected
    | some value => do
      setAll (← options.set key (if value = separatorMark then none else some value)) next rest

def needsNext (settings : List Setting) : Bool :=
  settings.any fun (key, value) => key.takesValue && value.isNone

/-- Reads all words. One word is the entry, and the separator stands before it or right after it.
Whatever else there is counts as extra and is refused in the end. -/
def read (options : Options) (extra : Bool) : List Argument → Except Stop Options
  | [] => if options.entry.isSome && !extra then .ok options else .error .rejected
  | .known key isLetter attached :: rest =>
    match settings? key isLetter attached with
    | none => .error .rejected
    | some settings =>
      if needsNext settings then
        match rest with
        | .plain next :: rest => do read (← options.setAll (some next) settings) extra rest
        | _ => .error .rejected
      else do read (← options.setAll none settings) extra rest
  | .separator :: .plain word :: rest =>
    if options.entry.isSome then read options true rest
    else read { options with entry := some word } extra rest
  | .plain word :: .separator :: rest =>
    if options.entry.isSome then read options true rest
    else read { options with entry := some word } extra rest
  | .plain word :: rest =>
    if options.entry.isSome then read options true rest
    else read { options with entry := some word } extra rest
  | .separator :: rest => read options true rest
  | .unknown :: rest => read options true rest

def ofWords (words : List String) : Except Stop Options :=
  match Argument.ofTexts? words with
  | none => .error .rejected
  | some arguments => read {} false arguments

end Options

end CBindings.CommandLine
