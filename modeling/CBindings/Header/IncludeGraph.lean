import CBindings.Declaration.Basic
import CBindings.Header.Conditional
import CBindings.Header.Directive
import CBindings.File.Tree
import CBindings.Macro.Condition
import CBindings.Token.LogicalLine

/-! Reading a header and everything it includes, each header once and includes before includers. -/

namespace CBindings

open Expansion

/-- A header that has been read. `includes` are the paths of the headers it includes, in order,
and `defines` its object-like macros with the number of tokens before each. -/
structure Header where
  path : Path
  name : String
  includes : List Path := []
  tokens : List Token := []
  defines : List (Nat × Macro) := []
  declarations : List Declaration := []

/-- What is known of a header once its name has been met. -/
structure Visit where
  path : Path
  name : String
  isDone : Bool

/-- What stays the same while headers are read. -/
structure Reading where
  tree : FileTree
  searchPaths : List Path
  longWidth : Nat
  parser : Header → List Declaration × List Diagnostic

/-- What reading changes. -/
structure Walk where
  table : MacroTable
  findings : Findings := {}
  visits : OrderedMap Place Visit := ∅
  finished : List Header := []

namespace Walk

def report (walk : Walk) (diagnostic : Diagnostic) : Walk :=
  { walk with findings := walk.findings.add diagnostic }

def meet (walk : Walk) (tree : FileTree) (path : Path) (name : String) : Visit :=
  let taken := walk.visits.values.any (·.name = name)
  ⟨path, if taken then FileTree.renderPlace (tree.resolve path) else name, false⟩

def mark (walk : Walk) (place : Place) (visit : Visit) (isDone : Bool) : Walk :=
  { walk with visits := walk.visits.insert place { visit with isDone := isDone } }

end Walk

/-- A header while its lines are read: what is finished, the open conditional groups, and the
tokens since the last directive. -/
structure Scan where
  header : Header
  branches : Branches := []
  pending : List Token := []

def Scan.including (scan : Scan) (path : Path) : Scan :=
  { scan with header := { scan.header with includes := scan.header.includes ++ [path] } }

/-- What reading a line comes to. A header that is met for the first time is to be read before the
next line. -/
structure Progress where
  scan : Scan
  walk : Walk
  descent : Option (Place × Visit) := none

def Progress.plain (read : Scan × Walk) : Progress := { scan := read.1, walk := read.2 }

namespace IncludeGraph

def displayName (path directory : Path) (name : String) : String :=
  match path.relativeTo? directory with
  | some relative => relative.render
  | none => (Path.parse name).render

def followIgnoringCase (tree : FileTree) : Path → List String → Option Path
  | current, [] => if tree.isFile current then some current else none
  | current, part :: parts =>
    if part = ".." then followIgnoringCase tree (current.child part) parts
    else match tree.findIgnoringCase current part with
      | some entry => followIgnoringCase tree (current.child entry) parts
      | none => none

def directories (reading : Reading) (target : Directive.Target) (includer : Path) : List Path :=
  if target.isQuoted then includer.parent :: reading.searchPaths else reading.searchPaths

def find (reading : Reading) (target : Directive.Target) (includer : Path) :
    Except FileFailure (Option (Path × String)) := do
  let directories := directories reading target includer
  let name := Path.parse target.name
  match ← reading.tree.directoryWith name directories with
  | some directory =>
    let path := directory.join name
    return some (path, displayName path directory target.name)
  | none =>
    return directories.findSome? fun directory =>
      if name.isAbsolute then none
      else (followIgnoringCase reading.tree directory name.parts).map fun path =>
        (path, displayName path directory target.name)

def flush (scan : Scan) (walk : Walk) : Scan × Walk :=
  let expanded := expand walk.table scan.pending (some scan.header.name) walk.findings
  ({ scan with
      header := { scan.header with tokens := scan.header.tokens ++ expanded.1 }
      pending := [] },
    { walk with findings := expanded.2 })

def malformed (scan : Scan) (line : Nat) (message : String) : Diagnostic :=
  { kind := Diagnostic.malformedDirective, message := message, header := some scan.header.name,
    line := some line }

def condition (reading : Reading) (rest : List Char) (line : Nat) (scan : Scan) (walk : Walk) :
    Bool × Walk :=
  let result := Condition.holds walk.table reading.longWidth (tokenize (String.ofList rest) line)
    (some scan.header.name) (some line) walk.findings
  (result.1, { walk with findings := result.2 })

def openGroup (reading : Reading) (directive : Directive) (line : Nat) (scan : Scan) (walk : Walk) :
    Scan × Walk :=
  if !Branches.active scan.branches then
    ({ scan with branches := Branches.openInactive scan.branches line }, walk)
  else
    let truth : Bool × Walk :=
      if directive.name = "if" then condition reading directive.rest line scan walk
      else
        match tokenize (String.ofList directive.rest) line with
        | token :: _ =>
          if token.kind = .ident then
            (walk.table.isDefined token.text == (directive.name == "ifdef"), walk)
          else (false, walk.report
            (malformed scan line ("#" ++ directive.name ++ " without a macro name")))
        | [] => (false, walk.report
            (malformed scan line ("#" ++ directive.name ++ " without a macro name")))
    ({ scan with branches := Branches.openActive scan.branches line truth.1 }, truth.2)

def elseIf (reading : Reading) (rest : List Char) (line : Nat) (scan : Scan) (walk : Walk) :
    Scan × Walk :=
  match Branches.extendable? scan.branches with
  | none => (scan, walk.report (malformed scan line "#elif without #if"))
  | some (branch, outer) =>
    if Branches.wantsCondition branch then
      let truth := condition reading rest line scan walk
      ({ scan with branches := Branches.elseIf branch outer truth.1 }, truth.2)
    else ({ scan with branches := Branches.skipElseIf branch outer }, walk)

def otherwise (line : Nat) (scan : Scan) (walk : Walk) : Scan × Walk :=
  match Branches.extendable? scan.branches with
  | none => (scan, walk.report (malformed scan line "#else without #if"))
  | some (branch, outer) => ({ scan with branches := Branches.startElse branch outer }, walk)

def closeGroup (line : Nat) (scan : Scan) (walk : Walk) : Scan × Walk :=
  match scan.branches with
  | [] => (scan, walk.report (malformed scan line "#endif without #if"))
  | _ :: outer => ({ scan with branches := outer }, walk)

def define (rest : List Char) (line : Nat) (scan : Scan) (walk : Walk) : Scan × Walk :=
  match Directive.definition? rest with
  | none => (scan, walk.report (malformed scan line ("malformed #define " ++ String.ofList rest)))
  | some definition =>
    let m : Macro :=
      { name := definition.name
        body := tokenize definition.body line
        parameters := definition.parameters
        variadic := definition.variadic
        source := some scan.header.name
        line := some line }
    let walk := { walk with table := walk.table.define m }
    if m.isObjectLike then
      let defines := scan.header.defines ++ [(scan.header.tokens.length, m)]
      ({ scan with header := { scan.header with defines := defines } }, walk)
    else (scan, walk)

def includeTarget (rest : List Char) (line : Nat) (scan : Scan) (walk : Walk) :
    Option Directive.Target × Walk :=
  match Directive.writtenTarget? rest with
  | some target => (target, walk)
  | none =>
    let expanded := expand walk.table (tokenize (String.ofList rest) line) (some scan.header.name)
      walk.findings
    (Directive.targetOfTokens? expanded.1, { walk with findings := expanded.2 })

def visit (reading : Reading) (path : Path) (name : String) (line : Nat) (scan : Scan)
    (walk : Walk) : Progress :=
  let place := reading.tree.resolve path
  let found := walk.visits.get? place
  let entry := found.getD (walk.meet reading.tree path name)
  let scan := scan.including entry.path
  match found with
  | none => { scan, walk, descent := some (place, entry) }
  | some entry =>
    if entry.isDone then { scan, walk }
    else
      { scan
        walk := walk.report
          { kind := Diagnostic.includeCycle
            message := scan.header.name ++ " includes " ++ entry.name ++
              ", which is still being processed"
            header := some scan.header.name
            line := some line } }

def includeHeader (reading : Reading) (rest : List Char) (line : Nat) (scan : Scan) (walk : Walk) :
    Except FileFailure Progress := do
  let target := includeTarget rest line scan walk
  match target.1 with
  | none =>
    return .plain
      (scan, target.2.report (malformed scan line ("malformed #include " ++ String.ofList rest)))
  | some wanted =>
    match ← find reading wanted scan.header.path with
    | none => return .plain (scan, target.2.report
        { kind := Diagnostic.headerReadFailure
          message := "cannot find included header " ++ Text.quoted wanted.name
          header := some scan.header.name
          line := some line
          symbol := some wanted.name })
    | some (path, name) => return visit reading path name line scan target.2

def ignored : List String := ["pragma", "line", "warning", "ident", ""]

def inclusions : List String := ["include", "include_next"]

def act (directive : Directive) (line : Nat) (scan : Scan) (walk : Walk) : Scan × Walk :=
  if directive.name = "define" then define directive.rest line scan walk
  else if directive.name = "undef" then
    (scan, { walk with table := walk.table.undefine (Directive.firstWord directive.rest) })
  else if directive.name = "error" then
    (scan, walk.report
      { kind := Diagnostic.preprocessorError
        message := String.ofList (Text.stripRight ("#error ".toList ++ directive.rest))
        header := some scan.header.name
        line := some line })
  else if ignored.contains directive.name then (scan, walk)
  else (scan, walk.report (malformed scan line ("unknown directive #" ++ directive.name)))

def carryOut (reading : Reading) (directive : Directive) (line : Nat) (scan : Scan) (walk : Walk) :
    Except FileFailure Progress :=
  if ["if", "ifdef", "ifndef"].contains directive.name then
    return .plain (openGroup reading directive line scan walk)
  else if directive.name = "elif" then
    return .plain (elseIf reading directive.rest line scan walk)
  else if directive.name = "else" then return .plain (otherwise line scan walk)
  else if directive.name = "endif" then return .plain (closeGroup line scan walk)
  else if !Branches.active scan.branches then return .plain (scan, walk)
  else if inclusions.contains directive.name then
    includeHeader reading directive.rest line scan walk
  else return .plain (act directive line scan walk)

/-- Reads one logical line. Only the look-up of an included header can fail. -/
def readLine (reading : Reading) (scan : Scan) (walk : Walk) (line : NumberedLine) :
    Except FileFailure Progress :=
  match Directive.ofLine? line.text with
  | none =>
    if Branches.active scan.branches then
      let tokens := Lexer.tokensOf line.number line.text
      return .plain ({ scan with pending := scan.pending ++ tokens }, walk)
    else return .plain (scan, walk)
  | some directive =>
    let flushed := flush scan walk
    carryOut reading directive line.number flushed.1 flushed.2

def readLines (reading : Reading) (enter : Place → Visit → Walk → Except FileFailure Walk) :
    List NumberedLine → Scan → Walk → Except FileFailure (Scan × Walk)
  | [], scan, walk => .ok (scan, walk)
  | line :: rest, scan, walk => do
    let progress ← readLine reading scan walk line
    match progress.descent with
    | none => readLines reading enter rest progress.scan progress.walk
    | some (place, entry) =>
      let walk ← enter place entry progress.walk
      readLines reading enter rest progress.scan walk

def startOf (entry : Visit) : Scan := { header := { path := entry.path, name := entry.name } }

def finish (reading : Reading) (place : Place) (entry : Visit) (scan : Scan) (walk : Walk) : Walk :=
  let flushed := flush scan walk
  let walk := flushed.1.branches.reverse.foldl (fun walk branch =>
    walk.report (malformed flushed.1 branch.line "unterminated conditional block")) flushed.2
  let walk := walk.mark place entry true
  let parsed := reading.parser flushed.1.header
  { walk with
    findings := { walk.findings with
      diagnostics := walk.findings.diagnostics ++ parsed.2 }
    finished := walk.finished ++ [{ flushed.1.header with declarations := parsed.1 }] }

/-- Reads a header that is met for the first time. At most `depth` headers can be open at once:
as many as there are files. -/
def enter (reading : Reading) : Nat → Place → Visit → Walk → Except FileFailure Walk
  | 0, _, _, walk => .ok walk
  | depth + 1, place, entry, walk =>
    match reading.tree.read entry.path with
    | .error _ => .ok walk
    | .ok source => do
      let read ← readLines reading (enter reading depth) (logicalLines source) (startOf entry)
        (walk.mark place entry false)
      return finish reading place entry read.1 read.2

end IncludeGraph

inductive EntryError where
  | noSearchPath
  | badSearchPath (path : Path)
  | unreadable (failure : FileFailure)
  | refused (failure : FileFailure)
  deriving DecidableEq, Repr

def EntryError.message : EntryError → String
  | .noSearchPath => "no include search paths given"
  | .badSearchPath path => "search path is not a readable directory: " ++ path.render
  | .unreadable failure =>
    "cannot read entry header " ++ failure.path.render ++ ": " ++ failure.message
  | .refused failure => failure.message

def checkSearchPaths (tree : FileTree) : List Path → Except EntryError Unit
  | [] => .ok ()
  | path :: rest => do
    if ← (tree.ask FileTree.isDirectory path).mapError .refused then checkSearchPaths tree rest
    else .error (.badSearchPath path)

def readHeaders (reading : Reading) (table : MacroTable) (entry : Path) :
    Except EntryError Walk := do
  if reading.searchPaths.isEmpty then .error .noSearchPath
  else
    checkSearchPaths reading.tree reading.searchPaths
    match reading.tree.read entry with
    | .error .nullCharacter => .error (.refused ⟨entry, .nullCharacter⟩)
    | .error error => .error (.unreadable ⟨entry, error⟩)
    | .ok _ =>
      (IncludeGraph.enter reading reading.tree.files.length (reading.tree.resolve entry)
        ⟨entry, entry.name, false⟩ { table := table }).mapError .refused

end CBindings
