import CBindings.SymbolTable.Basic

/-! Putting declarations into a table. Each step gives the table after it, also when it fails. -/

namespace CBindings

namespace SymbolTable

abbrev Outcome (α : Type) : Type := SymbolTable × Except TableError α

def addHeader (table : SymbolTable) (header : String) : Outcome Unit :=
  if table.isFinal then (table, .error .isFinal)
  else if table.contributed.contains header then (table, .ok ())
  else ({ table with contributed := table.contributed.insert header [] }, .ok ())

def finalize (table : SymbolTable) : SymbolTable := { table with isFinal := true }

def enlist (table : SymbolTable) (symbol : Symbol) : SymbolTable :=
  { table with
    inserted := table.inserted + 1
    contributed := table.contributed.insert symbol.header
      (table.contributedBy symbol.header ++ [symbol]) }

def clashMessage (name header previous : String) (replaces : Bool) : String :=
  name ++ " redeclared in " ++ header ++
    (if replaces then ", replacing" else ", keeping") ++ " the declaration from " ++ previous

def recordClash (table : SymbolTable) (name : String) (existing symbol : Symbol)
    (replaces : Bool) : SymbolTable :=
  { table with
    duplicates := table.duplicates ++
      [if replaces then ⟨name, symbol, existing⟩ else ⟨name, existing, symbol⟩]
    diagnostics := table.diagnostics ++
      [{ kind := Diagnostic.duplicateSymbol
         message := clashMessage name symbol.header existing.header replaces
         header := some symbol.header
         line := symbol.declaration.line?.map Int.ofNat
         symbol := some name }] }

def clash (table : SymbolTable) (name : String) (existing symbol : Symbol) : Outcome Bool :=
  match table.policy with
  | .first => (table.recordClash name existing symbol false, .ok false)
  | .last => (table.recordClash name existing symbol true, .ok true)
  | .error => (table, .error (.duplicate name existing.header symbol.header))

def own (table : SymbolTable) (symbol : Symbol) (value : Enumerator) : SymbolTable :=
  { table with
    entries := table.entries.erase value.name
    free := table.free.insert value.name symbol
    enumerators := table.enumerators.insert value.name (symbol, value) }

/-- What holds a name as a plain name: a declaration, or an anonymous enum. -/
def holder? (table : SymbolTable) (name : String) : Option Symbol :=
  table.get? name <|> table.free.get? name

def claim (table : SymbolTable) (symbol : Symbol) (value : Enumerator) : Outcome Unit :=
  match table.holder? value.name with
  | none => (table.own symbol value, .ok ())
  | some rival =>
    if rival.agrees symbol then (table, .ok ())
    else
      match table.clash value.name rival symbol with
      | (table, .ok true) => (table.own symbol value, .ok ())
      | (table, .ok false) => (table, .ok ())
      | (table, .error error) => (table, .error error)

def claimAll (table : SymbolTable) (symbol : Symbol) : List Enumerator → Outcome Unit
  | [] => (table, .ok ())
  | value :: rest =>
    match table.claim symbol value with
    | (table, .ok ()) => table.claimAll symbol rest
    | (table, .error error) => (table, .error error)

def indexEnumerators (table : SymbolTable) (symbol : Symbol) (values : List Enumerator) :
    SymbolTable :=
  { table with
    enumerators := values.foldl (fun index value =>
      if index.contains value.name then index else index.insert value.name (symbol, value))
      table.enumerators }

def place (table : SymbolTable) (key : String) (symbol : Symbol) : SymbolTable :=
  { table with entries := (table.entries.erase key).insert key symbol }

/-- Settles which of an entry and a new symbol holds a name. A symbol that agrees with the entry or
is opaque changes nothing, and one that completes an opaque entry replaces it. -/
def settle (table : SymbolTable) (key : String) (symbol : Symbol) : Outcome Bool :=
  match table.get? key with
  | none => (table.place key symbol, .ok true)
  | some existing =>
    let sameKind := existing.item.kind = symbol.item.kind
    if existing.agrees symbol then (table, .ok false)
    else if symbol.item.isOpaque ∧ sameKind then (table, .ok false)
    else if existing.item.isOpaque ∧ sameKind then (table.place key symbol, .ok true)
    else
      match table.clash key existing symbol with
      | (table, .ok true) => (table.place key symbol, .ok true)
      | (table, .ok false) => (table, .ok false)
      | (table, .error error) => (table, .error error)

def release (table : SymbolTable) (name : String) : SymbolTable :=
  { table with free := table.free.erase name, enumerators := table.enumerators.erase name }

def claimName (table : SymbolTable) (key : String) (symbol : Symbol) : Outcome Bool :=
  match table.free.get? key with
  | none => table.settle key symbol
  | some owner =>
    match table.clash key owner symbol with
    | (table, .ok true) => (table.release key).settle key symbol
    | (table, .ok false) => (table, .ok false)
    | (table, .error error) => (table, .error error)

/-- Adds a declaration. The answer tells whether it now is the entry for its name. -/
def insert (table : SymbolTable) (declaration : Declaration) : Outcome Bool :=
  if table.isFinal then (table, .error .isFinal)
  else
    let symbol : Symbol := ⟨table.inserted, declaration⟩
    let table := table.enlist symbol
    match declaration.item.qualifiedName, declaration.item with
    | some key, .enum _ values _ => (table.indexEnumerators symbol values).claimName key symbol
    | some key, _ => table.claimName key symbol
    | none, .enum _ values _ =>
      match table.claimAll symbol values with
      | (table, .ok ()) => ({ table with anonymous := table.anonymous ++ [symbol] }, .ok true)
      | (table, .error error) => (table, .error error)
    | none, _ => (table, .ok true)

def insertAll (table : SymbolTable) : List Declaration → Outcome (List Bool)
  | [] => (table, .ok [])
  | declaration :: rest =>
    match table.insert declaration with
    | (table, .error error) => (table, .error error)
    | (table, .ok held) =>
      match table.insertAll rest with
      | (table, .error error) => (table, .error error)
      | (table, .ok others) => (table, .ok (held :: others))

end SymbolTable

end CBindings
