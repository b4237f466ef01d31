import CBindings.Constant.Value
import CBindings.Expr.Evaluation
import CBindings.Expr.Parser
import CBindings.SymbolTable.Basic
import CBindings.Token.Lexer
import CBindings.Unseen

/-! The values of constants and enumerators that refer to each other through a table. -/

namespace CBindings

namespace SymbolTable

def constant? (table : SymbolTable) (name : String) : Option (List String) :=
  match table.get? name with
  | some ⟨_, .constant _ tokens, _⟩ => some tokens
  | _ => none

def typedef? (table : SymbolTable) (name : String) : Option CType :=
  match table.get? name with
  | some ⟨_, .typedef _ type, _⟩ => some type
  | _ => none

theorem mem_names_of_get? {table : SymbolTable} {name : String} {symbol : Symbol}
    (found : table.get? name = some symbol) : name ∈ table.names :=
  List.mem_map_of_mem (f := Prod.fst) (OrderedMap.mem_of_get? found)

theorem mem_names_of_constant? {table : SymbolTable} {name : String} {tokens : List String}
    (found : table.constant? name = some tokens) : name ∈ table.names := by
  unfold constant? at found
  split at found
  · next entry => exact mem_names_of_get? entry
  · simp at found

theorem mem_names_of_typedef? {table : SymbolTable} {name : String} {type : CType}
    (found : table.typedef? name = some type) : name ∈ table.names := by
  unfold typedef? at found
  split at found
  · next entry => exact mem_names_of_get? entry
  · simp at found

end SymbolTable

/-- What gives meaning to names and types in constants. -/
structure ConstantScope where
  table : SymbolTable
  target : Target

/-- Results that are known already. Enums go by their serial number, and a constant without a value
is known as well. -/
structure ConstantMemo where
  constants : OrderedMap String (Option ConstantValue) := ∅
  enums : OrderedMap Nat (List (String × Option Int)) := ∅

abbrev Remembering := StateM ConstantMemo

abbrev Evaluating := ExceptT ExpressionError Remembering

inductive Pursuit where
  | constant (name : String)
  | enum (serial : Nat)
  deriving DecidableEq, Repr

namespace ConstantScope

def primitiveType (scope : ConstantScope) (name : String) : Except ExpressionError IntType :=
  match scope.target.primitiveWidth name with
  | some (bits, signed) => .ok ⟨bits, signed⟩
  | none => .error (.nonIntegerCast name)

set_option linter.unusedVariables false in
def typedefType (scope : ConstantScope) (seen : List String) (name : String) :
    Except ExpressionError IntType :=
  if new : name ∈ seen then .error (.typedefCycle name)
  else
    match found : scope.table.typedef? name with
    | some (.named type) =>
      match type.kind with
      | .primitive => scope.primitiveType type.spelling
      | .enum => .ok .int
      | .typedef => scope.typedefType (name :: seen) type.spelling
      | .struct | .union => .error (.nonIntegerCast name)
    | some _ => .error (.nonIntegerCast name)
    | none =>
      match scope.target.typedefWidth name with
      | some (bits, signed) => .ok ⟨bits, signed⟩
      | none => .error (.unknownTypeCast name)
termination_by unseen scope.table.names seen
decreasing_by exact unseen_cons_lt (SymbolTable.mem_names_of_typedef? found) new

def castType (scope : ConstantScope) (typeName : String) : Except ExpressionError IntType :=
  let words := ((Text.splitOn ' ' typeName.toList).filter (!·.isEmpty)).map String.ofList
  if words.all Primitive.keywords.contains then
    match Primitive.canonical words with
    | .ok name => scope.primitiveType name
    | .error error => .error (.specifiers error)
  else scope.typedefType [] typeName

/-- The value of an integer expression whose names have the given meaning. -/
def integer (scope : ConstantScope) (resolve : String → Evaluating IntValue)
    (tokens : List Token) : Evaluating IntValue := do
  let reading : Expr.Reading :=
    { longWidth := scope.target.longWidth, isTypeName := scope.table.isTypeName }
  let expr ← liftExcept (Expr.parse tokens reading)
  expr.evaluateIn resolve (fun typeName => liftExcept (scope.castType typeName)) false
where
  liftExcept {α : Type} (result : Except ExpressionError α) : Evaluating α :=
    ExceptT.mk (pure result)

def value (scope : ConstantScope) (resolve : String → Evaluating IntValue)
    (tokens : List Token) : Remembering (Option ConstantValue) :=
  if tokens.isEmpty then pure none
  else
    match Constant.string? tokens with
    | some text => pure (some (.text text))
    | none =>
      match Constant.float? tokens with
      | some x => pure (some (.float x))
      | none => do
        match ← (scope.integer resolve tokens).run with
        | .ok value => pure (some (.integer value))
        | .error _ => pure none

def constantValue (scope : ConstantScope) (resolve : String → Evaluating IntValue) (name : String)
    (tokens : List String) : Remembering (Option ConstantValue) := do
  let result ← scope.value resolve (tokenize (" ".intercalate tokens))
  modify fun memo => { memo with constants := memo.constants.insert name result }
  return result

def resolveIn (done : List (String × Option Int)) (resolve : String → Evaluating IntValue)
    (name : String) : Evaluating IntValue :=
  match done.lookup name with
  | some (some n) => pure ⟨n, .int, .decimal⟩
  | some none => throw (.noEnumeratorValue name)
  | none => resolve name

def assigned (scope : ConstantScope) (resolve : String → Evaluating IntValue)
    (done : List (String × Option Int)) (following : Option Int) :
    Assigned → Remembering (Option Int)
  | .implicit => pure following
  | .number n => pure (some n)
  | .text expression => do
    match ← (scope.integer (resolveIn done resolve) (tokenize expression)).run with
    | .ok value => pure (some value.value)
    | .error _ => pure none

def enumeratorsFrom (scope : ConstantScope) (resolve : String → Evaluating IntValue) :
    List (String × Option Int) → Option Int → List Enumerator →
      Remembering (List (String × Option Int))
  | done, _, [] => pure done
  | done, following, e :: rest => do
    let given ← scope.assigned resolve done following e.value
    let value := given.map IntType.int.wrap
    scope.enumeratorsFrom resolve (done ++ [(e.name, value)]) (value.map (· + 1)) rest

def enumeratorValues (scope : ConstantScope) (resolve : String → Evaluating IntValue)
    (symbol : Symbol) : Remembering (List (String × Option Int)) := do
  let result ← scope.enumeratorsFrom resolve [] (some 0) symbol.item.enumerators
  modify fun memo => { memo with enums := memo.enums.insert symbol.serial result }
  return result

def valueOf (values : List (String × Option Int)) (name : String) : Option Int :=
  (values.reverse.lookup name).join

def pursuits (scope : ConstantScope) : List Pursuit :=
  scope.table.names.map .constant ++
    scope.table.enumerators.values.map fun found => .enum found.1.serial

theorem constant_mem_pursuits {scope : ConstantScope} {name : String} {tokens : List String}
    (found : scope.table.constant? name = some tokens) : .constant name ∈ scope.pursuits :=
  List.mem_append_left _ (List.mem_map_of_mem (SymbolTable.mem_names_of_constant? found))

theorem enum_mem_pursuits {scope : ConstantScope} {name : String} {symbol : Symbol}
    {value : Enumerator} (found : scope.table.enumerator? name = some (symbol, value)) :
    .enum symbol.serial ∈ scope.pursuits :=
  List.mem_append_right _ (List.mem_map_of_mem (f := fun found : Symbol × Enumerator =>
    Pursuit.enum found.1.serial)
    (List.mem_map_of_mem (f := Prod.snd) (OrderedMap.mem_of_get? found)))

def asOperand (name : String) : ConstantValue → Evaluating IntValue
  | .integer value => pure ⟨value.value, value.type, .decimal⟩
  | _ => throw (.notIntegerConstant name)

abbrev Following (scope : ConstantScope) : Type :=
  (pursuit : Pursuit) → pursuit ∈ scope.pursuits → Option (String → Evaluating IntValue)

def newConstant (scope : ConstantScope) (follow : Following scope) (name : String) :
    Remembering (Option ConstantValue) :=
  match found : scope.table.constant? name with
  | none => pure none
  | some tokens =>
    match follow (.constant name) (constant_mem_pursuits found) with
    | none => pure none
    | some resolve => scope.constantValue resolve name tokens

def constantBy (scope : ConstantScope) (follow : Following scope) (name : String) :
    Remembering (Option ConstantValue) := do
  match (← get).constants.get? name with
  | some result => pure result
  | none => scope.newConstant follow name

def enumValuesBy (scope : ConstantScope) (inner : Option (String → Evaluating IntValue))
    (symbol : Symbol) : Evaluating (List (String × Option Int)) := do
  match (← get).enums.get? symbol.serial with
  | some values => pure values
  | none =>
    match inner with
    | none => throw .ownEnum
    | some resolve => (scope.enumeratorValues resolve symbol : Remembering _)

def enumeratorBy (scope : ConstantScope) (follow : Following scope) (name : String) :
    Evaluating (Option Int) :=
  match found : scope.table.enumerator? name with
  | none => pure none
  | some (symbol, _) =>
    (valueOf · name) <$>
      scope.enumValuesBy (follow (.enum symbol.serial) (enum_mem_pursuits found)) symbol

/-- The meaning of a name: a constant with a value, or else an enumerator. -/
def meaning (scope : ConstantScope) (follow : Following scope) (name : String) :
    Evaluating IntValue := do
  match ← (scope.constantBy follow name : Remembering _) with
  | some result => asOperand name result
  | none =>
    match ← scope.enumeratorBy follow name with
    | some n => pure ⟨n, .int, .decimal⟩
    | none => throw (.unknownName name)

set_option linter.unusedVariables false in
def resolve (scope : ConstantScope) (pursued : List Pursuit) (name : String) :
    Evaluating IntValue :=
  scope.meaning (fun pursuit member =>
    if new : pursuit ∈ pursued then none
    else some fun inner => scope.resolve (pursuit :: pursued) inner) name
termination_by unseen scope.pursuits pursued
decreasing_by exact unseen_cons_lt member new

def follow (scope : ConstantScope) (pursued : List Pursuit) : Following scope := fun pursuit _ =>
  if pursuit ∈ pursued then none else some (scope.resolve (pursuit :: pursued))

def evaluate (scope : ConstantScope) (tokens : List Token) : Remembering (Option ConstantValue) :=
  scope.value (scope.resolve []) tokens

def evaluateConstant (scope : ConstantScope) (name : String) :
    Remembering (Option ConstantValue) :=
  scope.constantBy (scope.follow []) name

def evaluateEnum (scope : ConstantScope) (symbol : Symbol) :
    Remembering (List (String × Option Int)) := do
  match (← get).enums.get? symbol.serial with
  | some values => pure values
  | none => scope.enumeratorValues (scope.resolve [.enum symbol.serial]) symbol

def evaluateEnumerator (scope : ConstantScope) (name : String) : Remembering (Option Int) := do
  match scope.table.enumerator? name with
  | none => pure none
  | some (symbol, _) => return valueOf (← scope.evaluateEnum symbol) name

/-- The number of elements of an array, if it is known. -/
def evaluateExtent (scope : ConstantScope) : Extent → Remembering (Option Int)
  | .flexible => pure none
  | .count n => pure (some n)
  | .text expression => do
    match ← scope.evaluate (tokenize expression) with
    | some (.integer value) => pure (if 0 ≤ value.value then some value.value else none)
    | _ => pure none

end ConstantScope

end CBindings
