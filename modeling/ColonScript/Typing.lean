import ColonScript.Fault
import ColonScript.Ty.Pool

/-! Rules of typing for operators, indexing and assignment. They know nothing of places in a file,
and answer with the bare cause when the types do not fit. -/

namespace ColonScript

/-- A rule may add types to the pool, which stay there when the rule fails. -/
abbrev Typing := EStateM Cause Ty.Pool

namespace Typing

def join (a b : Ty) : Typing (Option Ty) := modifyGet (Ty.Pool.join a b)

def agree (a b : Ty) : Typing Bool := modifyGet (Ty.Pool.agree a b)

def base (name : String) : Typing Ty := modifyGet (Ty.Pool.base name)

def array (element : Ty) : Typing Ty := modifyGet (Ty.Pool.array element)

def single (expr : Expr) (context : Context) : Except Cause Ty :=
  match expr.types with
  | [ty] => .ok ty
  | types => .error (.notSingle context types.length)

def arithmetic : List String := ["+", "-", "*", "/"]

def comparison : List String := ["<", ">", "<=", ">=", "==", "!="]

def equality : List String := ["==", "!="]

def isNumberName (name : String) : Bool := name = "int" || name = "float"

def baseBinary? (operator left right : String) : Option String :=
  if left = "int" ∧ right = "int" then
    if operator ∈ arithmetic ++ ["%", "&", "|"] then some "int"
    else if operator ∈ comparison then some "bool"
    else none
  else if isNumberName left && isNumberName right then
    if operator ∈ arithmetic then some "float"
    else if operator ∈ comparison then some "bool"
    else none
  else if left = right ∧ (left = "string" ∨ left = "char") then
    if operator = "+" then some "string"
    else if operator ∈ equality then some "bool"
    else none
  else if left = "bool" ∧ right = "bool" then
    if operator ∈ equality ++ ["&&", "||"] then some "bool" else none
  else none

def binary (operator : String) (left right : Ty) : Typing Ty := do
  let invalid := Cause.invalidBinary operator left right
  match left, right with
  | .array .., .array .. =>
    match ← join left right with
    | none => throw invalid
    | some both =>
      if operator = "+" then return both
      else if operator ∈ equality then base "bool"
      else throw invalid
  | .base _ l, .base _ r =>
    match baseBinary? operator l r with
    | none => throw invalid
    | some name => base name
  | _, _ => throw invalid

def unary (operator : String) (operand : Ty) : Except Cause Ty :=
  if operator = "!" ∧ operand.isBase "bool" ∨ operator = "-" ∧ operand.isNumeric then .ok operand
  else .error (.invalidUnary operator operand)

def step (operator : String) (operand : Ty) : Except Cause Ty :=
  if operand.isNumeric then .ok operand else .error (.invalidStep operator operand)

def expectInt (context : Context) (index : Ty) : Typing Unit :=
  if index.isBase "int" then pure () else throw (.mismatch context (.named "int") index)

/-- The rule of `target[index]`. Nothing can be looked up in a container whose parts are unknown. -/
def index (target index : Ty) : Typing Ty :=
  match target with
  | .array _ .unknown => throw (.emptyIndexed .array)
  | .array _ element => do
    expectInt .arrayIndex index
    return element
  | .map _ .unknown _ | .map _ _ .unknown => throw (.emptyIndexed .map)
  | .map _ key value => do
    if ← agree key index then return value
    else throw (.mismatch .mapIndex key index)
  | .base _ name =>
    if name = "string" then do
      expectInt .stringIndex index
      base "char"
    else throw (.notIndexable target)
  | .unknown => throw (.notIndexable target)

def underlying (operator : String) : String :=
  String.ofList (operator.toList.reverse.dropWhile (· = '=')).reverse

/-- A compound assignment is checked as its operator; what it gives must agree with the target
again. -/
def assignment (name operator : String) (target value : Ty) : Typing Ty := do
  let received ← if operator = "=" then pure value else binary (underlying operator) target value
  match ← join target received with
  | some both => return both
  | none => throw (.mismatch (.assignmentTo name) target received)

end Typing

end ColonScript
