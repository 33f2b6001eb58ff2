import ColonScript.Reading.Operand

/-! Expressions. An operand is extended for as long as what follows binds tighter than the power at
which the expression is read. -/

namespace ColonScript.Reading

def binary (expr : Power → Read Expr) (power : Power) (left : Expr) : Read Expr := do
  let operator ← next
  let position ← positionOf operator
  let right ← expr power
  let leftType ← single position left .leftOperand
  let rightType ← single position right .rightOperand
  let type ← typed position (Typing.binary operator.value leftType rightType)
  if type.isContainer then return .binary (left.settle type) operator.value (right.settle type) type
  else return .binary left operator.value right type

def step (operand : Expr) : Read Expr := do
  let operator ← next
  let position ← positionOf operator
  let operandType ← single position operand .stepOperand
  let type ← check position (Typing.step operator.value operandType)
  return .step operand operator.value type

def assignment (expr : Power → Read Expr) (left : Expr) : Read Expr := do
  let operator ← next
  let position ← positionOf operator
  match left with
  | .name target type =>
    refuseConstant target position
    let valuePosition ← here
    let value ← expr .lowest
    let valueType ← single valuePosition value .assigned
    let both ← typed position (Typing.assignment target operator.value type valueType)
    return .assign target operator.value (value.settle both) type
  | _ => failAt position .invalidTarget

def index (expr : Power → Read Expr) (target : Expr) : Read Expr := do
  let position ← positionOf (← take .openBracket)
  let key ← expr .lowest
  skip .closeBracket
  let targetType ← single position target .indexed
  let keyType ← single position key .index
  let type ← typed position (Typing.index targetType keyType)
  return .index target key type

/-- A parenthesis behind anything but the bare name of a function is no call. -/
def continued (expr : Power → Read Expr) (power : Power) (left : Expr) : Continuation → Read Expr
  | .assignment => assignment expr left
  | .binary => binary expr power left
  | .step => step left
  | .call => failHere fun _ => .invalidCallee
  | .index => index expr left

def continued? (expr : Power → Read Expr) (power : Power) (left : Expr) : Read (Option Expr) := do
  match (← get).grammar.continuation? (← currentKind) with
  | some (own, continuation) =>
    if own ≤ power then return none else return some (← continued expr own left continuation)
  | none => return none

def expressionWith (expr : Power → Read Expr) (power : Power) : Read Expr := do
  match (← get).grammar.opening? (← currentKind) with
  | some opening => extend (continued? expr power) (← operand expr opening)
  | none => failHere fun token => .noExpression token.value

def expressionUpTo : Nat → Power → Read Expr
  | 0, _ => boundMet
  | depth + 1, power => expressionWith (expressionUpTo depth) power

def expression (power : Power) : Read Expr := do expressionUpTo (← bound) power

end ColonScript.Reading
