import ColonScript.Builtin.Typing
import ColonScript.Reading.Repeat
import ColonScript.Tree.Settle

/-! What an expression can begin with: literals, variables, calls, and expressions in brackets.
Where an expression lies inside another, the reader of expressions at a power is a parameter. -/

namespace ColonScript.Reading

def literal : Read Expr := do
  let token ← next
  let position ← positionOf token
  match token.kind with
  | .integer =>
    match Decimal.integer? token.value.toList with
    | some value => return .integer value (← pooled (Ty.Pool.base "int"))
    | none => failAt position (.invalidNumber token.value)
  | .float =>
    match Decimal.Binary64.read? token.value.toList with
    | some value => return .float value (← pooled (Ty.Pool.base "float"))
    | none => failAt position (.invalidNumber token.value)
  | .bool => return .bool (token.value = "true") (← pooled (Ty.Pool.base "bool"))
  | .string => return .string token.value (← pooled (Ty.Pool.base "string"))
  | .char => return .char token.value (← pooled (Ty.Pool.base "char"))
  | _ => failAt position (.noExpression token.value)

def resolve (name : String) (position : Position) : Read Ty := do
  let scopes ← scopes
  match scopes.binding? name with
  | some binding => return binding.type
  | none =>
    if (scopes.function? name).isSome then failAt position (.functionAsVariable name)
    else failAt position (.undeclaredVariable name)

def refuseConstant (name : String) (position : Position) : Read Unit := do
  if (← scopes).isConstant name then failAt position (.constantReassigned name)

def element (expr : Power → Read Expr) (before : Ty) : Read (Expr × Ty) := do
  let position ← here
  let value ← expr .lowest
  let type ← single position value .element
  let both ← joinOr position before type (.conflictingElements .array before type)
  return (value, both)

def arrayLiteral (expr : Power → Read Expr) : Read Expr := do
  skip .openBracket
  let (elements, type) ← items .closeBracket (element expr) .unknown
  skip .closeBracket
  return .array (Expr.settleAll type elements) (← pooled (Ty.Pool.array type))

def entry (expr : Power → Read Expr) (before : Ty × Ty) : Read ((Expr × Expr) × Ty × Ty) := do
  let keyPosition ← here
  let key ← expr .lowest
  unless key.isBaseLiteral do failAt keyPosition (.invalidKey key)
  skip .colon
  let valuePosition ← here
  let value ← expr .lowest
  let keyType ← single keyPosition key .key
  let keys ← joinOr keyPosition before.1 keyType (.conflictingElements .map before.1 keyType)
  let valueType ← single valuePosition value .mapValue
  let values ← joinOr valuePosition before.2 valueType
    (.conflictingElements .map before.2 valueType)
  return ((key, value), keys, values)

def mapLiteral (expr : Power → Read Expr) : Read Expr := do
  skip .openCurly
  let (pairs, keys, values) ← items .closeCurly (entry expr) (.unknown, .unknown)
  skip .closeCurly
  return .map (Expr.settleValues values pairs) (← pooled (Ty.Pool.map keys values))

def group (expr : Power → Read Expr) : Read Expr := do
  skip .openParen
  let inner ← expr .lowest
  skip .closeParen
  return inner

def unary (expr : Power → Read Expr) : Read Expr := do
  let operator ← next
  let position ← positionOf operator
  let operand ← expr .unary
  let operandType ← single position operand .unaryOperand
  let type ← check position (Typing.unary operator.value operandType)
  return .unary operator.value operand type

def placed (expr : Power → Read Expr) : Read (Expr × Position) := do
  let position ← here
  return (← expr .lowest, position)

def arguments (expr : Power → Read Expr) : Read (List (Expr × Position)) := do
  skip .openParen
  let (args, ()) ← items .closeParen (fun () => return (← placed expr, ())) ()
  skip .closeParen
  return args

def argumentTypes (callee : String) (count : Nat) : List (Expr × Position) → Read (List Ty)
  | [] => return []
  | (arg, position) :: rest => do
    let type ← single position arg (.argument count callee)
    return type :: (← argumentTypes callee (count + 1) rest)

def fitArguments (position : Position) (callee : String) (count : Nat) :
    List Parameter → List (Expr × Ty) → Read (List Expr)
  | parameter :: parameters, (arg, type) :: rest => do
    let both ← joinOr position parameter.type type
      (.argumentMismatch callee count parameter.type type)
    return arg.settle both :: (← fitArguments position callee (count + 1) parameters rest)
  | _, _ => return []

def callOf (function : Function) (callee : String) (position : Position)
    (args : List (Expr × Position)) : Read Expr := do
  let types ← argumentTypes callee 1 args
  let exprs := args.map (·.1)
  match function.builtin? with
  | some builtin => return .call callee exprs (← typed position (builtin.results types))
  | none =>
    let parameters := function.signature.parameters
    if parameters.length ≠ exprs.length then
      failAt position (.argumentCount callee parameters.length exprs.length)
    let settled ← fitArguments position callee 1 parameters (exprs.zip types)
    return .call callee settled function.signature.results

/-- A name is looked up before the arguments are read. -/
def call (expr : Power → Read Expr) : Read Expr := do
  let token ← take .identifier
  let position ← positionOf token
  match (← scopes).function? token.value with
  | none => failAt position (.undeclaredFunction token.value)
  | some function => callOf function token.value position (← arguments expr)

def nameOrCall (expr : Power → Read Expr) : Read Expr := do
  if (← second).kind = .openParen then call expr
  else
    let token ← next
    return .name token.value (← resolve token.value (← positionOf token))

def operand (expr : Power → Read Expr) : Opening → Read Expr
  | .literal => literal
  | .name => nameOrCall expr
  | .array => arrayLiteral expr
  | .map => mapLiteral expr
  | .group => group expr
  | .unary => unary expr

end ColonScript.Reading
