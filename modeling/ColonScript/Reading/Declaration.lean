import ColonScript.Reading.Expression
import ColonScript.Reading.WrittenType

/-! Declarations of variables and constants, and assignments to several targets at once. -/

namespace ColonScript.Reading

structure Head where
  constant : Bool
  name : String
  type : Ty
  position : Position
  deriving DecidableEq, Repr

def head : Read Head := do
  let constant := (← next).kind = .constWord
  let position ← here
  let name ← takeOr .identifier "expected identifier during variable declaration"
  let _ ← takeOr .colon "expected `:` and a type after the variable name"
  let type ← writtenType .lowest
  return ⟨constant, name.value, type, position⟩

def declare (head : Head) : Read Unit :=
  updateScopes fun scopes => scopes.declare ⟨head.name, head.constant, head.type⟩ head.position

def defaultValue? (type : Ty) : Option Expr :=
  if type.isBase "int" then some (.integer 0 type)
  else if type.isBase "float" then some (.float (.finite false 0 0) type)
  else if type.isBase "bool" then some (.bool false type)
  else if type.isBase "string" then some (.string "" type)
  else if type.isBase "char" then some (.char "" type)
  else none

/-- A constant has no default value, and neither has a container. -/
def defaultValue (head : Head) : Read Expr :=
  match if head.constant then none else defaultValue? head.type with
  | some value => return value
  | none => failAt head.position (.missingValue head.constant head.name head.type)

def givenValue (head : Head) : Read Expr := do
  skip .assign
  let (value, position) ← placed expression
  let type ← single position value (.valueOf head.name)
  let both ← joinOr position head.type type (.mismatch (.declarationOf head.name) head.type type)
  return value.settle both

def declarationRest (head : Head) : Read Declaration := do
  let value ← if (← currentKind) = .semicolon then defaultValue head else givenValue head
  skip .semicolon
  declare head
  return ⟨head.constant, head.name, head.type, value⟩

/-- A target as it is read: a declaration keeps its place for the moment at which it takes
effect. -/
inductive Receiver
  | declared (head : Head)
  | existing (name : String) (type : Ty)
  deriving DecidableEq, Repr

namespace Receiver

def name : Receiver → String
  | declared head => head.name
  | existing name _ => name

def type : Receiver → Ty
  | declared head => head.type
  | existing _ type => type

def target : Receiver → Target
  | declared head => .declared head.constant head.name head.type
  | existing name type => .existing name type

end Receiver

def existing : Read Receiver := do
  let token ← take .identifier
  let position ← positionOf token
  let type ← resolve token.value position
  refuseConstant token.value position
  return .existing token.value type

def receiver : Read Receiver := do
  match ← currentKind with
  | .varWord | .constWord => return .declared (← head)
  | .identifier => existing
  | _ =>
    unexpectedHere "expected an identifier or a `var`/`const` declaration in multi-assignment"

def receive (receiver : Receiver) (type : Ty) (position : Position) : Read Ty :=
  joinOr position receiver.type type
    (.mismatch (.multipleAssignmentTo receiver.name) receiver.type type)

def receiveEach : List Receiver → List (Expr × Position) → Read (List Expr)
  | receiver :: receivers, (value, position) :: rest => do
    let type ← single position value (.valueFor receiver.name)
    let both ← receive receiver type position
    return value.settle both :: (← receiveEach receivers rest)
  | _, _ => return []

def receiveResults (position : Position) : List Receiver → List Ty → Read Unit
  | receiver :: receivers, type :: types => do
    let _ ← receive receiver type position
    receiveResults position receivers types
  | _, _ => return ()

def distribute (receivers : List Receiver) (values : List (Expr × Position)) (position : Position) :
    Read (List Expr) := do
  if values.length = receivers.length then receiveEach receivers values
  else match values with
    | [(.call callee args results, start)] =>
      if results.length = receivers.length then
        receiveResults start receivers results
        return [.call callee args results]
      else failAt start (.valueCount receivers.length results.length)
    | [(_, start)] => failAt start .callExpected
    | _ => failAt position (.valueCount receivers.length values.length)

def declareAll : List Receiver → Read Unit
  | [] => return ()
  | .declared head :: rest => do
    declare head
    declareAll rest
  | .existing .. :: rest => declareAll rest

/-- The rest of an assignment to several targets, of which the first has been read. New names are in
scope only behind it. -/
def multipleRest (first : Receiver) : Read Stmt := do
  let receivers := first :: (← afterCommas receiver)
  let position ← positionOf (← take .assign)
  let values ← separated (placed expression)
  skip .semicolon
  let values ← distribute receivers values position
  declareAll receivers
  return .multiple (receivers.map Receiver.target) values

def declarationStatement : Read Stmt := do
  let head ← head
  if (← currentKind) = .comma then multipleRest (.declared head)
  else return .declaration (← declarationRest head)

def expressionStatement : Read Stmt := do
  if (← currentKind) = .identifier ∧ (← second).kind = .comma then multipleRest (← existing)
  else
    let (value, position) ← placed expression
    unless value.isAction do failAt position (.invalidStatement value)
    skip .semicolon
    return .expression value

end ColonScript.Reading
