import ColonScript.Builtin
import ColonScript.Text.Quoted
import ColonScript.Tree.Printer

/-! What can be wrong with a script. A fault is a cause at a place; the name, the category, the
message and the tip all follow from the cause. -/

namespace ColonScript

/-- A byte offset into a file. -/
structure Position where
  offset : Nat
  file : String
  deriving DecidableEq, Repr

def Position.nowhere : Position := ⟨0, "<null>"⟩

inductive Category
  | lexical | grammatical | scope | type | structural
  deriving DecidableEq, Repr

def Category.name : Category → String
  | lexical => "Lexical"
  | grammatical => "Syntax"
  | scope => "Scope"
  | type => "Type"
  | structural => "Structural"

inductive Container
  | array | map
  deriving DecidableEq, Repr

def Container.text : Container → String
  | array => "array"
  | map => "hashmap"

inductive Context
  | element | key | mapValue
  | unaryOperand | leftOperand | rightOperand | stepOperand
  | assigned
  | argument (position : Nat) (callee : String)
  | indexed | index
  | arrayIndex | mapIndex | stringIndex
  | condition (statement : String)
  | valueOf (name : String)
  | valueFor (name : String)
  | declarationOf (name : String)
  | assignmentTo (name : String)
  | multipleAssignmentTo (name : String)
  | returned
  | returnFrom (function : String)
  deriving DecidableEq, Repr

def Context.text : Context → String
  | element => "array element"
  | key => "hashmap key"
  | mapValue => "hashmap value"
  | unaryOperand => "prefix operand"
  | leftOperand => "left operand"
  | rightOperand => "right operand"
  | stepOperand => "postfix operand"
  | assigned => "assigned value"
  | argument position callee => "argument " ++ toString position ++ " of `" ++ callee ++ "`"
  | indexed => "indexed value"
  | index => "index"
  | arrayIndex => "array index"
  | mapIndex => "hashmap index"
  | stringIndex => "string index"
  | condition statement => "`" ++ statement ++ "` condition"
  | valueOf name => "value of `" ++ name ++ "`"
  | valueFor name => "value for `" ++ name ++ "`"
  | declarationOf name => "declaration of `" ++ name ++ "`"
  | assignmentTo name => "assignment to `" ++ name ++ "`"
  | multipleAssignmentTo name => "multi-assignment to `" ++ name ++ "`"
  | returned => "return value"
  | returnFrom function => "return from `" ++ function ++ "`"

inductive Complaint
  | count (received : Nat) (allowed : List Nat)
  | base (what name : String) (received : Ty)
  | part (what : String) (expected received : Ty)
  | empty (container : Container)
  | unsupported (received : Ty) (wanted : String)
  | different (left right : Ty)
  deriving DecidableEq, Repr

def Complaint.text : Complaint → String
  | count received allowed =>
    "wrong number of arguments, got: " ++ toString received ++ ", want: " ++
      Text.joined " or " (allowed.map toString)
  | base what name received => what ++ " must be `" ++ name ++ "`, got: `" ++ received.text ++ "`"
  | part what expected received =>
    what ++ " type mismatch, expected: `" ++ expected.text ++ "`, got: `" ++ received.text ++ "`"
  | empty container => container.text ++ " is empty, its element type is unknown"
  | unsupported received wanted =>
    "argument not supported, got: `" ++ received.text ++ "`, want: " ++ wanted
  | different left right =>
    "arguments must have the same type, got: `" ++ left.text ++ "` and `" ++ right.text ++ "`"

inductive ForHeader
  | variableType | constant | start | plainStart | condition | update
  deriving DecidableEq, Repr

def ForHeader.text : ForHeader → String
  | variableType => "the loop variable must be an `int`"
  | constant => "the loop variable can't be a constant"
  | start => "the initializer must be a declaration or an assignment"
  | plainStart => "the initializer must be a plain `=` assignment"
  | condition => "the condition must be a comparison producing a `bool`"
  | update => "the update must be an `int` postfix or assignment expression"

inductive Cause
  | unrecognised (char : Char)
  | unexpected (token expected : String)
  | unexpectedHere (token message : String)
  | noExpression (token : String)
  | invalidNumber (token : String)
  | invalidKey (key : Expr)
  | invalidCallee
  | invalidTarget
  | invalidStatement (expression : Expr)
  | undeclaredVariable (name : String)
  | functionAsVariable (name : String)
  | undeclaredFunction (name : String)
  | constantRedeclared (name : String)
  | redeclared (name : String) (declared received : Ty)
  | constantReassigned (name : String)
  | mismatch (context : Context) (expected received : Ty)
  | notSingle (context : Context) (received : Nat)
  | invalidBinary (operator : String) (left right : Ty)
  | invalidUnary (operator : String) (operand : Ty)
  | invalidStep (operator : String) (operand : Ty)
  | notIndexable (target : Ty)
  | emptyIndexed (container : Container)
  | conflictingElements (literal : Container) (expected received : Ty)
  | argumentCount (function : String) (expected received : Nat)
  | argumentMismatch (function : String) (position : Nat) (expected received : Ty)
  | builtinArguments (builtin : Builtin) (complaint : Complaint)
  | valueCount (targets values : Nat)
  | callExpected
  | resultCount (function : String) (expected received : Nat)
  | missingValue (constant : Bool) (name : String) (type : Ty)
  | invalidFor (header : ForHeader)
  | nestedFunction
  | outsideFunction (construct : String)
  | outsideLoop (statement : String)
  | alreadyDeclared (function : String)
  | signatureMismatch (function : String)
  | builtinOverride (function : String)
  | missingReturn (function : String)
  deriving BEq, Repr

namespace Cause

def name : Cause → String
  | unrecognised .. => "UnrecognisedToken"
  | unexpected .. => "UnexpectedToken"
  | unexpectedHere .. => "UnexpectedTokenDetailed"
  | noExpression .. => "NoPrefixParser"
  | invalidNumber .. => "NumberParseError"
  | invalidKey .. => "InvalidHashMapKey"
  | invalidCallee => "InvalidCallee"
  | invalidTarget => "InvalidAssignmentTarget"
  | invalidStatement .. => "InvalidExpressionStatement"
  | undeclaredVariable .. => "VariableNotDeclared"
  | functionAsVariable .. => "IdentifierIsFunction"
  | undeclaredFunction .. => "FunctionNotDeclared"
  | constantRedeclared .. => "ConstantRedeclared"
  | redeclared .. => "VariableRedeclaredWithType"
  | constantReassigned .. => "ConstantReassigned"
  | mismatch .. => "TypeMatchError"
  | notSingle .. => "SingleValueExpected"
  | invalidBinary .. => "InvalidInfixOperation"
  | invalidUnary .. => "InvalidPrefixOperation"
  | invalidStep .. => "InvalidPostfixOperation"
  | notIndexable .. => "InvalidIndexTarget"
  | emptyIndexed .. => "EmptyContainerIndex"
  | conflictingElements .. => "ConflictingElementTypes"
  | argumentCount .. => "UnexpectedArguments"
  | argumentMismatch .. => "ArgumentTypeMatchError"
  | builtinArguments .. => "BuiltinArgumentError"
  | valueCount .. => "MultiAssignCountMismatch"
  | callExpected => "MultiAssignExpectedCall"
  | resultCount .. => "ReturnCountMismatch"
  | missingValue .. => "MissingInitializer"
  | invalidFor .. => "InvalidForLoop"
  | nestedFunction => "FunctionInsideFunction"
  | outsideFunction .. => "OutsideFunction"
  | outsideLoop .. => "OutsideLoop"
  | alreadyDeclared .. => "FunctionAlreadyDeclared"
  | signatureMismatch .. => "FunctionSignatureMismatch"
  | builtinOverride .. => "BuiltinOverride"
  | missingReturn .. => "MissingReturn"

def category : Cause → Category
  | unrecognised .. => .lexical
  | unexpected .. | unexpectedHere .. | noExpression .. | invalidNumber .. | invalidKey ..
  | invalidCallee | invalidTarget | invalidStatement .. => .grammatical
  | undeclaredVariable .. | functionAsVariable .. | undeclaredFunction .. | constantRedeclared ..
  | redeclared .. => .scope
  | constantReassigned .. | mismatch .. | notSingle .. | invalidBinary .. | invalidUnary ..
  | invalidStep .. | notIndexable .. | emptyIndexed .. | conflictingElements .. | argumentCount ..
  | argumentMismatch .. | builtinArguments .. | valueCount .. | callExpected | resultCount ..
  | missingValue .. | invalidFor .. => .type
  | nestedFunction | outsideFunction .. | outsideLoop .. | alreadyDeclared .. | signatureMismatch ..
  | builtinOverride .. | missingReturn .. => .structural

def message : Cause → String
  | unrecognised char => "unrecognised token: " ++ Text.quoted char.toString
  | unexpected token expected =>
    "unexpected token " ++ Text.quoted token ++ ", expected " ++ expected
  | unexpectedHere token message =>
    "unexpected token (" ++ message ++ "): " ++ Text.quoted token
  | noExpression token => "no prefix parse function for " ++ Text.quoted token
  | invalidNumber token => "error parsing number: " ++ Text.quoted token
  | invalidKey key => "key in a hashmap can only be a base type literal, got: " ++ key.text
  | invalidCallee => "function name in a call expression must be an identifier"
  | invalidTarget => "left side in an assignment operation must be an identifier"
  | invalidStatement expression =>
    "expected a function call, postfix expression or an assignment expression as a statement, got: " ++
      expression.text
  | undeclaredVariable name => "variable `" ++ name ++ "` is undefined/not found"
  | functionAsVariable name =>
    "`" ++ name ++ "` is a function, did you mean to call it as `" ++ name ++ "(...)`?"
  | undeclaredFunction name => "function `" ++ name ++ "` not found"
  | constantRedeclared name =>
    "variable `" ++ name ++ "` is a constant, can't re-declare const variables"
  | redeclared name declared received =>
    "variable `" ++ name ++ "` already declared as `" ++ declared.text ++
      "` can't re-declare as `" ++
      received.text ++ "`"
  | constantReassigned name =>
    "variable `" ++ name ++ "` is a constant, can't re-assign value to a constant variable"
  | mismatch context expected received =>
    "type mismatch in " ++ context.text ++ ", expected: `" ++ expected.text ++ "`, got: `" ++
      received.text ++ "`"
  | notSingle context received =>
    context.text ++ " must be a single value, got " ++ toString received ++ " values"
  | invalidBinary operator left right =>
    "invalid infix operation `" ++ operator ++ "` with `" ++ left.text ++ "` and `" ++
      right.text ++ "`"
  | invalidUnary operator operand =>
    "invalid prefix operation `" ++ operator ++ "` on `" ++ operand.text ++ "`"
  | invalidStep operator operand =>
    "invalid postfix operation `" ++ operator ++ "` on `" ++ operand.text ++ "`"
  | notIndexable target => "can't index into `" ++ target.text ++ "`"
  | emptyIndexed container =>
    container.text ++ " is empty, can't index empty " ++ container.text
  | conflictingElements literal expected received =>
    literal.text ++ " literal elements have conflicting types: `" ++ expected.text ++ "` and `" ++
      received.text ++ "`"
  | argumentCount function expected received =>
    "number of arguments does not match the number of parameters for function `" ++ function ++
      "`, got: " ++ toString received ++ ", expected: " ++ toString expected
  | argumentMismatch function position expected received =>
    "type mismatch for argument at position " ++ toString position ++ " for function call `" ++
      function ++ "`, expected: `" ++ expected.text ++ "`, got: `" ++ received.text ++ "`"
  | builtinArguments builtin complaint =>
    "invalid arguments for `" ++ builtin.name ++ "`: " ++ complaint.text
  | valueCount targets values =>
    "number of values on the right side of multi-assignment does not match the number of targets on the left, left: " ++
      toString targets ++ ", right: " ++ toString values
  | callExpected =>
    "a single value on the right side of a multi-assignment must be a function call"
  | resultCount function expected received =>
    "function `" ++ function ++ "` expects " ++ toString expected ++ " return values, got " ++
      toString received
  | missingValue _ name _ => "`" ++ name ++ "` must be initialized while declaring"
  | invalidFor header => "invalid `for` loop: " ++ header.text
  | nestedFunction => "can't declare a function inside a function"
  | outsideFunction construct => construct ++ " can only be used inside a function"
  | outsideLoop statement => "`" ++ statement ++ "` statement can only be used inside a loop"
  | alreadyDeclared function =>
    "can't declare a function twice, function with the same name `" ++ function ++
      "` already exists"
  | signatureMismatch function =>
    "function signature of `" ++ function ++ "` doesn't match with previously declared signature"
  | builtinOverride function =>
    "can't override a built-in function, function `" ++ function ++ "` already exists"
  | missingReturn function =>
    "function `" ++ function ++ "` must have a `return` statement at the end of all branches"

def tip? : Cause → Option String
  | unrecognised .. => none
  | unexpected token expected => some ("Unexpected token: `" ++ token ++ "`, expected " ++ expected)
  | unexpectedHere token message => some ("Unexpected token: `" ++ token ++ "`, " ++ message)
  | noExpression .. => some "An expression can't start with this token"
  | invalidNumber token =>
    some ("Invalid number: `" ++ token ++ "`, is it above the integer limit?")
  | invalidKey .. =>
    some "Hashmap keys must be `int`, `float`, `bool`, `string` or `char` literals"
  | invalidCallee => some "Only functions can be called, by name"
  | invalidTarget => some "Only variables can be assigned to"
  | invalidStatement .. => some "Only calls, `++`/`--` and assignments can be used as statements"
  | undeclaredVariable name => some ("Variable `" ++ name ++ "` not declared")
  | functionAsVariable name => some ("Did you mean to call it as `" ++ name ++ "(...)`?")
  | undeclaredFunction name => some ("Function `" ++ name ++ "` not declared")
  | constantRedeclared .. => some "Constants can't be redeclared, pick another name"
  | redeclared _ declared _ =>
    some ("Redeclare it as `" ++ declared.text ++ "` or pick another name")
  | constantReassigned name => some ("Declare `" ++ name ++ "` with `var` to make it mutable")
  | mismatch _ expected received =>
    some ("Expected type `" ++ expected.text ++ "`, received `" ++ received.text ++ "`")
  | notSingle .. => some "Calls used here must return exactly one value"
  | invalidBinary .. | invalidUnary .. | invalidStep .. => none
  | notIndexable .. => some "Only arrays, hashmaps and strings can be indexed"
  | emptyIndexed .. => some "Give the container a declared type before indexing it"
  | conflictingElements .. => some "Every element of a literal must have the same type"
  | argumentCount _ expected received =>
    some ("Expected " ++ toString expected ++ " arguments, received " ++ toString received)
  | argumentMismatch _ _ expected received =>
    some ("Expected argument type `" ++ expected.text ++ "`, received `" ++ received.text ++ "`")
  | builtinArguments builtin _ => some ("Usage: " ++ builtin.usage)
  | valueCount .. =>
    some "Give one value per target, or a single call returning one value per target"
  | callExpected => some "A single value on the right must be a call returning several values"
  | resultCount .. => some "Return multiple values with `return: (val1, val2, ...)`"
  | missingValue constant name type =>
    some (keyword constant ++ " " ++ name ++ ": " ++ type.text ++ " = <value>;")
  | invalidFor .. => some "Use `for: (var i: int = 0; i < n; i++): \x7b ... \x7d`"
  | nestedFunction => some "Declare the function at the top level"
  | outsideFunction .. => some "Everything must be inside a function"
  | outsideLoop .. => none
  | alreadyDeclared function => some ("Function `" ++ function ++ "` already declared")
  | signatureMismatch .. =>
    some "The definition must repeat the forward declaration's parameters and return types"
  | builtinOverride function => some ("`" ++ function ++ "` is a built-in function")
  | missingReturn .. => some "Every branch must end with a `return` statement"

end Cause

structure Fault where
  cause : Cause
  position : Position
  deriving BEq, Repr

end ColonScript
