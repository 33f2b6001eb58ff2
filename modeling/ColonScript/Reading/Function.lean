import ColonScript.Reading.Block
import ColonScript.Tree

/-! Functions and `return`. The reader of statements is a parameter. -/

namespace ColonScript.Reading

def parameter : Read Parameter := do
  let name ← take .identifier
  skip .colon
  return ⟨name.value, ← writtenType .lowest⟩

def parameters : Read (List Parameter) := do
  skip .openParen
  let (parameters, ()) ← items .closeParen (fun () => return (← parameter, ())) ()
  skip .closeParen
  return parameters

def resultTypes : Read (List Ty) := do
  if (← currentKind) = .colon then
    skip .colon
    skip .openParen
    let types ← separated (writtenType .lowest)
    skip .closeParen
    return types
  else return []

def declareParameters (position : Position) : List Parameter → Read Unit
  | [] => return ()
  | parameter :: rest => do
    updateScopes fun scopes => scopes.declareParameter parameter position
    declareParameters position rest

def functionBody (stmt : Read Stmt) (signature : Signature) (position : Position) : Read Block :=
  within (.inside signature) <| inScope do
    declareParameters position signature.parameters
    block stmt

def requireReturn (signature : Signature) (body : Block) (position : Position) : Read Unit := do
  if !(← place).testing && !signature.results.isEmpty && !Stmt.blockReturns body then
    failAt position (.missingReturn signature.name)

/-- A forward declaration, or a definition. The function is known inside its own body. -/
def functionStatement (stmt : Read Stmt) : Read Stmt := do
  let position ← positionOf (← next)
  if (← place).inFunction then failAt position .nestedFunction
  skip .colon
  let name ← takeOr .identifier "expected a function name after `fun:`"
  let parameters ← parameters
  let signature : Signature := ⟨name.value, parameters, ← resultTypes⟩
  if (← currentKind) = .semicolon then
    skip .semicolon
    updateScopes fun scopes => scopes.register ⟨signature, .declared⟩ position
    return .function signature none
  else
    updateScopes fun scopes => scopes.register ⟨signature, .defined⟩ position
    let body ← functionBody stmt signature position
    requireReturn signature body position
    return .function signature (some body)

/-- One value behind the colon, or several in parentheses. -/
def givenResults : Read (List (Expr × Position)) := do
  let _ ← takeOr .colon "expected `:` or `;` after `return`"
  if (← currentKind) = .openParen then
    skip .openParen
    let values ← separated (placed expression)
    skip .closeParen
    return values
  else
    let value ← placed expression
    if (← currentKind) = .comma then
      unexpectedHere "to return multiple values, use `return: (val1, val2, ...);`"
    return [value]

def fitResults (function : String) : List Ty → List (Expr × Position) → Read (List Expr)
  | result :: results, (value, position) :: rest => do
    let type ← single position value .returned
    let both ← joinOr position result type (.mismatch (.returnFrom function) result type)
    return value.settle both :: (← fitResults function results rest)
  | _, _ => return []

def returnStatement : Read Stmt := do
  let position ← positionOf (← next)
  match (← place).function with
  | none => failAt position (.outsideFunction "`return`")
  | some function =>
    let values ← if (← currentKind) = .semicolon then pure [] else givenResults
    skip .semicolon
    if values.length ≠ function.results.length then
      failAt position (.resultCount function.name function.results.length values.length)
    return .returning (← fitResults function.name function.results values)

end ColonScript.Reading
