import ColonScript.Reading.Declaration

/-! Blocks, branches and loops. The reader of statements is a parameter. -/

namespace ColonScript.Reading

def block (stmt : Read Stmt) : Read Block := do
  skip .openCurly
  let body ← many (· ≠ .closeCurly) do
    if (← currentKind) = .eof then unexpectedHere "expected `\x7d` to close the block"
    stmt
  skip .closeCurly
  return body

def condition (statement : String) : Read Expr := do
  skip .colon
  skip .openParen
  let (value, position) ← placed expression
  skip .closeParen
  skip .colon
  let type ← single position value (.condition statement)
  unless type.isBase "bool" do
    failAt position (.mismatch (.condition statement) (.named "bool") type)
  return value

def elseIf (stmt : Read Stmt) : Read (Expr × Block) := do
  skip .elseIfWord
  let condition ← condition "else if"
  return (condition, ← inScope (block stmt))

def otherwise (stmt : Read Stmt) : Read (Option Block) := do
  if (← currentKind) = .elseWord then
    skip .elseWord
    skip .colon
    return some (← inScope (block stmt))
  else return none

def branchStatement (stmt : Read Stmt) : Read Stmt := do
  skip .ifWord
  let condition ← condition "if"
  let body ← inScope (block stmt)
  let elseIfs ← many (· = .elseIfWord) (elseIf stmt)
  return .branch condition body elseIfs (← otherwise stmt)

def startOfLoop : Read Start := do
  let position ← here
  match ← currentKind with
  | .varWord =>
    let head ← head
    unless head.type.isBase "int" do failAt position (.invalidFor .variableType)
    return .declaration (← declarationRest head)
  | .constWord => failAt position (.invalidFor .constant)
  | .identifier =>
    match ← expression .lowest with
    | .assign target operator value type =>
      if operator ≠ "=" then failAt position (.invalidFor .plainStart)
      unless type.isBase "int" do failAt position (.invalidFor .variableType)
      skip .semicolon
      return .assignment (.assign target operator value type)
    | _ => failAt position (.invalidFor .start)
  | _ => failAt position (.invalidFor .start)

def isLoopCondition : Expr → Bool
  | .binary _ _ _ type => type.isBase "bool"
  | _ => false

def isLoopUpdate : Expr → Bool
  | .step _ _ type | .assign _ _ _ type => type.isBase "int"
  | _ => false

def loopHeader : Read (Start × Expr × Expr) := do
  let start ← startOfLoop
  let (condition, position) ← placed expression
  unless isLoopCondition condition do failAt position (.invalidFor .condition)
  skip .semicolon
  let (update, position) ← placed expression
  unless isLoopUpdate update do failAt position (.invalidFor .update)
  return (start, condition, update)

/-- One scope covers the header and the body of a `for` loop. -/
def forStatement (stmt : Read Stmt) : Read Stmt := do
  skip .forWord
  skip .colon
  skip .openParen
  inScope do
    let (start, condition, update) ← loopHeader
    skip .closeParen
    skip .colon
    return .forLoop start condition update (← within .looping (block stmt))

def whileStatement (stmt : Read Stmt) : Read Stmt := do
  skip .whileWord
  let condition ← condition "while"
  return .whileLoop condition (← within .looping (inScope (block stmt)))

def loopControl : Read Stmt := do
  let token ← next
  let position ← positionOf token
  unless (← place).inLoop do failAt position (.outsideLoop token.value)
  skip .semicolon
  return if token.kind = .continueWord then .continuing else .breaking

end ColonScript.Reading
