import ColonScript.Reading.Function

/-! Any statement: the keyword it begins with decides, and without one it is an expression. -/

namespace ColonScript.Reading

open Token (Kind)

def construct : Kind → String
  | .varWord | .constWord => "a variable declaration"
  | .returnWord => "`return`"
  | .ifWord => "an `if` statement"
  | .forWord => "a `for` loop"
  | .whileWord => "a `while` loop"
  | .continueWord => "`continue`"
  | .breakWord => "`break`"
  | _ => "an expression statement"

def formed (stmt : Read Stmt) : Form → Read Stmt
  | .declaration => declarationStatement
  | .returning => returnStatement
  | .function => functionStatement stmt
  | .branch => branchStatement stmt
  | .forLoop => forStatement stmt
  | .whileLoop => whileStatement stmt
  | .loopControl => loopControl

def requirePlace (kind : Kind) : Read Unit := do
  let place ← place
  if !place.inFunction && !place.testing && kind ≠ .funWord then
    failHere fun _ => .outsideFunction (construct kind)

def statementWith (stmt : Read Stmt) : Read Stmt := do
  let kind ← currentKind
  requirePlace kind
  match (← get).grammar.form? kind with
  | some form => formed stmt form
  | none => expressionStatement

def statementUpTo : Nat → Read Stmt
  | 0 => boundMet
  | depth + 1 => statementWith (statementUpTo depth)

def statement : Read Stmt := do statementUpTo (← bound)

end ColonScript.Reading
