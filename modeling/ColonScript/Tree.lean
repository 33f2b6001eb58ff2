import ColonScript.Decimal.Numbers
import ColonScript.Signature

/-! The typed tree of a script. Every expression carries the types it was found to have; a call has
as many as its callee has results, everything else has one. An operator is kept as it is written. -/

namespace ColonScript

inductive Expr
  | name (name : String) (type : Ty)
  | integer (value : Int) (type : Ty)
  | float (value : Decimal.Binary64) (type : Ty)
  | bool (value : Bool) (type : Ty)
  | string (value : String) (type : Ty)
  | char (value : String) (type : Ty)
  | array (elements : List Expr) (type : Ty)
  | map (pairs : List (Expr × Expr)) (type : Ty)
  | unary (operator : String) (operand : Expr) (type : Ty)
  | binary (left : Expr) (operator : String) (right : Expr) (type : Ty)
  | step (operand : Expr) (operator : String) (type : Ty)
  | assign (target : String) (operator : String) (value : Expr) (type : Ty)
  | call (callee : String) (arguments : List Expr) (results : List Ty)
  | index (target index : Expr) (type : Ty)
  deriving BEq, Repr, Inhabited

namespace Expr

def types : Expr → List Ty
  | name _ type | integer _ type | float _ type | bool _ type | string _ type | char _ type
  | array _ type | map _ type | unary _ _ type | binary _ _ _ type | step _ _ type
  | assign _ _ _ type
  | index _ _ type => [type]
  | call _ _ results => results

def isBaseLiteral : Expr → Bool
  | integer .. | float .. | bool .. | string .. | char .. => true
  | _ => false

def isAction : Expr → Bool
  | call .. | step .. | assign .. => true
  | _ => false

end Expr

structure Declaration where
  constant : Bool
  name : String
  type : Ty
  value : Expr
  deriving BEq, Repr

inductive Target
  | declared (constant : Bool) (name : String) (type : Ty)
  | existing (name : String) (type : Ty)
  deriving DecidableEq, Repr

namespace Target

def name : Target → String
  | declared _ name _ | existing name _ => name

def type : Target → Ty
  | declared _ _ type | existing _ type => type

end Target

inductive Start
  | declaration (declaration : Declaration)
  | assignment (assignment : Expr)
  deriving BEq, Repr

inductive Stmt
  | expression (expression : Expr)
  | declaration (declaration : Declaration)
  | multiple (targets : List Target) (values : List Expr)
  | returning (values : List Expr)
  | function (signature : Signature) (body : Option (List Stmt))
  | branch (condition : Expr) (body : List Stmt) (elseIfs : List (Expr × List Stmt))
      (otherwise : Option (List Stmt))
  | forLoop (start : Start) (condition update : Expr) (body : List Stmt)
  | whileLoop (condition : Expr) (body : List Stmt)
  | continuing
  | breaking
  deriving BEq, Repr, Inhabited

abbrev Block := List Stmt

/-! Whether every way through a block ends in `return`. Only the last statement counts, and a loop
is never relied on. -/

mutual

def Stmt.returns : Stmt → Bool
  | .returning _ => true
  | .branch _ body elseIfs (some otherwise) =>
    Stmt.blockReturns body && Stmt.clausesReturn elseIfs && Stmt.blockReturns otherwise
  | _ => false

def Stmt.blockReturns : List Stmt → Bool
  | [] => false
  | [stmt] => stmt.returns
  | _ :: rest => Stmt.blockReturns rest

def Stmt.clausesReturn : List (Expr × List Stmt) → Bool
  | [] => true
  | (_, body) :: rest => Stmt.blockReturns body && Stmt.clausesReturn rest

end

structure Program where
  statements : List Stmt
  deriving BEq, Repr

namespace Program

def functions (program : Program) (name : String) : List (Signature × Option Block) :=
  program.statements.filterMap fun
    | .function signature body => if signature.name = name then some (signature, body) else none
    | _ => none

/-- A definition wins over the forward declaration that it completes. -/
def function? (program : Program) (name : String) : Option (Signature × Option Block) :=
  let functions := program.functions name
  (functions.find? fun function => function.2.isSome).or functions.head?

end Program

end ColonScript
