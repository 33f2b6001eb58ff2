import ColonScript.Decimal.Shortest
import ColonScript.Tree

/-! The one written form of a tree. Every operator stands in parentheses with its operands, so that
the text needs no rules of precedence. -/

namespace ColonScript

open Text (listed)

namespace Expr

/-- An assignment binds looser than any operator, so as an operand it stands in parentheses. -/
def asOperand (expr : Expr) (text : String) : String :=
  match expr with
  | assign .. => "(" ++ text ++ ")"
  | _ => text

mutual

def text : Expr → String
  | .name own _ => own
  | integer value _ => toString value
  | float value _ => String.ofList value.text
  | bool value _ => if value then "true" else "false"
  | string value _ => "\"" ++ value ++ "\""
  | char value _ => "'" ++ value ++ "'"
  | array elements _ => "[" ++ listed (texts elements) ++ "]"
  | map pairs _ => "\x7b" ++ listed (pairTexts pairs) ++ "\x7d"
  | unary operator operand _ => "(" ++ operator ++ asOperand operand operand.text ++ ")"
  | binary left operator right _ =>
    "(" ++ asOperand left left.text ++ " " ++ operator ++ " " ++ asOperand right right.text ++ ")"
  | step operand operator _ => "(" ++ asOperand operand operand.text ++ operator ++ ")"
  | assign target operator value _ => target ++ " " ++ operator ++ " " ++ value.text
  | call callee arguments _ => callee ++ "(" ++ listed (texts arguments) ++ ")"
  | .index target key _ => asOperand target target.text ++ "[" ++ key.text ++ "]"

def texts : List Expr → List String
  | [] => []
  | expr :: rest => expr.text :: texts rest

def pairTexts : List (Expr × Expr) → List String
  | [] => []
  | (key, value) :: rest => (key.text ++ ": " ++ value.text) :: pairTexts rest

end

end Expr

def keyword (constant : Bool) : String := if constant then "const" else "var"

def Declaration.text (declaration : Declaration) : String :=
  keyword declaration.constant ++ " " ++ declaration.name ++ ": " ++
    declaration.type.text ++ " = " ++
    declaration.value.text

def Target.text : Target → String
  | declared constant name type => keyword constant ++ " " ++ name ++ ": " ++ type.text
  | existing name _ => name

def Start.text : Start → String
  | .declaration declared => declared.text
  | .assignment expr => expr.text

namespace Stmt

mutual

def text : Stmt → String
  | .expression expr => expr.text ++ ";"
  | .declaration declared => declared.text ++ ";"
  | multiple targets values =>
    listed (targets.map Target.text) ++ " = " ++ listed (Expr.texts values) ++ ";"
  | returning [] => "return;"
  | returning [value] => "return: " ++ value.text ++ ";"
  | returning values => "return: (" ++ listed (Expr.texts values) ++ ");"
  | function signature none => "fun: " ++ signature.text ++ ";"
  | function signature (some body) => "fun: " ++ signature.text ++ " " ++ blockText body
  | branch condition body elseIfs otherwise =>
    "if: (" ++ condition.text ++ "): " ++ blockText body ++ elseIfsText elseIfs ++
      match otherwise with
      | none => ""
      | some body => " else: " ++ blockText body
  | forLoop start condition update body =>
    "for: (" ++ start.text ++ "; " ++ condition.text ++ "; " ++ update.text ++
      "): " ++ blockText body
  | whileLoop condition body => "while: (" ++ condition.text ++ "): " ++ blockText body
  | continuing => "continue;"
  | breaking => "break;"

def statementsText : List Stmt → String
  | [] => ""
  | stmt :: rest => stmt.text ++ " " ++ statementsText rest

def blockText : List Stmt → String
  | [] => "\x7b \x7d"
  | stmt :: rest => "\x7b " ++ stmt.text ++ " " ++ statementsText rest ++ "\x7d"

def elseIfsText : List (Expr × List Stmt) → String
  | [] => ""
  | (condition, body) :: rest =>
    " else if: (" ++ condition.text ++ "): " ++ blockText body ++ elseIfsText rest

end

end Stmt

def Stmt.linesText : List Stmt → String
  | [] => ""
  | stmt :: rest => stmt.text ++ "\n" ++ linesText rest

def Program.text (program : Program) : String := Stmt.linesText program.statements

end ColonScript
