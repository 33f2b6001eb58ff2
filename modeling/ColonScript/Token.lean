/-! Tokens of a script: what each is, the text it carries, and the bytes of the source it covers. -/

namespace ColonScript

namespace Token

inductive Kind
  | eof
  | integer | float | bool | string | char | identifier | type
  | openParen | closeParen | openBracket | closeBracket | openCurly | closeCurly
  | colon | semicolon | comma | dot
  | equal | notEqual | lessEqual | greaterEqual | less | greater
  | plusPlus | plusAssign | plus | minusMinus | minusAssign | minus
  | starAssign | star | slashAssign | slash | percentAssign | percent
  | andAnd | orOr | and | or
  | assign | not
  | varWord | constWord | funWord | ifWord | elseWord | elseIfWord | forWord | whileWord
  | continueWord | breakWord | returnWord
  deriving DecidableEq, Repr

def Kind.name : Kind → String
  | eof => "EOF"
  | integer => "Integer"
  | float => "Float"
  | bool => "Bool"
  | string => "String"
  | char => "Char"
  | identifier => "Identifier"
  | type => "Type"
  | openParen => "OpenParen"
  | closeParen => "CloseParen"
  | openBracket => "OpenBracket"
  | closeBracket => "CloseBracket"
  | openCurly => "OpenCurly"
  | closeCurly => "CloseCurly"
  | colon => "Colon"
  | semicolon => "Semicolon"
  | comma => "Comma"
  | dot => "Dot"
  | equal => "Equals"
  | notEqual => "NotEquals"
  | lessEqual => "LessEquals"
  | greaterEqual => "GreaterEquals"
  | less => "Less"
  | greater => "Greater"
  | plusPlus => "PlusPlus"
  | plusAssign => "PlusEquals"
  | plus => "Plus"
  | minusMinus => "MinusMinus"
  | minusAssign => "MinusEquals"
  | minus => "Dash"
  | starAssign => "StarEquals"
  | star => "Star"
  | slashAssign => "SlashEquals"
  | slash => "Slash"
  | percentAssign => "PercentEquals"
  | percent => "Percent"
  | andAnd => "AndAnd"
  | orOr => "OrOr"
  | and => "And"
  | or => "Or"
  | assign => "Assignment"
  | not => "Not"
  | varWord => "Var"
  | constWord => "Const"
  | funWord => "Fun"
  | ifWord => "If"
  | elseWord => "Else"
  | elseIfWord => "ElseIf"
  | forWord => "For"
  | whileWord => "While"
  | continueWord => "Continue"
  | breakWord => "Break"
  | returnWord => "Return"

def Kind.all : List Kind :=
  [.eof, .integer, .float, .bool, .string, .char, .identifier, .type,
    .openParen, .closeParen, .openBracket, .closeBracket, .openCurly, .closeCurly,
    .colon, .semicolon, .comma, .dot,
    .equal, .notEqual, .lessEqual, .greaterEqual, .less, .greater,
    .plusPlus, .plusAssign, .plus, .minusMinus, .minusAssign, .minus,
    .starAssign, .star, .slashAssign, .slash, .percentAssign, .percent,
    .andAnd, .orOr, .and, .or, .assign, .not,
    .varWord, .constWord, .funWord, .ifWord, .elseWord, .elseIfWord, .forWord, .whileWord,
    .continueWord, .breakWord, .returnWord]

theorem Kind.mem_all (kind : Kind) : kind ∈ Kind.all := by cases kind <;> decide

def Kind.ofName? (name : String) : Option Kind := Kind.all.find? fun kind => kind.name = name

theorem Kind.ofName?_name (kind : Kind) : Kind.ofName? kind.name = some kind := by
  cases kind <;> decide

end Token

/-- The quotes of a string or character are not part of its value. -/
structure Token where
  kind : Token.Kind
  value : String
  start : Nat
  stop : Nat
  deriving DecidableEq, Repr

namespace Token

def text (token : Token) : String :=
  match token.kind with
  | .string => "\"" ++ token.value ++ "\""
  | .char => "'" ++ token.value ++ "'"
  | _ => token.value

def endOfInput (offset : Nat) : Token := ⟨.eof, "EOF", offset, offset⟩

end Token

end ColonScript
