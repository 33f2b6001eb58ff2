import ColonScript.Text.Classes
import ColonScript.Token

/-! The shapes a lexeme can have, in the order in which they are tried. A rule splits what it
matches off the front of the text; blanks and comments leave no token. -/

namespace ColonScript.Token

open Text

inductive Rule
  | blanks
  | comment
  | elseIf
  | word
  | decimal
  | digits
  | quotedString
  | quotedChar
  | mark (kind : Kind) (spelling : String)
  deriving DecidableEq, Repr

def isWordStart (c : Char) : Bool := c.isAlpha || c = '_'

def isWordRest (c : Char) : Bool := c.isAlphanum || c = '_'

def run? (p : Char → Bool) (cs : List Char) : Option (List Char × List Char) :=
  if (cs.takeWhile p).isEmpty then none else some (cs.takeWhile p, cs.dropWhile p)

/-- A word ends where no word character follows. -/
def endsWord : List Char → Bool
  | [] => true
  | c :: _ => !isWordChar c

def elseIf? : List Char → Option (List Char × List Char)
  | 'e' :: 'l' :: 's' :: 'e' :: cs =>
    match run? isBlank cs with
    | some (gap, 'i' :: 'f' :: rest) =>
      if endsWord rest then some (['e', 'l', 's', 'e'] ++ gap ++ ['i', 'f'], rest) else none
    | _ => none
  | _ => none

def comment? : List Char → Option (List Char × List Char)
  | '/' :: '/' :: cs => some ('/' :: '/' :: cs.takeWhile (· ≠ '\n'), cs.dropWhile (· ≠ '\n'))
  | _ => none

def word? : List Char → Option (List Char × List Char)
  | c :: cs =>
    if isWordStart c then some (c :: cs.takeWhile isWordRest, cs.dropWhile isWordRest) else none
  | [] => none

def decimal? (cs : List Char) : Option (List Char × List Char) :=
  match run? Char.isDigit cs with
  | some (whole, '.' :: rest) =>
    (run? Char.isDigit rest).map fun (part, rest) => (whole ++ '.' :: part, rest)
  | _ => none

def quotedString? : List Char → Option (List Char × List Char)
  | '"' :: cs =>
    match cs.dropWhile (· ≠ '"') with
    | [] => none
    | quote :: rest => some ('"' :: cs.takeWhile (· ≠ '"') ++ [quote], rest)
  | _ => none

def quotedChar? : List Char → Option (List Char × List Char)
  | '\'' :: '\'' :: rest => some (['\'', '\''], rest)
  | '\'' :: c :: '\'' :: rest => some (['\'', c, '\''], rest)
  | _ => none

namespace Rule

def split? : Rule → List Char → Option (List Char × List Char)
  | blanks, cs => run? isBlank cs
  | comment, cs => comment? cs
  | elseIf, cs => elseIf? cs
  | word, cs => word? cs
  | decimal, cs => decimal? cs
  | digits, cs => run? Char.isDigit cs
  | quotedString, cs => quotedString? cs
  | quotedChar, cs => quotedChar? cs
  | mark _ spelling, cs => (spelling.toList.isPrefixOf? cs).map fun rest => (spelling.toList, rest)

/-- Of two marks that begin alike the longer stands first. -/
def all : List Rule :=
  [blanks, comment, elseIf, word, decimal, digits, quotedString, quotedChar,
    mark .openParen "(", mark .closeParen ")", mark .openBracket "[", mark .closeBracket "]",
    mark .openCurly "\x7b", mark .closeCurly "\x7d",
    mark .equal "==", mark .notEqual "!=", mark .lessEqual "<=", mark .greaterEqual ">=",
    mark .less "<", mark .greater ">",
    mark .plusPlus "++", mark .plusAssign "+=", mark .plus "+",
    mark .minusMinus "--", mark .minusAssign "-=", mark .minus "-",
    mark .starAssign "*=", mark .star "*", mark .slashAssign "/=", mark .slash "/",
    mark .percentAssign "%=", mark .percent "%",
    mark .andAnd "&&", mark .orOr "||", mark .and "&", mark .or "|",
    mark .assign "=", mark .not "!",
    mark .colon ":", mark .semicolon ";", mark .comma ",", mark .dot "."]

end Rule

def reservedWords : List (String × Kind) :=
  [("var", .varWord), ("const", .constWord), ("fun", .funWord), ("if", .ifWord),
    ("else", .elseWord), ("for", .forWord), ("while", .whileWord), ("continue", .continueWord),
    ("break", .breakWord), ("return", .returnWord), ("true", .bool), ("false", .bool),
    ("int", .type), ("float", .type), ("bool", .type), ("string", .type), ("char", .type)]

def wordKind (word : String) : Kind := (reservedWords.lookup word).getD .identifier

/-- Kind and value of a lexeme. Quotes are cut off, and the words of an `else if` stand one blank
apart. -/
def Rule.meaning? : Rule → List Char → Option (Kind × String)
  | blanks, _ => none
  | comment, _ => none
  | elseIf, _ => some (.elseIfWord, "else if")
  | word, lexeme => some (wordKind (String.ofList lexeme), String.ofList lexeme)
  | decimal, lexeme => some (.float, String.ofList lexeme)
  | digits, lexeme => some (.integer, String.ofList lexeme)
  | quotedString, lexeme => some (.string, String.ofList lexeme.tail.dropLast)
  | quotedChar, lexeme => some (.char, String.ofList lexeme.tail.dropLast)
  | mark kind spelling, _ => some (kind, spelling)

end ColonScript.Token
