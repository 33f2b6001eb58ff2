import ColonScript.Proofs.Printing.Tokens
import ColonScript.Proofs.Reading.Sentence

/-! The tokens of the written form of a script, statement by statement, without their places in the
text. -/

namespace ColonScript
open Spelling

namespace Spelling

def ofKeyword (constant : Bool) : Spelling :=
  if constant then (.constWord, "const") else (.varWord, "var")

def annotated (name : String) (type : Ty) : List Spelling :=
  (.identifier, name) :: (.colon, ":") :: type.tokens

def headed (inner : List Spelling) : List Spelling :=
  (.colon, ":") :: (parens inner ++ [(.colon, ":")])

end Spelling

def Declaration.headTokens (declaration : Declaration) : List Spelling :=
  ofKeyword declaration.constant :: annotated declaration.name declaration.type

def Declaration.tokens (declaration : Declaration) : List Spelling :=
  declaration.headTokens ++ (.assign, "=") :: declaration.value.tokens

def Target.tokens : Target → List Spelling
  | declared constant name type => ofKeyword constant :: annotated name type
  | existing name _ => [(.identifier, name)]

def Start.tokens : Start → List Spelling
  | .declaration declared => declared.tokens
  | .assignment expr => expr.tokens

def Start.headerTokens (start : Start) (condition update : Expr) : List Spelling :=
  start.tokens ++ (.semicolon, ";") :: (condition.tokens ++ (.semicolon, ";") :: update.tokens)

def Parameter.tokens (parameter : Parameter) : List Spelling :=
  annotated parameter.name parameter.type

def Signature.resultTokens (results : List Ty) : List Spelling :=
  if results.isEmpty then [] else (.colon, ":") :: parens (listed (results.map Ty.tokens))

def Signature.tokens (signature : Signature) : List Spelling :=
  (.identifier, signature.name) :: (parens (listed (signature.parameters.map Parameter.tokens)) ++
    resultTokens signature.results)

def Expr.returnedTokens : List Expr → List Spelling
  | [] => []
  | [value] => (.colon, ":") :: value.tokens
  | values => (.colon, ":") :: parens (listed (tokensOf values))

mutual

def Stmt.tokens : Stmt → List Spelling
  | .expression expr => expr.tokens ++ [(.semicolon, ";")]
  | .declaration declared => declared.tokens ++ [(.semicolon, ";")]
  | .multiple targets values =>
    listed (targets.map Target.tokens) ++ (.assign, "=") ::
      (listed (Expr.tokensOf values) ++ [(.semicolon, ";")])
  | .returning values =>
    (.returnWord, "return") :: (Expr.returnedTokens values ++ [(.semicolon, ";")])
  | .function signature none =>
    (.funWord, "fun") :: (.colon, ":") :: (signature.tokens ++ [(.semicolon, ";")])
  | .function signature (some body) =>
    (.funWord, "fun") :: (.colon, ":") :: (signature.tokens ++ curlies (Block.tokens body))
  | .branch condition body clauses otherwise =>
    (.ifWord, "if") :: (headed condition.tokens ++
      (curlies (Block.tokens body) ++ (Block.tokensOf clauses ++ Block.tokensIn otherwise)))
  | .forLoop start condition update body =>
    (.forWord, "for") :: (headed (start.headerTokens condition update) ++ curlies
      (Block.tokens body))
  | .whileLoop condition body =>
    (.whileWord, "while") :: (headed condition.tokens ++ curlies (Block.tokens body))
  | .continuing => [(.continueWord, "continue"), (.semicolon, ";")]
  | .breaking => [(.breakWord, "break"), (.semicolon, ";")]

def Block.tokens : List Stmt → List Spelling
  | [] => []
  | stmt :: rest => stmt.tokens ++ Block.tokens rest

def Block.tokensOf : List (Expr × List Stmt) → List Spelling
  | [] => []
  | (condition, body) :: rest =>
    (.elseIfWord, "else if") ::
      (headed condition.tokens ++ (curlies (Block.tokens body) ++ Block.tokensOf rest))

def Block.tokensIn : Option (List Stmt) → List Spelling
  | none => []
  | some body => (.elseWord, "else") :: (.colon, ":") :: curlies (Block.tokens body)

end

def Program.tokens (program : Program) : List Spelling := Block.tokens program.statements

namespace Reading

def Sentence.tokens : Sentence → List Spelling
  | .stmt st => st.tokens
  | .block body => curlies (Block.tokens body)
  | .statements body | .script body => Block.tokens body
  | .clauses rest => Block.tokensOf rest
  | .otherwise last => Block.tokensIn last

end Reading

end ColonScript
