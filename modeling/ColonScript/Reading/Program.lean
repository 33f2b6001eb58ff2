import ColonScript.Reading.Statement
import ColonScript.Token.Lexer

/-! Whole scripts, from tokens or from text, and the second reading of what the first one
printed. -/

namespace ColonScript

namespace Reading

def program : Read Program := inScope do return ⟨← many (· ≠ .eof) statement⟩

/-- The session is handed back either way, in the state in which the reading ended. -/
def readTokens (tokens : List Token) (file : String) (testing : Bool) :
    Except Fault Program × Session :=
  match program (.ofTokens tokens file testing .standard) with
  | .ok program session => (.ok program, session)
  | .error fault session => (.error fault, session)

end Reading

namespace Program

def ofTokens (tokens : List Token) (file : String) (testing : Bool) : Except Fault Program :=
  (Reading.readTokens tokens file testing).1

def ofSource (source file : String) (testing : Bool) : Except Fault Program := do
  ofTokens (← Token.ofSource source file) file testing

inductive Rereading
  | same
  | different (program : Program)
  | failed (fault : Fault)

def reread (program : Program) (file : String) (testing : Bool) : Rereading :=
  match ofSource program.text file testing with
  | .error fault => .failed fault
  | .ok again => if again == program then .same else .different again

end Program

end ColonScript
