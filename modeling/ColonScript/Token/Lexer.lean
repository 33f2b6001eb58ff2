import ColonScript.Fault
import ColonScript.Text.Line
import ColonScript.Token.Rule

/-! Cutting a text into tokens. At every offset the first rule that matches decides; the list ends
with an end-of-input token at the end of the text. -/

namespace ColonScript.Token

open Text

def firstMatch? (cs : List Char) : Option (Rule × List Char × List Char) :=
  Rule.all.findSome? fun rule => (rule.split? cs).map fun split => (rule, split)

def ofLexeme? (rule : Rule) (lexeme : List Char) (offset : Nat) : Option Token :=
  (rule.meaning? lexeme).map fun (kind, value) =>
    ⟨kind, value, offset, offset + byteLength lexeme⟩

/-- The tokens of a text that begins at `offset`, or the first character that begins none and its
offset. A lexeme is never empty, so there are at most as many as the text has characters. -/
def scan : Nat → Nat → List Char → Except (Char × Nat) (List Token)
  | _, offset, [] => .ok [endOfInput offset]
  | 0, offset, c :: _ => .error (c, offset)
  | bound + 1, offset, c :: cs =>
    match firstMatch? (c :: cs) with
    | none => .error (c, offset)
    | some (rule, lexeme, rest) => do
      let following ← scan bound (offset + byteLength lexeme) rest
      return (ofLexeme? rule lexeme offset).toList ++ following

def ofSource (source file : String) : Except Fault (List Token) :=
  match scan source.toList.length 0 source.toList with
  | .ok tokens => .ok tokens
  | .error (c, offset) => .error ⟨.unrecognised c, ⟨offset, file⟩⟩

end ColonScript.Token
