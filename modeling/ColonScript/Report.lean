import ColonScript.Fault
import ColonScript.Text.Classes
import ColonScript.Text.Line

/-! How a fault is shown: its name and tip, the path of the file, the line it lies in with a caret
under the column, and the message. The column counts bytes, and the spaces at the front of the line
are cut off. -/

namespace ColonScript.Fault

open Text

def title (fault : Fault) : List Char :=
  ("Error: " ++ fault.cause.name ++
    match fault.cause.tip? with
    | none => ""
    | some tip => " (" ++ tip ++ ")").toList

def margin (number : Nat) : List Char :=
  List.replicate ((Nat.toDigits 10 number).length + 1) ' ' ++ ['|']

def indentation (line : List Char) : List Char := line.takeWhile (· = ' ')

def shownLine (line : Line) : List Char :=
  Nat.toDigits 10 line.number ++ [' ', '|', ' '] ++
    trimEnd (line.text.drop (indentation line.text).length)

def caretLine (line : Line) : List Char :=
  margin line.number ++ [' '] ++
    List.replicate (line.column - (indentation line.text).length) '-' ++ ['^']

/-- The lines of the report. For an offset outside of the text only title, path and message
remain. -/
def reportLines (fault : Fault) (path source : String) : List (List Char) :=
  [fault.title, "-> ".toList ++ path.toList] ++
    (match lineAt? source.toList fault.position.offset with
    | none => []
    | some line => [margin line.number, shownLine line, caretLine line]) ++
    [fault.cause.message.toList]

def report (fault : Fault) (path source : String) : String :=
  String.ofList ((fault.reportLines path source).flatMap fun line => line ++ ['\n'])

end ColonScript.Fault
