import ColonScript.Reading.Grammar
import ColonScript.Scope
import ColonScript.Ty.Pool

/-! The state of reading a script: the tokens ahead, the names in scope, the pool of types, and the
place in the structure of the script. -/

namespace ColonScript.Reading

structure Closing where
  value : String
  start : Nat
  stop : Nat
  deriving DecidableEq, Repr

def Closing.token (closing : Closing) : Token := ⟨.eof, closing.value, closing.start, closing.stop⟩

/-- The tokens that are not read yet. The closing one is never passed. -/
structure Cursor where
  ahead : List Token
  closing : Closing
  deriving DecidableEq, Repr

namespace Cursor

/-- A list that lacks an end-of-input token gets one where its last token stops. -/
def ofTokens (tokens : List Token) : Cursor :=
  match tokens.getLast? with
  | none => ⟨[], "EOF", 0, 0⟩
  | some last =>
    if last.kind = .eof then ⟨tokens.dropLast, last.value, last.start, last.stop⟩
    else ⟨tokens, "EOF", last.stop, last.stop⟩

def current (cursor : Cursor) : Token := cursor.ahead.headD cursor.closing.token

def second (cursor : Cursor) : Token := cursor.ahead.tail.headD cursor.closing.token

def next (cursor : Cursor) : Cursor := { cursor with ahead := cursor.ahead.tail }

end Cursor

structure Place where
  inFunction : Bool
  inLoop : Bool
  testing : Bool
  function : Option Signature
  deriving DecidableEq, Repr

namespace Place

def top (testing : Bool) : Place := ⟨false, false, testing, none⟩

/-- The place of the body of a function; loops around the function do not count in it. -/
def inside (signature : Signature) (outer : Place) : Place :=
  { outer with inFunction := true, inLoop := false, function := some signature }

def looping (outer : Place) : Place := { outer with inLoop := true }

end Place

structure Session where
  cursor : Cursor
  file : String
  grammar : Grammar
  scopes : ScopeStack
  pool : Ty.Pool
  place : Place
  deriving Repr

def Session.ofTokens (tokens : List Token) (file : String) (testing : Bool) (grammar : Grammar) :
    Session :=
  ⟨.ofTokens tokens, file, grammar, .initial, .empty, .top testing⟩

end ColonScript.Reading
