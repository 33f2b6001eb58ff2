import ColonScript.Reading.Session
import ColonScript.Typing

/-! The steps of which every production is made. A step that fails keeps the state it reached, so
that what was opened and not closed stays open. -/

namespace ColonScript.Reading

open Token (Kind)

abbrev Read := EStateM Fault Session

def current : Read Token := return (← get).cursor.current

def currentKind : Read Kind := return (← current).kind

def second : Read Token := return (← get).cursor.second

def next : Read Token :=
  modifyGet fun session => (session.cursor.current, { session with cursor := session.cursor.next })

def positionOf (token : Token) : Read Position := return ⟨token.start, (← get).file⟩

def here : Read Position := do positionOf (← current)

def failAt (position : Position) (cause : Cause) : Read α := throw ⟨cause, position⟩

def failHere (cause : Token → Cause) : Read α := do failAt (← here) (cause (← current))

def unexpectedHere (message : String) : Read α :=
  failHere fun token => .unexpectedHere token.value message

def take (kind : Kind) : Read Token := do
  if (← currentKind) = kind then next
  else failHere fun token => .unexpected token.value kind.name

def takeOr (kind : Kind) (message : String) : Read Token := do
  if (← currentKind) = kind then next else unexpectedHere message

def skip (kind : Kind) : Read Unit := do let _ ← take kind

/-! Types. -/

def pooled (f : Ty.Pool → α × Ty.Pool) : Read α :=
  modifyGet fun session => ((f session.pool).1, { session with pool := (f session.pool).2 })

def typed (position : Position) (rule : Typing α) : Read α := fun session =>
  match rule session.pool with
  | .ok value pool => .ok value { session with pool }
  | .error cause pool => .error ⟨cause, position⟩ { session with pool }

def check (position : Position) : Except Cause α → Read α
  | .ok value => pure value
  | .error cause => failAt position cause

def single (position : Position) (expr : Expr) (context : Context) : Read Ty :=
  check position (Typing.single expr context)

/-- The type on which both agree; if there is none, the cause at the position. -/
def joinOr (position : Position) (a b : Ty) (cause : Cause) : Read Ty := do
  match ← pooled (Ty.Pool.join a b) with
  | some both => return both
  | none => failAt position cause

/-! Scopes and places. -/

def scopes : Read ScopeStack := return (← get).scopes

def setScopes (scopes : ScopeStack) : Read Unit := modify fun session => { session with scopes }

def updateScopes (f : ScopeStack → Except Fault ScopeStack) : Read Unit := do
  match f (← scopes) with
  | .ok scopes => setScopes scopes
  | .error fault => throw fault

/-- Reads in a scope of its own. When the reading fails, the scope stays open. -/
def inScope (body : Read α) : Read α := do
  setScopes (← scopes).push
  let value ← body
  setScopes (← scopes).pop
  return value

def place : Read Place := return (← get).place

def setPlace (place : Place) : Read Unit := modify fun session => { session with place }

def within (inner : Place → Place) (body : Read α) : Read α := do
  let outer ← place
  setPlace (inner outer)
  let value ← body
  setPlace outer
  return value

end ColonScript.Reading
