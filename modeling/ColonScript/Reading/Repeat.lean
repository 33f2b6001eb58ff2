import ColonScript.Reading.Step

/-! Repetition. Every round reads at least one token, so that the number of tokens ahead bounds the
rounds; one round more is allowed than there are tokens, and the bound is never met. -/

namespace ColonScript.Reading

open Token (Kind)

def boundMet : Read α := failHere fun token => .noExpression token.value

/-- One more than the number of tokens ahead. -/
def bound : Read Nat := return (← get).cursor.ahead.length + 1

def collectUpTo (more : Kind → Bool) (item : σ → Read (α × σ)) : Nat → σ → Read (List α × σ)
  | 0, _ => boundMet
  | rounds + 1, state => do
    if more (← currentKind) then
      let (first, state) ← item state
      let (rest, state) ← collectUpTo more item rounds state
      return (first :: rest, state)
    else return ([], state)

def collect (more : Kind → Bool) (item : σ → Read (α × σ)) (state : σ) : Read (List α × σ) := do
  collectUpTo more item (← bound) state

def many (more : Kind → Bool) (item : Read α) : Read (List α) := do
  let (items, ()) ← collect more (fun () => return (← item, ())) ()
  return items

def extendUpTo (round : α → Read (Option α)) : Nat → α → Read α
  | 0, _ => boundMet
  | rounds + 1, value => do
    match ← round value with
    | some more => extendUpTo round rounds more
    | none => return value

def extend (round : α → Read (Option α)) (value : α) : Read α := do
  extendUpTo round (← bound) value

def itemOfList (item : σ → Read (α × σ)) : Bool × σ → Read (α × Bool × σ)
  | (true, state) => do
    let (value, state) ← item state
    return (value, false, state)
  | (false, state) => do
    skip .comma
    let (value, state) ← item state
    return (value, false, state)

def items (closer : Kind) (item : σ → Read (α × σ)) (state : σ) : Read (List α × σ) := do
  let (items, _, state) ← collect (· ≠ closer) (itemOfList item) (true, state)
  return (items, state)

def afterCommas (item : Read α) : Read (List α) :=
  many (· = .comma) do
    skip .comma
    item

def separated (item : Read α) : Read (List α) := do
  let first ← item
  return first :: (← afterCommas item)

end ColonScript.Reading
