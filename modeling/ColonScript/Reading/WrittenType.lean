import ColonScript.Reading.Repeat

/-! Types as they are written: a name, then any number of brackets behind it. Empty brackets make an
array of what stands before them; brackets around a type make a map from what stands before them to
that type. -/

namespace ColonScript.Reading

def baseType : Read Ty := do
  let token ← take .type
  pooled (Ty.Pool.base token.value)

def bracketed (inner : Read Ty) (before : Ty) : Read Ty := do
  skip .openBracket
  if (← currentKind) = .closeBracket then
    skip .closeBracket
    pooled (Ty.Pool.array before)
  else
    let value ← inner
    skip .closeBracket
    pooled (Ty.Pool.map before value)

def typeSuffix? (inner : Read Ty) (power : Power) (before : Ty) : Read (Option Ty) := do
  match (← get).grammar.typeSuffix? (← currentKind) with
  | some own => if own ≤ power then return none else return some (← bracketed inner before)
  | none => return none

def writtenTypeWith (inner : Read Ty) (power : Power) : Read Ty := do
  if (← get).grammar.opensType (← currentKind) then
    extend (typeSuffix? inner power) (← baseType)
  else failHere fun token => .unexpected token.value "a type"

def writtenTypeUpTo : Nat → Power → Read Ty
  | 0, _ => boundMet
  | depth + 1, power => writtenTypeWith (writtenTypeUpTo depth .lowest) power

def writtenType (power : Power) : Read Ty := do writtenTypeUpTo (← bound) power

end ColonScript.Reading
