import ColonScript.Decimal.Numbers

/-! The text of a binary number: the fewest digits that read back as the number, of those the
nearest, and of two equally near the larger. The text is positional, with at least one digit on
either side of the point. Each candidate is read again before it is taken, so that what is written
reads back by construction; behind the seventeen places that suffice stands the full expansion. -/

namespace ColonScript.Decimal

def positional (digits : Nat) (exponent : Int) : List Char :=
  let ds := Nat.toDigits 10 digits
  match exponent with
  | .ofNat e => ds ++ List.replicate e '0' ++ ['.', '0']
  | .negSucc e =>
    let padded := List.replicate (e + 2 - ds.length) '0' ++ ds
    let whole := padded.length - (e + 1)
    padded.take whole ++ '.' :: padded.drop whole

def dropZeros : Nat → Nat → Int → Nat × Int
  | 0, digits, exponent => (digits, exponent)
  | n + 1, digits, exponent =>
    if exponent < 0 ∧ digits % 10 = 0 then dropZeros n (digits / 10) (exponent + 1)
    else (digits, exponent)

def signed (negative : Bool) (text : List Char) : List Char :=
  if negative then '-' :: text else text

def writtenAs (negative : Bool) (digits : Nat) (exponent : Int) : List Char :=
  let (ds, e) := dropZeros 2000 digits exponent
  signed negative (positional ds e)

def scaled (num den : Nat) : Int → Nat × Nat
  | .ofNat e => (num, den * Nat.pow 10 e)
  | .negSucc e => (num * Nat.pow 10 (e + 1), den)

def magnitude (num den : Nat) : Int :=
  let guess : Int := (Nat.toDigits 10 num).length - (Nat.toDigits 10 den).length
  let (n, d) := scaled num den guess
  if n < d then guess else guess + 1

namespace Binary64

/-- The text on the grid of `10 ^ exponent` that reads back: the nearer neighbour if both do. -/
def onGrid? (number : Binary64) (negative : Bool) (num den : Nat) (exponent : Int) :
    Option (List Char) :=
  let (n, d) := scaled num den exponent
  let below := writtenAs negative (n / d) exponent
  let above := writtenAs negative (n / d + 1) exponent
  if read? below = some number ∧ (2 * (n % d) < d ∨ read? above ≠ some number) then some below
  else if read? above = some number then some above
  else none

def text : Binary64 → List Char
  | nan _ => ['N', 'a', 'N', '.', '0']
  | infinite negative => signed negative ['i', 'n', 'f', '.', '0']
  | number@(finite negative m k) =>
    if m = 0 then signed negative ['0', '.', '0']
    else
      let num := m * Nat.pow 2 k
      let den := Nat.pow 2 1074
      let p := magnitude num den
      ((List.range 17).findSome? fun (n : Nat) =>
          number.onGrid? negative num den (p - (n + 1 : Nat))).getD
        (writtenAs negative (num * Nat.pow 5 1074) (-1074))

end Binary64

end ColonScript.Decimal
