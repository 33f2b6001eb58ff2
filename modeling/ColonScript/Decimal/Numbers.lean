/-! Numbers in decimal: integers, with an optional sign in front of the digits and within sixty-four
bits, and binary floating point of sixty-four bits. A finite number of the latter is a whole number
of the least positive one: `finite negative m k` stands for `m * 2 ^ k` of these units, each of them
`2 ^ -1074`, where `m` is below `2 ^ 53` and at least `2 ^ 52` unless `k` is zero. -/

namespace ColonScript.Decimal

def natOf (digits : List Char) : Nat :=
  digits.foldl (fun n c => 10 * n + (c.toNat - '0'.toNat)) 0

def splitSign : List Char → Bool × List Char
  | '-' :: cs => (true, cs)
  | '+' :: cs => (false, cs)
  | cs => (false, cs)

def word? (value : Int) : Option Int :=
  if -0x8000000000000000 ≤ value ∧ value < 0x8000000000000000 then some value else none

theorem word?_eq_some {value result : Int} :
    word? value = some result ↔ (-0x8000000000000000 ≤ value ∧ value < 0x8000000000000000) ∧
      value = result := by
  simp only [word?, Option.ite_none_right_eq_some, Option.some.injEq]

def integer? (text : List Char) : Option Int :=
  let (negative, digits) := splitSign text
  if digits.isEmpty || !digits.all Char.isDigit then none
  else word? (if negative then -(natOf digits : Int) else natOf digits)

inductive Binary64
  | finite (negative : Bool) (m k : Nat)
  | infinite (negative : Bool)
  | nan (negative : Bool)
  deriving DecidableEq, Repr

/-- The nearest whole number to `num / den`, a half going to the even neighbour. -/
def roundEven (num den : Nat) : Nat :=
  let floor := num / den
  let twice := 2 * (num % den)
  if twice < den ∨ twice = den ∧ floor % 2 = 0 then floor else floor + 1

namespace Binary64

def ofUnits (negative : Bool) (m k : Nat) : Binary64 :=
  if 2045 < k then infinite negative else finite negative m k

def ofRatio (negative : Bool) (num den : Nat) : Binary64 :=
  let k := (num / den).log2 - 52
  let m := roundEven num (den * Nat.pow 2 k)
  if m = Nat.pow 2 53 then ofUnits negative (Nat.pow 2 52) (k + 1) else ofUnits negative m k

def ofDecimal (negative : Bool) (digits : Nat) : Int → Binary64
  | .ofNat e => ofRatio negative (digits * Nat.pow 10 e * Nat.pow 2 1074) 1
  | .negSucc e => ofRatio negative (digits * Nat.pow 2 1074) (Nat.pow 10 (e + 1))

/-- The sixty-four bits as a number: sign, eleven bits of exponent, fifty-two of fraction. -/
def bits : Binary64 → Nat
  | finite negative m k => negative.toNat * Nat.pow 2 63 + k * Nat.pow 2 52 + m
  | infinite negative => negative.toNat * Nat.pow 2 63 + 2047 * Nat.pow 2 52
  | nan negative => negative.toNat * Nat.pow 2 63 + 2047 * Nat.pow 2 52 + Nat.pow 2 51

/-! Reading. Digits with an optional point among them, then an optional exponent; or the words for
infinity and for not-a-number in any case. An exponent past 65535 takes no more digits. -/

def exponentOf (digits : List Char) : Nat :=
  digits.foldl (fun n c => if n < 65536 then 10 * n + (c.toNat - '0'.toNat) else n) 0

def exponent? : List Char → Option Int
  | [] => some 0
  | c :: cs =>
    if c = 'e' ∨ c = 'E' then
      let (negative, digits) := splitSign cs
      if digits.isEmpty || !digits.all Char.isDigit then none
      else some (if negative then -(exponentOf digits : Int) else exponentOf digits)
    else none

def fraction : List Char → List Char × List Char
  | '.' :: cs => cs.span Char.isDigit
  | cs => ([], cs)

def number? (negative : Bool) (text : List Char) : Option Binary64 :=
  let (whole, afterWhole) := text.span Char.isDigit
  let (part, afterPart) := fraction afterWhole
  if whole.isEmpty && part.isEmpty then none
  else (exponent? afterPart).map fun exponent =>
    ofDecimal negative (natOf (whole ++ part)) (exponent - part.length)

def read? (text : List Char) : Option Binary64 :=
  let (negative, body) := splitSign text
  match String.ofList (body.map Char.toLower) with
  | "inf" | "infinity" => some (infinite negative)
  | "nan" => some (nan negative)
  | _ => number? negative body

end Binary64

end ColonScript.Decimal
