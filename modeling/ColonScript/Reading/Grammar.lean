import ColonScript.Token

/-! What a kind of token can do in a sentence: open an expression, carry on with one at some power,
or open a statement. A bare grammar gives no kind a role. -/

namespace ColonScript.Reading

open Token (Kind)

inductive Power
  | lowest | assignment | logicalOr | logicalAnd | equality | bitwise | relational | additive
  | multiplicative | unary | step | call | index
  deriving DecidableEq, Repr

namespace Power

def rank : Power → Nat
  | lowest => 0
  | assignment => 1
  | logicalOr => 2
  | logicalAnd => 3
  | equality => 4
  | bitwise => 5
  | relational => 6
  | additive => 7
  | multiplicative => 8
  | unary => 9
  | step => 10
  | call => 11
  | index => 12

instance : LE Power := ⟨fun a b => a.rank ≤ b.rank⟩

instance : LT Power := ⟨fun a b => a.rank < b.rank⟩

instance (a b : Power) : Decidable (a ≤ b) := inferInstanceAs (Decidable (a.rank ≤ b.rank))

instance (a b : Power) : Decidable (a < b) := inferInstanceAs (Decidable (a.rank < b.rank))

end Power

inductive Opening
  | literal | name | array | map | group | unary
  deriving DecidableEq, Repr

inductive Continuation
  | assignment | binary | step | call | index
  deriving DecidableEq, Repr

inductive Form
  | declaration | returning | function | branch | forLoop | whileLoop | loopControl
  deriving DecidableEq, Repr

inductive Grammar
  | standard
  | bare
  deriving DecidableEq, Repr

namespace Grammar

def opening? : Grammar → Kind → Option Opening
  | bare, _ => none
  | standard, kind =>
    match kind with
    | .integer | .float | .bool | .string | .char => some .literal
    | .identifier => some .name
    | .openBracket => some .array
    | .openCurly => some .map
    | .openParen => some .group
    | .minus | .not => some .unary
    | _ => none

def continuation? : Grammar → Kind → Option (Power × Continuation)
  | bare, _ => none
  | standard, kind =>
    match kind with
    | .assign | .plusAssign | .minusAssign | .starAssign | .slashAssign | .percentAssign =>
      some (.assignment, .assignment)
    | .orOr => some (.logicalOr, .binary)
    | .andAnd => some (.logicalAnd, .binary)
    | .equal | .notEqual => some (.equality, .binary)
    | .and | .or => some (.bitwise, .binary)
    | .less | .lessEqual | .greater | .greaterEqual => some (.relational, .binary)
    | .plus | .minus => some (.additive, .binary)
    | .star | .slash | .percent => some (.multiplicative, .binary)
    | .plusPlus | .minusMinus => some (.step, .step)
    | .openParen => some (.call, .call)
    | .openBracket => some (.index, .index)
    | _ => none

def form? : Grammar → Kind → Option Form
  | bare, _ => none
  | standard, kind =>
    match kind with
    | .varWord | .constWord => some .declaration
    | .returnWord => some .returning
    | .funWord => some .function
    | .ifWord => some .branch
    | .forWord => some .forLoop
    | .whileWord => some .whileLoop
    | .continueWord | .breakWord => some .loopControl
    | _ => none

def opensType : Grammar → Kind → Bool
  | bare, _ => false
  | standard, kind => kind = .type

def typeSuffix? : Grammar → Kind → Option Power
  | bare, _ => none
  | standard, kind => if kind = .openBracket then some .index else none

end Grammar

end ColonScript.Reading
