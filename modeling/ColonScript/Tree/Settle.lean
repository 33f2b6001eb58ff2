import ColonScript.Tree

/-! Settling: a container expression takes over the type it was found to agree with, so that an
empty literal checked against a declared type is recorded with that type. Elements and values of
literals and both operands of an operator follow; an expression whose type is known already stays as
it is. -/

namespace ColonScript.Expr

mutual

def settle (ty : Ty) : Expr → Expr
  | array elements own =>
    if own.settled then array elements own
    else match ty with
      | .array _ .unknown => array elements ty
      | .array _ element => array (settleAll element elements) ty
      | _ => array elements ty
  | map pairs own =>
    if own.settled then map pairs own
    else match ty with
      | .map _ _ .unknown => map pairs ty
      | .map _ _ value => map (settleValues value pairs) ty
      | _ => map pairs ty
  | binary left operator right own =>
    if own.settled then binary left operator right own
    else binary (left.settle ty) operator (right.settle ty) ty
  | expr => expr

def settleAll (ty : Ty) : List Expr → List Expr
  | [] => []
  | expr :: rest => expr.settle ty :: settleAll ty rest

def settleValues (ty : Ty) : List (Expr × Expr) → List (Expr × Expr)
  | [] => []
  | (key, value) :: rest => (key, value.settle ty) :: settleValues ty rest

end

end ColonScript.Expr
