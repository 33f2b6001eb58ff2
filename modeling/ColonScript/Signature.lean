import ColonScript.Ty

/-! Signatures of functions: a name, named and typed parameters, and the types of the results. -/

namespace ColonScript

structure Parameter where
  name : String
  type : Ty
  deriving DecidableEq, Repr

structure Signature where
  name : String
  parameters : List Parameter
  results : List Ty
  deriving DecidableEq, Repr

namespace Signature

/-- Whether a definition with signature `b` completes a forward declaration with signature `a`. The
names of the parameters count. -/
def Completes (a b : Signature) : Prop :=
  a.name = b.name ∧
    a.parameters.map (fun p => (p.name, p.type.plain)) = b.parameters.map
    (fun p => (p.name, p.type.plain)) ∧ a.results.map Ty.plain = b.results.map Ty.plain

instance (a b : Signature) : Decidable (a.Completes b) := inferInstanceAs (Decidable (_ ∧ _ ∧ _))

def text (signature : Signature) : String :=
  signature.name ++ "(" ++
    Text.listed (signature.parameters.map fun p => p.name ++ ": " ++ p.type.text) ++ ")" ++
    if signature.results.isEmpty then ""
    else ": (" ++ Text.listed (signature.results.map Ty.text) ++ ")"

end Signature

end ColonScript
