/-! Types of values. A container made from an empty literal has parts that are not known yet;
`unknown` stands for such a part and fits anything. Every other node carries the generation of the
pool that made it, so that two types are one instance exactly when they are equal, and have one
structure when their plain forms are. -/

namespace ColonScript

namespace Text

def joined (separator : String) : List String → String
  | [] => ""
  | [text] => text
  | text :: rest => text ++ separator ++ joined separator rest

def listed (texts : List String) : String := joined ", " texts

end Text

inductive Ty
  | unknown
  | base (gen : Nat) (name : String)
  | array (gen : Nat) (element : Ty)
  | map (gen : Nat) (key value : Ty)
  deriving DecidableEq, Repr, Inhabited

namespace Ty

def text : Ty → String
  | unknown => "unknown"
  | base _ name => if name = "" then "unknown" else name
  | array _ element => element.text ++ "[]"
  | map _ key value => key.text ++ "[" ++ value.text ++ "]"

/-- The structure alone, as the first generation would make it. -/
def plain : Ty → Ty
  | unknown => unknown
  | base _ name => base 0 name
  | array _ element => array 0 element.plain
  | map _ key value => map 0 key.plain value.plain

@[simp] theorem plain_plain (ty : Ty) : ty.plain.plain = ty.plain := by
  induction ty <;> simp_all [plain]

@[simp] theorem text_plain (ty : Ty) : ty.plain.text = ty.text := by
  induction ty <;> simp_all [plain, text]

def Alike (a b : Ty) : Prop := a.plain = b.plain

instance (a b : Ty) : Decidable (Alike a b) := inferInstanceAs (Decidable (a.plain = b.plain))

def named (name : String) : Ty := base 0 name

def isBase (name : String) : Ty → Bool
  | base _ own => own = name
  | _ => false

def isContainer : Ty → Bool
  | array .. | map .. => true
  | _ => false

def isArray : Ty → Bool
  | array .. => true
  | _ => false

def isNumeric (ty : Ty) : Bool := ty.isBase "int" || ty.isBase "float"

def compatible : Ty → Ty → Bool
  | unknown, _ => true
  | _, unknown => true
  | base _ a, base _ b => a = b
  | map _ k v, map _ k' v' => k.compatible k' && v.compatible v'
  | array _ a, array _ b => a.compatible b
  | _, _ => false

def settled : Ty → Bool
  | unknown => false
  | base .. => true
  | array _ element => element.settled
  | map _ key value => key.settled && value.settled

/-- A part takes the first type offered; later ones must be compatible with it. -/
def fill (part ty : Ty) : Except Ty Ty :=
  if part = unknown then .ok ty
  else if part.compatible ty then .ok part
  else .error part

def listText : List Ty → String
  | [] => "()"
  | [single] => single.text
  | many => "(" ++ Text.listed (many.map text) ++ ")"

end Ty

end ColonScript
