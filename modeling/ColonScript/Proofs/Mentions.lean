import ColonScript.Proofs.Settling

/-! What a script says of functions, in the order of its text: the functions that it declares or
defines, at any depth, and the functions that it calls. A function stands in front of what its body
says. -/

namespace ColonScript

namespace Expr

mutual

def callees : Expr → List String
  | .call callee arguments _ => callee :: calleesOf arguments
  | .assign _ _ value _ => value.callees
  | .step operand _ _ | .unary _ operand _ => operand.callees
  | .array elements _ => calleesOf elements
  | .map pairs _ => calleesOfPairs pairs
  | .binary left _ right _ => left.callees ++ right.callees
  | .index target key _ => target.callees ++ key.callees
  | .name .. | .integer .. | .float .. | .bool .. | .string .. | .char .. => []

def calleesOf : List Expr → List String
  | [] => []
  | e :: rest => e.callees ++ calleesOf rest

def calleesOfPairs : List (Expr × Expr) → List String
  | [] => []
  | (key, value) :: rest => key.callees ++ value.callees ++ calleesOfPairs rest

end

theorem calleesOf_eq (es : List Expr) : calleesOf es = es.flatMap callees :=
  eq_flatMap rfl (fun _ _ => rfl) es

theorem calleesOfPairs_eq (pairs : List (Expr × Expr)) :
    calleesOfPairs pairs = pairs.flatMap fun pair => pair.1.callees ++ pair.2.callees :=
  eq_flatMap rfl (fun _ _ => rfl) pairs

def ownCallees : Expr → List String
  | .call callee .. => [callee]
  | _ => []

theorem gathers_callees : Gathers ownCallees callees where
  node e := by
    cases e <;> simp [callees, ownCallees, children, calleesOf_eq, calleesOfPairs_eq,
      List.flatMap_assoc]
  array := rfl
  map := rfl
  binary := rfl

theorem mem_calleesOf {name : String} {es : List Expr} :
    name ∈ calleesOf es ↔ ∃ e ∈ es, name ∈ e.callees := by
  rw [calleesOf_eq, List.mem_flatMap]

end Expr

def Start.value : Start → Expr
  | .declaration declared => declared.value
  | .assignment assigned => assigned

/-- A function is declared or defined, or called. -/
inductive Mention where
  | function (signature : Signature) (body : Option (List Stmt))
  | call (callee : String)

def callsIn (es : List Expr) : List Mention := (Expr.calleesOf es).map .call

mutual

def Stmt.mentions : Stmt → List Mention
  | .expression e => callsIn [e]
  | .declaration declaration => callsIn [declaration.value]
  | .multiple _ values | .returning values => callsIn values
  | .function signature none => [.function signature none]
  | .function signature (some body) => .function signature (some body) :: Block.mentions body
  | .branch condition body clauses otherwise =>
    callsIn [condition] ++ Block.mentions body ++ Block.mentionsOf clauses ++
      Block.mentionsIn otherwise
  | .forLoop start condition update body =>
    callsIn [start.value, condition, update] ++ Block.mentions body
  | .whileLoop condition body => callsIn [condition] ++ Block.mentions body
  | .continuing | .breaking => []

def Block.mentions : List Stmt → List Mention
  | [] => []
  | st :: rest => st.mentions ++ Block.mentions rest

def Block.mentionsOf : List (Expr × List Stmt) → List Mention
  | [] => []
  | (condition, body) :: rest => callsIn [condition] ++ Block.mentions body ++ Block.mentionsOf rest

def Block.mentionsIn : Option (List Stmt) → List Mention
  | none => []
  | some body => Block.mentions body

end

def Program.mentions (p : Program) : List Mention := Block.mentions p.statements

theorem Block.mem_mentions {mention : Mention} {body : Block} :
    mention ∈ Block.mentions body ↔ ∃ st ∈ body, mention ∈ st.mentions := by
  induction body with
  | nil => simp [Block.mentions]
  | cons st rest ih => simp [Block.mentions, ih]

theorem Stmt.function_mem_mentions (signature : Signature) (body : Option Block) :
    .function signature body ∈ (Stmt.function signature body).mentions := by
  cases body with
  | none => exact List.mem_singleton_self _
  | some body => exact List.mem_cons_self

theorem Mention.function_not_mem_callsIn {signature : Signature} {body : Option Block}
    (es : List Expr) :
    Mention.function signature body ∉ callsIn es := by
  simp [callsIn]

end ColonScript
