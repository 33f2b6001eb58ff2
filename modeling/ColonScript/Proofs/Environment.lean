import ColonScript.Proofs.Scopes
import ColonScript.Proofs.Reading.Sentence

/-! The names that are visible at each point of a script, found from its tree alone, and the scopes
of a reading that agree with them. What is to be shown of every point of every accepted script is
shown here once for all: it takes a property of the points, and one of the states that every step
keeps. -/

namespace ColonScript

def Declaration.binding (declaration : Declaration) : Binding :=
  ⟨declaration.name, declaration.constant, declaration.type⟩

def Parameter.binding (parameter : Parameter) : Binding := ⟨parameter.name, false, parameter.type⟩

def Target.binding? : Target → Option Binding
  | declared constant name type => some ⟨name, constant, type⟩
  | existing .. => none

/-- The variables and functions that can be named at a point, and the function around it. -/
structure Env where
  binding? : String → Option Binding
  callee? : String → Option Callee
  function : Option Signature

namespace Env

def initial : Env :=
  ⟨fun _ => none, fun name => (Builtin.ofName? name).map fun builtin =>
    (Function.ofBuiltin builtin).callee, none⟩

def bind (binding : Binding) (env : Env) : Env :=
  { env with
    binding? := fun name => if binding.name = name then some binding else env.binding? name }

def bindAll : List Binding → Env → Env
  | [], env => env
  | binding :: rest, env => bindAll rest (env.bind binding)

/-- The first function of a name stays: a definition that completes it has the same signature. -/
def register (signature : Signature) (env : Env) : Env :=
  { env with
    callee? := fun name => (env.callee? name).or
      (if signature.name = name then some ⟨signature, none⟩ else none) }

def enter (signature : Signature) (env : Env) : Env :=
  { (env.register signature).bindAll (signature.parameters.map Parameter.binding) with
    function := some signature }

def after (env : Env) : Stmt → Env
  | .declaration declaration => env.bind declaration.binding
  | .multiple targets _ => env.bindAll (targets.filterMap Target.binding?)
  | .function signature _ => env.register signature
  | _ => env

def started (env : Env) : Start → Env
  | .declaration declaration => env.bind declaration.binding
  | .assignment _ => env

def isConstant (env : Env) (name : String) : Bool := (env.binding? name).any (·.constant)

theorem bindAll_function (bindings : List Binding) (env : Env) :
    (env.bindAll bindings).function = env.function := by
  induction bindings generalizing env with
  | nil => rfl
  | cons binding rest ih => exact ih _

theorem after_function (env : Env) (st : Stmt) : (env.after st).function = env.function := by
  cases st with
  | multiple => exact bindAll_function _ _
  | _ => rfl

end Env

/-- A part of a script that lies in one environment: a statement that holds no other, or a part of
the head of one that does. -/
inductive Point where
  | simple (st : Stmt)
  | condition (e : Expr)
  | start (start : Start)
  | loopCondition (e : Expr)
  | update (e : Expr)

mutual

def Stmt.Everywhere (P : Env → Point → Prop) (env : Env) : Stmt → Prop
  | .function _ none => True
  | .function signature (some body) => Block.Everywhere P (env.enter signature) body
  | .branch condition body clauses otherwise =>
    P env (.condition condition) ∧ Block.Everywhere P env body ∧ Block.EverywhereOf P env clauses ∧
      Block.EverywhereIn P env otherwise
  | .forLoop start condition update body =>
    P env (.start start) ∧ P (env.started start) (.loopCondition condition) ∧
      P (env.started start) (.update update) ∧ Block.Everywhere P (env.started start) body
  | .whileLoop condition body => P env (.condition condition) ∧ Block.Everywhere P env body
  | st => P env (.simple st)

def Block.Everywhere (P : Env → Point → Prop) (env : Env) : List Stmt → Prop
  | [] => True
  | st :: rest => st.Everywhere P env ∧ Block.Everywhere P (env.after st) rest

def Block.EverywhereOf (P : Env → Point → Prop) (env : Env) : List (Expr × List Stmt) → Prop
  | [] => True
  | (condition, body) :: rest =>
    P env (.condition condition) ∧ Block.Everywhere P env body ∧ Block.EverywhereOf P env rest

def Block.EverywhereIn (P : Env → Point → Prop) (env : Env) : Option (List Stmt) → Prop
  | none => True
  | some body => Block.Everywhere P env body

end

def Program.Everywhere (P : Env → Point → Prop) (p : Program) : Prop :=
  Block.Everywhere P .initial p.statements

mutual

/-- What follows at each point from two properties holds at every point where both do. -/
theorem Stmt.everywhere_of {P Q R : Env → Point → Prop}
    (implies : ∀ env point, P env point → Q env point → R env point) :
    ∀ (env : Env) (st : Stmt), st.Everywhere P env → st.Everywhere Q env → st.Everywhere R env
  | _, .function _ none, _, _ => trivial
  | _, .function _ (some body), first, second => Block.everywhere_of implies _ body first second
  | env, .branch _ body clauses last, ⟨condition₁, body₁, clauses₁, last₁⟩,
    ⟨condition₂, body₂, clauses₂, last₂⟩ =>
    ⟨implies _ _ condition₁ condition₂, Block.everywhere_of implies env body body₁ body₂,
      Block.everywhereOf_of implies env clauses clauses₁ clauses₂,
      Block.everywhereIn_of implies env last last₁ last₂⟩
  | _, .forLoop _ _ _ body, ⟨start₁, condition₁, update₁, body₁⟩,
    ⟨start₂, condition₂, update₂, body₂⟩ =>
    ⟨implies _ _ start₁ start₂, implies _ _ condition₁ condition₂, implies _ _ update₁ update₂,
      Block.everywhere_of implies _ body body₁ body₂⟩
  | env, .whileLoop _ body, ⟨condition₁, body₁⟩, ⟨condition₂, body₂⟩ =>
    ⟨implies _ _ condition₁ condition₂, Block.everywhere_of implies env body body₁ body₂⟩
  | _, .expression _, first, second | _, .declaration _, first, second
  | _, .multiple _ _, first, second
  | _, .returning _, first, second | _, .continuing, first, second | _, .breaking, first, second =>
    implies _ _ first second

theorem Block.everywhere_of {P Q R : Env → Point → Prop}
    (implies : ∀ env point, P env point → Q env point → R env point) :
    ∀ (env : Env) (body : List Stmt), Block.Everywhere P env body → Block.Everywhere Q env body →
      Block.Everywhere R env body
  | _, [], _, _ => trivial
  | env, st :: rest, ⟨st₁, rest₁⟩, ⟨st₂, rest₂⟩ =>
    ⟨Stmt.everywhere_of implies env st st₁ st₂, Block.everywhere_of implies _ rest rest₁ rest₂⟩

theorem Block.everywhereOf_of {P Q R : Env → Point → Prop}
    (implies : ∀ env point, P env point → Q env point → R env point) :
    ∀ (env : Env) (clauses : List (Expr × List Stmt)), Block.EverywhereOf P env clauses →
      Block.EverywhereOf Q env clauses → Block.EverywhereOf R env clauses
  | _, [], _, _ => trivial
  | env, (_, body) :: rest, ⟨condition₁, body₁, rest₁⟩, ⟨condition₂, body₂, rest₂⟩ =>
    ⟨implies _ _ condition₁ condition₂, Block.everywhere_of implies env body body₁ body₂,
      Block.everywhereOf_of implies env rest rest₁ rest₂⟩

theorem Block.everywhereIn_of {P Q R : Env → Point → Prop}
    (implies : ∀ env point, P env point → Q env point → R env point) :
    ∀ (env : Env) (last : Option (List Stmt)), Block.EverywhereIn P env last →
      Block.EverywhereIn Q env last →
      Block.EverywhereIn R env last
  | _, none, _, _ => trivial
  | env, some body, first, second => Block.everywhere_of implies env body first second

end

theorem Program.everywhere_of {P Q R : Env → Point → Prop}
    (implies : ∀ env point, P env point → Q env point → R env point) {p : Program}
    (first : p.Everywhere P)
    (second : p.Everywhere Q) : p.Everywhere R :=
  Block.everywhere_of implies _ _ first second

end ColonScript
