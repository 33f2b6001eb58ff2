import ColonScript.Fault
import ColonScript.Table

/-! Names in scope. Scopes lie in a stack above a root, which holds the built-in functions and is
never taken away. A name is looked up from the innermost scope outwards. -/

namespace ColonScript

structure Binding where
  name : String
  constant : Bool
  type : Ty
  deriving DecidableEq, Repr

/-- How much of a function is there: all of it from the start, a forward declaration, or a body. -/
inductive Stage
  | builtin (builtin : Builtin)
  | declared
  | defined
  deriving DecidableEq, Repr

structure Function where
  signature : Signature
  stage : Stage
  deriving DecidableEq, Repr

namespace Function

def ofBuiltin (builtin : Builtin) : Function := ⟨⟨builtin.name, [], []⟩, .builtin builtin⟩

def builtin? (function : Function) : Option Builtin :=
  match function.stage with
  | .builtin builtin => some builtin
  | _ => none

end Function

structure Scope where
  bindings : Table Binding
  functions : Table Function
  deriving DecidableEq, Repr

namespace Scope

def empty : Scope := ⟨[], []⟩

def bind (binding : Binding) (scope : Scope) : Scope :=
  { scope with bindings := scope.bindings.put binding.name binding }

def add (function : Function) (scope : Scope) : Scope :=
  { scope with functions := scope.functions.put function.signature.name function }

def complete? (scope : Scope) (name : String) : Option Scope :=
  (scope.functions.get? name).map fun function =>
    { scope with functions := scope.functions.put name { function with stage := .defined } }

end Scope

structure ScopeStack where
  opened : List Scope
  root : Scope
  deriving DecidableEq, Repr

namespace ScopeStack

def initial : ScopeStack :=
  ⟨[], ⟨[], Builtin.all.map fun builtin => (builtin.name, .ofBuiltin builtin)⟩⟩

def toList (stack : ScopeStack) : List Scope := stack.opened ++ [stack.root]

def push (stack : ScopeStack) : ScopeStack := { stack with opened := .empty :: stack.opened }

def pop (stack : ScopeStack) : ScopeStack := { stack with opened := stack.opened.tail }

theorem pop_push (stack : ScopeStack) : stack.push.pop = stack := rfl

def binding? (stack : ScopeStack) (name : String) : Option Binding :=
  stack.toList.findSome? fun scope => scope.bindings.get? name

def function? (stack : ScopeStack) (name : String) : Option Function :=
  stack.toList.findSome? fun scope => scope.functions.get? name

def isConstant (stack : ScopeStack) (name : String) : Bool :=
  (stack.binding? name).any (·.constant)

def innermost (stack : ScopeStack) : Scope := stack.opened.headD stack.root

def modifyInnermost (stack : ScopeStack) (f : Scope → Scope) : ScopeStack :=
  match stack.opened with
  | [] => { stack with root := f stack.root }
  | scope :: rest => { stack with opened := f scope :: rest }

/-- Declares a name in the innermost scope. A name that is visible in any scope can be declared
again only if it is no constant and keeps its type. -/
def declare (stack : ScopeStack) (binding : Binding) (position : Position) :
    Except Fault ScopeStack :=
  match stack.binding? binding.name with
  | none => .ok (stack.modifyInnermost (Scope.bind binding))
  | some known =>
    if known.constant then .error ⟨.constantRedeclared binding.name, position⟩
    else if known.type.Alike binding.type then .ok (stack.modifyInnermost (Scope.bind binding))
    else .error ⟨.redeclared binding.name known.type binding.type, position⟩

/-- Declares a parameter in the innermost scope, the fresh one of its function. Names of outer
scopes are hidden whatever they are; only a parameter of the same name and another type is in the
way. -/
def declareParameter (stack : ScopeStack) (parameter : Parameter) (position : Position) :
    Except Fault ScopeStack :=
  let declared := stack.modifyInnermost (Scope.bind ⟨parameter.name, false, parameter.type⟩)
  match stack.innermost.bindings.get? parameter.name with
  | none => .ok declared
  | some known =>
    if known.type.Alike parameter.type then .ok declared
    else .error ⟨.redeclared parameter.name known.type parameter.type, position⟩

def completeAmong? (name : String) : List Scope → Option (List Scope)
  | [] => none
  | scope :: rest =>
    match scope.complete? name with
    | some completed => some (completed :: rest)
    | none => (completeAmong? name rest).map (scope :: ·)

def complete (stack : ScopeStack) (name : String) : ScopeStack :=
  match completeAmong? name stack.opened with
  | some opened => { stack with opened }
  | none => { stack with root := (stack.root.complete? name).getD stack.root }

/-- Registers a forward declaration or a definition. The definition of a function declared before
with the same signature completes it where it stands; any other second function of a name is
refused. -/
def register (stack : ScopeStack) (function : Function) (position : Position) :
    Except Fault ScopeStack :=
  let name := function.signature.name
  match stack.function? name with
  | none => .ok (stack.modifyInnermost (Scope.add function))
  | some known =>
    match known.stage, function.stage with
    | .builtin _, _ => .error ⟨.builtinOverride name, position⟩
    | .declared, .defined =>
      if known.signature.Completes function.signature then .ok (stack.complete name)
      else .error ⟨.signatureMismatch name, position⟩
    | _, _ => .error ⟨.alreadyDeclared name, position⟩

end ScopeStack

end ColonScript
