import ColonScript.Proofs.FunctionRecords
import ColonScript.Proofs.Shadowing

/-! Operations between the opening of a scope and its closing. Within a balanced sequence no scope
is closed that the sequence did not open, so the scopes around it are never the innermost one: what
is declared there is gone with the bracket. The one thing that reaches through is a definition that
completes a function declared outside. -/

namespace ColonScript.ScopeStack

variable {stack : ScopeStack} {operation : Operation} {inside : List Operation} {depth : Nat}
    {name : String}
  {function : Function}

/-- Every scope that is opened is closed again, and none else is. The other operations may succeed
or fail. -/
inductive Balanced : List Operation → Prop where
  | nil : Balanced []
  | cons {operation : Operation} {rest : List Operation} (opens : operation ≠ .push)
      (closes : operation ≠ .pop) (balanced : Balanced rest) : Balanced (operation :: rest)
  | bracket {inside rest : List Operation} (balanced : Balanced inside)
      (balanced' : Balanced rest) :
      Balanced (.push :: (inside ++ .pop :: rest))

def bracketed (inside : List Operation) : List Operation := .push :: (inside ++ [.pop])

theorem Balanced.bracketed (balanced : Balanced inside) : Balanced (bracketed inside) :=
  .bracket balanced .nil

theorem run_cons (stack : ScopeStack) (operation : Operation) (rest : List Operation) :
    stack.run (operation :: rest) = (operation.after stack).run rest := rfl

theorem after_push (stack : ScopeStack) : Operation.push.after stack = stack.push := rfl

theorem after_pop (stack : ScopeStack) : Operation.pop.after stack = stack.pop := rfl

theorem run_bracketed (stack : ScopeStack) (inside : List Operation) :
    stack.run (bracketed inside) = (stack.push.run inside).pop := by
  rw [bracketed, run_cons, after_push, run_append, run_cons, after_pop]
  rfl

/-! What a balanced sequence leaves alone. -/

/-- An operation that neither opens nor closes a scope writes to the innermost one, or completes a
function. -/
theorem Effect.grown {changed : ScopeStack} (effect : Effect stack operation changed)
    (opens : operation ≠ .push) (closes : operation ≠ .pop) : Grown stack changed := by
  cases effect with
  | push => exact absurd rfl opens
  | pop => exact absurd rfl closes
  | declared => exact grown_modifyInnermost stack _
  | parameter => exact grown_modifyInnermost stack _
  | added => exact grown_modifyInnermost stack _
  | completed found completes => exact (alike_complete found completes.1).grown
  | refused => exact .refl stack

/-- All scopes but the innermost are alike behind a balanced sequence: by the induction, a bracket
in it leaves even the innermost one alike. -/
theorem Balanced.grown (balanced : Balanced inside) (stack : ScopeStack) :
    Grown stack (stack.run inside) := by
  induction balanced generalizing stack with
  | nil => exact .refl stack
  | cons opens closes _ ih => exact ((effect_after stack _).grown opens closes).trans (ih _)
  | @bracket inside rest _ _ ih ih' =>
    have closed : Alike stack (stack.push.run inside).pop := (ih stack.push).alike_pop
    rw [run_cons, after_push, run_append, run_cons, after_pop]
    exact closed.grown.trans (ih' _)

theorem Balanced.alike_bracketed (balanced : Balanced inside) (stack : ScopeStack) :
    Alike stack (stack.run (ScopeStack.bracketed inside)) := by
  rw [run_bracketed]
  exact (balanced.grown stack.push).alike_pop

/-- A balanced sequence closes no scope that was open in front of it. -/
theorem Balanced.staysOpen (balanced : Balanced inside) (open' : depth ≤ stack.opened.length) :
    StaysOpen depth stack inside := by
  induction balanced generalizing stack with
  | nil => exact open'
  | cons opens closes _ ih =>
    have same := ((effect_after stack _).grown opens closes).depth
    exact ⟨open', ih (by rwa [same])⟩
  | @bracket inside rest balanced _ ih ih' =>
    have deeper : depth ≤ stack.push.opened.length := Nat.le_succ_of_le open'
    have closed := (balanced.grown stack.push).alike_pop.grown.depth
    refine ⟨open', staysOpen_append.mpr ⟨ih deeper, ?_, ?_⟩⟩
    · exact (ih deeper).ends
    · exact ih' (by rwa [after_pop, after_push, closed])

/-! Functions behind a bracket. -/

/-- Behind a balanced sequence a function is what the definitions of the sequence made of it. -/
theorem Balanced.function?_run (balanced : Balanced inside) (unambiguous : Unambiguous stack)
    (found : stack.function? name = some function) :
    (stack.run inside).function? name = some (recordBehind inside function) := by
  obtain ⟨depth, holds⟩ := exists_functionAt? found
  have stays : StaysOpen depth stack inside :=
    balanced.staysOpen (depth_le_of_entryAt? Scope.functions holds)
  exact (unambiguous_run unambiguous inside).function?_eq (functionAt?_run unambiguous holds stays)

theorem Alike.function?_eq_none {changed : ScopeStack} (alike : Alike stack changed)
    (unknown : stack.function? name = none) : changed.function? name = none := by
  have same := alike.callee?_eq name
  rw [callee?, callee?, unknown] at same
  exact Option.map_eq_none_iff.mp same

/-- What the definitions of a bracket can make of a record. -/
theorem recordBehind_cases (operations : List Operation) (function : Function) :
    recordBehind operations function = function ∨
      function.stage = .declared ∧ recordBehind operations function =
        { function with stage := .defined } := by
  unfold recordBehind
  split
  next completed =>
    obtain ⟨operation, _, completes⟩ := completed
    cases operation with
    | define => exact .inr ⟨completes.1, rfl⟩
    | _ => exact completes.elim
  next => exact .inl rfl

/-- Opening and closing a scope completes nothing. -/
theorem recordBehind_bracketed (inside : List Operation) (function : Function) :
    recordBehind (bracketed inside) function = recordBehind inside function := by
  have same : (∃ operation ∈ bracketed inside, operation.Completes function) ↔
      ∃ operation ∈ inside, operation.Completes function := by
    constructor
    · rintro ⟨operation, member, completes⟩
      simp only [bracketed, List.mem_cons, List.mem_append, List.not_mem_nil, or_false] at member
      obtain rfl | member | rfl := member
      · exact completes.elim
      · exact ⟨operation, member, completes⟩
      · exact completes.elim
    · rintro ⟨operation, member, completes⟩
      exact ⟨operation, by simp [bracketed, member], completes⟩
  simp only [recordBehind, same]

/-- What is visible behind a bracket is what was visible in front of it. -/
structure Restored (before after : ScopeStack) (inside : List Operation) : Prop where
  depth : after.opened.length = before.opened.length
  binding : ∀ name, after.binding? name = before.binding? name
  unknown : ∀ name, before.function? name = none → after.function? name = none
  /-- A declared function may be defined, with the signature it had. -/
  known : ∀ name function, before.function? name = some function →
    after.function? name = some function ∨
      function.stage = .declared ∧ after.function? name = some { function with stage := .defined }
  /-- It is defined exactly when a definition within the bracket completes it. -/
  completed : ∀ name function, before.function? name = some function → function.stage = .declared →
    (after.function? name = some { function with stage := .defined } ↔
      ∃ operation ∈ inside, operation.Completes function)

theorem restored_of_bracket (history inside : List Operation) (balanced : Balanced inside) :
    Restored (initial.run history) ((initial.run history).run (bracketed inside)) inside := by
  have alike := balanced.alike_bracketed (initial.run history)
  have unambiguous : Unambiguous (initial.run history) :=
    unambiguous_run unambiguous_initial history
  have kept {name : String} {function : Function}
    (found : (initial.run history).function? name = some function) :
      ((initial.run history).run (bracketed inside)).function? name =
        some (recordBehind inside function) := by
    rw [balanced.bracketed.function?_run unambiguous found, recordBehind_bracketed]
  refine ⟨alike.grown.depth, alike.binding?_eq, fun name unknown =>
    alike.function?_eq_none unknown, ?_, ?_⟩
  case refine_1 =>
    intro name function found
    rw [kept found]
    obtain same | ⟨declared, defined⟩ := recordBehind_cases inside function
    · exact .inl (congrArg some same)
    · exact .inr ⟨declared, congrArg some defined⟩
  case refine_2 =>
    intro name function found declared
    rw [kept found, Option.some_inj]
    constructor
    · intro defined
      -- Without a definition that completes it the record stays declared.
      by_contra incomplete
      rw [recordBehind, if_neg incomplete] at defined
      rw [defined] at declared
      cases declared
    · exact fun completes => if_pos completes

def outerNames : List Operation :=
  [.declare ⟨"c", true, .named "int"⟩ ⟨1, ""⟩, .declare ⟨"a", false, .named "int"⟩ ⟨2, ""⟩,
    .forward ⟨"f", [⟨"x", .named "int"⟩], [.named "int"]⟩ ⟨3, ""⟩]

def innerNames : List Operation :=
  [.declareParameter ⟨"c", .named "string"⟩ ⟨4, ""⟩, .push,
    .define ⟨"f", [⟨"x", .named "int"⟩], [.named "int"]⟩ ⟨5, ""⟩, .pop,
    .declare ⟨"a", false, .named "bool"⟩ ⟨6, ""⟩]

theorem restored_of_bracket_hiding :
    Balanced innerNames ∧
      Restored (initial.run outerNames) ((initial.run outerNames).run (bracketed innerNames))
      innerNames ∧ (((initial.run outerNames).push.run innerNames).binding? "c").map
      (·.constant) = some false ∧
      (((initial.run outerNames).run (bracketed innerNames)).binding? "c").map
      (·.constant) = some true ∧
      (((initial.run outerNames).run (bracketed innerNames)).function? "f").map (·.stage) =
        some .defined := by
  have balanced : Balanced innerNames := by
    have definition : Balanced [.define ⟨"f", [⟨"x", .named "int"⟩], [.named "int"]⟩ ⟨5, ""⟩] :=
      .cons nofun nofun .nil
    have refused : Balanced [.declare ⟨"a", false, .named "bool"⟩ ⟨6, ""⟩] := .cons nofun nofun .nil
    exact .cons nofun nofun (.bracket definition refused)
  exact ⟨balanced, restored_of_bracket outerNames innerNames balanced, by
    decide +kernel, by decide +kernel, by decide +kernel⟩

end ColonScript.ScopeStack
