import ColonScript.Proofs.Scopes

/-! What can be done to the scopes, one operation after the other. A scope is known by its depth for
as long as it is open: what is put into it, and what is defined in it later from scopes within it,
happens at that depth. -/

namespace ColonScript.ScopeStack

inductive Operation
  | push
  | pop
  | declare (binding : Binding) (position : Position)
  | declareParameter (parameter : Parameter) (position : Position)
  | forward (signature : Signature) (position : Position)
  | define (signature : Signature) (position : Position)

namespace Operation

def perform (stack : ScopeStack) : Operation → Except Fault ScopeStack
  | push => .ok stack.push
  | pop => .ok stack.pop
  | declare binding position => stack.declare binding position
  | declareParameter parameter position => stack.declareParameter parameter position
  | forward signature position => stack.register ⟨signature, .declared⟩ position
  | define signature position => stack.register ⟨signature, .defined⟩ position

/-- The operation on scopes that are changed where they lie, check by check and write by write. What
is written stays when the operation fails. -/
def attempt : Operation → ExceptT Fault (StateM ScopeStack) Unit
  | push => modify ScopeStack.push
  | pop => modify ScopeStack.pop
  | declare binding position => do
    if let some known := (← get).binding? binding.name then
      if known.constant then throw ⟨.constantRedeclared binding.name, position⟩
      if ¬known.type.Alike binding.type then
        throw ⟨.redeclared binding.name known.type binding.type, position⟩
    modify (modifyInnermost · (Scope.bind binding))
  | declareParameter parameter position => do
    if let some known := (← get).innermost.bindings.get? parameter.name then
      if ¬known.type.Alike parameter.type then
        throw ⟨.redeclared parameter.name known.type parameter.type, position⟩
    modify (modifyInnermost · (Scope.bind ⟨parameter.name, false, parameter.type⟩))
  | forward signature position => register ⟨signature, .declared⟩ position
  | define signature position => register ⟨signature, .defined⟩ position
where
  register (function : Function) (position : Position) : ExceptT Fault
    (StateM ScopeStack) Unit := do
    let name := function.signature.name
    match (← get).function? name with
    | none => modify (modifyInnermost · (Scope.add function))
    | some known =>
      match known.stage, function.stage with
      | .builtin _, _ => throw ⟨.builtinOverride name, position⟩
      | .declared, .defined =>
        if ¬known.signature.Completes function.signature then
          throw ⟨.signatureMismatch name, position⟩
        modify (complete · name)
      | _, _ => throw ⟨.alreadyDeclared name, position⟩

def after (operation : Operation) (stack : ScopeStack) : ScopeStack :=
  (operation.attempt.run stack).2

theorem run_get_bind (continuation : ScopeStack → ExceptT Fault (StateM ScopeStack) Unit)
    (stack : ScopeStack) :
    (get >>= continuation : ExceptT Fault (StateM ScopeStack) Unit).run stack =
      (continuation stack).run stack := rfl

theorem attempt_register_eq (function : Function) (position : Position) (stack : ScopeStack) :
    (attempt.register function position).run stack =
      match stack.register function position with
      | .ok changed => (.ok (), changed)
      | .error fault => (.error fault, stack) := by
  rw [attempt.register, run_get_bind, ScopeStack.register]
  cases found : stack.function? function.signature.name with
  | none => rfl
  | some known =>
    dsimp only
    cases known.stage with
    | builtin => rfl
    | defined => rfl
    | declared =>
      cases function.stage with
      | builtin => rfl
      | declared => rfl
      | defined =>
        by_cases completes : known.signature.Completes function.signature
        · simp only [completes, not_true, if_false, if_true]; rfl
        · simp only [completes, not_false_eq_true, if_false, if_true]; rfl

/-- An operation that fails has checked all before it writes anything. -/
theorem attempt_eq (operation : Operation) (stack : ScopeStack) :
    operation.attempt.run stack =
      match operation.perform stack with
      | .ok changed => (.ok (), changed)
      | .error fault => (.error fault, stack) := by
  cases operation with
  | push => rfl
  | pop => rfl
  | declare binding position =>
    rw [attempt, run_get_bind, perform, ScopeStack.declare]
    cases found : stack.binding? binding.name with
    | none => rfl
    | some known =>
      dsimp only
      by_cases constant : known.constant
      · simp only [constant, if_true]; rfl
      · by_cases alike : known.type.Alike binding.type
        · simp only [constant, alike, not_true, if_false, if_true, Bool.false_eq_true]; rfl
        · simp only [constant, alike, not_false_eq_true, if_false, if_true, Bool.false_eq_true]; rfl
  | declareParameter parameter position =>
    rw [attempt, run_get_bind, perform, ScopeStack.declareParameter]
    cases found : stack.innermost.bindings.get? parameter.name with
    | none => rfl
    | some known =>
      dsimp only
      by_cases alike : known.type.Alike parameter.type
      · simp only [alike, not_true, if_false, if_true]; rfl
      · simp only [alike, not_false_eq_true, if_false, if_true]; rfl
  | forward signature position => exact attempt_register_eq ⟨signature, .declared⟩ position stack
  | define signature position => exact attempt_register_eq ⟨signature, .defined⟩ position stack

def registers? : Operation → Option Function
  | forward signature _ => some ⟨signature, .declared⟩
  | define signature _ => some ⟨signature, .defined⟩
  | _ => none

def Completes (function : Function) : Operation → Prop
  | define signature _ => function.stage = .declared ∧ function.signature.Completes signature
  | _ => False

instance (operation : Operation) (function : Function) :
    Decidable (operation.Completes function) := by
  cases operation <;> unfold Completes <;> infer_instance

end Operation

def run (stack : ScopeStack) (operations : List Operation) : ScopeStack :=
  operations.foldl (fun stack operation => operation.after stack) stack

def scopeAt? (stack : ScopeStack) (depth : Nat) : Option Scope := stack.toList.reverse[depth]?

def entryAt? {α : Type} (table : Scope → Table α) (stack : ScopeStack) (depth : Nat)
    (name : String) : Option α :=
  (stack.scopeAt? depth).bind fun scope => (table scope).get? name

def functionAt? (stack : ScopeStack) (depth : Nat) (name : String) : Option Function :=
  stack.entryAt? Scope.functions depth name

def bindingAt? (stack : ScopeStack) (depth : Nat) (name : String) : Option Binding :=
  stack.entryAt? Scope.bindings depth name

/-- The scope at the depth is open before each operation of the run, and behind the last. -/
def StaysOpen (depth : Nat) : ScopeStack → List Operation → Prop
  | stack, [] => depth ≤ stack.opened.length
  | stack, operation :: rest =>
    depth ≤ stack.opened.length ∧ StaysOpen depth (operation.after stack) rest

variable {stack : ScopeStack} {operation : Operation} {depth : Nat} {name : String}

inductive Effect (stack : ScopeStack) : Operation → ScopeStack → Prop where
  | push : Effect stack .push stack.push
  | pop : Effect stack .pop stack.pop
  | declared {binding : Binding} {position : Position}
      (fits : ∀ known, stack.binding? binding.name = some known →
        known.constant = false ∧ known.type.Alike binding.type) :
      Effect stack (.declare binding position) (stack.modifyInnermost (Scope.bind binding))
  | parameter {parameter : Parameter} {position : Position}
      (fits : ∀ known, stack.innermost.bindings.get? parameter.name = some known →
        known.type.Alike parameter.type) :
      Effect stack (.declareParameter parameter position)
        (stack.modifyInnermost (Scope.bind ⟨parameter.name, false, parameter.type⟩))
  | added {operation : Operation} {function : Function}
      (registers : operation.registers? = some function)
      (unknown : stack.function? function.signature.name = none) :
      Effect stack operation (stack.modifyInnermost (Scope.add function))
  | completed {signature : Signature} {position : Position} {known : Function}
      (found : stack.function? signature.name = some known)
      (completes : (Operation.define signature position).Completes known) :
      Effect stack (.define signature position) (stack.complete signature.name)
  | refused {operation : Operation} {fault : Fault}
      (fails : operation.perform stack = .error fault) :
      Effect stack operation stack

theorem fits_of_declare {binding : Binding} {position : Position} {changed : ScopeStack}
    (declares : stack.declare binding position = .ok changed) :
    ∀ known, stack.binding? binding.name = some known → known.constant = false ∧
      known.type.Alike binding.type := by
  intro known found
  simp only [declare, found] at declares
  split at declares
  · cases declares
  next mutable =>
    split at declares
    next alike => exact ⟨by simpa using mutable, alike⟩
    next => cases declares

theorem fits_of_declareParameter {parameter : Parameter} {position : Position}
    {changed : ScopeStack} (declares : stack.declareParameter parameter position = .ok changed) :
    ∀ known, stack.innermost.bindings.get? parameter.name = some known →
      known.type.Alike parameter.type := by
  intro known found
  simp only [declareParameter, found] at declares
  split at declares
  next alike => exact alike
  next => cases declares

theorem effect_of_perform {changed : ScopeStack}
    (performs : operation.perform stack = .ok changed) :
    Effect stack operation changed := by
  cases operation with
  | push =>
    obtain rfl := Except.ok.inj performs
    exact .push
  | pop =>
    obtain rfl := Except.ok.inj performs
    exact .pop
  | declare binding position =>
    rw [eq_of_declare performs]
    exact .declared (fits_of_declare performs)
  | declareParameter parameter position =>
    rw [eq_of_declareParameter performs]
    exact .parameter (fits_of_declareParameter performs)
  | forward signature position =>
    obtain ⟨unknown, rfl⟩ | ⟨known, found, declared, defined, _⟩ := register_cases performs
    · exact .added rfl unknown
    · cases defined
  | define signature position =>
    obtain ⟨unknown, rfl⟩ | ⟨known, found, declared, defined, same, rfl⟩ := register_cases performs
    · exact .added rfl unknown
    · exact .completed found ⟨declared, same⟩

theorem Operation.after_of_perform {changed : ScopeStack}
    (performs : operation.perform stack = .ok changed) :
    operation.after stack = changed := by
  rw [after, attempt_eq, performs]

theorem Operation.after_of_fails {fault : Fault} (fails : operation.perform stack = .error fault) :
    operation.after stack = stack := by
  rw [after, attempt_eq, fails]

theorem effect_after (stack : ScopeStack) (operation : Operation) :
    Effect stack operation (operation.after stack) := by
  cases performs : operation.perform stack with
  | ok changed =>
    rw [Operation.after_of_perform performs]
    exact effect_of_perform performs
  | error fault =>
    rw [Operation.after_of_fails performs]
    exact .refused performs

/-! Runs. -/

theorem run_append (stack : ScopeStack) (first second : List Operation) :
    stack.run (first ++ second) = (stack.run first).run second :=
  List.foldl_append

theorem StaysOpen.begins {operations : List Operation} (stays : StaysOpen depth stack operations) :
    depth ≤ stack.opened.length := by
  cases operations with
  | nil => exact stays
  | cons => exact stays.1

/-! Scopes by depth. -/

theorem length_toList (stack : ScopeStack) : stack.toList.length = stack.opened.length + 1 := by
  rw [toList, List.length_append, List.length_singleton]

/-- Only the innermost scope is told apart: the others lie where they lay. -/
theorem scopeAt?_of_outer {a b : ScopeStack} (outer : b.toList.tail = a.toList.tail)
    (inside : depth < a.opened.length) : b.scopeAt? depth = a.scopeAt? depth := by
  have length : depth < a.toList.tail.reverse.length := by
    rw [List.length_reverse, List.length_tail, length_toList]
    omega
  rw [scopeAt?, scopeAt?, toList_eq_cons a, toList_eq_cons b, outer, List.reverse_cons,
    List.reverse_cons, List.getElem?_append_left length, List.getElem?_append_left length]

theorem scopeAt?_innermost (stack : ScopeStack) :
    stack.scopeAt? stack.opened.length = some stack.innermost := by
  have length : stack.opened.length = stack.toList.tail.reverse.length := by
    rw [List.length_reverse, List.length_tail, length_toList]
    omega
  rw [scopeAt?, toList_eq_cons, List.reverse_cons, length]
  exact List.getElem?_concat_length

theorem scopeAt?_push (inside : depth ≤ stack.opened.length) :
    stack.push.scopeAt? depth = stack.scopeAt? depth := by
  have length : depth < stack.toList.reverse.length := by
    rw [List.length_reverse, length_toList]
    omega
  rw [scopeAt?, toList_push, List.reverse_cons, List.getElem?_append_left length, scopeAt?]

theorem scopeAt?_pop (inside : depth ≤ stack.pop.opened.length) :
    stack.pop.scopeAt? depth = stack.scopeAt? depth := by
  obtain ⟨opened, root⟩ := stack
  cases opened with
  | nil => rfl
  | cons scope rest =>
    have below : (ScopeStack.mk (scope :: rest) root).toList =
      scope :: (ScopeStack.mk rest root).toList := rfl
    have length : depth < (ScopeStack.mk rest root).toList.reverse.length := by
      rw [List.length_reverse, length_toList]
      exact Nat.lt_succ_of_le inside
    rw [scopeAt?, scopeAt?, below, List.reverse_cons, List.getElem?_append_left length]
    rfl

theorem scopeAt?_lt {scope : Scope} (found : stack.scopeAt? depth = some scope) :
    depth ≤ stack.opened.length := by
  obtain ⟨inside, _⟩ := List.getElem?_eq_some_iff.mp found
  rw [List.length_reverse, length_toList] at inside
  omega

theorem scopeAt?_eq_none (outside : stack.opened.length < depth) : stack.scopeAt? depth = none := by
  refine List.getElem?_eq_none ?_
  rw [List.length_reverse, length_toList]
  exact outside

theorem mem_of_scopeAt? {scope : Scope} (found : stack.scopeAt? depth = some scope) :
    scope ∈ stack.toList :=
  List.mem_reverse.mp (List.mem_of_getElem? found)

theorem length_modifyInnermost (stack : ScopeStack) (f : Scope → Scope) :
    (stack.modifyInnermost f).opened.length = stack.opened.length :=
  (grown_modifyInnermost stack f).depth

/-- A change of the innermost scope is seen at its depth and at no other. -/
theorem scopeAt?_modifyInnermost (stack : ScopeStack) (f : Scope → Scope) (depth : Nat) :
    (stack.modifyInnermost f).scopeAt? depth =
      (stack.scopeAt? depth).map fun scope =>
      if depth = stack.opened.length then f scope else scope := by
  obtain inside | rfl | outside := Nat.lt_trichotomy depth stack.opened.length
  · have outer : (stack.modifyInnermost f).toList.tail = stack.toList.tail := by
      rw [toList_modifyInnermost, List.tail_cons]
    simp only [scopeAt?_of_outer outer inside, Nat.ne_of_lt inside, if_false, Option.map_id']
  · have innermost : (stack.modifyInnermost f).innermost = f stack.innermost := by
      have lists := toList_modifyInnermost stack f
      rw [toList_eq_cons] at lists
      exact (List.cons.inj lists).1
    have changed := scopeAt?_innermost (stack.modifyInnermost f)
    rw [length_modifyInnermost, innermost] at changed
    simp only [changed, scopeAt?_innermost, Option.map_some, if_true]
  · rw [scopeAt?_eq_none outside, scopeAt?_eq_none (by rwa [length_modifyInnermost])]
    rfl

theorem rel_of_forall₂ {first second : List Scope} (alike : List.Forall₂ Scope.Alike first second)
    (depth : Nat) :
    Option.Rel Scope.Alike first[depth]? second[depth]? := by
  induction alike generalizing depth with
  | nil => exact .none
  | cons same _ ih =>
    cases depth with
    | zero => exact .some same
    | succ depth => exact ih depth

theorem Alike.scopeAt?_rel {changed : ScopeStack} (alike : Alike stack changed) (depth : Nat) :
    Option.Rel Scope.Alike (stack.scopeAt? depth) (changed.scopeAt? depth) :=
  rel_of_forall₂ (List.rel_reverse alike) depth

/-! Entries by depth. -/

section Entries
variable {α : Type} (table : Scope → Table α)

theorem entryAt?_push (fresh : table .empty = []) (stack : ScopeStack) (depth : Nat)
    (name : String) :
    stack.push.entryAt? table depth name = stack.entryAt? table depth name := by
  unfold entryAt?
  obtain inside | last | outside := Nat.lt_trichotomy depth (stack.opened.length + 1)
  · rw [scopeAt?_push (Nat.le_of_lt_succ inside)]
  · subst last
    have innermost : stack.push.scopeAt? (stack.opened.length + 1) = some .empty :=
      scopeAt?_innermost stack.push
    rw [scopeAt?_eq_none (Nat.lt_succ_self _), innermost, Option.bind_some, fresh]
    rfl
  · have below : stack.scopeAt? depth = none := scopeAt?_eq_none (by omega)
    have above : stack.push.scopeAt? depth = none := scopeAt?_eq_none outside
    rw [below, above]

theorem entryAt?_pop (inside : depth ≤ stack.pop.opened.length) (name : String) :
    stack.pop.entryAt? table depth name = stack.entryAt? table depth name := by
  rw [entryAt?, scopeAt?_pop inside, entryAt?]

theorem entryAt?_of_same (f : Scope → Scope) (same : ∀ scope, table (f scope) = table scope)
    (stack : ScopeStack) (depth : Nat) (name : String) :
    (stack.modifyInnermost f).entryAt? table depth name = stack.entryAt? table depth name := by
  rw [entryAt?, scopeAt?_modifyInnermost, entryAt?]
  cases stack.scopeAt? depth with
  | none => rfl
  | some scope =>
    simp only [Option.map_some, Option.bind_some]
    split
    next => rw [same]
    next => rfl

theorem entryAt?_of_put (f : Scope → Scope) {key : String} {value : α}
    (puts : ∀ scope, table (f scope) = (table scope).put key value) (stack : ScopeStack)
    (depth : Nat) (name : String) :
    (stack.modifyInnermost f).entryAt? table depth name =
      if depth = stack.opened.length ∧ key = name then some value else stack.entryAt? table
        depth name := by
  rw [entryAt?, scopeAt?_modifyInnermost, entryAt?]
  by_cases last : depth = stack.opened.length
  · subst last
    simp only [scopeAt?_innermost, Option.map_some, Option.bind_some, if_true, true_and, puts,
      Table.get?_put]
  · simp only [last, if_false, false_and, Option.map_id']

theorem entryAt?_innermost (stack : ScopeStack) (name : String) :
    stack.entryAt? table stack.opened.length name = (table stack.innermost).get? name := by
  rw [entryAt?, scopeAt?_innermost, Option.bind_some]

theorem depth_le_of_entryAt? {value : α} (found : stack.entryAt? table depth name = some value) :
    depth ≤ stack.opened.length := by
  obtain ⟨scope, place, _⟩ := Option.bind_eq_some_iff.mp found
  exact scopeAt?_lt place

end Entries

end ColonScript.ScopeStack
