import Mathlib.Data.List.Induction
import ColonScript.Proofs.Histories

/-! Variables over a history of the scopes. A declaration is checked against all scopes and a
parameter against the innermost alone, yet both write to the innermost: what an inner binding may
hide is settled when it is made, and lasts because the scopes around it wait for it to be closed. -/

namespace ColonScript.ScopeStack

variable {stack changed : ScopeStack} {operation : Operation} {depth : Nat} {name : String}
    {binding : Binding}
  {history : List Operation}

inductive Origin
  | declaration
  | parameter
  deriving DecidableEq

def Operation.binds? : Operation → Option (Binding × Origin)
  | declare binding _ => some (binding, .declaration)
  | declareParameter parameter _ => some (⟨parameter.name, false, parameter.type⟩, .parameter)
  | _ => none

/-- The name came in this way into the scope that is open at the depth behind the history. -/
def Bound (origin : Origin) (name : String) (depth : Nat) (history : List Operation) : Prop :=
  ∃ before operation after, history = before ++ operation :: after ∧
    (∃ binding, operation.binds? = some (binding, origin) ∧ binding.name = name) ∧
    (∃ changed, operation.perform (initial.run before) = .ok changed) ∧
    (initial.run before).opened.length = depth ∧
    StaysOpen depth (initial.run before) (operation :: after)

/-- Parameters are declared only in a scope that holds nothing but parameters. -/
def Orderly (history : List Operation) : Prop :=
  ∀ before parameter position after, history = before ++ .declareParameter parameter
    position :: after →
    ∀ name, ¬Bound .declaration name (initial.run before).opened.length before

/-! Bindings at their depth. -/

theorem bindingAt?_push (stack : ScopeStack) (depth : Nat) (name : String) :
    stack.push.bindingAt? depth name = stack.bindingAt? depth name :=
  entryAt?_push Scope.bindings rfl stack depth name

theorem bindingAt?_pop (inside : depth ≤ stack.pop.opened.length) (name : String) :
    stack.pop.bindingAt? depth name = stack.bindingAt? depth name :=
  entryAt?_pop Scope.bindings inside name

theorem bindingAt?_bind (stack : ScopeStack) (binding : Binding) (depth : Nat) (name : String) :
    (stack.modifyInnermost (Scope.bind binding)).bindingAt? depth name =
      if depth = stack.opened.length ∧ binding.name = name then some binding
        else stack.bindingAt? depth name :=
  entryAt?_of_put Scope.bindings (Scope.bind binding) (fun _ => rfl) stack depth name

theorem bindingAt?_add (stack : ScopeStack) (function : Function) (depth : Nat) (name : String) :
    (stack.modifyInnermost (Scope.add function)).bindingAt? depth name =
      stack.bindingAt? depth name :=
  entryAt?_of_same Scope.bindings (Scope.add function) (fun _ => rfl) stack depth name

theorem Alike.bindingAt?_eq (alike : Alike stack changed) (depth : Nat) (name : String) :
    changed.bindingAt? depth name = stack.bindingAt? depth name := by
  unfold bindingAt? entryAt?
  have related := alike.scopeAt?_rel depth
  generalize stack.scopeAt? depth = first at related ⊢
  generalize changed.scopeAt? depth = second at related ⊢
  cases related with
  | none => rfl
  | some same => simp only [Option.bind_some, same.bindings]

theorem bindingAt?_innermost (stack : ScopeStack) (name : String) :
    stack.bindingAt? stack.opened.length name = stack.innermost.bindings.get? name :=
  entryAt?_innermost Scope.bindings stack name

/-- A look-up finds the binding with no other on the way to it. -/
theorem binding?_of_nearest (found : stack.bindingAt? depth name = some binding)
    (nearest : ∀ between, depth < between → between ≤ stack.opened.length →
      stack.bindingAt? between name = none) :
    stack.binding? name = some binding := by
  obtain ⟨opened, root⟩ := stack
  induction opened with
  | nil =>
    obtain rfl : depth = 0 := Nat.le_zero.mp (depth_le_of_entryAt? Scope.bindings found)
    rw [binding?, toList]
    exact List.findSome?_cons.trans (by rw [show root.bindings.get? name = some binding from found])
  | cons scope rest ih =>
    obtain last | inside : depth = rest.length + 1 ∨ depth ≤ rest.length := by
      have inside : depth ≤ rest.length + 1 := depth_le_of_entryAt? Scope.bindings found
      omega
    · subst last
      have innermost : scope.bindings.get? name = some binding :=
        (bindingAt?_innermost ⟨scope :: rest, root⟩ name).symm.trans found
      rw [binding?, toList, List.cons_append, List.findSome?_cons, innermost]
    · have below : (ScopeStack.mk rest root).binding? name = some binding := by
        refine ih ((bindingAt?_pop inside name).trans found) fun between beyond within => ?_
        exact (bindingAt?_pop within name).trans (nearest between beyond (Nat.le_succ_of_le within))
      have free : scope.bindings.get? name = none :=
        (bindingAt?_innermost ⟨scope :: rest, root⟩ name).symm.trans
          (nearest (rest.length + 1) (by omega) (Nat.le_refl _))
      rw [binding?, toList, List.cons_append, List.findSome?_cons, free]
      exact below

theorem binding?_of_innermost (found : stack.bindingAt? stack.opened.length name = some binding) :
    stack.binding? name = some binding :=
  binding?_of_nearest found fun _ beyond within => absurd beyond (Nat.not_lt_of_le within)

/-! One operation. -/

/-- Only what the operation binds, and only in the innermost scope, is bound otherwise than
before. -/
theorem bindingAt?_of_perform (performs : operation.perform stack = .ok changed)
    (inside : depth ≤ changed.opened.length) (name : String) :
    changed.bindingAt? depth name = stack.bindingAt? depth name ∨
      depth = stack.opened.length ∧ ∃ binding origin, operation.binds? = some (binding, origin) ∧
        binding.name = name ∧ changed.bindingAt? depth name = some binding := by
  have bind (binding : Binding) (origin : Origin)
    (binds : operation.binds? = some (binding, origin))
      (same : changed = stack.modifyInnermost (Scope.bind binding)) :
      changed.bindingAt? depth name = stack.bindingAt? depth name ∨
        depth = stack.opened.length ∧ ∃ binding origin, operation.binds? = some (binding, origin) ∧
          binding.name = name ∧ changed.bindingAt? depth name = some binding := by
    rw [same, bindingAt?_bind]
    split
    next here => exact .inr ⟨here.1, binding, origin, binds, here.2, rfl⟩
    next => exact .inl rfl
  cases effect_of_perform performs with
  | push => exact .inl (bindingAt?_push stack depth name)
  | pop => exact .inl (bindingAt?_pop inside name)
  | @declared binding => exact bind binding .declaration rfl rfl
  | @parameter parameter => exact bind ⟨parameter.name, false, parameter.type⟩ .parameter rfl rfl
  | @added _ function => exact .inl (bindingAt?_add stack function depth name)
  | completed found completes =>
    exact .inl ((alike_complete found completes.1).bindingAt?_eq depth name)
  | refused fails =>
    rw [performs] at fails
    cases fails

/-- A name of the innermost scope keeps its type when it is bound anew. -/
theorem alike_of_binds {origin : Origin} {known : Binding}
    (performs : operation.perform stack = .ok changed)
    (binds : operation.binds? = some (binding, origin))
    (found : stack.bindingAt? stack.opened.length binding.name = some known) :
    known.type.Alike binding.type := by
  cases operation with
  | declare own position =>
    obtain ⟨rfl, rfl⟩ := Prod.mk.inj (Option.some.inj binds)
    exact (fits_of_declare performs known (binding?_of_innermost found)).2
  | declareParameter parameter position =>
    obtain ⟨rfl, rfl⟩ := Prod.mk.inj (Option.some.inj binds)
    rw [bindingAt?_innermost] at found
    exact fits_of_declareParameter performs known found
  | _ => cases binds

/-- A declaration finds the name free, or a variable of its type. -/
theorem fits_of_binds {known : Binding} (performs : operation.perform stack = .ok changed)
    (binds : operation.binds? = some (binding, .declaration))
    (found : stack.binding? binding.name = some known) :
    known.constant = false ∧ known.type.Alike binding.type := by
  cases operation with
  | declare own position =>
    obtain rfl := (Prod.mk.inj (Option.some.inj binds)).1
    exact fits_of_declare performs known found
  | declareParameter => cases binds
  | _ => cases binds

theorem eq_of_binds {origin : Origin} (performs : operation.perform stack = .ok changed)
    (binds : operation.binds? = some (binding, origin)) :
    changed = stack.modifyInnermost (Scope.bind binding) := by
  cases operation with
  | declare own position =>
    obtain rfl := (Prod.mk.inj (Option.some.inj binds)).1
    exact eq_of_declare performs
  | declareParameter parameter position =>
    obtain rfl := (Prod.mk.inj (Option.some.inj binds)).1
    exact eq_of_declareParameter performs
  | _ => cases binds

theorem bindingAt?_after (inside : depth ≤ (operation.after stack).opened.length) (name : String) :
    (operation.after stack).bindingAt? depth name = stack.bindingAt? depth name ∨
      depth = stack.opened.length ∧ operation.perform stack = .ok (operation.after stack) ∧
        ∃ binding origin, operation.binds? = some (binding, origin) ∧ binding.name = name ∧
          (operation.after stack).bindingAt? depth name = some binding := by
  cases performs : operation.perform stack with
  | error fault =>
    rw [Operation.after_of_fails performs]
    exact .inl rfl
  | ok changed =>
    rw [Operation.after_of_perform performs] at inside ⊢
    obtain same | ⟨last, binds⟩ := bindingAt?_of_perform performs inside name
    · exact .inl same
    · exact .inr ⟨last, rfl, binds⟩

/-- The scopes around the innermost hold what they held. -/
theorem bindingAt?_outer (outer : depth < (operation.after stack).opened.length) (name : String) :
    (operation.after stack).bindingAt? depth name = stack.bindingAt? depth name := by
  obtain same | ⟨last, performs, _, _, binds, _⟩ := bindingAt?_after (Nat.le_of_lt outer) name
  · exact same
  · rw [eq_of_binds performs binds, length_modifyInnermost] at outer
    omega

theorem constant_of_parameter (binds : operation.binds? = some (binding, .parameter)) :
    binding.constant = false := by
  cases operation with
  | declareParameter parameter position =>
    obtain rfl := (Prod.mk.inj (Option.some.inj binds)).1
    rfl
  | declare => cases binds
  | _ => cases binds

/-! Histories. -/

theorem staysOpen_append {before after : List Operation} :
    StaysOpen depth stack (before ++ after) ↔
      StaysOpen depth stack before ∧ StaysOpen depth (stack.run before) after := by
  induction before generalizing stack with
  | nil => exact ⟨fun stays => ⟨stays.begins, stays⟩, And.right⟩
  | cons operation rest ih =>
    rw [List.cons_append, StaysOpen, StaysOpen, ih, and_assoc]
    rfl

theorem StaysOpen.ends {operations : List Operation} (stays : StaysOpen depth stack operations) :
    depth ≤ (stack.run operations).opened.length := by
  have split : StaysOpen depth stack (operations ++ []) := by rwa [List.append_nil]
  exact (staysOpen_append.mp split).2

theorem run_concat (stack : ScopeStack) (history : List Operation) (operation : Operation) :
    stack.run (history ++ [operation]) = operation.after (stack.run history) :=
  run_append stack history [operation]

theorem Bound.concat {origin : Origin} (bound : Bound origin name depth history)
    (inside : depth ≤ (operation.after (initial.run history)).opened.length) :
    Bound origin name depth (history ++ [operation]) := by
  obtain ⟨before, binder, after, rfl, binds, succeeds, place, stays⟩ := bound
  refine ⟨before, binder, after ++ [operation], by simp, binds, succeeds, place, ?_⟩
  rw [← List.cons_append, staysOpen_append, ← run_append]
  exact ⟨stays, run_append initial before _ ▸ stays.ends, inside⟩

theorem bound_last {origin : Origin}
    (performs : operation.perform (initial.run history) = .ok changed)
    (binds : operation.binds? = some (binding, origin)) :
    Bound origin binding.name (initial.run history).opened.length (history ++ [operation]) := by
  have length : (operation.after (initial.run history)).opened.length =
    (initial.run history).opened.length := by
    rw [Operation.after_of_perform performs, eq_of_binds performs binds, length_modifyInnermost]
  exact ⟨history, operation, [], rfl, ⟨binding, binds, rfl⟩, ⟨changed, performs⟩,
    rfl, Nat.le_refl _, Nat.le_of_eq length.symm⟩

/-- What bindings go back to: a constant to a declaration, and a binding that hides another to a
parameter or to the variable it hides. -/
structure Traced (history : List Operation) : Prop where
  constants : ∀ {depth name binding}, (initial.run history).bindingAt? depth name = some binding →
    binding.constant = true → Bound .declaration name depth history
  shadows : ∀ {inner outer name binding hidden}, outer < inner →
    (initial.run history).bindingAt? inner name = some binding →
      (initial.run history).bindingAt? outer name = some hidden →
      (∀ between, outer < between → between < inner →
        (initial.run history).bindingAt? between name = none) →
        Bound .parameter name inner history ∨ hidden.constant = false ∧
        hidden.type.Alike binding.type

theorem traced_nil : Traced [] where
  constants := by
    intro depth name binding found
    obtain rfl : depth = 0 := Nat.le_zero.mp (depth_le_of_entryAt? Scope.bindings found)
    cases found
  shadows := by
    intro inner outer name binding hidden outside found
    obtain rfl : inner = 0 := Nat.le_zero.mp (depth_le_of_entryAt? Scope.bindings found)
    cases found

theorem Traced.concat (traced : Traced history) (operation : Operation) :
    Traced (history ++ [operation]) where
  constants := by
    intro depth name binding found constant
    rw [run_concat] at found
    have inside := depth_le_of_entryAt? Scope.bindings found
    obtain same | ⟨rfl, performs, new, origin, binds, rfl, found'⟩ := bindingAt?_after inside name
    · exact (traced.constants (same ▸ found) constant).concat inside
    · obtain rfl := Option.some.inj (found'.symm.trans found)
      cases origin with
      | declaration => exact bound_last performs binds
      | parameter =>
        rw [constant_of_parameter binds] at constant
        cases constant
  shadows := by
    intro inner outer name binding hidden outside found found' free
    rw [run_concat] at found found' free
    have inside := depth_le_of_entryAt? Scope.bindings found
    have hidden' := (bindingAt?_outer (Nat.lt_of_lt_of_le outside inside) name).symm.trans found'
    have free' : ∀ between, outer < between → between < inner →
      (initial.run history).bindingAt? between name = none :=
      fun between beyond within =>
        (bindingAt?_outer (Nat.lt_of_lt_of_le within inside) name).symm.trans
          (free between beyond within)
    obtain same | ⟨rfl, performs, new, origin, binds, rfl, new'⟩ := bindingAt?_after inside name
    · obtain parameter | mutable := traced.shadows outside (same ▸ found) hidden' free'
      · exact .inl (parameter.concat inside)
      · exact .inr mutable
    · obtain rfl := Option.some.inj (new'.symm.trans found)
      cases origin with
      | parameter => exact .inl (bound_last performs binds)
      | declaration =>
        cases known : (initial.run history).bindingAt?
          (initial.run history).opened.length new.name with
        | some old =>
          -- The new variable is of the type of the one it replaces, which was let in before.
          obtain parameter | ⟨mutable, alike⟩ := traced.shadows outside known hidden' free'
          · exact .inl (parameter.concat inside)
          · exact .inr ⟨mutable, alike.trans (alike_of_binds performs binds known)⟩
        | none =>
          -- The nearest variable of the name is the outer one, with which the new one was compared.
          refine .inr (fits_of_binds performs binds ?_)
          refine binding?_of_nearest hidden' fun between beyond within => ?_
          obtain rfl | within := Nat.eq_or_lt_of_le within
          · exact known
          · exact free' between beyond within

theorem traced (history : List Operation) : Traced history := by
  induction history using List.reverseRecOn with
  | nil => exact traced_nil
  | append_singleton history operation ih => exact ih.concat operation

/-- A constant stays what it is, where parameters are declared as they should be. -/
theorem constant_run {later : List Operation}
    (found : (initial.run history).bindingAt? depth name = some binding)
    (constant : binding.constant = true) (orderly : Orderly (history ++ later))
    (stays : StaysOpen depth (initial.run history) later) :
    (initial.run (history ++ later)).bindingAt? depth name = some binding := by
  induction later generalizing history with
  | nil => rwa [List.append_nil]
  | cons operation rest ih =>
    rw [List.append_cons] at orderly ⊢
    refine ih ?_ orderly (run_concat initial history operation ▸ stays.2)
    rw [run_concat]
    obtain same | ⟨rfl, performs, new, origin, binds, rfl, _⟩ :=
      bindingAt?_after stays.2.begins name
    · rwa [same]
    · cases origin with
      | declaration =>
        obtain ⟨mutable, _⟩ := fits_of_binds performs binds (binding?_of_innermost found)
        rw [mutable] at constant
        cases constant
      | parameter =>
        cases operation with
        | declareParameter parameter position =>
          exact absurd ((traced history).constants found constant)
            (orderly history parameter position rest (by simp) _)
        | declare => cases binds
        | _ => cases binds

/-- A binding keeps its type. -/
theorem type_run {operations : List Operation} (found : stack.bindingAt? depth name = some binding)
    (stays : StaysOpen depth stack operations) :
    ∃ current, (stack.run operations).bindingAt? depth name = some current ∧
      binding.type.Alike current.type := by
  induction operations generalizing stack binding with
  | nil => exact ⟨binding, found, rfl⟩
  | cons operation rest ih =>
    obtain same | ⟨rfl, performs, new, origin, binds, rfl, found'⟩ :=
      bindingAt?_after stays.2.begins name
    · exact ih (same.trans found) stays.2
    · obtain ⟨current, found'', alike⟩ := ih found' stays.2
      exact ⟨current, found'', (alike_of_binds performs binds found).trans alike⟩

/-- What the tables of variables are relied on for, whatever is done to the scopes next. -/
structure KeepsVariables (history : List Operation) : Prop where
  /-- Of two scopes that bind a name, with none between them that does, the inner one has it for a
  parameter, or hides a variable of its type. -/
  shadows : ∀ (inner outer : Nat) (name : String) (binding hidden : Binding), outer < inner →
    (initial.run history).bindingAt? inner name = some binding →
      (initial.run history).bindingAt? outer name = some hidden →
      (∀ between, outer < between → between < inner →
        (initial.run history).bindingAt? between name = none) →
        Bound .parameter name inner history ∨ hidden.constant = false ∧
        hidden.type.Alike binding.type
  constants : ∀ (depth : Nat) (name : String) (binding : Binding) (later : List Operation),
    (initial.run history).bindingAt? depth name = some binding → binding.constant = true →
    Orderly (history ++ later) →
      StaysOpen depth (initial.run history) later →
        (initial.run (history ++ later)).bindingAt? depth name = some binding
  types : ∀ (depth : Nat) (name : String) (binding : Binding) (later : List Operation),
    (initial.run history).bindingAt? depth name = some binding →
    StaysOpen depth (initial.run history) later →
      ∃ current, (initial.run (history ++ later)).bindingAt? depth name = some current ∧
      binding.type.Alike current.type
  /-- A success is seen at its own name and at no other. -/
  binds : ∀ (operation : Operation) (binding : Binding) (origin : Origin) (changed : ScopeStack),
    operation.binds? = some (binding, origin) →
    operation.perform (initial.run history) = .ok changed →
      operation.attempt.run (initial.run history) = (.ok (), changed) ∧
        ∀ name, (operation.after (initial.run history)).binding? name =
          if binding.name = name then some binding else (initial.run history).binding? name
  failing : ∀ (operation : Operation) (fault : Fault),
    operation.perform (initial.run history) = .error fault →
    operation.attempt.run (initial.run history) = (.error fault, initial.run history)

theorem keepsVariables_run (history : List Operation) : KeepsVariables history where
  shadows := fun _ _ _ _ _ outside found found' free =>
    (traced history).shadows outside found found' free
  constants := fun _ _ _ _ found constant orderly stays => constant_run found constant orderly stays
  types := by
    intro depth name binding later found stays
    rw [run_append]
    exact type_run found stays
  binds := by
    intro operation binding origin changed binds performs
    refine ⟨by rw [Operation.attempt_eq, performs], fun name => ?_⟩
    rw [Operation.after_of_perform performs, eq_of_binds performs binds,
      modifyInnermost_bind_binding?]
  failing := by
    intro operation fault fails
    rw [Operation.attempt_eq, fails]

end ColonScript.ScopeStack
