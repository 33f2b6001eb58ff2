import ColonScript.Proofs.Histories

/-! The records of functions over a history of the scopes. A definition may complete a record in any
scope that is open, and it finds the record by its name alone: no two open scopes may hold records
of one name. -/

namespace ColonScript.ScopeStack

variable {stack changed : ScopeStack} {operation : Operation} {depth : Nat} {name : String}
    {function : Function}

/-! Records at their depth. -/

theorem functionAt?_push (stack : ScopeStack) (depth : Nat) (name : String) :
    stack.push.functionAt? depth name = stack.functionAt? depth name :=
  entryAt?_push Scope.functions rfl stack depth name

theorem functionAt?_pop (inside : depth ≤ stack.pop.opened.length) (name : String) :
    stack.pop.functionAt? depth name = stack.functionAt? depth name :=
  entryAt?_pop Scope.functions inside name

theorem functionAt?_bind (stack : ScopeStack) (binding : Binding) (depth : Nat) (name : String) :
    (stack.modifyInnermost (Scope.bind binding)).functionAt? depth name =
      stack.functionAt? depth name :=
  entryAt?_of_same Scope.functions (Scope.bind binding) (fun _ => rfl) stack depth name

theorem functionAt?_add (stack : ScopeStack) (function : Function) (depth : Nat) (name : String) :
    (stack.modifyInnermost (Scope.add function)).functionAt? depth name =
      if depth = stack.opened.length ∧ function.signature.name = name then some function
      else stack.functionAt? depth name :=
  entryAt?_of_put Scope.functions (Scope.add function) (fun _ => rfl) stack depth name

theorem Alike.functionAt?_callee (alike : Alike stack changed) (depth : Nat) (name : String) :
    (changed.functionAt? depth name).map Function.callee =
      (stack.functionAt? depth name).map Function.callee := by
  unfold functionAt? entryAt?
  have related := alike.scopeAt?_rel depth
  generalize stack.scopeAt? depth = first at related ⊢
  generalize changed.scopeAt? depth = second at related ⊢
  cases related with
  | none => rfl
  | some same => exact (same.callees name).symm

theorem exists_functionAt? (found : stack.function? name = some function) :
    ∃ depth, stack.functionAt? depth name = some function := by
  obtain ⟨scope, member, holds⟩ := List.exists_of_findSome?_eq_some found
  obtain ⟨depth, place⟩ := List.getElem?_of_mem (List.mem_reverse.mpr member)
  exact ⟨depth, by rw [functionAt?, entryAt?, scopeAt?, place, Option.bind_some, holds]⟩

theorem function?_ne_none (found : stack.functionAt? depth name = some function) :
    stack.function? name ≠ none := by
  intro unknown
  obtain ⟨scope, place, holds⟩ := Option.bind_eq_some_iff.mp found
  have absent := List.findSome?_eq_none_iff.mp unknown scope (mem_of_scopeAt? place)
  rw [holds] at absent
  cases absent

/-- What makes it safe to find a record by its name. -/
structure Unambiguous (stack : ScopeStack) : Prop where
  named : ∀ {depth name function}, stack.functionAt? depth name = some function →
    function.signature.name = name
  alone : ∀ {name inner outer function other}, stack.functionAt? inner name = some function →
    stack.functionAt? outer name = some other → inner = outer

theorem Unambiguous.function?_eq (unambiguous : Unambiguous stack)
    (found : stack.functionAt? depth name = some function) :
    stack.function? name = some function := by
  obtain ⟨other, lookup⟩ := Option.ne_none_iff_exists'.mp (function?_ne_none found)
  obtain ⟨place, found'⟩ := exists_functionAt? lookup
  rw [← unambiguous.alone found found', found] at found'
  rw [lookup, found']

/-! One operation. -/

/-- A record behind the operation was there before, or it is the new one. -/
theorem Effect.origin (effect : Effect stack operation changed)
    (found : changed.functionAt? depth name = some function) :
    (∃ old, stack.functionAt? depth name = some old ∧ old.signature = function.signature) ∨
      depth = stack.opened.length ∧ function.signature.name = name ∧
      stack.function? name = none := by
  cases effect with
  | push => exact .inl ⟨function, by rwa [functionAt?_push] at found, rfl⟩
  | pop =>
    have inside := depth_le_of_entryAt? Scope.functions found
    exact .inl ⟨function, by rwa [functionAt?_pop inside] at found, rfl⟩
  | declared => exact .inl ⟨function, by rwa [functionAt?_bind] at found, rfl⟩
  | parameter => exact .inl ⟨function, by rwa [functionAt?_bind] at found, rfl⟩
  | added registers unknown =>
    rw [functionAt?_add] at found
    split at found
    next new =>
      obtain rfl := Option.some.inj found
      exact .inr ⟨new.1, new.2, by rwa [← new.2]⟩
    next => exact .inl ⟨function, found, rfl⟩
  | @completed signature position known lookup completes =>
    have callees := (alike_complete lookup completes.1).functionAt?_callee depth name
    rw [found, Option.map_some, eq_comm, Option.map_eq_some_iff] at callees
    obtain ⟨old, found', same⟩ := callees
    exact .inl ⟨old, found', congrArg Callee.signature same⟩
  | refused => exact .inl ⟨function, found, rfl⟩

theorem Effect.unambiguous (effect : Effect stack operation changed)
    (unambiguous : Unambiguous stack) :
    Unambiguous changed where
  named := by
    intro depth name function found
    obtain ⟨old, found', same⟩ | ⟨_, named, _⟩ := effect.origin found
    · rw [← same, unambiguous.named found']
    · exact named
  alone := by
    intro name inner outer function other found found'
    obtain ⟨old, before, _⟩ | ⟨last, _, unknown⟩ := effect.origin found
    · obtain ⟨old', before', _⟩ | ⟨_, _, unknown'⟩ := effect.origin found'
      · exact unambiguous.alone before before'
      · exact absurd unknown' (function?_ne_none before)
    · obtain ⟨old', before', _⟩ | ⟨last', _, _⟩ := effect.origin found'
      · exact absurd unknown (function?_ne_none before')
      · rw [last, last']

/-- A function that is visible can only be registered again to complete it. -/
theorem succeeds_iff_completes {known : Function} (registers : operation.registers? = some function)
    (lookup : stack.function? function.signature.name = some known) :
    (∃ changed, operation.perform stack = .ok changed) ↔ operation.Completes known := by
  cases operation with
  | push => cases registers
  | pop => cases registers
  | declare => cases registers
  | declareParameter => cases registers
  | forward signature position =>
    obtain rfl := Option.some.inj registers
    simp only [Operation.perform, register, lookup, Operation.Completes, iff_false]
    rintro ⟨changed, succeeds⟩
    cases stage : known.stage <;> rw [stage] at succeeds <;> cases succeeds
  | define signature position =>
    obtain rfl := Option.some.inj registers
    simp only [Operation.perform, register, lookup, Operation.Completes]
    cases known.stage with
    | builtin => simp
    | defined => simp
    | declared =>
      by_cases same : known.signature.Completes signature
      · simp [same]
      · simp [same]

/-- The record of a function behind operations that may complete it. -/
def recordBehind (operations : List Operation) (function : Function) : Function :=
  if ∃ operation ∈ operations, operation.Completes function then { function with stage := .defined }
    else function

theorem recordBehind_of_completes {operations : List Operation} (member : operation ∈ operations)
    (completes : operation.Completes function) :
    recordBehind operations function = { function with stage := .defined } :=
  if_pos ⟨operation, member, completes⟩

theorem recordBehind_singleton (incomplete : ¬operation.Completes function) :
    recordBehind [operation] function = function := by
  refine if_neg ?_
  rintro ⟨other, member, completes⟩
  rw [List.mem_singleton.mp member] at completes
  exact incomplete completes

theorem not_completes_of_defined (operation : Operation) (function : Function) :
    ¬operation.Completes { function with stage := .defined } := by
  cases operation with
  | define => exact fun completes => nomatch completes.1
  | _ => exact id

/-- A function is completed once: the operations that might complete it again find it defined. -/
theorem recordBehind_cons (operation : Operation) (operations : List Operation)
    (function : Function) :
    recordBehind (operation :: operations) function =
      recordBehind operations (recordBehind [operation] function) := by
  by_cases completes : operation.Completes function
  · rw [recordBehind_of_completes List.mem_cons_self completes,
      recordBehind_of_completes List.mem_cons_self completes]
    refine (if_neg ?_).symm
    rintro ⟨other, _, completes'⟩
    exact not_completes_of_defined other function completes'
  · rw [recordBehind_singleton completes]
    simp only [recordBehind, List.mem_cons, exists_eq_or_imp, completes, false_or]

/-- What an operation makes of a record whose scope stays open. -/
theorem Effect.functionAt?_eq (effect : Effect stack operation changed)
    (unambiguous : Unambiguous stack) (found : stack.functionAt? depth name = some function)
    (inside : depth ≤ changed.opened.length) :
    changed.functionAt? depth name = some (recordBehind [operation] function) := by
  cases effect with
  | push => rwa [functionAt?_push, recordBehind_singleton id]
  | pop => rwa [functionAt?_pop inside, recordBehind_singleton id]
  | declared => rwa [functionAt?_bind, recordBehind_singleton id]
  | parameter => rwa [functionAt?_bind, recordBehind_singleton id]
  | @added operation new registers unknown =>
    -- A name that is added was not visible, and that of the record is.
    have other : new.signature.name ≠ name := by
      rintro rfl
      exact function?_ne_none found unknown
    have incomplete : ¬operation.Completes function := by
      intro completes
      cases operation with
      | define signature position =>
        obtain rfl := Option.some.inj registers
        exact other (completes.2.1.symm.trans (unambiguous.named found))
      | _ => exact completes
    rw [functionAt?_add, if_neg (fun new => other new.2), recordBehind_singleton incomplete, found]
  | @completed signature position known lookup completes =>
    have alike := alike_complete lookup completes.1
    have effect : Effect stack (.define signature position) (stack.complete signature.name) :=
      .completed lookup completes
    have callees := alike.functionAt?_callee depth name
    rw [found, Option.map_some, Option.map_eq_some_iff] at callees
    obtain ⟨record, held, _⟩ := callees
    rw [held, ← (effect.unambiguous unambiguous).function?_eq held, function?_complete lookup]
    by_cases same : signature.name = name
    · subst same
      obtain rfl : known = function :=
        Option.some.inj (lookup.symm.trans (unambiguous.function?_eq found))
      rw [if_pos rfl, recordBehind_of_completes List.mem_cons_self completes]
    · have incomplete : ¬(Operation.define signature position).Completes function :=
        fun completes => same (completes.2.1.symm.trans (unambiguous.named found))
      rw [if_neg same, recordBehind_singleton incomplete, unambiguous.function?_eq found]
  | @refused operation fault fails =>
    -- A definition that completes the record would not have been refused.
    have incomplete : ¬operation.Completes function := by
      intro completes
      cases operation with
      | define signature position =>
        have lookup : stack.function? signature.name = some function := by
          rw [← completes.2.1, unambiguous.named found]
          exact unambiguous.function?_eq found
        obtain ⟨changed, succeeds⟩ := (succeeds_iff_completes rfl lookup).mpr completes
        rw [fails] at succeeds
        cases succeeds
      | _ => exact completes
    rwa [recordBehind_singleton incomplete]

/-! Histories. -/

theorem unambiguous_run (unambiguous : Unambiguous stack) (operations : List Operation) :
    Unambiguous (stack.run operations) := by
  induction operations generalizing stack with
  | nil => exact unambiguous
  | cons operation rest ih => exact ih ((effect_after stack operation).unambiguous unambiguous)

theorem functionAt?_run (unambiguous : Unambiguous stack) {operations : List Operation}
    (found : stack.functionAt? depth name = some function)
    (stays : StaysOpen depth stack operations) :
    (stack.run operations).functionAt? depth name = some (recordBehind operations function) := by
  induction operations generalizing stack function with
  | nil => simpa [recordBehind, run] using found
  | cons operation rest ih =>
    have effect := effect_after stack operation
    have step := effect.functionAt?_eq unambiguous found stays.2.begins
    rw [recordBehind_cons]
    exact ih (effect.unambiguous unambiguous) step stays.2

theorem staysOpen_root (stack : ScopeStack) (operations : List Operation) :
    StaysOpen 0 stack operations := by
  induction operations generalizing stack with
  | nil => exact Nat.zero_le _
  | cons operation rest ih => exact ⟨Nat.zero_le _, ih _⟩

theorem functionAt?_initial (depth : Nat) (name : String) :
    initial.functionAt? depth name = if depth = 0 then (Builtin.ofName? name).map .ofBuiltin
      else none := by
  cases depth with
  | zero => exact Function.get?_ofBuiltins Builtin.all name
  | succ depth => rfl

theorem unambiguous_initial : Unambiguous initial where
  named := by
    intro depth name function found
    rw [functionAt?_initial] at found
    split at found
    · obtain ⟨builtin, known, rfl⟩ := Option.map_eq_some_iff.mp found
      unfold Builtin.ofName? at known
      have same := List.find?_some known
      exact of_decide_eq_true same
    · cases found
  alone := by
    intro name inner outer function other found found'
    rw [functionAt?_initial] at found found'
    split at found
    next root =>
      split at found'
      next root' => rw [root, root']
      next => cases found'
    next => cases found

/-- The record of a built-in function stays in the root as it is. -/
theorem function?_builtin (operations : List Operation) (builtin : Builtin) :
    (initial.run operations).function? builtin.name = some (.ofBuiltin builtin) := by
  have begins : initial.functionAt? 0 builtin.name = some (.ofBuiltin builtin) := by
    rw [functionAt?_initial, if_pos rfl, Builtin.ofName?_name, Option.map_some]
  have still : recordBehind operations (.ofBuiltin builtin) = .ofBuiltin builtin := by
    refine if_neg ?_
    rintro ⟨operation, _, completes⟩
    cases operation with
    | define => exact nomatch completes.1
    | _ => exact completes
  have stays := functionAt?_run unambiguous_initial begins (staysOpen_root initial operations)
  rw [still] at stays
  exact (unambiguous_run unambiguous_initial operations).function?_eq stays

/-- What the tables of functions are relied on for, whatever is done to the scopes next. -/
structure KeepsFunctions (stack : ScopeStack) : Prop where
  /-- A name is held by one open scope at most. -/
  alone : ∀ (name : String) (inner outer : Nat) (function other : Function),
    stack.functionAt? inner name = some function → stack.functionAt? outer name = some other →
    inner = outer
  builtin : ∀ builtin : Builtin, stack.function? builtin.name = some (.ofBuiltin builtin)
  /-- A record lasts as long as its scope. Only a definition that completes it changes it, and only
  to defined. -/
  lasting : ∀ (depth : Nat) (name : String) (function : Function) (operations : List Operation),
    stack.functionAt? depth name = some function → StaysOpen depth stack operations →
      (stack.run operations).functionAt? depth name = some (recordBehind operations function)
  new : ∀ (operation : Operation) (function : Function), operation.registers? = some function →
    stack.function? function.signature.name = none →
      (operation.after stack).functionAt? stack.opened.length function.signature.name =
        some function
  /-- Of the functions of a visible name, those that complete its record are registered and no
  others. -/
  visible : ∀ (operation : Operation) (function known : Function),
  operation.registers? = some function →
    stack.function? function.signature.name = some known →
      ((∃ changed, operation.perform stack = .ok changed) ↔ operation.Completes known)
  failing : ∀ (operation : Operation) (fault : Fault), operation.perform stack = .error fault →
    operation.attempt.run stack = (.error fault, stack)

theorem register_of_unknown (registers : operation.registers? = some function)
    (unknown : stack.function? function.signature.name = none) :
    operation.perform stack = .ok (stack.modifyInnermost (Scope.add function)) := by
  cases operation with
  | forward signature position =>
    obtain rfl := Option.some.inj registers
    simp only [Operation.perform, register, unknown]
  | define signature position =>
    obtain rfl := Option.some.inj registers
    simp only [Operation.perform, register, unknown]
  | _ => cases registers

theorem keepsFunctions_run (operations : List Operation) :
    KeepsFunctions (initial.run operations) where
  alone := fun _ _ _ _ _ found found' =>
    (unambiguous_run unambiguous_initial operations).alone found found'
  builtin := function?_builtin operations
  lasting := fun _ _ _ _ found stays => functionAt?_run
    (unambiguous_run unambiguous_initial operations) found stays
  new := by
    intro operation function registers unknown
    rw [Operation.after_of_perform (register_of_unknown registers unknown), functionAt?_add,
      if_pos ⟨rfl, rfl⟩]
  visible := fun _ _ _ registers lookup => succeeds_iff_completes registers lookup
  failing := by
    intro operation fault fails
    rw [Operation.attempt_eq, fails]

end ColonScript.ScopeStack
