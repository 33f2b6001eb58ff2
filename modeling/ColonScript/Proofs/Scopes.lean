import Mathlib.Data.List.Forall2
import ColonScript.Scope

/-! Looking names up in the scopes, before and after a change. The innermost scope may change in any
way; of those around it only the stage of a function can, which no look-up of a callee sees. -/

namespace ColonScript

structure Callee where
  signature : Signature
  builtin? : Option Builtin
  deriving DecidableEq, Repr

def Function.callee (function : Function) : Callee := ⟨function.signature, function.builtin?⟩

theorem Function.get?_ofBuiltins (builtins : List Builtin) (name : String) :
    Table.get? (builtins.map fun builtin => (builtin.name, Function.ofBuiltin builtin)) name =
      (builtins.find? fun builtin => builtin.name = name).map Function.ofBuiltin := by
  induction builtins with
  | nil => rfl
  | cons builtin rest ih =>
    simp only [List.map_cons, Table.get?, List.find?_cons]
    by_cases same : builtin.name = name
    · simp [same]
    · simp [same, ih]

/-- An entry of a table of functions and what it may become: itself, or a declared function the same
function defined. -/
inductive Function.Becomes : String × Function → String × Function → Prop where
  | same (entry : String × Function) : Becomes entry entry
  | completed {name : String} {function : Function} (declared : function.stage = .declared) :
    Becomes (name, function) (name, { function with stage := .defined })

namespace Function.Becomes
variable {a b c : String × Function}

theorem trans (first : Becomes a b) (second : Becomes b c) : Becomes a c := by
  cases first with
  | same => exact second
  | completed declared =>
    cases second with
    | same => exact .completed declared
    | completed defined => cases defined

theorem key (becomes : Becomes a b) : b.1 = a.1 := by cases becomes <;> rfl

theorem callee (becomes : Becomes a b) : b.2.callee = a.2.callee := by
  cases becomes with
  | same => rfl
  | completed declared =>
    simp only [Function.callee, Function.builtin?, declared]

end Function.Becomes

abbrev Table.Becomes (a b : Table Function) : Prop := List.Forall₂ Function.Becomes a b

namespace Table.Becomes
variable {a b c : Table Function}

theorem refl (table : Table Function) : Becomes table table :=
  List.forall₂_same.mpr fun entry _ => .same entry

theorem trans (first : Becomes a b) (second : Becomes b c) : Becomes a c := by
  induction first generalizing c with
  | nil => exact second
  | cons becomes _ ih =>
    cases second with
    | cons becomes' rest => exact .cons (becomes.trans becomes') (ih rest)

theorem callees (becomes : Becomes a b) (name : String) :
    (b.get? name).map Function.callee = (a.get? name).map Function.callee := by
  induction becomes with
  | nil => rfl
  | @cons x y _ _ becomes _ ih =>
    simp only [Table.get?, becomes.key]
    split
    next => simp only [Option.map_some, becomes.callee]
    next => exact ih

theorem put {name : String} {function : Function} (found : a.get? name = some function)
    (declared : function.stage = .declared) :
    Becomes a (a.put name { function with stage := .defined }) := by
  induction a with
  | nil => cases found
  | cons entry rest ih =>
    obtain ⟨key, old⟩ := entry
    unfold Table.put
    by_cases same : key = name
    · obtain rfl : old = function := by simpa [Table.get?, same] using found
      rw [if_pos same]
      exact .cons (.completed declared) (refl rest)
    · rw [if_neg same]
      exact .cons (.same _) (ih (by simpa [Table.get?, same] using found))

end Table.Becomes

namespace Scope

structure Alike (a b : Scope) : Prop where
  bindings : a.bindings = b.bindings
  functions : a.functions.Becomes b.functions

theorem Alike.refl (scope : Scope) : Alike scope scope := ⟨rfl, .refl _⟩

theorem Alike.trans {a b c : Scope} (first : Alike a b) (second : Alike b c) : Alike a c :=
  ⟨first.bindings.trans second.bindings, first.functions.trans second.functions⟩

theorem Alike.callees {a b : Scope} (alike : Alike a b) (name : String) :
    (a.functions.get? name).map Function.callee = (b.functions.get? name).map Function.callee :=
  (alike.functions.callees name).symm

end Scope

namespace ScopeStack
variable {a b c stack : ScopeStack}

def Alike (a b : ScopeStack) : Prop := List.Forall₂ Scope.Alike a.toList b.toList

theorem forall₂_alike_refl (scopes : List Scope) : List.Forall₂ Scope.Alike scopes scopes := by
  induction scopes with
  | nil => exact .nil
  | cons scope scopes ih => exact .cons (.refl scope) ih

theorem Alike.refl (stack : ScopeStack) : Alike stack stack := forall₂_alike_refl _

/-- As many scopes as before, and all but the innermost are alike. -/
structure Grown (a b : ScopeStack) : Prop where
  depth : b.opened.length = a.opened.length
  outer : List.Forall₂ Scope.Alike a.toList.tail b.toList.tail

theorem Grown.refl (stack : ScopeStack) : Grown stack stack := ⟨rfl, forall₂_alike_refl _⟩

theorem forall₂_alike_trans {xs ys zs : List Scope} (first : List.Forall₂ Scope.Alike xs ys)
    (second : List.Forall₂ Scope.Alike ys zs) : List.Forall₂ Scope.Alike xs zs := by
  induction first generalizing zs with
  | nil => exact second
  | cons alike _ ih =>
    cases second with
    | cons alike' rest => exact .cons (alike.trans alike') (ih rest)

theorem Alike.trans (first : Alike a b) (second : Alike b c) : Alike a c :=
  forall₂_alike_trans first second

theorem Grown.trans (first : Grown a b) (second : Grown b c) : Grown a c :=
  ⟨second.depth.trans first.depth, forall₂_alike_trans first.outer second.outer⟩

theorem Alike.grown (alike : Alike a b) : Grown a b := by
  have lengths := alike.length_eq
  simp only [toList, List.length_append, List.length_singleton] at lengths
  refine ⟨by omega, ?_⟩
  unfold Alike at alike
  cases first : a.toList with
  | nil => simp [toList] at first
  | cons scope scopes =>
    cases second : b.toList with
    | nil => simp [toList] at second
    | cons scope' scopes' =>
      rw [first, second] at alike
      exact (List.forall₂_cons.mp alike).2

theorem toList_push (stack : ScopeStack) : stack.push.toList = .empty :: stack.toList := rfl

/-- A scope that was opened and filled is gone when it is taken away again. -/
theorem Grown.alike_pop (grown : Grown a.push b) : Alike a b.pop := by
  have outer := grown.outer
  rw [toList_push, List.tail_cons] at outer
  cases opened : b.opened with
  | nil =>
    have depth := grown.depth
    simp [opened, push] at depth
  | cons scope rest => simpa [Alike, toList, pop, opened] using outer

theorem toList_eq_cons (stack : ScopeStack) :
    stack.toList = stack.innermost :: stack.toList.tail := by
  unfold toList innermost
  cases stack.opened <;> rfl

theorem toList_modifyInnermost (stack : ScopeStack) (f : Scope → Scope) :
    (stack.modifyInnermost f).toList = f stack.innermost :: stack.toList.tail := by
  unfold toList modifyInnermost innermost
  cases stack.opened <;> rfl

theorem grown_modifyInnermost (stack : ScopeStack) (f : Scope → Scope) :
    Grown stack (stack.modifyInnermost f) := by
  constructor
  · unfold modifyInnermost
    cases stack.opened <;> simp
  · rw [toList_modifyInnermost, List.tail_cons]
    exact forall₂_alike_refl _

/-! Look-ups. -/

theorem Alike.binding?_eq (alike : Alike a b) (name : String) :
    b.binding? name = a.binding? name := by
  unfold Alike at alike
  unfold binding?
  generalize a.toList = xs at alike ⊢
  generalize b.toList = ys at alike ⊢
  induction alike with
  | nil => rfl
  | cons same _ ih => simp only [List.findSome?_cons, same.bindings, ih]

def callee? (stack : ScopeStack) (name : String) : Option Callee :=
  (stack.function? name).map Function.callee

theorem Alike.callee?_eq (alike : Alike a b) (name : String) : b.callee? name = a.callee? name := by
  unfold Alike at alike
  unfold callee? function?
  generalize a.toList = xs at alike ⊢
  generalize b.toList = ys at alike ⊢
  induction alike with
  | nil => rfl
  | @cons x y _ _ same _ ih =>
    have callees := same.callees name
    simp only [List.findSome?_cons]
    cases first : x.functions.get? name <;> cases second : y.functions.get? name <;> simp_all

theorem modifyInnermost_bind_binding? (stack : ScopeStack) (binding : Binding) (name : String) :
    (stack.modifyInnermost (Scope.bind binding)).binding? name =
      if binding.name = name then some binding else stack.binding? name := by
  unfold binding?
  rw [toList_modifyInnermost, toList_eq_cons stack]
  simp only [List.findSome?_cons, List.tail_cons, Scope.bind, Table.get?_put]
  by_cases same : binding.name = name
  · simp [same]
  · simp [same]

theorem modifyInnermost_bind_callee? (stack : ScopeStack) (binding : Binding) (name : String) :
    (stack.modifyInnermost (Scope.bind binding)).callee? name = stack.callee? name := by
  unfold callee? function?
  rw [toList_modifyInnermost, toList_eq_cons stack]
  rfl

theorem modifyInnermost_add_binding? (stack : ScopeStack) (function : Function) (name : String) :
    (stack.modifyInnermost (Scope.add function)).binding? name = stack.binding? name := by
  unfold binding?
  rw [toList_modifyInnermost, toList_eq_cons stack]
  rfl

theorem modifyInnermost_add_function? (stack : ScopeStack) (function : Function) (name : String) :
    (stack.modifyInnermost (Scope.add function)).function? name =
      if function.signature.name = name then some function else stack.function? name := by
  unfold function?
  rw [toList_modifyInnermost, toList_eq_cons stack]
  simp only [List.findSome?_cons, List.tail_cons, Scope.add, Table.get?_put]
  by_cases same : function.signature.name = name
  · simp [same]
  · simp [same]

theorem modifyInnermost_add_callee? (stack : ScopeStack) (function : Function) (name : String) :
    (stack.modifyInnermost (Scope.add function)).callee? name =
      if function.signature.name = name then some function.callee else stack.callee? name := by
  unfold callee?
  rw [modifyInnermost_add_function?]
  split <;> rfl

/-! What declaring and registering change. -/

theorem eq_of_declare {binding : Binding} {position : Position}
    (declares : stack.declare binding position = .ok b) :
    b = stack.modifyInnermost (Scope.bind binding) := by
  unfold declare at declares
  cases known : stack.binding? binding.name with
  | none =>
    rw [known] at declares
    exact (Except.ok.inj declares).symm
  | some old =>
    simp only [known] at declares
    split at declares
    · cases declares
    · split at declares
      · exact (Except.ok.inj declares).symm
      · cases declares

theorem eq_of_declareParameter {parameter : Parameter} {position : Position}
    (declares : stack.declareParameter parameter position = .ok b) :
    b = stack.modifyInnermost (Scope.bind ⟨parameter.name, false, parameter.type⟩) := by
  unfold declareParameter at declares
  cases known : stack.innermost.bindings.get? parameter.name with
  | none =>
    simp only [known] at declares
    exact (Except.ok.inj declares).symm
  | some old =>
    simp only [known] at declares
    split at declares
    · exact (Except.ok.inj declares).symm
    · cases declares

/-- Completing a function that is declared leaves its scope alike. -/
theorem alike_of_complete? {scope completed : Scope} {name : String} {known : Function}
    (found : scope.functions.get? name = some known) (declared : known.stage = .declared)
    (completes : scope.complete? name = some completed) : Scope.Alike scope completed := by
  simp only [Scope.complete?, found, Option.map_some, Option.some.injEq] at completes
  subst completes
  exact ⟨rfl, .put found declared⟩

theorem alike_of_completeAmong? {scopes completed : List Scope} {name : String} {known : Function}
    (found : scopes.findSome? (fun scope => scope.functions.get? name) = some known)
    (declared : known.stage = .declared)
    (completes : completeAmong? name scopes = some completed) :
    List.Forall₂ Scope.Alike scopes completed := by
  induction scopes generalizing completed with
  | nil => cases completes
  | cons scope rest ih =>
    simp only [completeAmong?] at completes
    cases own : scope.functions.get? name with
    | some function =>
      obtain rfl : function = known := by simpa [own] using found
      obtain ⟨completed', completes'⟩ : ∃ completed', scope.complete? name = some completed' := by
        simp [Scope.complete?, own]
      simp only [completes', Option.some.injEq] at completes
      subst completes
      exact .cons (alike_of_complete? own declared completes') (forall₂_alike_refl _)
    | none =>
      have later : scope.complete? name = none := by simp [Scope.complete?, own]
      simp only [later, Option.map_eq_some_iff] at completes
      obtain ⟨rest', completes, rfl⟩ := completes
      exact .cons (.refl scope) (ih (by simpa [own] using found) completes)

theorem completeAmong?_eq_none {scopes : List Scope} {name : String}
    (none : completeAmong? name scopes = none) :
    scopes.findSome? (fun scope => scope.functions.get? name) = Option.none := by
  induction scopes with
  | nil => rfl
  | cons scope rest ih =>
    simp only [completeAmong?] at none
    cases own : scope.functions.get? name with
    | some function => simp [Scope.complete?, own] at none
    | none =>
      have later : scope.complete? name = Option.none := by simp [Scope.complete?, own]
      simp only [later, Option.map_eq_none_iff] at none
      simp [own, ih none]

theorem findSome?_of_completeAmong? {scopes completed : List Scope} {name : String}
    (completes : completeAmong? name scopes = some completed) :
    ∃ function, scopes.findSome? (fun scope => scope.functions.get? name) = some function := by
  induction scopes generalizing completed with
  | nil => cases completes
  | cons scope rest ih =>
    cases own : scope.functions.get? name with
    | some function => exact ⟨function, by simp [own]⟩
    | none =>
      have later : scope.complete? name = Option.none := by simp [Scope.complete?, own]
      simp only [completeAmong?, later, Option.map_eq_some_iff] at completes
      obtain ⟨rest', completes, _⟩ := completes
      simpa [own] using ih completes

theorem alike_complete {name : String} {known : Function}
    (found : stack.function? name = some known) (declared : known.stage = .declared) :
    Alike stack (stack.complete name) := by
  unfold complete
  simp only [function?, toList, List.findSome?_append] at found
  cases inner : completeAmong? name stack.opened with
  | some opened =>
    obtain ⟨function, first⟩ := findSome?_of_completeAmong? inner
    obtain rfl : function = known := by simpa [first] using found
    exact List.rel_append (alike_of_completeAmong? first declared inner) (forall₂_alike_refl _)
  | none =>
    have own : stack.root.functions.get? name = some known := by
      simpa [completeAmong?_eq_none inner] using found
    refine List.rel_append (forall₂_alike_refl _) (.cons ?_ .nil)
    cases completes : stack.root.complete? name with
    | none => exact .refl _
    | some root => exact alike_of_complete? own declared completes

/-- Among the scopes, completing a function changes its stage and nothing else that a look-up
finds. -/
theorem findSome?_completeAmong? {scopes completed : List Scope} {name other : String}
    {known : Function}
    (found : scopes.findSome? (fun scope => scope.functions.get? name) = some known)
    (completes : completeAmong? name scopes = some completed) :
    completed.findSome? (fun scope => scope.functions.get? other) =
      if name = other then some { known with stage := .defined }
      else scopes.findSome? fun scope => scope.functions.get? other := by
  induction scopes generalizing completed with
  | nil => cases completes
  | cons scope rest ih =>
    simp only [completeAmong?, Scope.complete?] at completes
    cases own : scope.functions.get? name with
    | some function =>
      obtain rfl : function = known := by simpa [own] using found
      simp only [own, Option.map_some, Option.some.injEq] at completes
      subst completes
      simp only [List.findSome?_cons, Table.get?_put]
      by_cases same : name = other
      · simp [same]
      · simp [same]
    | none =>
      simp only [own, Option.map_none, Option.map_eq_some_iff] at completes
      obtain ⟨rest', completes, rfl⟩ := completes
      simp only [List.findSome?_cons, ih (by simpa [own] using found) completes]
      by_cases same : name = other
      · subst same
        simp [own]
      · simp [same]

theorem function?_complete {name : String} {known : Function}
    (found : stack.function? name = some known) (other : String) :
    (stack.complete name).function? other =
      if name = other then some { known with stage := .defined } else stack.function? other := by
  unfold complete
  simp only [function?, toList, List.findSome?_append] at found ⊢
  cases inner : completeAmong? name stack.opened with
  | some opened =>
    obtain ⟨function, first⟩ := findSome?_of_completeAmong? inner
    obtain rfl : function = known := by simpa [first] using found
    rw [findSome?_completeAmong? first inner]
    split
    next => rfl
    next => rfl
  | none =>
    have outer := completeAmong?_eq_none inner
    have own : stack.root.functions.get? name = some known := by simpa [outer] using found
    have completes : stack.root.complete? name = some { stack.root with
        functions := stack.root.functions.put name { known with stage := .defined } } := by
      simp only [Scope.complete?, own, Option.map_some]
    simp only [completes, Option.getD_some, List.findSome?_cons, Table.get?_put]
    by_cases same : name = other
    · subst same
      simp [outer]
    · simp [same]

/-- What registering a function comes to: a new name in the innermost scope, or only another
stage. -/
theorem register_cases {function : Function} {position : Position}
    (registers : stack.register function position = .ok b) :
    (stack.function? function.signature.name = none ∧
      b = stack.modifyInnermost (Scope.add function)) ∨
        ∃ known, stack.function? function.signature.name = some known ∧ known.stage = .declared ∧
        function.stage = .defined ∧ known.signature.Completes function.signature ∧
        b = stack.complete function.signature.name := by
  unfold register at registers
  cases found : stack.function? function.signature.name with
  | none =>
    simp only [found] at registers
    exact .inl ⟨rfl, (Except.ok.inj registers).symm⟩
  | some known =>
    simp only [found] at registers
    cases stage : known.stage <;> cases stage' : function.stage <;>
      simp only [stage, stage', reduceCtorEq] at registers
    split at registers
    · exact .inr ⟨known, rfl, stage, rfl, ‹_›, (Except.ok.inj registers).symm⟩
    · cases registers

theorem grown_register {function : Function} {position : Position}
    (registers : stack.register function position = .ok b) :
    Grown stack b := by
  obtain ⟨_, rfl⟩ | ⟨known, found, declared, _, _, rfl⟩ := register_cases registers
  · exact grown_modifyInnermost _ _
  · exact (alike_complete found declared).grown

end ScopeStack

end ColonScript
