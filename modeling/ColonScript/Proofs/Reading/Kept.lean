import ColonScript.Proofs.Reading.Everywhere
import ColonScript.Proofs.Rules

/-! What stays true of the state while a script is read: the pool is faithful, every type token
ahead names a base type, and every type that a name in scope was declared with is a written one. -/

namespace ColonScript

structure Signature.Written (signature : Signature) : Prop where
  parameters : ∀ parameter ∈ signature.parameters, parameter.type.Written
  results : ∀ type ∈ signature.results, type.Written

structure Scope.Written (scope : Scope) : Prop where
  bindings : ∀ name binding, scope.bindings.get? name = some binding → binding.type.Written
  functions : ∀ name function, scope.functions.get? name = some function →
    function.signature.Written

def ScopeStack.Written (stack : ScopeStack) : Prop := ∀ scope ∈ stack.toList, scope.Written

theorem Scope.written_empty : Scope.empty.Written :=
  ⟨fun _ _ found => (by cases found), fun _ _ found => (by cases found)⟩

theorem Scope.Written.bind {scope : Scope} {binding : Binding} (written : scope.Written)
    (type : binding.type.Written) :
    (scope.bind binding).Written := by
  refine ⟨?_, written.functions⟩
  intro name found known
  simp only [Scope.bind, Table.get?_put] at known
  split at known
  next => exact Option.some.inj known ▸ type
  next => exact written.bindings name found known

theorem Scope.Written.add {scope : Scope} {function : Function} (written : scope.Written)
    (signature : function.signature.Written) : (scope.add function).Written := by
  refine ⟨written.bindings, ?_⟩
  intro name found known
  simp only [Scope.add, Table.get?_put] at known
  split at known
  next => exact Option.some.inj known ▸ signature
  next => exact written.functions name found known

theorem Scope.Written.alike {scope other : Scope} (written : scope.Written)
    (alike : Scope.Alike scope other) :
    other.Written := by
  refine ⟨?_, ?_⟩
  · rw [← alike.bindings]
    exact written.bindings
  · intro name found known
    have callees := alike.callees name
    rw [known] at callees
    cases own : scope.functions.get? name with
    | none =>
      rw [own] at callees
      cases callees
    | some function =>
      rw [own] at callees
      have signature : function.signature = found.signature :=
        congrArg Callee.signature (Option.some.inj callees)
      rw [← signature]
      exact written.functions name function own

namespace ScopeStack.Written
variable {stack other : ScopeStack}

theorem push (written : stack.Written) : stack.push.Written := by
  intro scope member
  rw [toList_push] at member
  rcases List.mem_cons.mp member with rfl | inside
  · exact Scope.written_empty
  · exact written scope inside

theorem pop (written : stack.Written) : stack.pop.Written := by
  intro scope member
  refine written scope ?_
  simp only [toList, ScopeStack.pop, List.mem_append, List.mem_singleton] at member ⊢
  rcases member with inside | rfl
  · exact .inl (List.mem_of_mem_tail inside)
  · exact .inr rfl

theorem alike (written : stack.Written) (alike : Alike stack other) : other.Written := by
  have both : ∀ {xs ys : List Scope}, List.Forall₂ Scope.Alike xs ys →
    (∀ scope ∈ xs, scope.Written) →
      ∀ scope ∈ ys, scope.Written := by
    intro xs ys alike
    induction alike with
    | nil => exact fun all => all
    | cons same _ ih =>
      intro all scope member
      rcases List.mem_cons.mp member with rfl | inside
      · exact (all _ List.mem_cons_self).alike same
      · exact ih (fun scope member => all scope (List.mem_cons_of_mem _ member)) scope inside
  exact both alike written

theorem modifyInnermost (written : stack.Written) {f : Scope → Scope}
    (keeps : ∀ scope : Scope, scope.Written → (f scope).Written) :
    (stack.modifyInnermost f).Written := by
  intro scope member
  rw [toList_modifyInnermost] at member
  have inside := toList_eq_cons stack
  rcases List.mem_cons.mp member with rfl | later
  · refine keeps _ (written _ ?_)
    rw [inside]
    exact List.mem_cons_self
  · exact written _ (List.mem_of_mem_tail later)

theorem declare (written : stack.Written) {binding : Binding} {position : Position}
    (type : binding.type.Written) (declares : stack.declare binding position = .ok other) :
    other.Written := by
  rw [eq_of_declare declares]
  exact written.modifyInnermost fun _ scope => scope.bind type

theorem register (written : stack.Written) {function : Function} {position : Position}
    (signature : function.signature.Written)
    (registers : stack.register function position = .ok other) :
    other.Written := by
  obtain ⟨_, rfl⟩ | ⟨known, found, declared, _, _, rfl⟩ := register_cases registers
  · exact written.modifyInnermost fun _ scope => scope.add signature
  · exact written.alike (alike_complete found declared)

theorem binding (written : stack.Written) {name : String} {binding : Binding}
    (known : stack.binding? name = some binding) :
    binding.type.Written := by
  obtain ⟨scope, member, found⟩ := List.exists_of_findSome?_eq_some known
  exact (written scope member).bindings name binding found

theorem function (written : stack.Written) {name : String} {function : Function}
    (known : stack.function? name = some function) : function.signature.Written := by
  obtain ⟨scope, member, found⟩ := List.exists_of_findSome?_eq_some known
  exact (written scope member).functions name function found

end ScopeStack.Written

namespace Reading
open Token (Kind)

variable {s s' : Session}

/-- The state holds nothing that a script cannot have written. -/
structure Kept (s : Session) : Prop where
  pool : s.pool.Faithful
  lexed : ∀ token ∈ s.ahead, token.kind = .type → token.value ∈ Ty.baseNames
  scopes : s.scopes.Written
  function : ∀ signature, s.place.function = some signature → signature.Written

namespace Kept

theorem onward (kept : Kept s) (onward : Onward s s') (pool : s'.pool.Faithful) : Kept s' := by
  refine ⟨pool, ?_, ?_, ?_⟩
  · obtain ⟨tokens, ahead, _⟩ := onward.passed
    intro token member
    refine kept.lexed token ?_
    rw [ahead]
    exact List.mem_append_right _ member
  · rw [onward.scopes]
    exact kept.scopes
  · rw [onward.place]
    exact kept.function

theorem withPool (kept : Kept s) {pool : Ty.Pool} (faithful : pool.Faithful) :
    Kept (s.withPool pool) :=
  ⟨faithful, kept.lexed, kept.scopes, kept.function⟩

theorem withScopes (kept : Kept s) {scopes : ScopeStack} (written : scopes.Written) :
    Kept (s.withScopes scopes) :=
  ⟨kept.pool, kept.lexed, written, kept.function⟩

theorem next (kept : Kept s) : Kept s.next :=
  ⟨kept.pool, fun token member => kept.lexed token (List.mem_of_mem_tail member),
    kept.scopes, kept.function⟩

theorem push (kept : Kept s) : Kept s.push := kept.withScopes kept.scopes.push

theorem looping (kept : Kept s) : Kept (s.withPlace s.place.looping) :=
  ⟨kept.pool, kept.lexed, kept.scopes, kept.function⟩

theorem leave {inner : Session} (kept : Kept s) (inside : Kept inner) :
    Kept (inner.pop.withPlace s.place) :=
  ⟨inside.pool, inside.lexed, inside.scopes.pop, kept.function⟩

/-- A type token that is current names a base type. -/
theorem baseName (kept : Kept s) (kind : s.kind = .type) : s.current.value ∈ Ty.baseNames := by
  have ahead := ahead_of_kind (s := s) (by simp [kind])
  refine kept.lexed s.current ?_ kind
  rw [ahead]
  exact List.mem_cons_self

end Kept

/-- What the reading of an expression relies on: the pool is faithful, and the names in scope have
written types. -/
structure Grounded (s : Session) : Prop where
  pool : s.pool.Faithful
  scopes : s.scopes.Written

theorem Kept.grounded (kept : Kept s) : Grounded s := ⟨kept.pool, kept.scopes⟩

namespace Grounded

theorem withPool (grounded : Grounded s) {pool : Ty.Pool} (faithful : pool.Faithful) :
    Grounded (s.withPool pool) :=
  ⟨faithful, grounded.scopes⟩

theorem next (grounded : Grounded s) : Grounded s.next := ⟨grounded.pool, grounded.scopes⟩

theorem separated {first : Bool} (grounded : Grounded s)
    (separated : Session.Separated first s s') : Grounded s' :=
  keeps_separated (fun _ => next) separated grounded

end Grounded

/-! Written types. -/

def TypePhrase.Written (s' : Session) : TypePhrase → Prop
  | .whole _ type => type.Written ∧ s'.pool.Faithful
  | .suffix _ before type => before.Written → type.Written ∧ s'.pool.Faithful

theorem written_array {element : Ty} (written : element.Written) : (Ty.array 0 element).Written :=
  ⟨⟨rfl, written.proper⟩, written.settled⟩

theorem written_map {key value : Ty} (keys : key.Written) (values : value.Written) :
    (Ty.map 0 key value).Written := by
  refine ⟨⟨rfl, keys.proper, values.proper⟩, ?_⟩
  rw [Ty.settled, keys.settled, values.settled]
  rfl

theorem written_of_readsType {phrase : TypePhrase} (reads : ReadsType s phrase s') (kept : Kept s) :
    phrase.Written s' := by
  induction reads with
  | whole _ kind _ rest =>
    obtain ⟨result, faithful⟩ := Ty.Pool.base_eq kept.pool (kept.baseName kind)
    refine rest (kept.next.withPool faithful) ?_
    rw [result]
    exact Ty.written_named (kept.baseName kind)
  | stop =>
    intro before
    exact ⟨before, kept.pool⟩
  | array _ _ _ _ _ rest =>
    intro before
    obtain ⟨result, faithful⟩ := Ty.Pool.array_eq kept.pool before.proper
    refine rest (kept.next.next.withPool faithful) ?_
    rw [result]
    exact written_array before
  | map _ _ _ _ innerReads _ _ inner rest =>
    intro before
    obtain ⟨value, between⟩ := inner kept.next
    have kept' := kept.next.onward innerReads.onward between
    obtain ⟨result, faithful⟩ := Ty.Pool.map_eq between before.proper value.proper
    refine rest (kept'.next.withPool faithful) ?_
    rw [result]
    exact written_map before value

theorem kept_of_writtenType {type : Ty} {power : Power} (reads : ReadsType s (.whole power type) s')
    (kept : Kept s) :
    type.Written ∧ Kept s' := by
  obtain ⟨written, faithful⟩ := written_of_readsType reads kept
  exact ⟨written, kept.onward reads.onward faithful⟩

theorem kept_of_head {found : Head} (run : head s = .ok found s') (kept : Kept s) :
    found.type.Written ∧ Kept s' := by
  obtain ⟨_, _, type, reads, rfl⟩ := ok_head.mp run
  exact kept_of_writtenType reads kept.next.next.next

theorem kept_of_parameter ⦃s : Session⦄ ⦃found : Parameter⦄ ⦃s' : Session⦄
    (run : parameter s = .ok found s') (kept : Kept s) : found.type.Written ∧ Kept s' := by
  obtain ⟨_, _, type, reads, rfl⟩ := ok_parameter.mp run
  exact kept_of_writtenType reads kept.next.next

theorem kept_of_parameters {found : List Parameter} (run : parameters s = .ok found s')
    (kept : Kept s) :
    (∀ parameter ∈ found, parameter.type.Written) ∧ Kept s' := by
  obtain ⟨_, s₁, list, _, rfl⟩ := ok_parameters.mp run
  obtain ⟨written, after⟩ := list.each (I := Kept) (fun _ => Kept.next) kept_of_parameter kept.next
  exact ⟨written, after.next⟩

theorem kept_of_resultTypes {types : List Ty} (run : resultTypes s = .ok types s') (kept : Kept s) :
    (∀ type ∈ types, type.Written) ∧ Kept s' := by
  obtain ⟨_, _, s₁, list, _, rfl⟩ | ⟨_, rfl, rfl⟩ := ok_resultTypes.mp run
  · obtain ⟨written, after⟩ :=
      each_of_separated (I := Kept) (advances_writtenType .lowest) (fun _ => Kept.next)
      (fun _ _ _ read => kept_of_writtenType (ok_writtenType.mp read)) list kept.next.next
    exact ⟨written, after.next⟩
  · exact ⟨by simp, kept⟩

theorem kept_of_heads {signature : Signature} (heads : Heads s signature s') (kept : Kept s) :
    signature.Written ∧ Kept s' := by
  obtain ⟨_, _, _, read, results⟩ := heads
  obtain ⟨parameters, between⟩ := kept_of_parameters read kept.next.next.next
  obtain ⟨types, after⟩ := kept_of_resultTypes results between
  exact ⟨⟨parameters, types⟩, after⟩

theorem written_of_declareParameters {scopes inner : ScopeStack} {found : List Parameter}
    {position : Position} (declares : DeclaresParameters position scopes found inner)
    (written : scopes.Written)
    (types : ∀ parameter ∈ found, parameter.type.Written) : inner.Written := by
  induction declares with
  | nil => exact written
  | @cons _ _ _ parameter rest declares _ ih =>
    refine ih ?_ fun parameter member => types parameter (List.mem_cons_of_mem _ member)
    rw [ScopeStack.eq_of_declareParameter declares]
    exact written.modifyInnermost fun _ scope => scope.bind (types parameter List.mem_cons_self)

theorem written_of_declareAll {scopes inner : ScopeStack} {receivers : List Receiver}
    (declares : DeclaresAll scopes receivers inner) (written : scopes.Written)
    (types : ∀ receiver ∈ receivers, receiver.type.Written) : inner.Written := by
  induction declares with
  | nil => exact written
  | @declared _ _ _ found rest declares _ ih =>
    refine ih ?_ fun receiver member => types receiver (List.mem_cons_of_mem _ member)
    exact written.declare (types (.declared found) List.mem_cons_self) declares
  | existing _ ih =>
    exact ih written fun receiver member => types receiver (List.mem_cons_of_mem _ member)

end Reading

end ColonScript
