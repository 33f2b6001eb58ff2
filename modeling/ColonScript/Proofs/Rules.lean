import ColonScript.Builtin.Typing
import ColonScript.Proofs.Agreement

/-! The rules of typing in any pool. Between proper types a rule gives the same answer in every
faithful pool, so that what it gives in the empty one says all there is to say. -/

namespace ColonScript

namespace Typing
open Ty

variable {α β : Type} {rule : Typing α} {good : α → Prop}

/-- A rule that first joins two types. -/
theorem run_join_bind (a b : Ty) (f : Option Ty → Typing α) (pool : Pool) :
    (Typing.join a b >>= f) pool = f (pool.join a b).1 (pool.join a b).2 := rfl

/-- A rule that goes on from an answer. -/
theorem run_answered_bind {a : α} {f : α → Typing β} {pool between : Pool}
    (answered : rule pool = .ok a between) :
    (rule >>= f) pool = f a between := by
  change EStateM.bind rule f pool = _
  unfold EStateM.bind
  rw [answered]

/-- A rule that goes on with the answer of another. -/
theorem ok_of_bind {f : α → Typing β} {pool after : Pool} {b : β}
    (run : (rule >>= f) pool = .ok b after) :
    ∃ a between, rule pool = .ok a between ∧ f a between = .ok b after := by
  change EStateM.bind rule f pool = _ at run
  unfold EStateM.bind at run
  split at run
  next a between answered => exact ⟨a, between, answered, run⟩
  next => cases run

def Gives (rule : Typing α) (a : α) : Prop := ∃ pool, rule .empty = .ok a pool

/-- The rule does not depend on the pool, keeps it faithful, and gives good answers only. -/
def Steady (good : α → Prop) (rule : Typing α) : Prop :=
  ∀ ⦃pool other a pool'⦄, Pool.Faithful pool → Pool.Faithful other → rule pool = .ok a pool' →
    good a ∧ pool'.Faithful ∧ ∃ other', rule other = .ok a other' ∧ other'.Faithful

namespace Steady

theorem pure {a : α} (holds : good a) : Steady good (pure a) := by
  intro pool other a' pool' faithful faithful' run
  cases run
  exact ⟨holds, faithful, other, rfl, faithful'⟩

theorem throw {cause : Cause} : Steady good (throw cause) := by
  intro pool other a pool' _ _ run
  cases run

theorem bind {good' : β → Prop} {f : α → Typing β} (first : Steady good rule)
    (next : ∀ a, good a → Steady good' (f a)) : Steady good' (rule >>= f) := by
  intro pool other b pool' faithful faithful' run
  obtain ⟨a, between, answered, run⟩ := ok_of_bind run
  obtain ⟨holds, kept, other₁, answered', kept'⟩ := first faithful faithful' answered
  obtain ⟨holds', kept, other₂, run', kept'⟩ := next a holds kept kept' run
  exact ⟨holds', kept, other₂, (run_answered_bind answered').trans run', kept'⟩

theorem ite {c : Prop} [Decidable c] {other : Typing α} (yes : c → Steady good rule)
    (no : ¬c → Steady good other) :
    Steady good (if c then rule else other) := by
  split
  next holds => exact yes holds
  next fails => exact no fails

theorem mono {good' : α → Prop} (steady : Steady good rule) (implies : ∀ a, good a → good' a) :
    Steady good' rule := by
  intro pool other a pool' faithful faithful' run
  obtain ⟨holds, rest⟩ := steady faithful faithful' run
  exact ⟨implies a holds, rest⟩

/-- A rule that asks the pool once. -/
theorem modifyGet {f : Pool → α × Pool} {answer : α}
    (asks : ∀ pool, Pool.Faithful pool → (f pool).1 = answer ∧ (f pool).2.Faithful)
    (holds : good answer) : Steady good (modifyGet f : Typing α) := by
  intro pool other a pool' faithful faithful' run
  obtain ⟨here, kept⟩ := asks pool faithful
  obtain ⟨there, kept'⟩ := asks other faithful'
  have same : EStateM.Result.ok (f pool).1 (f pool).2 =
    (EStateM.Result.ok a pool' : EStateM.Result Cause Pool α) := run
  cases same
  refine ⟨here ▸ holds, kept, (f other).2, ?_, kept'⟩
  show EStateM.Result.ok (f other).1 (f other).2 = _
  rw [here, there]

theorem base {name : String} (member : name ∈ baseNames) :
    Steady (· = named name) (Typing.base name) :=
  modifyGet (fun _ faithful => Pool.base_eq faithful member) rfl

theorem array {element : Ty} (proper : element.Proper) :
    Steady (· = .array 0 element) (Typing.array element) :=
  modifyGet (fun _ faithful => Pool.array_eq faithful proper) rfl

theorem join {a b : Ty} (left : a.Proper) (right : b.Proper) :
    Steady (· = common? a b) (Typing.join a b) :=
  modifyGet (fun _ faithful => Pool.join_eq faithful left right) rfl

theorem agree {a b : Ty} (left : a.Proper) (right : b.Proper) :
    Steady (· = a.compatible b) (Typing.agree a b) := by
  refine modifyGet (fun pool faithful => ?_) rfl
  obtain ⟨joined, kept⟩ := Pool.join_eq faithful left right
  refine ⟨?_, kept⟩
  show (pool.join a b).1.isSome = a.compatible b
  rw [joined, isSome_common?]

/-- What a rule gives in one faithful pool it gives in any. -/
theorem gives (steady : Steady good rule) {pool pool' : Pool} {a : α} (faithful : pool.Faithful)
    (run : rule pool = .ok a pool') : good a ∧ pool'.Faithful ∧ Gives rule a := by
  obtain ⟨holds, kept, other, run', _⟩ := steady faithful Pool.faithful_empty run
  exact ⟨holds, kept, other, run'⟩

/-- The answer of a steady rule is the one it gives in the empty pool. -/
theorem answers (steady : Steady good rule) : Steady (fun a => good a ∧ Gives rule a) rule := by
  intro pool other a pool' faithful faithful' run
  obtain ⟨holds, kept, rest⟩ := steady faithful faithful' run
  exact ⟨⟨holds, (steady.gives faithful run).2.2⟩, kept, rest⟩

end Steady

/-! The rules of operators, indexing and assignment. -/

theorem mem_baseNames_of_baseBinary? {operator left right name : String}
    (result : baseBinary? operator left right = some name) : name ∈ baseNames := by
  unfold baseBinary? at result
  repeat' split at result
  all_goals cases result
  all_goals decide

theorem steady_binary {operator : String} {left right : Ty} (leftProper : left.Proper)
    (rightProper : right.Proper) :
    Steady Ty.Proper (binary operator left right) := by
  unfold binary
  split
  · refine Steady.bind (Steady.join leftProper rightProper) ?_
    rintro _ rfl
    cases common : common? _ _ with
    | none => exact .throw
    | some both =>
      have proper := (common?_refines leftProper rightProper common).2.2
      refine .ite (fun _ => .pure proper) fun _ => .ite (fun _ => ?_) fun _ => .throw
      refine (Steady.base (by decide)).mono ?_
      rintro _ rfl
      exact proper_named (by decide)
  · split
    next => exact .throw
    next name result =>
      have member := mem_baseNames_of_baseBinary? result
      refine (Steady.base member).mono ?_
      rintro _ rfl
      exact proper_named member
  · exact .throw

/-- The three ways in which a binary operator has a result. -/
theorem binary_cases {operator : String} {left right type : Ty} {pool pool' : Pool}
    (faithful : pool.Faithful) (leftProper : left.Proper) (rightProper : right.Proper)
    (run : binary operator left right pool = .ok type pool') :
    (∃ l r name, left = named l ∧ right = named r ∧ baseBinary? operator l r = some name ∧
      type = named name) ∨
      left.isArray = true ∧ right.isArray = true ∧
        (operator = "+" ∧ common? left right = some type ∨
          operator ∈ equality ∧ left.compatible right = true ∧ type = named "bool") := by
  unfold binary at run
  split at run
  next gen x gen' y =>
    obtain ⟨joined, kept⟩ := Pool.join_eq faithful leftProper rightProper
    refine .inr ⟨rfl, rfl, ?_⟩
    rw [run_join_bind, joined] at run
    cases common : common? (.array gen x) (.array gen' y) with
    | none =>
      rw [common] at run
      cases run
    | some both =>
      have compatible : (Ty.array gen x).compatible (.array gen' y) = true := by
        rw [← isSome_common?, common]
        rfl
      simp only [common] at run
      split at run
      next plus =>
        cases run
        exact .inl ⟨plus, rfl⟩
      next =>
        split at run
        next compares =>
          obtain ⟨rfl, _⟩ := (Steady.base (by decide)).gives kept run
          exact .inr ⟨compares, compatible, rfl⟩
        next => cases run
  next l _ r =>
    obtain ⟨rfl, _⟩ := leftProper
    obtain ⟨rfl, _⟩ := rightProper
    cases result : baseBinary? operator l r with
    | none =>
      simp only [result] at run
      cases run
    | some name =>
      simp only [result] at run
      obtain ⟨rfl, _⟩ := (Steady.base (mem_baseNames_of_baseBinary? result)).gives faithful run
      exact .inl ⟨l, r, name, rfl, rfl, result, rfl⟩
  next => cases run

theorem steady_expectInt {context : Context} {index : Ty} :
    Steady (fun _ => True) (expectInt context index) := by
  unfold expectInt
  exact .ite (fun _ => .pure trivial) fun _ => .throw

theorem steady_index {target index : Ty} (targetProper : target.Proper)
    (indexProper : index.Proper) :
    Steady Ty.Proper (Typing.index target index) := by
  unfold Typing.index
  split
  · exact .throw
  · exact Steady.bind steady_expectInt fun _ _ => .pure targetProper.2
  · exact .throw
  · exact .throw
  · refine Steady.bind (Steady.agree targetProper.2.1 indexProper) fun agrees _ => ?_
    exact .ite (fun _ => .pure targetProper.2.2) fun _ => .throw
  · refine .ite (fun _ => ?_) fun _ => .throw
    refine Steady.bind steady_expectInt fun _ _ => (Steady.base (by decide)).mono ?_
    rintro _ rfl
    exact proper_named (by decide)
  · exact .throw

def received (operator : String) (target value : Ty) : Typing Ty :=
  if operator = "=" then pure value else binary (underlying operator) target value

theorem steady_received {operator : String} {target value : Ty} (targetProper : target.Proper)
    (valueProper : value.Proper) : Steady Ty.Proper (received operator target value) :=
  .ite (fun _ => .pure valueProper) fun _ => steady_binary targetProper valueProper

theorem assignment_eq (name operator : String) (target value : Ty) :
    assignment name operator target value = (do
      let given ← received operator target value
      match ← join target given with
      | some both => return both
      | none => throw (.mismatch (.assignmentTo name) target given)) := by
  unfold assignment received
  split <;> rfl

/-- The answer is what the target and what it receives agree on. -/
theorem steady_assignment {name operator : String} {target value : Ty}
    (targetProper : target.Proper) (valueProper : value.Proper) :
    Steady (fun both => ∃ given, Gives (received operator target value) given ∧
      common? target given = some both)
      (assignment name operator target value) := by
  rw [assignment_eq]
  refine Steady.bind (steady_received targetProper valueProper).answers ?_
  rintro given ⟨proper, answer⟩
  refine Steady.bind (Steady.join targetProper proper) ?_
  rintro _ rfl
  cases common : common? target given with
  | none => exact .throw
  | some both => exact .pure ⟨given, answer, common⟩

theorem gives_concat {left right both : Ty} (leftProper : left.Proper) (rightProper : right.Proper)
    (arrays : left.isArray = true ∧ right.isArray = true)
    (common : common? left right = some both) :
    Gives (binary "+" left right) both := by
  cases left with
  | array gen x =>
    cases right with
    | array gen' y =>
      obtain ⟨joined, _⟩ := Pool.join_eq Pool.faithful_empty leftProper rightProper
      refine ⟨(Pool.empty.join (.array gen x) (.array gen' y)).2, ?_⟩
      simp only [binary]
      rw [run_join_bind, joined, common]
      rfl
    | _ => cases arrays.2
  | _ => cases arrays.1

/-- A value that is received either is of a base type or can become the target. -/
theorem named_or_refined_of_received {operator : String} {target value given : Ty}
    (targetProper : target.Proper) (valueProper : value.Proper)
    (answer : Gives (received operator target value) given)
    (fitting : RefinedBy given target) : (∃ name, value = named name) ∨ RefinedBy value target := by
  obtain ⟨pool, run⟩ := answer
  unfold received at run
  split at run
  next =>
    cases run
    exact .inr fitting
  next =>
    rcases binary_cases Pool.faithful_empty targetProper valueProper run with
      ⟨_, r, _, _, rfl, _, _⟩ | ⟨array, _, ⟨_, common⟩ | ⟨_, _, rfl⟩⟩
    · exact .inl ⟨r, rfl⟩
    · exact .inr ((common?_refines targetProper valueProper common).2.1.trans fitting)
    · cases target with
      | array => cases fitting
      | _ => cases array

/-- A value that is filled in up to the type of the target is received as before. -/
theorem gives_received {operator : String} {target value value' given : Ty}
    (targetWritten : target.Written) (valueProper : value.Proper) (valueProper' : value'.Proper)
    (refines : RefinedBy value value')
    (fits : RefinedBy value' target) (answer : Gives (received operator target value) given)
    (fitting : RefinedBy given target) :
    ∃ given', Gives (received operator target value') given' ∧ RefinedBy given' target := by
  unfold received at answer ⊢
  by_cases plain : operator = "="
  · rw [if_pos plain]
    exact ⟨value', ⟨_, rfl⟩, fits⟩
  · rw [if_neg plain] at answer ⊢
    obtain ⟨pool, run⟩ := answer
    rcases binary_cases Pool.faithful_empty targetWritten.proper valueProper run with
      ⟨_, r, _, _, rfl, _, _⟩ | ⟨array, array', ⟨plus, common⟩ | ⟨_, _, rfl⟩⟩
    · obtain rfl : named r = value' := refines.eq_of_settled rfl
      exact ⟨given, ⟨pool, run⟩, fitting⟩
    · have array'' : value'.isArray = true := by
        cases refines with
        | array => rfl
        | _ => cases array'
      obtain ⟨both, common, refined⟩ :=
        common?_least targetWritten.proper.plain_eq (.refl target) fits
      rw [plus]
      exact ⟨both, gives_concat targetWritten.proper valueProper' ⟨array, array''⟩ common, refined⟩
    · cases target with
      | array => cases fitting
      | _ => cases array

end Typing

namespace Builtin
open Ty Typing

variable {builtin : Builtin} {args : List Ty}

theorem steady_one {name : String} (member : name ∈ baseNames) : Steady AllProper (one name) := by
  refine Steady.bind (Steady.base member) ?_
  rintro _ rfl
  exact .pure (allProper_singleton (proper_named member))

theorem steady_expectBase {what name : String} {ty : Ty} :
    Steady (fun _ => True) (builtin.expectBase what name ty) := by
  unfold expectBase
  exact .ite (fun _ => .pure trivial) fun _ => .throw

theorem steady_expectPart {what : String} {part ty : Ty} (left : part.Proper) (right : ty.Proper) :
    Steady (fun _ => True) (builtin.expectPart what part ty) := by
  unfold expectPart
  refine .ite (fun _ => .pure trivial) fun _ => ?_
  refine Steady.bind (Steady.agree left right) fun agrees _ => ?_
  exact .ite (fun _ => .pure trivial) fun _ => .throw

theorem steady_knownPart {container : Container} {part : Ty} (proper : part.Proper) :
    Steady Ty.Proper (builtin.knownPart container part) := by
  unfold knownPart
  exact .ite (fun _ => .throw) fun _ => .pure proper

theorem steady_ofOne {accepts : Ty → Bool} {wanted : String} {results : Ty → Typing (List Ty)}
    (proper : AllProper args) (each : ∀ ty, ty.Proper → Steady AllProper (results ty)) :
    Steady AllProper (builtin.ofOne args accepts wanted results) := by
  unfold ofOne
  split
  · exact .ite (fun _ => each _ (proper _ (by simp))) fun _ => .throw
  · exact .throw

theorem steady_scanResults : Steady AllProper (builtin.scanResults args) := by
  unfold scanResults
  split
  · exact steady_one (by decide)
  · exact Steady.bind steady_expectBase fun _ _ => steady_one (by decide)
  · exact Steady.bind steady_expectBase fun _ _ => Steady.bind steady_expectBase fun _ _ =>
      steady_one (by decide)
  · exact .throw

theorem steady_known {container : Container} {part : Ty} (proper : part.Proper) :
    Steady AllProper (do return [← builtin.knownPart container part]) :=
  Steady.bind (steady_knownPart proper) fun _ known => .pure (allProper_singleton known)

theorem steady_pushResults (proper : AllProper args) :
    Steady AllProper (builtin.pushResults args) := by
  unfold pushResults
  split
  · have container := proper _ (List.mem_cons_self)
    refine Steady.bind (steady_expectPart container.2 (proper _ (by simp))) fun _ _ => ?_
    exact .pure (allProper_singleton container)
  · have container := proper _ (List.mem_cons_self)
    refine Steady.bind (steady_expectPart container.2.1 (proper _ (by simp))) fun _ _ => ?_
    refine Steady.bind (steady_expectPart container.2.2 (proper _ (by simp))) fun _ _ => ?_
    exact .pure (allProper_singleton container)
  all_goals exact .throw

theorem steady_popResults (proper : AllProper args) :
    Steady AllProper (builtin.popResults args) := by
  unfold popResults
  split
  · exact steady_known (proper _ (List.mem_cons_self)).2
  · exact Steady.bind steady_expectBase fun _ _ => steady_known (proper _ (List.mem_cons_self)).2
  all_goals exact .throw

theorem steady_insertResults (proper : AllProper args) :
    Steady AllProper (builtin.insertResults args) := by
  unfold insertResults
  split
  · have container := proper _ (List.mem_cons_self)
    refine Steady.bind steady_expectBase fun _ _ => ?_
    refine Steady.bind (steady_expectPart container.2 (proper _ (by simp))) fun _ _ => ?_
    exact .pure (allProper_singleton container)
  all_goals exact .throw

theorem steady_removeResults (proper : AllProper args) :
    Steady AllProper (builtin.removeResults args) := by
  unfold removeResults
  split
  · have container := proper _ (List.mem_cons_self)
    refine Steady.bind (steady_expectPart container.2 (proper _ (by simp))) fun _ _ => ?_
    exact .pure (allProper_singleton container)
  · have container := proper _ (List.mem_cons_self)
    refine Steady.bind (steady_expectPart container.2.1 (proper _ (by simp))) fun _ _ => ?_
    exact .pure (allProper_singleton container)
  all_goals exact .throw

theorem steady_deleteResults (proper : AllProper args) :
    Steady AllProper (builtin.deleteResults args) := by
  unfold deleteResults
  split
  · have container := proper _ (List.mem_cons_self)
    exact Steady.bind (steady_expectPart container.2 (proper _ (by simp))) fun _ _ =>
      steady_known container.2
  · have container := proper _ (List.mem_cons_self)
    exact Steady.bind (steady_expectPart container.2.1 (proper _ (by simp))) fun _ _ =>
      steady_known container.2.2
  all_goals exact .throw

theorem steady_getIndexResults (proper : AllProper args) :
    Steady AllProper (builtin.getIndexResults args) := by
  unfold getIndexResults
  split
  · have container := proper _ (List.mem_cons_self)
    refine Steady.bind (steady_expectPart container.2 (proper _ (by simp))) fun _ _ => ?_
    exact steady_one (by decide)
  all_goals exact .throw

theorem steady_partsResults {part : (key value : Ty) → Ty} (proper : AllProper args)
    (each : ∀ key value, key.Proper → value.Proper → (part key value).Proper) :
    Steady AllProper (builtin.partsResults args part) := by
  unfold partsResults
  split
  · have container := proper _ (List.mem_cons_self)
    have inner := each _ _ container.2.1 container.2.2
    refine Steady.bind (Steady.array inner) ?_
    rintro _ rfl
    exact .pure (allProper_singleton ⟨rfl, inner⟩)
  all_goals exact .throw

theorem steady_containsKeyResults (proper : AllProper args) :
    Steady AllProper (builtin.containsKeyResults args) := by
  unfold containsKeyResults
  split
  · have container := proper _ (List.mem_cons_self)
    refine Steady.bind (steady_expectPart container.2.1 (proper _ (by simp))) fun _ _ => ?_
    exact steady_one (by decide)
  all_goals exact .throw

theorem steady_forM (types : List Ty) (f : Ty → Typing Unit)
    (each : ∀ ty, Steady (fun _ => True) (f ty)) :
    Steady (fun _ => True) (types.forM f) := by
  induction types with
  | nil => exact .pure trivial
  | cons ty rest ih => exact Steady.bind (each ty) fun _ _ => ih

theorem steady_sliceResults (proper : AllProper args) :
    Steady AllProper (builtin.sliceResults args) := by
  unfold sliceResults
  split
  · refine .ite (fun _ => .throw) fun _ => .ite (fun _ => ?_) fun _ => .throw
    refine Steady.bind steady_expectBase fun _ _ => Steady.bind steady_expectBase fun _ _ => ?_
    refine Steady.bind (steady_forM _ _ fun _ => steady_expectBase) fun _ _ => ?_
    exact .pure (allProper_singleton (proper _ (List.mem_cons_self)))
  · exact .throw

theorem steady_equalsResults (proper : AllProper args) :
    Steady AllProper (builtin.equalsResults args) := by
  unfold equalsResults
  split
  · refine Steady.bind (Steady.agree (proper _ (by simp)) (proper _ (by simp))) fun agrees _ => ?_
    exact .ite (fun _ => steady_one (by decide)) fun _ => .throw
  · exact .throw

theorem steady_results (builtin : Builtin) (proper : AllProper args) :
    Steady AllProper (builtin.results args) := by
  cases builtin with
  | print => exact steady_ofOne proper fun _ _ => .pure allProper_nil
  | println => exact .ite (fun _ => .pure allProper_nil) fun _ => .throw
  | scan | scanln => exact steady_scanResults
  | len | toString | typeOf | toInt | toFloat =>
    exact steady_ofOne proper fun _ _ => steady_one (by decide)
  | push => exact steady_pushResults proper
  | pop => exact steady_popResults proper
  | insert => exact steady_insertResults proper
  | remove => exact steady_removeResults proper
  | delete => exact steady_deleteResults proper
  | getIndex => exact steady_getIndexResults proper
  | keys => exact steady_partsResults proper fun _ _ keyProper _ => keyProper
  | values => exact steady_partsResults proper fun _ _ _ valueProper => valueProper
  | containsKey => exact steady_containsKeyResults proper
  | slice => exact steady_sliceResults proper
  | equals => exact steady_equalsResults proper
  | copy => exact steady_ofOne proper fun _ subject => .pure (allProper_singleton subject)

end Builtin

end ColonScript
