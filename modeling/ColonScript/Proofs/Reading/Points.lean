import ColonScript.Proofs.Reading.Typed

/-! Every point of a script that is read obeys the rule of its kind, in the environment of the
point. -/

namespace ColonScript.Reading
open Token (Kind)
open Ty Typing

variable {s s' : Session} {env : Env}

/-- The state agrees with the environment and holds nothing that a script cannot have written. -/
structure Stands (env : Env) (s : Session) : Prop where
  agrees : Agrees env s
  kept : Kept s

namespace Stands

theorem next (stands : Stands env s) : Stands env s.next := ⟨stands.agrees.next, stands.kept.next⟩

theorem situated (stands : Stands env s) : Situated env s := ⟨stands.kept.grounded, stands.agrees⟩

theorem onward (stands : Stands env s) (onward : Onward s s') (kept : Kept s') : Stands env s' :=
  ⟨stands.agrees.onward onward, kept⟩

end Stands

theorem typed_of_expression {power : Power} {e : Expr} (reads : Reads s (.expr power e) s')
    (stands : Stands env s) :
    Typed env e ∧ Stands env s' := by
  obtain ⟨typed, after⟩ := typed_of_reads reads stands.situated
  exact ⟨typed, stands.onward reads.onward (stands.kept.onward reads.onward after.grounded.pool)⟩

theorem typed_of_placed ⦃s : Session⦄ ⦃value : Expr × Position⦄ ⦃s' : Session⦄
    (run : placed expression s = .ok value s') (stands : Stands env s) :
    Typed env value.1 ∧ Stands env s' :=
  typed_of_expression (reads_of_placed run) stands

theorem typed_of_values {values : List (Expr × Position)}
    (run : separated (placed expression) s = .ok values s')
    (stands : Stands env s) : (∀ e ∈ values.map (·.1), Typed env e) ∧ Stands env s' := by
  obtain ⟨typed, after⟩ :=
    each_of_separated (I := Stands env) advances_placed (fun _ => Stands.next) typed_of_placed run
    stands
  exact ⟨by simpa using typed, after⟩

/-! Declarations. -/

theorem wellTyped_of_defaultValue {type : Ty} {value : Expr} (written : type.Written)
    (default : defaultValue? type = some value) : value.WellTyped env ∧ value.Fits type := by
  unfold defaultValue? at default
  split at default
  next is =>
    obtain rfl := eq_named_of_isBase written.proper is
    obtain rfl := Option.some.inj default
    exact ⟨.integer, Expr.fits_of_types rfl⟩
  split at default
  next is =>
    obtain rfl := eq_named_of_isBase written.proper is
    obtain rfl := Option.some.inj default
    exact ⟨.float, Expr.fits_of_types rfl⟩
  split at default
  next is =>
    obtain rfl := eq_named_of_isBase written.proper is
    obtain rfl := Option.some.inj default
    exact ⟨.bool, Expr.fits_of_types rfl⟩
  split at default
  next is =>
    obtain rfl := eq_named_of_isBase written.proper is
    obtain rfl := Option.some.inj default
    exact ⟨.string, Expr.fits_of_types rfl⟩
  split at default
  next is =>
    obtain rfl := eq_named_of_isBase written.proper is
    obtain rfl := Option.some.inj default
    exact ⟨.char, Expr.fits_of_types rfl⟩
  next => cases default

/-- A value joined with a written type is settled to that type. -/
theorem typed_of_wanted {pool : Pool} {wanted own both : Ty} {e : Expr} (typed : Typed env e)
    (single : e.types = [own]) (faithful : pool.Faithful) (written : wanted.Written)
    (joined : (pool.join wanted own).1 = some both) :
    Typed env (e.settle both) ∧ (e.settle both).Fits wanted ∧
      (pool.join wanted own).2.Faithful := by
  obtain ⟨fits, grows, bothProper, after⟩ :=
    fits_of_joined typed single faithful written.proper joined
  obtain rfl := grows.eq_of_settled written.settled
  exact ⟨typed.settle fits bothProper, fits.settle, after⟩

theorem wellTyped_of_declarationRest {found : Head} {declaration : Declaration}
    (written : found.type.Written) (run : declarationRest found s = .ok declaration s')
    (stands : Stands env s) :
    declaration.WellTyped env ∧ declaration.type = found.type ∧ Kept s' := by
  obtain ⟨value, s₁, scopes, given, ends, declares, rfl, rfl⟩ := ok_declarationRest.mp run
  obtain ⟨typed, fits, kept⟩ : value.WellTyped env ∧ value.Fits found.type ∧ Kept s₁ := by
    obtain ⟨_, lacking⟩ | ⟨_, given⟩ := given
    · obtain ⟨_, default, rfl⟩ := ok_defaultValue.mp lacking
      obtain ⟨typed, fits⟩ := wellTyped_of_defaultValue written default
      exact ⟨typed, fits, stands.kept⟩
    · obtain ⟨_, e, own, both, s₂, reads, single, joined, rfl, rfl⟩ := ok_givenValue.mp given
      obtain ⟨typed, between⟩ := typed_of_expression reads stands.next
      obtain ⟨settled, fits, after⟩ := typed_of_wanted typed single between.kept.pool written joined
      exact ⟨settled.wellTyped, fits, between.kept.withPool after⟩
  exact ⟨⟨written, typed, fits⟩, rfl, kept.next.withScopes (kept.scopes.declare written declares)⟩

/-! Several targets. -/

def Receiver.Fine (env : Env) (found : Receiver) : Prop :=
  found.target.WellTyped env ∧ found.type.Written

theorem type_target (found : Receiver) : found.target.type = found.type := by
  cases found <;> rfl

theorem fine_of_existing {found : Receiver} (run : existing s = .ok found s')
    (stands : Stands env s) :
    found.Fine env ∧ Stands env s' := by
  obtain ⟨_, binding, known, _, rfl, rfl⟩ := ok_existing.mp run
  have written := stands.kept.scopes.binding known
  rw [stands.agrees.sees.bindings] at known
  exact ⟨⟨⟨binding, known, rfl⟩, written⟩, stands.next⟩

theorem fine_of_head {found : Head} (kind : s.kind = .varWord ∨ s.kind = .constWord)
    (run : head s = .ok found s') (stands : Stands env s) :
    (Receiver.declared found).Fine env ∧ Stands env s' := by
  obtain ⟨written, kept⟩ := kept_of_head run stands.kept
  exact ⟨⟨written, written⟩, stands.onward (onward_head kind run) kept⟩

theorem fine_of_receiver ⦃s : Session⦄ ⦃found : Receiver⦄ ⦃s' : Session⦄
    (run : receiver s = .ok found s') (stands : Stands env s) : found.Fine env ∧ Stands env s' := by
  obtain ⟨kind, declared, declares, rfl⟩ | exists' := ok_receiver.mp run
  · exact fine_of_head kind declares stands
  · exact fine_of_existing exists' stands

theorem refined_of_joined {pool pool' : Pool} {wanted types : List Ty}
    (joined : Joined pool wanted types pool') (faithful : pool.Faithful)
    (written : ∀ type ∈ wanted, type.Written) (proper : AllProper types) :
    List.Forall₂ RefinedBy types wanted ∧ pool'.Faithful := by
  induction joined with
  | nil => exact ⟨.nil, faithful⟩
  | @cons _ _ type own both _ _ joined _ ih =>
    have typeWritten := written type List.mem_cons_self
    have ownProper := proper own List.mem_cons_self
    obtain ⟨common, between⟩ := Pool.join_eq faithful typeWritten.proper ownProper
    rw [joined] at common
    obtain ⟨grows, refined, _⟩ := common?_refines typeWritten.proper ownProper common.symm
    obtain rfl := grows.eq_of_settled typeWritten.settled
    obtain ⟨later, after⟩ :=
      ih between (fun type member => written type (List.mem_cons_of_mem _ member))
      (fun type member => proper type (List.mem_cons_of_mem _ member))
    exact ⟨.cons refined later, after⟩

theorem wellTyped_of_multipleRest {first : Receiver} {st : Stmt} (fine : first.Fine env)
    (run : multipleRest first s = .ok st s') (stands : Stands env s) :
    (Point.simple st).WellTyped env ∧ Kept s' := by
  obtain ⟨others, values, settled, scopes, s₁, s₂, s₃, receivers, _, given, _, distributed,
    declares, rfl, rfl⟩ :=
    ok_multipleRest.mp run
  obtain ⟨othersFine, between⟩ := receivers.each (I := Stands env)
    (fun _ _ _ read stands => fine_of_receiver read.2 stands.next) stands
  obtain ⟨typed, behind⟩ := typed_of_values given between.next
  have allFine : ∀ found ∈ first :: others, found.Fine env := by simpa using ⟨fine, othersFine⟩
  have known : ∀ target ∈ (first :: others).map Receiver.target, target.WellTyped env := by
    intro target member
    obtain ⟨found, within, rfl⟩ := List.mem_map.mp member
    exact (allFine found within).1
  have written : ∀ type ∈ (first :: others).map Receiver.type, type.Written := by
    intro type member
    obtain ⟨found, within, rfl⟩ := List.mem_map.mp member
    exact (allFine found within).2
  have types : ((first :: others).map Receiver.target).map Target.type =
    (first :: others).map Receiver.type := by
    rw [List.map_map]
    exact List.map_congr_left fun found _ => type_target found
  have checked :
      (Point.simple (.multiple ((first :: others).map Receiver.target) settled)).WellTyped env ∧
        Kept s₃ := by
    generalize values.map (·.1) = exprs at distributed typed
    cases distributed with
    | each _ singles fitted =>
      obtain ⟨after, settledTyped, fits⟩ :=
        typed_of_fitted fitted singles behind.kept.pool written typed
      rw [← types] at fits
      exact ⟨.values known (fun e member => (settledTyped e member).wellTyped) fits,
        behind.kept.next.withPool after⟩
    | results _ _ joined =>
      have call := typed _ List.mem_cons_self
      obtain ⟨refined, after⟩ := refined_of_joined joined behind.kept.pool written call.proper
      rw [← types] at refined
      exact ⟨.results known call.wellTyped refined, behind.kept.next.withPool after⟩
  obtain ⟨point, kept⟩ := checked
  refine ⟨point, kept.withScopes (written_of_declareAll declares kept.scopes ?_)⟩
  exact fun found member => (allFine found member).2

/-! The other statements that hold none. -/

theorem wellTyped_of_declarationStatement {st : Stmt}
    (kind : s.kind = .varWord ∨ s.kind = .constWord) (run : declarationStatement s = .ok st s')
    (stands : Stands env s) : (Point.simple st).WellTyped env ∧ Kept s' := by
  obtain ⟨found, s₁, heads, ⟨_, rest⟩ | ⟨_, declaration, rest, rfl⟩⟩ :=
    ok_declarationStatement.mp run
  · obtain ⟨fine, between⟩ := fine_of_head kind heads stands
    exact wellTyped_of_multipleRest fine rest between
  · obtain ⟨fine, between⟩ := fine_of_head kind heads stands
    obtain ⟨typed, _, kept⟩ := wellTyped_of_declarationRest fine.2 rest between
    exact ⟨.declaration typed, kept⟩

theorem wellTyped_of_expressionStatement {st : Stmt} (run : expressionStatement s = .ok st s')
    (stands : Stands env s) :
    (Point.simple st).WellTyped env ∧ Kept s' := by
  obtain ⟨_, found, s₁, exists', rest⟩ | ⟨_, e, s₁, reads, action, _, rfl, rfl⟩ :=
    ok_expressionStatement.mp run
  · obtain ⟨fine, between⟩ := fine_of_existing exists' stands
    exact wellTyped_of_multipleRest fine rest between
  · obtain ⟨typed, behind⟩ := typed_of_expression reads stands
    exact ⟨.expression action typed.wellTyped, behind.kept.next⟩

theorem typed_of_givenResults {values : List (Expr × Position)}
    (run : givenResults s = .ok values s') (stands : Stands env s) :
    (∀ e ∈ values.map (·.1), Typed env e) ∧ Stands env s' := by
  obtain ⟨_, ⟨_, s₁, list, _, rfl⟩ | ⟨_, e, reads, _, rfl⟩⟩ := ok_givenResults.mp run
  · obtain ⟨typed, behind⟩ := typed_of_values list stands.next.next
    exact ⟨typed, behind.next⟩
  · obtain ⟨typed, behind⟩ := typed_of_expression reads stands.next
    exact ⟨by simpa using typed, behind⟩

theorem wellTyped_of_returnStatement {st : Stmt} (run : returnStatement s = .ok st s')
    (stands : Stands env s) :
    (Point.simple st).WellTyped env ∧ Kept s' := by
  obtain ⟨signature, values, s₁, within, given, _, _, types, settled, pool, singles,
    fitted, rfl, rfl⟩ :=
    ok_returnStatement.mp run
  obtain ⟨typed, behind⟩ : (∀ e ∈ values.map (·.1), Typed env e) ∧ Stands env s₁ := by
    obtain ⟨_, rfl, rfl⟩ | ⟨_, given⟩ := given
    · exact ⟨by simp, stands.next⟩
    · exact typed_of_givenResults given stands.next
  have written := stands.kept.function signature within
  obtain ⟨after, settledTyped, fits⟩ :=
    typed_of_fitted fitted singles behind.kept.pool written.results typed
  rw [stands.agrees.function] at within
  exact ⟨.returning within (fun e member => (settledTyped e member).wellTyped) fits,
    behind.kept.next.withPool after⟩

theorem wellTyped_of_loopControl {st : Stmt} (run : loopControl s = .ok st s') (kept : Kept s) :
    (Point.simple st).WellTyped env ∧ Kept s' := by
  obtain ⟨_, _, same, rfl⟩ := ok_loopControl.mp run
  refine ⟨?_, kept.next.next⟩
  by_cases continues : s.kind = .continueWord
  · rw [if_pos continues] at same
    subst same
    exact .continuing
  · rw [if_neg continues] at same
    subst same
    exact .breaking

theorem wellTyped_of_simple {st : Stmt} (simple : Simple s st s') (stands : Stands env s) :
    (Point.simple st).WellTyped env ∧ Kept s' := by
  cases simple with
  | expression _ read => exact wellTyped_of_expressionStatement read stands
  | declaration kind read => exact wellTyped_of_declarationStatement kind read stands
  | returning _ read => exact wellTyped_of_returnStatement read stands
  | control _ read => exact wellTyped_of_loopControl read stands.kept

/-! The heads of the others. -/

theorem wellTyped_of_condition {statement : String} {e : Expr}
    (run : condition statement s = .ok e s') (stands : Stands env s) :
    (Point.condition e).WellTyped env ∧ Kept s' := by
  obtain ⟨_, _, type, s₁, reads, _, _, single, is, rfl⟩ := ok_condition.mp run
  obtain ⟨typed, behind⟩ := typed_of_expression reads stands.next.next
  rw [eq_named_of_isBase (typed.proper_of_types single) is] at single
  exact ⟨.condition typed.wellTyped single, behind.kept.next.next⟩

theorem wellTyped_of_startOfLoop {start : Start} (run : startOfLoop s = .ok start s')
    (stands : Stands env s) :
    (Point.start start).WellTyped env ∧ Kept s' := by
  obtain ⟨kind, found, declaration, s₁, heads, is, rest, rfl⟩ |
    ⟨_, target, value, type, s₁, reads, is, _, rfl, rfl⟩ := ok_startOfLoop.mp run
  · obtain ⟨fine, between⟩ := fine_of_head (.inl kind) heads stands
    obtain ⟨typed, same, kept⟩ := wellTyped_of_declarationRest fine.2 rest between
    have int := eq_named_of_isBase fine.2.proper is
    exact ⟨.startDeclaration typed (same.trans int), kept⟩
  · obtain ⟨typed, behind⟩ := typed_of_expression reads stands
    obtain rfl := eq_named_of_isBase (typed.proper_of_types rfl) is
    exact ⟨.startAssignment typed.wellTyped, behind.kept.next⟩

theorem wellTyped_of_loopCondition {e : Expr} (typed : Typed env e)
    (is : isLoopCondition e = true) :
    (Point.loopCondition e).WellTyped env := by
  cases e with
  | binary left operator right type =>
    obtain rfl := eq_named_of_isBase (typed.proper_of_types rfl) is
    exact .loopCondition typed.wellTyped
  | _ => cases is

theorem wellTyped_of_loopUpdate {e : Expr} (typed : Typed env e) (is : isLoopUpdate e = true) :
    (Point.update e).WellTyped env := by
  cases e with
  | step operand operator type =>
    obtain rfl := eq_named_of_isBase (typed.proper_of_types rfl) is
    exact .updateStep typed.wellTyped
  | assign target operator value type =>
    obtain rfl := eq_named_of_isBase (typed.proper_of_types rfl) is
    exact .updateAssign typed.wellTyped
  | _ => cases is

theorem pointwise_wellTyped : Pointwise Kept fun env point => point.WellTyped env where
  simple agrees kept simple := wellTyped_of_simple simple ⟨agrees, kept⟩
  condition agrees kept run := wellTyped_of_condition run ⟨agrees, kept⟩
  start agrees kept run := wellTyped_of_startOfLoop run ⟨agrees, kept⟩
  loopCondition agrees kept reads is := by
    obtain ⟨typed, behind⟩ := typed_of_expression reads ⟨agrees, kept⟩
    exact ⟨wellTyped_of_loopCondition typed is, behind.kept⟩
  update agrees kept reads is := by
    obtain ⟨typed, behind⟩ := typed_of_expression reads ⟨agrees, kept⟩
    exact ⟨wellTyped_of_loopUpdate typed is, behind.kept⟩
  next := Kept.next
  push := Kept.push
  looping := Kept.looping
  leave := Kept.leave
  heads kept heads := by
    obtain ⟨written, after⟩ := kept_of_heads heads kept
    refine ⟨after, fun registered => ?_⟩
    have registers := after.scopes.register written registered
    refine ⟨after.withScopes registers, fun declared => ?_⟩
    have inner := written_of_declareParameters declared registers.push written.parameters
    refine ⟨after.pool, after.lexed, inner, ?_⟩
    intro signature inside
    obtain rfl := Option.some.inj inside
    exact written

end ColonScript.Reading
