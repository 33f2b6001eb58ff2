import ColonScript.Proofs.Reading.Completed

/-! Settling is complete in every script that is accepted. Wherever a value is checked against a
type, each literal of a container and each join of two that the value is made of has exactly the
part of the type at its place, so that nothing in it is left unknown. -/

namespace ColonScript

namespace Reading
open Token (Kind)
open Ty Typing

variable {s s' : Session} {env : Env}

theorem complete_of_expression {power : Power} {e : Expr} (reads : Reads s (.expr power e) s')
    (stands : Stands env s) :
    e.Complete env := complete_of_reads reads stands.situated

theorem complete_of_placed ⦃s : Session⦄ ⦃value : Expr × Position⦄ ⦃s' : Session⦄
    (run : placed expression s = .ok value s') (stands : Stands env s) :
    (Typed env value.1 ∧ value.1.Complete env) ∧ Stands env s' := by
  have reads := reads_of_placed run
  obtain ⟨typed, behind⟩ := typed_of_expression reads stands
  exact ⟨⟨typed, complete_of_expression reads stands⟩, behind⟩

theorem complete_of_values {values : List (Expr × Position)}
    (run : separated (placed expression) s = .ok values s')
    (stands : Stands env s) : (∀ e ∈ values.map (·.1), Typed env e ∧ e.Complete env) ∧
    Stands env s' := by
  obtain ⟨each, after⟩ :=
    each_of_separated (I := Stands env) advances_placed (fun _ => Stands.next)
      complete_of_placed run
    stands
  exact ⟨by simpa using each, after⟩

/-! Declarations. -/

structure CompleteDeclaration (env : Env) (declaration : Declaration) : Prop where
  suits : Expr.Suits declaration.type declaration.value
  value : declaration.value.Complete env

theorem isBaseLiteral_of_defaultValue {type : Ty} {value : Expr}
    (default : defaultValue? type = some value) :
    value.isBaseLiteral = true := by
  unfold defaultValue? at default
  split_ifs at default <;> cases default <;> rfl

theorem complete_of_declarationRest {found : Head} {declaration : Declaration}
    (written : found.type.Written) (run : declarationRest found s = .ok declaration s')
    (stands : Stands env s) : CompleteDeclaration env declaration := by
  obtain ⟨value, s₁, scopes, given, _, _, rfl, rfl⟩ := ok_declarationRest.mp run
  obtain ⟨_, lacking⟩ | ⟨_, given⟩ := given
  · obtain ⟨_, default, _⟩ := ok_defaultValue.mp lacking
    obtain ⟨plain, complete⟩ :=
      Expr.complete_of_isBaseLiteral (isBaseLiteral_of_defaultValue default)
    obtain ⟨_, fits⟩ := @wellTyped_of_defaultValue env _ _ written default
    exact ⟨.of_fits written.settled (Expr.follows_of_plain plain) fits, complete⟩
  · obtain ⟨_, e, own, both, s₂, reads, single, joined, rfl, rfl⟩ := ok_givenValue.mp given
    obtain ⟨typed, between⟩ := typed_of_expression reads stands.next
    obtain ⟨suits, complete⟩ :=
      suits_of_wanted (complete_of_expression reads stands.next) typed single
      between.kept.pool written joined
    exact ⟨suits, complete⟩

theorem complete_declaration {declaration : Declaration}
    (complete : CompleteDeclaration env declaration) :
    (Point.simple (.declaration declaration)).Complete env := by
  refine Point.complete_of_exprs (List.forall_mem_singleton.mpr complete.value)
    fun type value wants => ?_
  cases wants
  exact complete.suits

theorem complete_startDeclaration {declaration : Declaration}
    (complete : CompleteDeclaration env declaration) :
    (Point.start (.declaration declaration)).Complete env := by
  refine Point.complete_of_exprs (List.forall_mem_singleton.mpr complete.value)
    fun type value wants => ?_
  cases wants
  exact complete.suits

/-! Several targets, and results. -/

theorem complete_of_multipleRest {first : Receiver} {st : Stmt} (fine : first.Fine env)
    (run : multipleRest first s = .ok st s') (stands : Stands env s) :
    (Point.simple st).Complete env := by
  obtain ⟨others, values, settled, scopes, s₁, s₂, s₃, receivers, _, given, _, distributed,
    _, rfl, rfl⟩ :=
    ok_multipleRest.mp run
  obtain ⟨othersFine, between⟩ := receivers.each (I := Stands env)
    (fun _ _ _ read stands => fine_of_receiver read.2 stands.next) stands
  obtain ⟨each, behind⟩ := complete_of_values given between.next
  have written : ∀ type ∈ (first :: others).map Receiver.type, type.Written := by
    intro type member
    obtain ⟨found, within, rfl⟩ := List.mem_map.mp member
    obtain rfl | later := List.mem_cons.mp within
    · exact fine.2
    · exact (othersFine found later).2
  have types : ((first :: others).map Receiver.target).map Target.type =
    (first :: others).map Receiver.type := by
    rw [List.map_map]
    exact List.map_congr_left fun found _ => type_target found
  generalize values.map (·.1) = exprs at distributed each
  cases distributed with
  | each _ singles fitted =>
    obtain ⟨complete, suit⟩ := complete_of_fitted fitted singles behind.kept.pool written
      (fun e member => (each e member).1) fun e member => (each e member).2
    refine Point.complete_of_exprs complete fun type value wants => ?_
    cases wants with
    | positional _ given =>
      rw [types] at given
      exact suit type value given
  | results several =>
    refine Point.complete_of_exprs (fun e member => (each e member).2) fun type value wants => ?_
    cases wants with
    | positional even => exact absurd (by simpa using even) several

theorem complete_of_givenResults {values : List (Expr × Position)}
    (run : givenResults s = .ok values s') (stands : Stands env s) :
    (∀ e ∈ values.map (·.1), Typed env e ∧ e.Complete env) ∧ Stands env s' := by
  obtain ⟨_, ⟨_, s₁, list, _, rfl⟩ | ⟨_, e, reads, _, rfl⟩⟩ := ok_givenResults.mp run
  · obtain ⟨each, behind⟩ := complete_of_values list stands.next.next
    exact ⟨each, behind.next⟩
  · obtain ⟨typed, behind⟩ := typed_of_expression reads stands.next
    exact ⟨by simpa using ⟨typed, complete_of_expression reads stands.next⟩, behind⟩

theorem complete_of_returnStatement {st : Stmt} (run : returnStatement s = .ok st s')
    (stands : Stands env s) :
    (Point.simple st).Complete env := by
  obtain ⟨signature, values, s₁, within, given, _, _, types, settled, pool, singles,
    fitted, rfl, rfl⟩ :=
    ok_returnStatement.mp run
  obtain ⟨each, behind⟩ : (∀ e ∈ values.map (·.1), Typed env e ∧ e.Complete env) ∧
    Stands env s₁ := by
    obtain ⟨_, rfl, rfl⟩ | ⟨_, given⟩ := given
    · exact ⟨by simp, stands.next⟩
    · exact complete_of_givenResults given stands.next
  have written := stands.kept.function signature within
  obtain ⟨complete, suit⟩ := complete_of_fitted fitted singles behind.kept.pool written.results
    (fun e member => (each e member).1) fun e member => (each e member).2
  rw [stands.agrees.function] at within
  refine Point.complete_of_exprs complete fun type value wants => ?_
  cases wants with
  | returned within' given =>
    rw [within] at within'
    cases within'
    exact suit type value given

/-! Every point. -/

theorem complete_of_simple {st : Stmt} (simple : Simple s st s') (stands : Stands env s) :
    (Point.simple st).Complete env := by
  cases simple with
  | expression _ read =>
    obtain ⟨_, found, s₁, exists', rest⟩ | ⟨_, e, s₁, reads, _, _, rfl, _⟩ :=
      ok_expressionStatement.mp read
    · obtain ⟨fine, between⟩ := fine_of_existing exists' stands
      exact complete_of_multipleRest fine rest between
    · exact Point.complete_of_exprs (List.forall_mem_singleton.mpr
        (complete_of_expression reads stands)) nofun
  | declaration kind read =>
    obtain ⟨found, s₁, heads, ⟨_, rest⟩ | ⟨_, declaration, rest, rfl⟩⟩ :=
      ok_declarationStatement.mp read
    · obtain ⟨fine, between⟩ := fine_of_head kind heads stands
      exact complete_of_multipleRest fine rest between
    · obtain ⟨fine, between⟩ := fine_of_head kind heads stands
      exact complete_declaration (complete_of_declarationRest fine.2 rest between)
  | returning _ read => exact complete_of_returnStatement read stands
  | control _ read =>
    obtain ⟨_, _, same, _⟩ := ok_loopControl.mp read
    subst same
    split <;> exact Point.complete_of_exprs (fun _ member => nomatch member) nofun

theorem complete_of_condition {statement : String} {e : Expr}
    (run : condition statement s = .ok e s') (stands : Stands env s) :
    (Point.condition e).Complete env := by
  obtain ⟨_, _, type, s₁, reads, _⟩ := ok_condition.mp run
  exact Point.complete_of_exprs (List.forall_mem_singleton.mpr
    (complete_of_expression reads stands.next.next)) nofun

theorem complete_of_startOfLoop {start : Start} (run : startOfLoop s = .ok start s')
    (stands : Stands env s) :
    (Point.start start).Complete env := by
  obtain ⟨kind, found, declaration, s₁, heads, is, rest, rfl⟩ |
    ⟨_, target, value, type, s₁, reads, is, _, rfl, rfl⟩ := ok_startOfLoop.mp run
  · obtain ⟨fine, between⟩ := fine_of_head (.inl kind) heads stands
    exact complete_startDeclaration (complete_of_declarationRest fine.2 rest between)
  · exact Point.complete_of_exprs (List.forall_mem_singleton.mpr
      (complete_of_expression reads stands)) nofun

theorem pointwise_complete : Pointwise Kept fun env point => point.Complete env where
  simple agrees kept simple :=
    ⟨complete_of_simple simple ⟨agrees, kept⟩, (pointwise_wellTyped.simple agrees kept simple).2⟩
  condition agrees kept run :=
    ⟨complete_of_condition run ⟨agrees, kept⟩, (pointwise_wellTyped.condition agrees kept run).2⟩
  start agrees kept run :=
    ⟨complete_of_startOfLoop run ⟨agrees, kept⟩, (pointwise_wellTyped.start agrees kept run).2⟩
  loopCondition agrees kept reads is := by
    refine ⟨?_, (pointwise_wellTyped.loopCondition agrees kept reads is).2⟩
    exact Point.complete_of_exprs (List.forall_mem_singleton.mpr
      (complete_of_expression reads ⟨agrees, kept⟩)) nofun
  update agrees kept reads is := by
    refine ⟨?_, (pointwise_wellTyped.update agrees kept reads is).2⟩
    exact Point.complete_of_exprs (List.forall_mem_singleton.mpr
      (complete_of_expression reads ⟨agrees, kept⟩)) nofun
  next := pointwise_wellTyped.next
  push := pointwise_wellTyped.push
  looping := pointwise_wellTyped.looping
  leave := pointwise_wellTyped.leave
  heads := pointwise_wellTyped.heads

end Reading

/-- Where a value is checked against a type, every literal of a container and every join that is
reached from it has the part of the type at its place, and nothing of that part is unknown. -/
def Point.SettlesAll (env : Env) (point : Point) : Prop :=
  ∀ type value, point.Checks env type value → ∀ part node, Expr.Reaches type value part node →
    node.isComposite = true → node.types = [part] ∧ part.settled = true

theorem Point.Complete.settlesAll {env : Env} {point : Point} (complete : point.Complete env) :
    point.SettlesAll env := by
  intro type value checks part node reaches composite
  have suits := complete type value checks
  exact ⟨suits.follows part node reaches composite, reaches.settled suits.settled⟩

namespace Program
open Reading

theorem settlesAll_of_accepted {source file : String} {testing : Bool} {p : Program}
    (accepted : ofSource source file testing = .ok p) :
    p.Everywhere fun env point => point.SettlesAll env := by
  have complete := everywhere_of_ofSource pointwise_complete accepted
  exact everywhere_of (fun _ _ complete _ => complete.settlesAll) complete complete

def emptyLiterals : String :=
  "fun: f(a: int[][]): (string[int[]]) \x7b
     var b: int[][] = a;
     b = [[], [1]] + [];
     f([[]]);
     return: \x7b\"x\": []\x7d;
   \x7d"

theorem settlesAll_of_accepted_nested :
    ∃ p, ofSource emptyLiterals "" false = .ok p ∧ p.Everywhere fun env point =>
      point.SettlesAll env := by
  have read : (ofSource emptyLiterals "" false).toBool = true := by decide +kernel
  obtain ⟨p, accepted⟩ := exists_ok_of_toBool read
  exact ⟨p, accepted, settlesAll_of_accepted accepted⟩

end Program

end ColonScript
