import ColonScript.Proofs.Reading.Stems

/-! What an accepted script writes to. Assignments of every form are refused when the name is a
constant at their point. Steps are not: whether a script leaves all its constants as they are
depends on its steps alone. -/

namespace ColonScript
open Reading

inductive Write where
  | assignment
  | target
  | step
  | loopStart
  deriving DecidableEq, Repr

namespace Expr

mutual

def writes : Expr → List (Write × String)
  | .assign target _ value _ => (.assignment, target) :: value.writes
  | .step operand _ _ =>
    match operand with
    | .name own _ => [(.step, own)]
    | operand => operand.writes
  | .array elements _ => writesOf elements
  | .map pairs _ => writesOfPairs pairs
  | .unary _ operand _ => operand.writes
  | .binary left _ right _ => left.writes ++ right.writes
  | .call _ arguments _ => writesOf arguments
  | .index target key _ => target.writes ++ key.writes
  | .name .. | .integer .. | .float .. | .bool .. | .string .. | .char .. => []

def writesOf : List Expr → List (Write × String)
  | [] => []
  | e :: rest => e.writes ++ writesOf rest

def writesOfPairs : List (Expr × Expr) → List (Write × String)
  | [] => []
  | (key, value) :: rest => key.writes ++ value.writes ++ writesOfPairs rest

end

theorem writesOf_eq (es : List Expr) : writesOf es = es.flatMap writes :=
  eq_flatMap rfl (fun _ _ => rfl) es

theorem writesOfPairs_eq (pairs : List (Expr × Expr)) :
    writesOfPairs pairs = pairs.flatMap fun pair => pair.1.writes ++ pair.2.writes :=
  eq_flatMap rfl (fun _ _ => rfl) pairs

def ownWrites : Expr → List (Write × String)
  | .assign target .. => [(.assignment, target)]
  | .step (.name own _) .. => [(.step, own)]
  | _ => []

theorem gathers_writes : Gathers ownWrites writes where
  node e := by
    cases e with
    | step operand => cases operand <;> simp [writes, ownWrites, children]
    | _ => simp [writes, ownWrites, children, writesOf_eq, writesOfPairs_eq, List.flatMap_assoc]
  array := rfl
  map := rfl
  binary := rfl

end Expr

def Target.write? : Target → Option (Write × String)
  | declared .. => none
  | existing name _ => some (.target, name)

def Stmt.writes : Stmt → List (Write × String)
  | .expression e => e.writes
  | .declaration declared => declared.value.writes
  | .multiple targets values => targets.filterMap Target.write? ++ Expr.writesOf values
  | .returning values => Expr.writesOf values
  | _ => []

def Point.writes : Point → List (Write × String)
  | .simple st => st.writes
  | .condition e | .loopCondition e | .update e => e.writes
  | .start (.declaration declaration) => (.loopStart, declaration.name) :: declaration.value.writes
  | .start (.assignment e) => e.writes

/-- No constant is written to at a point. -/
def KeepsConstants (env : Env) (point : Point) : Prop :=
  ∀ write ∈ point.writes, env.isConstant write.2 = false

namespace Reading
variable {s s' : Session} {scopes : ScopeStack}

abbrev Refused (scopes : ScopeStack) (write : Write × String) : Prop :=
  write.1 ≠ .step → scopes.isConstant write.2 = false

theorem grants_writes : Grants scopes Expr.ownWrites (Refused scopes) where
  call _ _ _ _ member := nomatch member
  assign mutable _ _ _ := List.forall_mem_singleton.mpr fun _ => mutable
  other {e} _ noAssign write member := by
    cases e with
    | assign => exact absurd rfl (noAssign _ _ _ _)
    | step operand =>
      cases operand with
      | name own =>
        obtain rfl := List.mem_singleton.mp member
        exact fun notStep => absurd rfl notStep
      | _ => cases member
    | _ => cases member

/-- What a point writes to, it gives a value to itself or writes to in one of its expressions. -/
theorem mem_writes {point : Point} {write : Write × String} (member : write ∈ point.writes) :
    write.2 ∈ point.receivers ∨ ∃ e ∈ point.exprs, write ∈ e.writes := by
  cases point with
  | simple st =>
    cases st with
    | multiple targets values =>
      rcases List.mem_append.mp member with among | among
      · obtain ⟨target, inside, is⟩ := List.mem_filterMap.mp among
        cases target with
        | declared => cases is
        | existing name =>
          obtain rfl := Option.some.inj is
          exact .inl (List.mem_filterMap.mpr ⟨_, inside, rfl⟩)
      · rw [Expr.writesOf_eq] at among
        exact .inr (List.mem_flatMap.mp among)
    | returning values =>
      have among : write ∈ Expr.writesOf values := member
      rw [Expr.writesOf_eq] at among
      exact .inr (List.mem_flatMap.mp among)
    | expression | declaration => exact .inr ⟨_, List.mem_singleton_self _, member⟩
    | _ => cases member
  | condition | loopCondition | update => exact .inr ⟨_, List.mem_singleton_self _, member⟩
  | start start =>
    cases start with
    | declaration declared =>
      rcases List.mem_cons.mp member with rfl | member
      · exact .inl (List.mem_singleton_self _)
      · exact .inr ⟨_, List.mem_singleton_self _, member⟩
    | assignment => exact .inr ⟨_, List.mem_singleton_self _, member⟩

/-- No constant is written to at a point, other than by steps. -/
def AssignsNoConstant (env : Env) (point : Point) : Prop :=
  ∀ write ∈ point.writes, write.1 ≠ .step → env.isConstant write.2 = false

def StepsNoConstant (env : Env) (point : Point) : Prop :=
  ∀ write ∈ point.writes, write.1 = .step → env.isConstant write.2 = false

theorem pointwise_assignsNoConstant : Pointwise (fun _ => True) AssignsNoConstant :=
  pointwise_of_granted fun agrees granted write member notStep => by
    rw [Env.isConstant, ← agrees.sees.bindings]
    rcases mem_writes member with among | ⟨e, inside, written⟩
    · exact granted.receivers _ among
    · exact allHold_of_stems Expr.gathers_writes grants_writes (granted.exprs e inside) write
        written notStep

end Reading

namespace Program
open Reading

/-- An accepted script assigns to no constant, whatever the form of the assignment; and it leaves
all its constants as they are exactly when none of its steps is on one. -/
theorem assigns_no_constant {tokens : List Token} {file : String} {testing : Bool} {p : Program}
    (accepted : ofTokens tokens file testing = .ok p) :
    p.Everywhere AssignsNoConstant ∧ (p.Everywhere KeepsConstants ↔
      p.Everywhere StepsNoConstant) := by
  have assigns := everywhere_of_accepted pointwise_assignsNoConstant trivial accepted
  refine ⟨assigns, ?_, ?_⟩
  · intro keeps
    refine everywhere_of (fun env point first _ => ?_) keeps keeps
    intro write member _
    exact first write member
  · intro steps
    refine everywhere_of (fun env point first second => ?_) assigns steps
    intro write member
    by_cases step : write.1 = .step
    · exact second write member step
    · exact first write member step

def stepsOnConstant : Program → Bool
  | ⟨[.declaration ⟨true, name, _, _⟩, .expression (.step (.name target _) _ _)]⟩ => target = name
  | _ => false

theorem not_keepsConstants_of_stepsOnConstant {p : Program} (steps : stepsOnConstant p = true) :
    ¬p.Everywhere KeepsConstants := by
  unfold stepsOnConstant at steps
  split at steps
  next name type value target type' operator type'' =>
    obtain rfl : target = name := by simpa using steps
    intro everywhere
    have keeps := everywhere.2.1 (.step, target) (by simp [Point.writes, Stmt.writes, Expr.writes])
    simp [Env.isConstant, Env.after, Env.bind, Declaration.binding] at keeps
  next => cases steps

/-- A step on a constant is accepted. -/
theorem step_on_constant_accepted :
    ∃ p, ofSource "const a: int = 1; a++;" "" true = .ok p ∧ ¬p.Everywhere KeepsConstants := by
  have read : (ofSource "const a: int = 1; a++;" "" true).toOption.any stepsOnConstant = true := by
    decide +kernel
  obtain ⟨p, accepted, steps⟩ := exists_ok_of_any read
  exact ⟨p, accepted, not_keepsConstants_of_stepsOnConstant steps⟩

def stepsOnVariable : Program → Bool
  | ⟨[.declaration ⟨true, _, _, .integer _ _⟩, .declaration ⟨false, free, _, .name _ _⟩,
      .expression (.assign _ _ (.name _ _) _), .expression (.step (.name target _) _ _)]⟩ =>
    target = free
  | _ => false

theorem stepsNoConstant_of_stepsOnVariable {p : Program} (steps : stepsOnVariable p = true) :
    p.Everywhere StepsNoConstant := by
  unfold stepsOnVariable at steps
  split at steps
  next =>
    obtain rfl := of_decide_eq_true steps
    simp [Program.Everywhere, Block.Everywhere, Stmt.Everywhere, StepsNoConstant, Point.writes,
      Stmt.writes, Expr.writes, Env.isConstant, Env.after, Env.bind, Declaration.binding]
  next => cases steps

theorem assigns_no_constant_variable :
    ∃ p, ofSource "const a: int = 1; var b: int = a; b += a; b++;" "" true = .ok p ∧
      p.Everywhere AssignsNoConstant ∧ p.Everywhere KeepsConstants := by
  have read : (ofSource "const a: int = 1; var b: int = a; b += a; b++;" "" true).toOption.any
    stepsOnVariable = true := by
    decide +kernel
  obtain ⟨p, accepted, steps⟩ := exists_ok_of_any read
  obtain ⟨tokens, _, accepted'⟩ := ofSource_eq_ok.mp accepted
  obtain ⟨assigns, keeps⟩ := assigns_no_constant accepted'
  exact ⟨p, accepted, assigns, keeps.mpr (stepsNoConstant_of_stepsOnVariable steps)⟩

end Program

end ColonScript
