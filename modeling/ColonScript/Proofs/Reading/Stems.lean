import ColonScript.Proofs.Mentions
import ColonScript.Proofs.Reading.Everywhere

/-! Where the expressions of a point come from. Each was read in the scopes of its point, and may
have been settled since; only the value of a variable that is declared without one is made up. So
what holds of every node when it is made holds of every node of every expression of a script. -/

namespace ColonScript

def Stmt.exprs : Stmt → List Expr
  | .expression e => [e]
  | .declaration declared => [declared.value]
  | .multiple _ values | .returning values => values
  | _ => []

def Point.exprs : Point → List Expr
  | .simple st => st.exprs
  | .condition e | .loopCondition e | .update e => [e]
  | .start begins => [begins.value]

def Target.existing? : Target → Option String
  | declared .. => none
  | existing name _ => some name

def Point.receivers : Point → List String
  | .simple (.multiple targets _) => targets.filterMap Target.existing?
  | .start (.declaration declared) => [declared.name]
  | _ => []

namespace Reading
variable {s s' : Session} {scopes : ScopeStack}

/-- What the scopes let an expression be: one that is read in them, one that is settled, or a
default value. -/
inductive Stems (scopes : ScopeStack) : Expr → Prop where
  | read {s s' : Session} {power : Power} {e : Expr} (same : s.scopes = scopes)
      (reads : Reads s (.expr power e) s') :
      Stems scopes e
  | settled {e : Expr} (type : Ty) (stems : Stems scopes e) : Stems scopes (e.settle type)
  | default {type : Ty} {e : Expr} (default : defaultValue? type = some e) : Stems scopes e

def StemAll (scopes : ScopeStack) (es : List Expr) : Prop := ∀ e ∈ es, Stems scopes e

theorem StemAll.nil : StemAll scopes [] := fun _ member => absurd member List.not_mem_nil

theorem StemAll.cons {e : Expr} {es : List Expr} (first : Stems scopes e)
    (rest : StemAll scopes es) :
    StemAll scopes (e :: es) := List.forall_mem_cons.mpr ⟨first, rest⟩

theorem StemAll.one {e : Expr} (stems : Stems scopes e) : StemAll scopes [e] := .cons stems .nil

theorem stems_of_reads {power : Power} {e : Expr} (reads : Reads s (.expr power e) s') :
    Stems s.scopes e :=
  .read rfl reads

theorem stems_of_placed {value : Expr × Position} (run : placed expression s = .ok value s')
    (same : s.scopes = scopes) :
    Stems scopes value.1 := .read same (reads_of_placed run)

theorem stems_of_separated {values : List (Expr × Position)}
    (run : separated (placed expression) s = .ok values s') :
    StemAll s.scopes (values.map (·.1)) := by
  have step : ∀ ⦃t : Session⦄ ⦃value : Expr × Position⦄ ⦃t' : Session⦄,
    placed expression t = .ok value t' →
      t.scopes = s.scopes → Stems s.scopes value.1 ∧ t'.scopes = s.scopes :=
    fun _ _ _ read same => ⟨stems_of_placed read same, (onward_placed read).scopes.trans same⟩
  have each := each_of_separated (I := fun t => t.scopes = s.scopes) advances_placed
    (fun _ same => same) step run rfl
  simpa [StemAll] using each.1

theorem StemAll.settled {es settled : List Expr} (same : Expr.AllSettled es settled)
    (stem : StemAll scopes es) : StemAll scopes settled :=
  same.each (fun type _ stems => .settled type stems) stem

/-! The nodes of what is read. -/

/-- A node that is made in the scopes has nothing of its own that does not hold. A function that is
called is known, and what is assigned to is no constant. -/
structure Grants {α : Type} (scopes : ScopeStack) (own : Expr → List α) (Holds : α → Prop) :
    Prop where
  call {callee : String} {function : Function} (known : scopes.function? callee = some function)
    (arguments : List Expr) (results : List Ty) :
    ∀ a ∈ own (.call callee arguments results), Holds a
  assign {target : String} (mutable : scopes.isConstant target = false)
    (operator : String) (value : Expr) (type : Ty) :
    ∀ a ∈ own (.assign target operator value type), Holds a
  other {e : Expr} (noCall : ∀ callee arguments results, e ≠ .call callee arguments results)
    (noAssign : ∀ target operator value type, e ≠ .assign target operator value type) :
    ∀ a ∈ own e, Holds a

section Gathered
variable {α : Type} {own gather : Expr → List α} {Holds : α → Prop} {e left right : Expr}

def AllHold (gather : Expr → List α) (Holds : α → Prop) (e : Expr) : Prop := ∀ a ∈ gather e, Holds a

theorem AllHold.of_children (gathers : Expr.Gathers own gather) (here : ∀ a ∈ own e, Holds a)
    (inside : ∀ child ∈ e.children, AllHold gather Holds child) : AllHold gather Holds e :=
  gathers.forall_iff.mpr ⟨here, inside⟩

theorem AllHold.settle (gathers : Expr.Gathers own gather) (holds : AllHold gather Holds e)
    (type : Ty) : AllHold gather Holds (e.settle type) := by
  rw [AllHold, gathers.settle]
  exact holds

variable (gathers : Expr.Gathers own gather) (grants : Grants scopes own Holds)
include gathers grants

theorem allHold_of_literal {token : Token} {make : Ty → Expr} {name : String}
    (literal : Literal token make name) (type : Ty) : AllHold gather Holds (make type) := by
  cases literal <;> exact .of_children gathers (grants.other (by simp) (by simp))
    (by simp [Expr.children])

theorem allHold_array {es : List Expr} (each : ∀ e ∈ es, AllHold gather Holds e)
    (wanted type : Ty) : AllHold gather Holds (.array (Expr.settleAll wanted es) type) := by
  rw [AllHold, gathers.settleAll]
  exact AllHold.of_children gathers (grants.other (by simp) (by simp)) each

theorem allHold_map {pairs : List (Expr × Expr)}
    (each : ∀ pair ∈ pairs, AllHold gather Holds pair.1 ∧ AllHold gather Holds pair.2)
    (wanted type : Ty) : AllHold gather Holds (.map (Expr.settleValues wanted pairs) type) := by
  rw [AllHold, gathers.settleValues]
  refine AllHold.of_children gathers (grants.other (by simp) (by simp)) fun child member => ?_
  obtain ⟨pair, among, held⟩ := List.mem_flatMap.mp member
  rcases List.mem_pair.mp held with rfl | rfl
  · exact (each pair among).1
  · exact (each pair among).2

theorem allHold_two (first : AllHold gather Holds left) (second : AllHold gather Holds right)
    (are : e.children = [left, right])
    (noCall : ∀ callee arguments results, e ≠ .call callee arguments results)
    (noAssign : ∀ target operator value type, e ≠ .assign target operator value type) :
    AllHold gather Holds e := by
  refine .of_children gathers (grants.other noCall noAssign) ?_
  rw [are, List.forall_mem_cons, List.forall_mem_singleton]
  exact ⟨first, second⟩

theorem allHold_combined (first : AllHold gather Holds left) (second : AllHold gather Holds right)
    (operator : String) (type : Ty) : AllHold gather Holds (combined left operator right type) := by
  unfold combined
  split
  · exact allHold_two gathers grants (first.settle gathers type) (second.settle gathers type) rfl
      (by simp) (by simp)
  · exact allHold_two gathers grants first second rfl (by simp) (by simp)

/-- Whatever is gathered from what is read holds, if it holds at every node when that is made. -/
theorem allHold_of_reads {phrase : Phrase} (reads : Reads s phrase s') (same : s.scopes = scopes) :
    phrase.Each (AllHold gather Holds) := by
  induction reads with
  | expr _ operandReads _ operand rest =>
    exact rest (operandReads.onward.scopes.trans same) (operand same)
  | literal token => exact allHold_of_literal gathers grants token _
  | name => exact .of_children gathers (grants.other (by simp) (by simp)) (by simp [Expr.children])
  | builtinCall _ _ known _ _ _ _ _ arguments =>
    exact .of_children gathers (grants.call (same ▸ known) _ _) (arguments same)
  | call _ _ known _ _ _ singles _ fitted arguments =>
    have settled := (settled_of_fitted fitted singles).each
      fun type e (holds : AllHold gather Holds e) => holds.settle gathers type
    exact .of_children gathers (grants.call (same ▸ known) _ _) (settled (arguments same))
  | array _ _ _ elements => exact allHold_array gathers grants (elements same) _ _
  | map _ _ _ entries => exact allHold_map gathers grants (entries same) _ _
  | group _ _ _ inner => exact inner same
  | unary _ _ _ _ operand =>
    exact .of_children gathers (grants.other (by simp) (by simp))
      (List.forall_mem_singleton.mpr (operand same))
  | stop => exact id
  | binary _ _ operandReads _ _ _ _ operand rest =>
    intro left
    exact rest (operandReads.onward.scopes.trans same)
      (allHold_combined gathers grants left (operand same) _ _)
  | step _ _ _ _ _ rest =>
    intro left
    exact rest same (.of_children gathers (grants.other (by simp) (by simp))
      (List.forall_mem_singleton.mpr left))
  | assign _ _ mutable valueReads _ _ _ value rest =>
    intro _
    refine rest (valueReads.onward.scopes.trans same)
      (.of_children gathers (grants.assign (same ▸ mutable) _ _ _)
        (List.forall_mem_singleton.mpr ?_))
    exact AllHold.settle gathers (value same) _
  | index _ _ _ innerReads _ _ _ _ _ inner rest =>
    intro left
    exact rest (innerReads.onward.scopes.trans same)
      (allHold_two gathers grants left (inner same) rfl (by simp) (by simp))
  | noElements | noEntries | noArguments => exact fun _ member => absurd member List.not_mem_nil
  | element _ separated valueReads _ _ _ value rest
  | argument _ separated valueReads _ value rest =>
    have before := (onward_separated separated).scopes.trans same
    exact List.forall_mem_cons.mpr ⟨value before, rest (valueReads.onward.scopes.trans before)⟩
  | entry _ separated keyReads _ _ valueReads _ _ _ _ _ key value rest =>
    have before := (onward_separated separated).scopes.trans same
    have between := keyReads.onward.scopes.trans before
    exact List.forall_mem_cons.mpr ⟨⟨key before, value between⟩,
      rest (valueReads.onward.scopes.trans between)⟩

theorem allHold_default {type : Ty} (default : defaultValue? type = some e) :
    AllHold gather Holds e := by
  unfold defaultValue? at default
  repeat' split at default
  all_goals cases default
  all_goals exact .of_children gathers (grants.other (by simp) (by simp)) (by simp [Expr.children])

theorem allHold_of_stems (stems : Stems scopes e) : AllHold gather Holds e := by
  induction stems with
  | read same reads => exact allHold_of_reads gathers grants reads same
  | settled type _ ih => exact ih.settle gathers type
  | default known => exact allHold_default gathers grants known

end Gathered

/-! The points. -/

structure Granted (scopes : ScopeStack) (point : Point) : Prop where
  receivers : ∀ name ∈ point.receivers, scopes.isConstant name = false
  exprs : StemAll scopes point.exprs

theorem Granted.of_exprs {point : Point} (none : point.receivers = [])
    (exprs : StemAll scopes point.exprs) :
    Granted scopes point := by
  refine ⟨fun name member => ?_, exprs⟩
  rw [none] at member
  cases member

def Mutable (scopes : ScopeStack) (target : Target) : Prop :=
  ∀ name, target.existing? = some name → scopes.isConstant name = false

theorem mutable_declared (constant : Bool) (name : String) (type : Ty) :
    Mutable scopes (.declared constant name type) := nofun

theorem mutable_of_existing {found : Receiver} (run : existing s = .ok found s') :
    Mutable s.scopes found.target := by
  obtain ⟨_, binding, _, mutable, rfl, _⟩ := ok_existing.mp run
  intro name is
  obtain rfl := Option.some.inj is
  exact mutable

theorem mutable_of_receivers {receivers : List Receiver}
    (repeats : AfterCommas receiver s receivers s') (same : s.scopes = scopes) :
    ∀ found ∈ receivers, Mutable scopes found.target := by
  induction repeats with
  | done => exact fun _ member => absurd member List.not_mem_nil
  | next _ first _ ih =>
    refine List.forall_mem_cons.mpr ⟨?_, ih ((onward_receiver first.2).scopes.trans same)⟩
    obtain ⟨_, declared, _, rfl⟩ | exists' := ok_receiver.mp first.2
    · exact mutable_declared _ _ _
    · have mutable := mutable_of_existing exists'
      rwa [Session.next_scopes, same] at mutable

theorem granted_of_multipleRest {first : Receiver} {st : Stmt}
    (run : multipleRest first s = .ok st s') (mutable : Mutable s.scopes first.target) :
    Granted s.scopes (.simple st) := by
  obtain ⟨others, values, settled, scopes, s₁, s₂, s₃, receivers, _, given, _,
    distributed, _, rfl, _⟩ :=
    ok_multipleRest.mp run
  have between : s₁.next.scopes = s.scopes := (onward_afterCommas onward_receiver receivers).scopes
  have values := stems_of_separated given
  rw [between] at values
  refine ⟨fun name member => ?_, values.settled (settled_of_distributed distributed)⟩
  obtain ⟨target, among, is⟩ := List.mem_filterMap.mp member
  obtain ⟨found, inside, rfl⟩ := List.mem_map.mp among
  rcases List.mem_cons.mp inside with rfl | inside
  · exact mutable name is
  · exact mutable_of_receivers receivers rfl found inside name is

theorem stems_of_declarationRest {found : Head} {declaration : Declaration}
    (run : declarationRest found s = .ok declaration s') : Stems s.scopes declaration.value := by
  obtain ⟨value, s₁, scopes, ⟨_, default⟩ | ⟨_, given⟩, _, _, rfl, _⟩ := ok_declarationRest.mp run
  · obtain ⟨_, known, _⟩ := ok_defaultValue.mp default
    exact .default known
  · obtain ⟨_, e, type, both, s₂, reads, _, _, rfl, _⟩ := ok_givenValue.mp given
    have stems := stems_of_reads reads
    exact .settled both stems

/-- A name that can be declared is bound to no constant. -/
theorem mutable_of_declare {scopes' : ScopeStack} {binding : Binding} {position : Position}
    (declares : scopes.declare binding position = .ok scopes') :
    scopes.isConstant binding.name = false := by
  unfold ScopeStack.declare at declares
  unfold ScopeStack.isConstant
  cases known : scopes.binding? binding.name with
  | none => rfl
  | some old =>
    simp only [known] at declares
    split at declares
    next => cases declares
    next mutable => simpa using mutable

theorem mutable_of_declarationRest {found : Head} {declaration : Declaration}
    (run : declarationRest found s = .ok declaration s') :
    s.scopes.isConstant declaration.name = false := by
  obtain ⟨value, s₁, scopes, given, _, declares, rfl, _⟩ := ok_declarationRest.mp run
  have mutable := mutable_of_declare declares
  rcases given with ⟨_, default⟩ | ⟨_, given⟩
  · obtain ⟨_, _, rfl⟩ := ok_defaultValue.mp default
    exact mutable
  · rw [(onward_givenValue given).scopes] at mutable
    exact mutable

theorem stems_of_givenResults {values : List (Expr × Position)}
    (run : givenResults s = .ok values s') :
    StemAll s.scopes (values.map (·.1)) := by
  obtain ⟨_, ⟨_, s₁, list, _, _⟩ | ⟨_, e, reads, _, rfl⟩⟩ := ok_givenResults.mp run
  · have values := stems_of_separated list
    exact values
  · have value := stems_of_reads reads
    exact .one value

theorem stems_of_returnStatement {st : Stmt} (run : returnStatement s = .ok st s') :
    StemAll s.scopes st.exprs := by
  obtain ⟨function, values, s₁, _, given, _, _, types, settled, pool, singles, fitted, rfl, _⟩ :=
    ok_returnStatement.mp run
  have stem : StemAll s.scopes (values.map (·.1)) := by
    rcases given with ⟨_, rfl, _⟩ | ⟨_, given⟩
    · exact .nil
    · have values := stems_of_givenResults given
      exact values
  exact stem.settled (settled_of_fitted fitted singles)

theorem Simple.granted {st : Stmt} (simple : Simple s st s') : Granted s.scopes (.simple st) := by
  cases simple with
  | expression _ read =>
    obtain ⟨_, found, s₁, exists', rest⟩ | ⟨_, e, s₁, reads, _, _, rfl, _⟩ :=
      ok_expressionStatement.mp read
    · have mutable := mutable_of_existing exists'
      rw [← (onward_existing exists').scopes] at mutable ⊢
      exact granted_of_multipleRest rest mutable
    · exact .of_exprs rfl (StemAll.one (stems_of_reads reads))
  | declaration kind read =>
    obtain ⟨found, s₁, heads, rest⟩ := ok_declarationStatement.mp read
    rw [← (onward_head kind heads).scopes]
    obtain ⟨_, rest⟩ | ⟨_, declaration, rest, rfl⟩ := rest
    · exact granted_of_multipleRest rest (mutable_declared _ _ _)
    · exact .of_exprs rfl (StemAll.one (stems_of_declarationRest rest))
  | returning _ read =>
    have exprs := stems_of_returnStatement read
    obtain ⟨_, _, _, _, _, _, _, _, _, _, _, _, rfl, _⟩ := ok_returnStatement.mp read
    exact .of_exprs rfl exprs
  | control _ read =>
    obtain ⟨_, _, rfl, _⟩ := ok_loopControl.mp read
    split <;> exact .of_exprs rfl .nil

theorem granted_of_startOfLoop {start : Start} (run : startOfLoop s = .ok start s') :
    Granted s.scopes (.start start) := by
  obtain ⟨kind, found, declaration, s₁, heads, _, rest, rfl⟩ |
    ⟨_, target, value, type, s₁, reads, _, _, rfl, _⟩ :=
    ok_startOfLoop.mp run
  · rw [← (onward_head (.inl kind) heads).scopes]
    exact ⟨List.forall_mem_singleton.mpr (mutable_of_declarationRest rest),
      .one (stems_of_declarationRest rest)⟩
  · exact .of_exprs rfl (.one (stems_of_reads reads))

/-- A property of points that follows from where their expressions come from holds at every
point. -/
theorem pointwise_of_granted {P : Env → Point → Prop}
    (holds : ∀ {env s point}, Agrees env s → Granted s.scopes point → P env point) :
    Pointwise (fun _ => True) P where
  simple agrees _ simple := ⟨holds agrees simple.granted, trivial⟩
  condition agrees _ read := by
    obtain ⟨_, _, type, s₁, reads, _⟩ := ok_condition.mp read
    have stems := stems_of_reads reads
    exact ⟨holds agrees (.of_exprs rfl (.one stems)), trivial⟩
  start agrees _ read := ⟨holds agrees (granted_of_startOfLoop read), trivial⟩
  loopCondition agrees _ reads _ :=
    ⟨holds agrees (.of_exprs rfl (.one (stems_of_reads reads))), trivial⟩
  update agrees _ reads _ := ⟨holds agrees (.of_exprs rfl (.one (stems_of_reads reads))), trivial⟩
  next := id
  push := id
  looping := id
  leave _ := id
  heads _ _ := ⟨trivial, fun _ => ⟨trivial, fun _ => trivial⟩⟩

end Reading

end ColonScript
