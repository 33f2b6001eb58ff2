import ColonScript.Proofs.Environment

/-! The scopes of a reading agree at every point with the environment that the tree gives the point.
So what is to be shown of every point of an accepted script needs to be shown of one point at a
time, in a state whose scopes agree with its environment. -/

namespace ColonScript.Reading
open Token (Kind)

structure Sees (env : Env) (scopes : ScopeStack) : Prop where
  bindings : ∀ name, scopes.binding? name = env.binding? name
  callees : ∀ name, scopes.callee? name = env.callee? name

namespace Sees
variable {env : Env} {scopes scopes' : ScopeStack}

theorem push (sees : Sees env scopes) : Sees env scopes.push := ⟨sees.bindings, sees.callees⟩

theorem alike (sees : Sees env scopes) (alike : ScopeStack.Alike scopes scopes') :
    Sees env scopes' := by
  refine ⟨fun name => ?_, fun name => ?_⟩
  · rw [alike.binding?_eq, sees.bindings]
  · rw [alike.callee?_eq, sees.callees]

theorem bind (sees : Sees env scopes) (binding : Binding) :
    Sees (env.bind binding) (scopes.modifyInnermost (Scope.bind binding)) := by
  refine ⟨fun name => ?_, fun name => ?_⟩
  · rw [ScopeStack.modifyInnermost_bind_binding?, sees.bindings]
    rfl
  · rw [ScopeStack.modifyInnermost_bind_callee?, sees.callees]
    rfl

theorem declare {binding : Binding} {position : Position} (sees : Sees env scopes)
    (declares : scopes.declare binding position = .ok scopes') :
    Sees (env.bind binding) scopes' := by
  rw [ScopeStack.eq_of_declare declares]
  exact sees.bind binding

theorem declareAll {receivers : List Receiver} (sees : Sees env scopes)
    (declares : DeclaresAll scopes receivers scopes') :
    Sees (env.bindAll ((receivers.map Receiver.target).filterMap Target.binding?)) scopes' := by
  induction declares generalizing env with
  | nil => exact sees
  | declared declares _ ih => exact ih (sees.declare declares)
  | existing _ ih => exact ih sees

theorem declareParameters {parameters : List Parameter} {position : Position}
    (sees : Sees env scopes) (declares : DeclaresParameters position scopes parameters scopes') :
    Sees (env.bindAll (parameters.map Parameter.binding)) scopes' := by
  induction declares generalizing env with
  | nil => exact sees
  | cons declares _ ih =>
    refine ih ?_
    rw [ScopeStack.eq_of_declareParameter declares]
    exact sees.bind _

theorem register {signature : Signature} {stage : Stage} {position : Position}
    (sees : Sees env scopes) (own : ∀ builtin, stage ≠ .builtin builtin)
    (registers : scopes.register ⟨signature, stage⟩ position = .ok scopes') :
    Sees (env.register signature) scopes' := by
  obtain ⟨unknown, rfl⟩ | ⟨known, found, declared, _, _, rfl⟩ := ScopeStack.register_cases registers
  · refine ⟨fun name => ?_, fun name => ?_⟩
    · rw [ScopeStack.modifyInnermost_add_binding?, sees.bindings]
      rfl
    · have none : env.callee? signature.name = none := by
        rw [← sees.callees, ScopeStack.callee?, unknown]
        rfl
      have callee : Function.callee ⟨signature, stage⟩ = ⟨signature, Option.none⟩ := by
        cases stage with
        | builtin builtin => exact absurd rfl (own builtin)
        | _ => rfl
      rw [ScopeStack.modifyInnermost_add_callee?, sees.callees, callee]
      simp only [Env.register]
      split
      next same => rw [← same, none, Option.none_or]
      next => rw [Option.or_none]
  · have still := sees.alike (ScopeStack.alike_complete found declared)
    refine ⟨still.bindings, fun name => ?_⟩
    rw [still.callees]
    simp only [Env.register]
    split
    next same =>
      rw [← same, ← sees.callees, ScopeStack.callee?, found]
      rfl
    next => rw [Option.or_none]

theorem initial : Sees .initial .initial := by
  refine ⟨fun name => rfl, fun name => ?_⟩
  simp only [ScopeStack.callee?, ScopeStack.function?, ScopeStack.initial, ScopeStack.toList,
    List.nil_append, List.findSome?_cons, List.findSome?_nil, Function.get?_ofBuiltins, Env.initial,
    Builtin.ofName?]
  cases Builtin.all.find? fun builtin => builtin.name = name <;> rfl

end Sees

/-! A statement leaves the scopes around its own as they were, but for the stages of functions. -/

variable {s s' : Session}

theorem grown_declare {scopes scopes' : ScopeStack} {binding : Binding} {position : Position}
    (declares : scopes.declare binding position = .ok scopes') :
    ScopeStack.Grown scopes scopes' := by
  rw [ScopeStack.eq_of_declare declares]
  exact ScopeStack.grown_modifyInnermost _ _

theorem grown_declareAll {scopes scopes' : ScopeStack} {receivers : List Receiver}
    (declares : DeclaresAll scopes receivers scopes') : ScopeStack.Grown scopes scopes' := by
  induction declares with
  | nil => exact .refl _
  | declared declares _ ih => exact (grown_declare declares).trans ih
  | existing _ ih => exact ih

theorem grown_declareParameters {scopes scopes' : ScopeStack} {parameters : List Parameter}
    {position : Position} (declares : DeclaresParameters position scopes parameters scopes') :
    ScopeStack.Grown scopes scopes' := by
  induction declares with
  | nil => exact .refl _
  | cons declares _ ih =>
    refine ScopeStack.Grown.trans ?_ ih
    rw [ScopeStack.eq_of_declareParameter declares]
    exact ScopeStack.grown_modifyInnermost _ _

theorem Onward.grown (onward : Onward s s') : ScopeStack.Grown s.scopes s'.scopes := by
  rw [onward.scopes]
  exact .refl _

theorem Onward.alike (onward : Onward s s') : ScopeStack.Alike s.scopes s'.scopes := by
  rw [onward.scopes]
  exact .refl _

/-- What a part without statements inside does to the scopes: it declares names when all else is
read. The change is the one that its environment sees. -/
inductive Declares (s : Session) (change : Env → Env) : Session → Prop where
  | intro {s₁ : Session} {receivers : List Receiver} {scopes : ScopeStack} (onward : Onward s s₁)
      (declares : DeclaresAll s₁.scopes receivers scopes)
      (changes : ∀ env, change env = env.bindAll
        ((receivers.map Receiver.target).filterMap Target.binding?)) :
      Declares s change (s₁.withScopes scopes)

namespace Declares
variable {s₁ : Session} {change : Env → Env}

theorem of_onward (onward : Onward s s') (same : ∀ env, change env = env) : Declares s change s' :=
  .intro onward .nil same

theorem before (onward : Onward s s₁) (declares : Declares s₁ change s') :
    Declares s change s' := by
  obtain ⟨later, all, changes⟩ := declares
  exact .intro (onward.trans later) all changes

theorem grown (declares : Declares s change s') : ScopeStack.Grown s.scopes s'.scopes := by
  obtain ⟨onward, all, _⟩ := declares
  exact onward.grown.trans (grown_declareAll all)

theorem sees (declares : Declares s change s') {env : Env} (sees : Sees env s.scopes) :
    Sees (change env) s'.scopes := by
  obtain ⟨onward, all, changes⟩ := declares
  rw [changes]
  refine Sees.declareAll ?_ all
  rw [onward.scopes]
  exact sees

end Declares

theorem declares_declarationRest {found : Head} {declaration : Declaration}
    (run : declarationRest found s = .ok declaration s') :
    Declares s (Env.bind declaration.binding) s' := by
  obtain ⟨value, s₁, scopes, given, ends, declares, rfl, rfl⟩ := ok_declarationRest.mp run
  have onward : Onward s s₁ := by
    rcases given with ⟨_, default⟩ | ⟨_, given⟩
    · obtain ⟨_, _, rfl⟩ := ok_defaultValue.mp default
      exact .refl _
    · exact onward_givenValue given
  have all : DeclaresAll s₁.scopes [.declared found] scopes := .declared declares .nil
  exact .intro (onward.trans (onward_next ends rfl)) all fun _ => rfl

theorem declares_multipleRest {first : Receiver} {st : Stmt}
    (run : multipleRest first s = .ok st s') :
    Declares s (Env.after · st) s' := by
  obtain ⟨others, values, settled, scopes, s₁, s₂, s₃, receivers, assign, given, ends,
    distributed, declares, rfl, rfl⟩ := ok_multipleRest.mp run
  have targets := (onward_afterCommas onward_receiver receivers).trans (onward_next assign rfl)
  have whole := (targets.trans (onward_separatedBy advances_placed onward_placed given)).trans
    (onward_next ends rfl)
  exact .intro (whole.trans (onward_distributed distributed)) declares fun _ => rfl

theorem declares_declarationStatement {st : Stmt} (kind : s.kind = .varWord ∨ s.kind = .constWord)
    (run : declarationStatement s = .ok st s') : Declares s (Env.after · st) s' := by
  obtain ⟨found, s₁, heads, ⟨_, rest⟩ | ⟨_, declaration, rest, rfl⟩⟩ :=
    ok_declarationStatement.mp run
  · exact (declares_multipleRest rest).before (onward_head kind heads)
  · exact (declares_declarationRest rest).before (onward_head kind heads)

theorem declares_expressionStatement {st : Stmt} (run : expressionStatement s = .ok st s') :
    Declares s (Env.after · st) s' := by
  obtain ⟨_, found, s₁, exists', rest⟩ | ⟨_, e, s₁, reads, _, ends, rfl, rfl⟩ :=
    ok_expressionStatement.mp run
  · exact (declares_multipleRest rest).before (onward_existing exists')
  · exact .of_onward (reads.onward.trans (onward_next ends rfl)) fun _ => rfl

theorem declares_returnStatement {st : Stmt} (kind : s.kind = .returnWord)
    (run : returnStatement s = .ok st s') :
    Declares s (Env.after · st) s' := by
  have onward := (onward_returnStatement kind run).1
  obtain ⟨_, _, _, _, _, _, _, _, _, _, _, _, rfl, _⟩ := ok_returnStatement.mp run
  exact .of_onward onward fun _ => rfl

theorem declares_loopControl {st : Stmt} (kind : s.kind = .continueWord ∨ s.kind = .breakWord)
    (run : loopControl s = .ok st s') : Declares s (Env.after · st) s' := by
  have onward : Onward s s' := by
    rcases kind with kind | kind
    · exact onward_loopControl kind rfl run
    · exact onward_loopControl kind rfl run
  obtain ⟨_, _, rfl, _⟩ := ok_loopControl.mp run
  refine .of_onward onward fun _ => ?_
  split <;> rfl

theorem declares_startOfLoop {start : Start} (run : startOfLoop s = .ok start s') :
    Declares s (Env.started · start) s' := by
  obtain ⟨kind, found, declaration, s₁, heads, _, rest, rfl⟩ |
    ⟨_, target, value, type, s₁, reads, _, ends, rfl, rfl⟩ := ok_startOfLoop.mp run
  · exact (declares_declarationRest rest).before (onward_head (.inl kind) heads)
  · exact .of_onward (reads.onward.trans (onward_next ends rfl)) fun _ => rfl

inductive Simple (s : Session) (st : Stmt) (s' : Session) : Prop where
  | expression (form : s.grammar.form? s.kind = none) (read : expressionStatement s = .ok st s')
  | declaration (kind : s.kind = .varWord ∨ s.kind = .constWord)
    (read : declarationStatement s = .ok st s')
  | returning (kind : s.kind = .returnWord) (read : returnStatement s = .ok st s')
  | control (kind : s.kind = .continueWord ∨ s.kind = .breakWord) (read : loopControl s = .ok st s')

theorem Simple.declares {st : Stmt} (simple : Simple s st s') : Declares s (Env.after · st) s' := by
  cases simple with
  | expression _ read => exact declares_expressionStatement read
  | declaration kind read => exact declares_declarationStatement kind read
  | returning kind read => exact declares_returnStatement kind read
  | control kind read => exact declares_loopControl kind read

theorem grown_loopHeader {start : Start} {condition update : Expr}
    (run : loopHeader s = .ok (start, condition, update) s') :
    ScopeStack.Grown s.scopes s'.scopes := by
  obtain ⟨s₁, s₂, begins, conditionReads, _, ends, updateReads, _⟩ := ok_loopHeader.mp run
  have after := (conditionReads.onward.trans (onward_next ends rfl)).trans updateReads.onward
  exact (declares_startOfLoop begins).grown.trans after.grown

theorem grown_of_performs {sentence : Sentence} (performs : Performs s sentence s') :
    ScopeStack.Grown s.scopes s'.scopes := by
  induction performs with
  | expression _ form read => exact (Simple.expression form read).declares.grown
  | declaration _ form read =>
    exact (Simple.declaration (kind_of_declaration form) read).declares.grown
  | returning _ form read => exact (Simple.returning (kind_of_returning form) read).declares.grown
  | control _ form read => exact (Simple.control (kind_of_control form) read).declares.grown
  | forward _ form heads _ registered =>
    exact (onward_heads (kind_of_function form) heads).grown.trans
      (ScopeStack.grown_register registered)
  | define _ form heads _ registered declared _ _ inside =>
    have before := (onward_heads (kind_of_function form) heads).grown.trans
      (ScopeStack.grown_register registered)
    have body : ScopeStack.Grown _ _ := (grown_declareParameters declared).trans inside
    exact before.trans body.alike_pop.grown
  | branch _ _ kind read _ _ _ body others last =>
    have before := (onward_conditional kind rfl read).grown
    exact ((before.trans body.alike_pop.grown).trans others).trans last
  | forLoop _ _ kind colon opens header closes ends _ body =>
    have first := (onward_three kind rfl colon rfl opens rfl).grown
    exact first.trans (((grown_loopHeader header).trans body).alike_pop).grown
  | whileLoop _ _ kind read _ body =>
    have before := (onward_conditional kind rfl read).grown
    exact before.trans body.alike_pop.grown
  | block _ _ _ inside => exact inside
  | noStatements | noClauses | noOtherwise | noScript => exact .refl _
  | statements _ _ _ _ first rest | script _ _ _ first rest => exact first.trans rest
  | clauses kind read _ _ body rest =>
    have before := (onward_conditional kind rfl read).grown
    exact (before.trans body.alike_pop.grown).trans rest
  | otherwise kind colon _ body => exact body.alike_pop.grown

/-- The scopes agree with the environment, and so does the function around. -/
structure Agrees (env : Env) (s : Session) : Prop where
  sees : Sees env s.scopes
  function : s.place.function = env.function

namespace Agrees
variable {env : Env} {s₁ : Session}

theorem onward (agrees : Agrees env s) (onward : Onward s s') : Agrees env s' := by
  refine ⟨?_, ?_⟩
  · rw [onward.scopes]
    exact agrees.sees
  · rw [onward.place]
    exact agrees.function

theorem next (agrees : Agrees env s) : Agrees env s.next := ⟨agrees.sees, agrees.function⟩

theorem push (agrees : Agrees env s) : Agrees env s.push := ⟨agrees.sees.push, agrees.function⟩

theorem declares {change : Env → Env} (agrees : Agrees env s) (declares : Declares s change s') :
    Agrees (change env) s' := by
  refine ⟨declares.sees agrees.sees, ?_⟩
  obtain ⟨onward, _, changes⟩ := declares
  rw [changes, Env.bindAll_function, ← agrees.function]
  exact congrArg Place.function onward.place

theorem alike (agrees : Agrees env s) (alike : ScopeStack.Alike s.scopes s'.scopes)
    (place : s'.place = s.place) :
    Agrees env s' := by
  refine ⟨agrees.sees.alike alike, ?_⟩
  rw [place]
  exact agrees.function

theorem looping (agrees : Agrees env s) : Agrees env (s.withPlace s.place.looping) :=
  ⟨agrees.sees, agrees.function⟩

theorem enter {signature : Signature} {scopes inner : ScopeStack} {position position' : Position}
    (agrees : Agrees env s)
    (registered : s.scopes.register ⟨signature, .defined⟩ position = .ok scopes)
    (declared : DeclaresParameters position' scopes.push signature.parameters inner) :
    Agrees (env.enter signature) ((s.withPlace (.inside signature s.place)).withScopes inner) := by
  have sees := ((agrees.sees.register (by simp) registered).push).declareParameters declared
  exact ⟨⟨sees.bindings, sees.callees⟩, rfl⟩

end Agrees

theorem alike_of_clauses {clauses : List (Expr × Block)}
    (performs : Performs s (.clauses clauses) s') :
    ScopeStack.Alike s.scopes s'.scopes := by
  induction clauses generalizing s with
  | nil =>
    cases performs
    exact .refl _
  | cons clause rest ih =>
    cases performs with
    | clauses kind read inside others =>
      have before := (onward_conditional kind rfl read).alike
      exact (before.trans (grown_of_performs inside).alike_pop).trans (ih others)

theorem alike_of_otherwise {otherwise : Option Block}
    (performs : Performs s (.otherwise otherwise) s') :
    ScopeStack.Alike s.scopes s'.scopes := by
  cases performs with
  | noOtherwise => exact .refl _
  | otherwise kind colon inside => exact (grown_of_performs inside).alike_pop

theorem agrees_after {env : Env} {st : Stmt} (agrees : Agrees env s)
    (performs : Performs s (.stmt st) s') :
    Agrees (env.after st) s' := by
  have place := (forward_of_performs performs).place
  cases performs with
  | expression _ form read => exact agrees.declares (Simple.expression form read).declares
  | declaration _ form read =>
    exact agrees.declares (Simple.declaration (kind_of_declaration form) read).declares
  | returning _ form read =>
    exact agrees.declares (Simple.returning (kind_of_returning form) read).declares
  | control _ form read =>
    exact agrees.declares (Simple.control (kind_of_control form) read).declares
  | forward _ form heads _ registered =>
    have before := agrees.onward (onward_heads (kind_of_function form) heads)
    exact ⟨before.sees.register (by simp) registered, before.function⟩
  | define _ form heads _ registered declared inside =>
    have before := agrees.onward (onward_heads (kind_of_function form) heads)
    have body := (grown_declareParameters declared).trans (grown_of_performs inside)
    exact ⟨(before.sees.register (by simp) registered).alike body.alike_pop, before.function⟩
  | branch _ _ kind read inside others last =>
    have before := (onward_conditional kind rfl read).alike
    have body := before.trans (grown_of_performs inside).alike_pop
    exact agrees.alike ((body.trans (alike_of_clauses others)).trans (alike_of_otherwise last))
      place
  | forLoop _ _ kind colon opens header closes ends inside =>
    have before := (onward_three kind rfl colon rfl opens rfl).alike
    have body := grown_of_performs inside
    exact agrees.alike (before.trans ((grown_loopHeader header).trans body).alike_pop) place
  | whileLoop _ _ kind read inside =>
    have before := (onward_conditional kind rfl read).alike
    exact agrees.alike (before.trans (grown_of_performs inside).alike_pop) place

/-- What has to be shown of each kind of point, and of each step between them, for a property of
points and one of states that holds on the way. -/
structure Pointwise (I : Session → Prop) (P : Env → Point → Prop) : Prop where
  simple : ∀ {env s st s'}, Agrees env s → I s → Simple s st s' → P env (.simple st) ∧ I s'
  condition : ∀ {env s e s'} {statement : String}, Agrees env s → I s →
    Reading.condition statement s = .ok e s' →
    P env (.condition e) ∧ I s'
  start : ∀ {env s start s'}, Agrees env s → I s → startOfLoop s = .ok start s' →
    P env (.start start) ∧ I s'
  loopCondition : ∀ {env s e s'}, Agrees env s → I s → Reads s (.expr .lowest e) s' →
    isLoopCondition e = true →
    P env (.loopCondition e) ∧ I s'
  update : ∀ {env s e s'}, Agrees env s → I s → Reads s (.expr .lowest e) s' →
    isLoopUpdate e = true →
    P env (.update e) ∧ I s'
  next : ∀ {s}, I s → I s.next
  push : ∀ {s}, I s → I s.push
  looping : ∀ {s}, I s → I (s.withPlace s.place.looping)
  leave : ∀ {s inner}, I s → I inner → I (inner.pop.withPlace s.place)
  heads : ∀ {s s'} {signature : Signature}, I s → Heads s signature s' → I s' ∧
    ∀ {stage position scopes}, s'.scopes.register ⟨signature, stage⟩ position = .ok scopes →
      I (s'.withScopes scopes) ∧
        ∀ {position inner}, DeclaresParameters position scopes.push signature.parameters inner →
          I ((s'.withPlace (.inside signature s'.place)).withScopes inner)

def Sentence.Everywhere (P : Env → Point → Prop) (env : Env) : Sentence → Prop
  | .stmt st => st.Everywhere P env
  | .block body | .statements body | .script body => Block.Everywhere P env body
  | .clauses rest => Block.EverywhereOf P env rest
  | .otherwise last => Block.EverywhereIn P env last

theorem pop_eq_leave (place : s'.place = s.place) : s'.pop = s'.pop.withPlace s.place := by
  rw [← place]
  rfl

theorem everywhere_simple {P : Env → Point → Prop} {env : Env} {st : Stmt} (simple : Simple s st s')
    (holds : P env (.simple st)) : st.Everywhere P env := by
  cases simple with
  | expression _ read =>
    obtain ⟨_, found, s₁, _, rest⟩ | ⟨_, e, s₁, _, _, _, rfl, _⟩ := ok_expressionStatement.mp read
    · obtain ⟨_, _, _, _, _, _, _, _, _, _, _, _, _, rfl, _⟩ := ok_multipleRest.mp rest
      exact holds
    · exact holds
  | declaration _ read =>
    obtain ⟨found, s₁, _, ⟨_, rest⟩ | ⟨_, declaration, _, rfl⟩⟩ := ok_declarationStatement.mp read
    · obtain ⟨_, _, _, _, _, _, _, _, _, _, _, _, _, rfl, _⟩ := ok_multipleRest.mp rest
      exact holds
    · exact holds
  | returning _ read =>
    obtain ⟨_, _, _, _, _, _, _, _, _, _, _, _, rfl, _⟩ := ok_returnStatement.mp read
    exact holds
  | control _ read =>
    obtain ⟨_, _, same, _⟩ := ok_loopControl.mp read
    by_cases continues : s.kind = .continueWord
    · rw [if_pos continues] at same
      subst same
      exact holds
    · rw [if_neg continues] at same
      subst same
      exact holds

section
variable {I : Session → Prop} {P : Env → Point → Prop} {env : Env} {s₁ s₂ : Session}
    {condition : Expr} {body : Block}

namespace Pointwise

theorem stmt {st : Stmt} (pointwise : Pointwise I P) (agrees : Agrees env s) (holds : I s)
    (simple : Simple s st s') :
    st.Everywhere P env ∧ I s' :=
  (pointwise.simple agrees holds simple).imp_left (everywhere_simple simple)

theorem define {signature : Signature} {scopes inner : ScopeStack} (pointwise : Pointwise I P)
    (agrees : Agrees env s) (holds : I s) (kind : s.kind = .funWord) (heads : Heads s signature s₁)
    (registered : s₁.scopes.register ⟨signature, .defined⟩ s.here = .ok scopes)
    (declared : DeclaresParameters s.here scopes.push signature.parameters inner)
    (inside : ∀ {env}, Agrees env ((s₁.withPlace (.inside signature s₁.place)).withScopes inner) →
      I ((s₁.withPlace (.inside signature s₁.place)).withScopes inner) →
      Block.Everywhere P env body ∧ I s₂) :
    Block.Everywhere P (env.enter signature) body ∧ I (s₂.pop.withPlace s₁.place) := by
  have header := pointwise.heads holds heads
  have before := agrees.onward (onward_heads kind heads)
  exact (inside (before.enter registered declared) ((header.2 registered).2 declared)).imp_right
    (pointwise.leave header.1)

/-- A condition with the body that depends on it, as `if` and `else if` have them. -/
theorem conditional {statement : String} {kind : Kind} (pointwise : Pointwise I P)
    (agrees : Agrees env s) (holds : I s) (is : s.kind = kind) (sentence : inSentence kind = true)
    (read : Reading.condition statement s.next = .ok condition s₁)
    (inside : Performs s₁.push (.block body) s₂)
    (bodyHolds : ∀ {env}, Agrees env s₁.push → I s₁.push → Block.Everywhere P env body ∧ I s₂) :
    P env (.condition condition) ∧ Block.Everywhere P env body ∧ Agrees env s₂.pop ∧ I s₂.pop := by
  have opened := agrees.onward (onward_next is sentence)
  have head := pointwise.condition opened (pointwise.next holds) read
  have before := opened.onward (onward_condition read)
  have body := bodyHolds before.push (pointwise.push head.2)
  have place : s₂.place = s₁.place := (forward_of_performs inside).place
  have left := pointwise.leave head.2 body.2
  rw [← pop_eq_leave place] at left
  exact ⟨head.1, body.1, before.alike (grown_of_performs inside).alike_pop place, left⟩

theorem header {start : Start} {update : Expr} (pointwise : Pointwise I P) (agrees : Agrees env s)
    (holds : I s) (read : loopHeader s = .ok (start, condition, update) s') :
    P env (.start start) ∧ P (env.started start) (.loopCondition condition) ∧
      P (env.started start) (.update update) ∧ Agrees (env.started start) s' ∧ I s' := by
  obtain ⟨t₁, t₂, begins, conditionReads, isCondition, ends, updateReads, isUpdate⟩ :=
    ok_loopHeader.mp read
  have first := pointwise.start agrees holds begins
  have started := agrees.declares (declares_startOfLoop begins)
  have second := pointwise.loopCondition started first.2 conditionReads isCondition
  have between := (started.onward conditionReads.onward).onward (onward_next ends rfl)
  have third := pointwise.update between (pointwise.next second.2) updateReads isUpdate
  exact ⟨first.1, second.1, third.1, between.onward updateReads.onward, third.2⟩

theorem whileLoop (pointwise : Pointwise I P) (agrees : Agrees env s) (holds : I s)
    (kind : s.kind = .whileWord) (read : Reading.condition "while" s.next = .ok condition s₁)
    (bodyHolds : ∀ {env}, Agrees env (s₁.withPlace s₁.place.looping).push →
      I (s₁.withPlace s₁.place.looping).push → Block.Everywhere P env body ∧ I s₂) :
    (Stmt.whileLoop condition body).Everywhere P env ∧ I (s₂.pop.withPlace s₁.place) := by
  have opened := agrees.onward (onward_next kind rfl)
  have head := pointwise.condition opened (pointwise.next holds) read
  have before := opened.onward (onward_condition read)
  have body := bodyHolds before.looping.push (pointwise.push (pointwise.looping head.2))
  exact ⟨⟨head.1, body.1⟩, pointwise.leave head.2 body.2⟩

end Pointwise

/-- A property of points holds at every point of whatever is read, if it holds at each point on its
own. -/
theorem everywhere_of_performs (pointwise : Pointwise I P) {sentence : Sentence}
    (performs : Performs s sentence s') :
    ∀ {env}, Agrees env s → I s → sentence.Everywhere P env ∧ I s' := by
  induction performs with
  | expression _ form read =>
    exact fun agrees holds => pointwise.stmt agrees holds (.expression form read)
  | declaration _ form read =>
    exact fun agrees holds => pointwise.stmt agrees holds
      (.declaration (kind_of_declaration form) read)
  | returning _ form read =>
    exact fun agrees holds => pointwise.stmt agrees holds (.returning (kind_of_returning form) read)
  | control _ form read =>
    exact fun agrees holds => pointwise.stmt agrees holds (.control (kind_of_control form) read)
  | @forward s s₁ signature scopes _ _ heads _ registered =>
    intro env agrees holds
    have header := (pointwise.heads holds heads).2 registered
    exact ⟨trivial, pointwise.next (s := s₁.withScopes scopes) header.1⟩
  | define _ form heads _ registered declared _ _ inside =>
    exact fun agrees holds =>
      pointwise.define agrees holds (kind_of_function form) heads registered declared inside
  | branch _ _ kind read inside others _ bodyHolds clausesHold lastHolds =>
    intro env agrees holds
    obtain ⟨head, body, after, left⟩ :=
      pointwise.conditional agrees holds kind rfl read inside bodyHolds
    obtain ⟨rest, behind⟩ := clausesHold after left
    obtain ⟨final, last⟩ :=
      lastHolds (after.alike (alike_of_clauses others) (forward_of_performs others).place) behind
    exact ⟨⟨head, body, rest, final⟩, last⟩
  | @forLoop s s₁ s₂ start condition update body _ _ kind colon opens header closes
    colon' _ bodyHolds =>
    intro env agrees holds
    have outside := pointwise.next (pointwise.next (pointwise.next holds))
    have opened := agrees.onward (onward_three kind rfl colon rfl opens rfl)
    obtain ⟨first, second, third, after, within⟩ :=
      pointwise.header opened.push (pointwise.push outside) header
    have entered := after.onward (onward_two closes rfl colon' rfl)
    have body :=
      bodyHolds entered.looping (pointwise.looping (pointwise.next (pointwise.next within)))
    have left := pointwise.leave outside body.2
    have place : s₁.place = s.place := (forward_loopHeader header).place
    refine ⟨⟨first, second, third, body.1⟩, ?_⟩
    rw [place]
    exact left
  | whileLoop _ _ kind read _ bodyHolds =>
    exact fun agrees holds => pointwise.whileLoop agrees holds kind read bodyHolds
  | block opens _ _ inside =>
    exact fun agrees holds =>
      (inside (agrees.onward (onward_next opens rfl)) (pointwise.next holds)).imp_right
        pointwise.next
  | noStatements | noClauses | noOtherwise | noScript => exact fun _ holds => ⟨trivial, holds⟩
  | statements _ _ first _ firstHolds restHold | script _ first _ firstHolds restHold =>
    intro env agrees holds
    have head := firstHolds agrees holds
    have rest := restHold (agrees_after agrees first) head.2
    exact ⟨⟨head.1, rest.1⟩, rest.2⟩
  | clauses kind read inside _ bodyHolds restHold =>
    intro env agrees holds
    obtain ⟨head, body, after, left⟩ :=
      pointwise.conditional agrees holds kind rfl read inside bodyHolds
    obtain ⟨rest, last⟩ := restHold after left
    exact ⟨⟨head, body, rest⟩, last⟩
  | @otherwise s s₁ body kind colon inside bodyHolds =>
    intro env agrees holds
    have before := agrees.onward (onward_two kind rfl colon rfl)
    have body := bodyHolds before.push (pointwise.push (pointwise.next (pointwise.next holds)))
    have left := pointwise.leave holds body.2
    have place : s₁.place = s.place := (forward_of_performs inside).place
    rw [← pop_eq_leave place] at left
    exact ⟨body.1, left⟩

end

end ColonScript.Reading

namespace ColonScript.Program
open Reading

/-- And so it does in every script that is accepted. -/
theorem everywhere_of_accepted {I : Session → Prop} {P : Env → Point → Prop}
    (pointwise : Pointwise I P) {tokens : List Token} {file : String} {testing : Bool} {p : Program}
    (begins : I (.ofTokens tokens file testing .standard))
    (accepted : ofTokens tokens file testing = .ok p) :
    p.Everywhere P := by
  obtain ⟨s', performs⟩ := ofTokens_eq_ok.mp accepted
  have agrees : Agrees .initial (Session.ofTokens tokens file testing .standard).push :=
    ⟨Sees.initial.push, rfl⟩
  exact (everywhere_of_performs pointwise performs agrees (pointwise.push begins)).1

end ColonScript.Program
