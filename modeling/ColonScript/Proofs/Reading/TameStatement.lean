import ColonScript.Proofs.Reading.Sentence
import ColonScript.Proofs.Reading.TameExpression

/-! Statements are read tamely, part by part, and so are whole scripts. Positions are kept with the
parts that they belong to, and each of them is where a token begins. -/

namespace ColonScript.Reading
open Token (Kind)

variable {script : Script} {n : Nat} {s s' : Session} {position : Position}

theorem tame_value (holds : script.Holds n s) :
    Tame script s (placed expression) (placed expression) :=
  tame_placed tame_expression holds

theorem tame_values (holds : script.Holds n s) :
    Tame script s (separated (placed expression)) (separated (placed expression)) :=
  tame_separated (fun _ holds => tame_value holds) advances_placed holds

theorem marked_of_values {values : List (Expr × Position)} (holds : script.Holds n s)
    (run : separated (placed expression) s = .ok values s') : Marked script values :=
  (each_of_separated (I := script.Holds n) advances_placed (fun _ holds => holds.step)
    (fun _ _ _ run holds => marks_of_placed holds run) run holds).1

/-! Declarations. -/

theorem tame_head (holds : script.Holds n s) (kind : s.kind ≠ .eof) : Tame script s head head := by
  refine tame_next_bind kind ?_
  rw [tame_here_bind]
  have holds₁ := holds.step
  refine tame_takeOr_bind holds₁ rfl fun _ => ?_
  have holds₂ := holds₁.step
  refine tame_takeOr_bind holds₂ rfl fun _ => ?_
  have holds₃ := holds₂.step
  exact (tame_writtenType .lowest _ holds₃).bind holds₃ fun _ _ _ _ => tame_pure

theorem marks_of_head {found : Head} (holds : script.Holds n s) (run : head s = .ok found s') :
    script.Marks found.position := by
  obtain ⟨_, _, _, _, rfl⟩ := ok_head.mp run
  exact holds.step.here

theorem position_of_declare {stack : ScopeStack} {binding : Binding} {fault : Fault}
    (failed : stack.declare binding position = .error fault) : fault.position = position := by
  unfold ScopeStack.declare at failed
  split at failed
  · cases failed
  · split at failed
    · cases failed
      rfl
    · split at failed
      · cases failed
      · cases failed
        rfl

theorem tame_declare {found : Head} (marks : script.Marks found.position) :
    Tame script s (declare found) (declare found) :=
  tame_updateScopes fun _ failed => position_of_declare failed ▸ marks

theorem tame_defaultValue {found : Head} (marks : script.Marks found.position) :
    Tame script s (defaultValue found) (defaultValue found) := by
  unfold defaultValue
  split
  · exact tame_pure
  · exact tame_failAt marks

theorem tame_givenValue (found : Head) (holds : script.Holds n s) :
    Tame script s (givenValue found) (givenValue found) := by
  refine tame_skip_bind holds rfl fun _ => ?_
  have holds₁ := holds.step
  refine (tame_value holds₁).bind holds₁ fun value s₂ run holds₂ => ?_
  have marks := (marks_of_placed holds₁ run).1
  refine (tame_single marks).bind holds₂ fun _ s₃ _ holds₃ => ?_
  exact (tame_joinOr marks).bind holds₃ fun _ _ _ _ => tame_pure

theorem tame_declarationRest {found : Head} (marks : script.Marks found.position)
    (holds : script.Holds n s) :
    Tame script s (declarationRest found) (declarationRest found) := by
  have ends : ∀ value s₁, script.Holds n s₁ → Tame script s₁
      (do skip .semicolon; declare found; return ⟨found.constant, found.name, found.type,
        value⟩ : Read Declaration)
      (do skip .semicolon; declare found; return ⟨found.constant, found.name,
        found.type, value⟩) := by
    intro value s₁ holds₁
    refine tame_skip_bind holds₁ rfl fun _ => ?_
    exact (tame_declare marks).bind holds₁.step fun _ _ _ _ => tame_pure
  rw [declarationRest, tame_currentKind_bind]
  refine .ite (fun _ => ?_) fun _ => ?_
  · exact (tame_defaultValue marks).bind holds fun value s₁ _ holds₁ => ends value s₁ holds₁
  · exact (tame_givenValue found holds).bind holds fun value s₁ _ holds₁ => ends value s₁ holds₁

/-! Several targets. -/

def Receiver.Marked (script : Script) : Receiver → Prop
  | .declared head => script.Marks head.position
  | .existing .. => True

theorem tame_existing (holds : script.Holds n s) : Tame script s existing existing := by
  refine tame_take_bind holds rfl fun _ => ?_
  rw [tame_positionOf_bind]
  have holds₁ := holds.step
  refine (tame_resolve holds.here).bind holds₁ fun _ s₂ _ holds₂ => ?_
  exact (tame_refuseConstant holds.here).bind holds₂ fun _ _ _ _ => tame_pure

theorem tame_receiver (holds : script.Holds n s) : Tame script s receiver receiver := by
  rw [receiver, tame_currentKind_bind]
  have declares : s.kind ≠ .eof → Tame script s (do return .declared (← head) : Read Receiver)
      (do return .declared (← head)) :=
    fun kind => (tame_head holds kind).bind holds fun _ _ _ _ => tame_pure
  generalize s.kind = kind at declares
  split
  · exact declares (by simp)
  · exact declares (by simp)
  · exact tame_existing holds
  · exact tame_failHere holds

theorem marked_of_receiver {found : Receiver} (holds : script.Holds n s)
    (run : receiver s = .ok found s') :
    found.Marked script := by
  obtain ⟨_, declared, heads, rfl⟩ | exists' := ok_receiver.mp run
  · exact marks_of_head holds heads
  · obtain ⟨_, _, _, _, rfl, _⟩ := ok_existing.mp exists'
    trivial

theorem rounds_receivers :
    Rounds script n (· = .comma) (alone (behindComma receiver)) (alone (behindComma receiver)) :=
  rounds_behindCommas (fun _ holds => tame_receiver holds) advances_receiver

theorem marked_of_receivers {found : List Receiver} (holds : script.Holds n s)
    (run : afterCommas receiver s = .ok found s') : ∀ receiver ∈ found, receiver.Marked script := by
  refine (((ok_afterCommas advances_receiver).mp run).each (I := script.Holds n) ?_ holds).1
  rintro s found s' ⟨comma, run⟩ holds
  exact ⟨marked_of_receiver holds.step run,
    holds.step.passes (onward_receiver run).toForward.passes⟩

theorem tame_receiveEach {receivers : List Receiver} {values : List (Expr × Position)}
    (marked : Marked script values) (holds : script.Holds n s) :
    Tame script s (receiveEach receivers values) (receiveEach receivers values) := by
  induction receivers generalizing values s with
  | nil => exact tame_pure
  | cons receiver receivers ih =>
    cases values with
    | nil => exact tame_pure
    | cons value values =>
      obtain ⟨first, rest⟩ := List.forall_mem_cons.mp marked
      refine (tame_single first).bind holds fun _ s₁ _ holds₁ => ?_
      refine (tame_joinOr first).bind holds₁ fun _ s₂ _ holds₂ => ?_
      exact (ih rest holds₂).bind holds₂ fun _ _ _ _ => tame_pure

theorem tame_receiveResults {receivers : List Receiver} {types : List Ty}
    (marks : script.Marks position) (holds : script.Holds n s) :
    Tame script s (receiveResults position receivers types)
      (receiveResults position receivers types) := by
  induction receivers generalizing types s with
  | nil => exact tame_pure
  | cons receiver receivers ih =>
    cases types with
    | nil => exact tame_pure
    | cons type types => exact (tame_joinOr marks).bind holds fun _ s₁ _ holds₁ => ih holds₁

theorem tame_distribute {receivers : List Receiver} {values : List (Expr × Position)}
    (marked : Marked script values) (marks : script.Marks position) (holds : script.Holds n s) :
    Tame script s (distribute receivers values position)
      (distribute receivers values position) := by
  unfold distribute
  refine .ite (fun _ => tame_receiveEach marked holds) fun _ => ?_
  split
  · have start := (List.forall_mem_cons.mp marked).1
    refine .ite (fun _ => ?_) fun _ => tame_failAt start
    exact (tame_receiveResults start holds).bind holds fun _ _ _ _ => tame_pure
  · exact tame_failAt (List.forall_mem_cons.mp marked).1
  · exact tame_failAt marks

theorem tame_declareAll {receivers : List Receiver}
    (marked : ∀ receiver ∈ receivers, receiver.Marked script) (holds : script.Holds n s) :
    Tame script s (declareAll receivers) (declareAll receivers) := by
  induction receivers generalizing s with
  | nil => exact tame_pure
  | cons receiver receivers ih =>
    obtain ⟨first, rest⟩ := List.forall_mem_cons.mp marked
    cases receiver with
    | declared head => exact (tame_declare first).bind holds fun _ s₁ _ holds₁ => ih rest holds₁
    | existing name type => exact ih rest holds

theorem tame_multipleRest {first : Receiver} (marked : first.Marked script)
    (holds : script.Holds n s) :
    Tame script s (multipleRest first) (multipleRest first) := by
  refine (tame_many rounds_receivers holds).bind holds fun others s₁ run holds₁ => ?_
  have receivers : ∀ receiver ∈ first :: others, receiver.Marked script :=
    List.forall_mem_cons.mpr ⟨marked, marked_of_receivers holds run⟩
  refine tame_take_bind holds₁ rfl fun _ => ?_
  rw [tame_positionOf_bind]
  have holds₂ := holds₁.step
  refine (tame_values holds₂).bind holds₂ fun values s₃ given holds₃ => ?_
  refine tame_skip_bind holds₃ rfl fun _ => ?_
  have holds₄ := holds₃.step
  refine (tame_distribute (marked_of_values holds₂ given) holds₁.here holds₄).bind holds₄
    fun _ s₅ _ holds₅ => ?_
  exact (tame_declareAll receivers holds₅).bind holds₅ fun _ _ _ _ => tame_pure

theorem tame_declarationStatement (holds : script.Holds n s) (kind : s.kind ≠ .eof) :
    Tame script s declarationStatement declarationStatement := by
  refine (tame_head holds kind).bind holds fun found s₁ run holds₁ => ?_
  have marks := marks_of_head holds run
  rw [tame_currentKind_bind]
  refine .ite (fun _ => tame_multipleRest marks holds₁) fun _ => ?_
  exact (tame_declarationRest marks holds₁).bind holds₁ fun _ _ _ _ => tame_pure

theorem tame_expressionStatement (holds : script.Holds n s) :
    Tame script s expressionStatement expressionStatement := by
  simp only [expressionStatement, tame_currentKind_bind, tame_second_bind]
  refine .ite (fun _ => ?_) fun _ => ?_
  · refine (tame_existing holds).bind holds fun found s₁ run holds₁ => tame_multipleRest ?_ holds₁
    obtain ⟨_, _, _, _, rfl, _⟩ := ok_existing.mp run
    trivial
  · refine (tame_value holds).bind holds fun value s₁ run holds₁ => ?_
    refine .ite (fun _ => ?_) fun _ => tame_failAt_bind (marks_of_placed holds run).1
    exact tame_skip_bind holds₁ rfl fun _ => tame_pure

/-! Conditions and the headers of loops. -/

theorem tame_condition (statement : String) (holds : script.Holds n s) :
    Tame script s (condition statement) (condition statement) := by
  refine tame_skip_bind holds rfl fun _ => ?_
  have holds₁ := holds.step
  refine tame_skip_bind holds₁ rfl fun _ => ?_
  have holds₂ := holds₁.step
  refine (tame_value holds₂).bind holds₂ fun value s₃ run holds₃ => ?_
  have marks := (marks_of_placed holds₂ run).1
  refine tame_skip_bind holds₃ rfl fun _ => ?_
  have holds₄ := holds₃.step
  refine tame_skip_bind holds₄ rfl fun _ => ?_
  refine (tame_single marks).bind holds₄.step fun _ s₅ _ _ => ?_
  exact .ite (fun _ => tame_pure) fun _ => tame_failAt_bind marks

theorem tame_startOfLoop (holds : script.Holds n s) : Tame script s startOfLoop startOfLoop := by
  rw [startOfLoop, tame_here_bind, tame_currentKind_bind]
  have marks := holds.here
  have begins : s.kind ≠ .eof → Tame script s head head := tame_head holds
  generalize s.kind = kind at begins
  split
  · refine (begins (by simp)).bind holds fun found s₁ run holds₁ => ?_
    refine .ite (fun _ => ?_) fun _ => tame_failAt_bind marks
    exact (tame_declarationRest (marks_of_head holds run) holds₁).bind holds₁ fun _ _ _ _ =>
      tame_pure
  · exact tame_failAt marks
  · refine (tame_expression .lowest s holds).bind holds fun value s₁ _ holds₁ => ?_
    split
    · refine .ite (fun _ => tame_failAt_bind marks) fun _ => ?_
      refine .ite (fun _ => ?_) fun _ => tame_failAt_bind marks
      exact tame_skip_bind holds₁ rfl fun _ => tame_pure
    · exact tame_failAt marks
  · exact tame_failAt marks

theorem tame_loopHeader (holds : script.Holds n s) : Tame script s loopHeader loopHeader := by
  refine (tame_startOfLoop holds).bind holds fun start s₁ _ holds₁ => ?_
  refine (tame_value holds₁).bind holds₁ fun condition s₂ run holds₂ => ?_
  refine .ite (fun _ => ?_) fun _ => tame_failAt_bind (marks_of_placed holds₁ run).1
  refine tame_skip_bind holds₂ rfl fun _ => ?_
  have holds₃ := holds₂.step
  refine (tame_value holds₃).bind holds₃ fun update s₄ run holds₄ => ?_
  exact .ite (fun _ => tame_pure) fun _ => tame_failAt_bind (marks_of_placed holds₃ run).1

theorem tame_loopControl (holds : script.Holds n s) (kind : s.kind ≠ .eof) :
    Tame script s loopControl loopControl := by
  refine tame_next_bind kind ?_
  rw [tame_positionOf_bind, tame_place_bind]
  refine .ite (fun _ => ?_) fun _ => tame_failAt_bind holds.here
  exact tame_skip_bind holds.step rfl fun _ => tame_pure

/-! Heads of functions, and `return`. -/

theorem tame_parameter (holds : script.Holds n s) : Tame script s parameter parameter := by
  refine tame_take_bind holds rfl fun _ => ?_
  have holds₁ := holds.step
  refine tame_skip_bind holds₁ rfl fun _ => ?_
  have holds₂ := holds₁.step
  exact (tame_writtenType .lowest _ holds₂).bind holds₂ fun _ _ _ _ => tame_pure

theorem rounds_parameters :
    Rounds script n (· ≠ .closeParen) (itemOfList (alone parameter))
      (itemOfList (alone parameter)) :=
  rounds_listed (fun _ holds => tame_parameter holds) advances_parameter .closeParen

theorem tame_parameters (holds : script.Holds n s) : Tame script s parameters parameters := by
  refine tame_skip_bind holds rfl fun _ => ?_
  have holds₁ := holds.step
  refine (tame_items rounds_parameters () holds₁).bind holds₁ fun found s₂ _ holds₂ => ?_
  exact tame_skip_bind holds₂ rfl fun _ => tame_pure

theorem tame_resultTypes (holds : script.Holds n s) : Tame script s resultTypes resultTypes := by
  rw [resultTypes, tame_currentKind_bind]
  refine .ite (fun _ => ?_) fun _ => tame_pure
  refine tame_skip_bind holds rfl fun _ => ?_
  have holds₁ := holds.step
  refine tame_skip_bind holds₁ rfl fun _ => ?_
  have holds₂ := holds₁.step
  have types : Tame script s.next.next (separated (writtenType .lowest))
    (separated (writtenType .lowest)) :=
    tame_separated (fun s holds => tame_writtenType .lowest s holds)
      (advances_writtenType .lowest) holds₂
  refine types.bind holds₂ fun _ s₃ _ holds₃ => ?_
  exact tame_skip_bind holds₃ rfl fun _ => tame_pure

theorem position_of_declareParameter {stack : ScopeStack} {parameter : Parameter} {fault : Fault}
    (failed : stack.declareParameter parameter position = .error fault) :
    fault.position = position := by
  unfold ScopeStack.declareParameter at failed
  simp only at failed
  split at failed
  · cases failed
  · split at failed
    · cases failed
    · cases failed
      rfl

theorem tame_declareParameters {found : List Parameter} (marks : script.Marks position)
    (holds : script.Holds n s) :
    Tame script s (declareParameters position found) (declareParameters position found) := by
  induction found generalizing s with
  | nil => exact tame_pure
  | cons parameter rest ih =>
    have first : Tame script s (updateScopes fun scopes =>
      scopes.declareParameter parameter position)
        (updateScopes fun scopes => scopes.declareParameter parameter position) :=
      tame_updateScopes fun _ failed => position_of_declareParameter failed ▸ marks
    exact first.bind holds fun _ s₁ _ holds₁ => ih holds₁

theorem position_of_register {stack : ScopeStack} {function : Function} {fault : Fault}
    (failed : stack.register function position = .error fault) : fault.position = position := by
  unfold ScopeStack.register at failed
  simp only at failed
  split at failed
  · cases failed
  · split at failed
    · cases failed
      rfl
    · split at failed
      · cases failed
      · cases failed
        rfl
    · cases failed
      rfl

theorem tame_register {function : Function} (marks : script.Marks position) :
    Tame script s (updateScopes fun scopes => scopes.register function position)
      (updateScopes fun scopes => scopes.register function position) :=
  tame_updateScopes fun _ failed => position_of_register failed ▸ marks

theorem tame_requireReturn {signature : Signature} {body : Block} (marks : script.Marks position) :
    Tame script s (requireReturn signature body position)
      (requireReturn signature body position) := by
  rw [requireReturn, tame_place_bind]
  exact .ite (fun _ => tame_failAt marks) fun _ => tame_pure

theorem tame_givenResults (holds : script.Holds n s) : Tame script s givenResults givenResults := by
  refine tame_takeOr_bind holds rfl fun _ => ?_
  have holds₁ := holds.step
  rw [tame_currentKind_bind]
  refine .ite (fun _ => ?_) fun _ => ?_
  · refine tame_skip_bind holds₁ rfl fun _ => ?_
    have holds₂ := holds₁.step
    refine (tame_values holds₂).bind holds₂ fun values s₃ _ holds₃ => ?_
    exact tame_skip_bind holds₃ rfl fun _ => tame_pure
  · refine (tame_value holds₁).bind holds₁ fun value s₂ _ holds₂ => ?_
    rw [tame_currentKind_bind]
    refine .ite (fun _ => ?_) fun _ => tame_pure
    exact (tame_failHere holds₂).bind holds₂ fun _ _ _ _ => tame_pure

theorem marked_of_givenResults {values : List (Expr × Position)} (holds : script.Holds n s)
    (run : givenResults s = .ok values s') : Marked script values := by
  obtain ⟨_, ⟨_, s₁, list, _, rfl⟩ | ⟨_, e, _, _, rfl⟩⟩ := ok_givenResults.mp run
  · exact marked_of_values holds.step.step list
  · exact List.forall_mem_singleton.mpr holds.step.here

theorem tame_fitResults {function : String} {results : List Ty} {values : List (Expr × Position)}
    (marked : Marked script values) (holds : script.Holds n s) :
    Tame script s (fitResults function results values) (fitResults function results values) := by
  induction results generalizing values s with
  | nil => exact tame_pure
  | cons result results ih =>
    cases values with
    | nil => exact tame_pure
    | cons value values =>
      obtain ⟨first, rest⟩ := List.forall_mem_cons.mp marked
      refine (tame_single first).bind holds fun _ s₁ _ holds₁ => ?_
      refine (tame_joinOr first).bind holds₁ fun _ s₂ _ holds₂ => ?_
      exact (ih rest holds₂).bind holds₂ fun _ _ _ _ => tame_pure

theorem tame_returnStatement (holds : script.Holds n s) (kind : s.kind ≠ .eof) :
    Tame script s returnStatement returnStatement := by
  refine tame_next_bind kind ?_
  rw [tame_positionOf_bind, tame_place_bind]
  have marks : script.Marks ⟨s.current.start, s.next.file⟩ := holds.here
  have holds₁ := holds.step
  split
  · exact tame_failAt marks
  next function _ =>
    have ends : ∀ values s₁, Marked script values → script.Holds n s₁ → Tame script s₁
        (do
          skip .semicolon
          if values.length ≠ function.results.length then
            failAt ⟨s.current.start, s.next.file⟩
              (.resultCount function.name function.results.length values.length)
          return .returning (← fitResults function.name function.results values) : Read Stmt)
        (do
          skip .semicolon
          if values.length ≠ function.results.length then
            failAt ⟨s.current.start, s.next.file⟩
              (.resultCount function.name function.results.length values.length)
          return .returning (← fitResults function.name function.results values)) := by
      intro values s₁ marked holds₁
      refine tame_skip_bind holds₁ rfl fun _ => ?_
      refine .ite (fun _ => tame_failAt_bind marks) fun _ => ?_
      exact (tame_fitResults marked holds₁.step).bind holds₁.step fun _ _ _ _ => tame_pure
    rw [tame_currentKind_bind]
    refine .ite (fun _ => ?_) fun _ => ?_
    · exact ends [] _ (fun _ member => absurd member List.not_mem_nil) holds₁
    · refine (tame_givenResults holds₁).bind holds₁ fun values s₂ run holds₂ => ?_
      exact ends values s₂ (marked_of_givenResults holds₁ run) holds₂

/-! Statements around others. -/

section
variable {stmt : Read Stmt}

abbrev insideBlock (stmt : Read Stmt) : Read Stmt := do
  if (← currentKind) = .eof then unexpectedHere "expected `\x7d` to close the block"
  stmt

theorem rounds_statements (inner : ∀ s, script.Holds n s → Tame script s statement stmt) :
    Rounds script n (· ≠ .closeCurly) (alone (insideBlock statement))
      (alone (insideBlock stmt)) := by
  refine rounds_alone (fun s holds _ => ?_) ?_
  · rw [tame_currentKind_bind]
    refine .ite (fun _ => ?_) fun _ => inner s holds
    exact (tame_failHere holds).bind holds fun _ _ _ holds₁ => inner _ holds₁
  · intro s st s' run
    have inside : s.kind ≠ .eof ∧ statement s = .ok st s' := by simpa [insideBlock] using run
    exact advances_statement inside.2

theorem tame_block (inner : ∀ s, script.Holds n s → Tame script s statement stmt)
    (holds : script.Holds (n + 1) s) :
    Tame script s (block statement) (block stmt) := by
  refine tame_skip_bind holds rfl fun opens => ?_
  have holds₁ := holds.next opens rfl
  refine (tame_many (rounds_statements inner) holds₁).bind holds₁ fun body s₂ _ holds₂ => ?_
  exact tame_skip_bind holds₂ rfl fun _ => tame_pure

theorem tame_elseIf (inner : ∀ s, script.Holds n s → Tame script s statement stmt)
    (holds : script.Holds (n + 1) s) :
    Tame script s (elseIf statement) (elseIf stmt) := by
  refine tame_skip_bind holds rfl fun _ => ?_
  have holds₁ := holds.step
  refine (tame_condition _ holds₁).bind holds₁ fun _ s₂ _ holds₂ => ?_
  exact (tame_inScope holds₂ (tame_block inner holds₂.push)).bind holds₂ fun _ _ _ _ => tame_pure

theorem rounds_clauses (inner : ∀ s, script.Holds n s → Tame script s statement stmt) :
    Rounds script (n + 1) (· = .elseIfWord) (alone (elseIf statement)) (alone (elseIf stmt)) :=
  rounds_alone (fun _ holds _ => tame_elseIf inner holds)
    (advances_elseIf fun _ _ _ run => ok_statement.mp run)

theorem tame_otherwise (inner : ∀ s, script.Holds n s → Tame script s statement stmt)
    (holds : script.Holds (n + 1) s) : Tame script s (otherwise statement) (otherwise stmt) := by
  rw [otherwise, otherwise, tame_currentKind_bind]
  refine .ite (fun _ => ?_) fun _ => tame_pure
  refine tame_skip_bind holds rfl fun _ => ?_
  have holds₁ := holds.step
  refine tame_skip_bind holds₁ rfl fun _ => ?_
  have holds₂ := holds₁.step
  exact (tame_inScope holds₂ (tame_block inner holds₂.push)).bind holds₂ fun _ _ _ _ => tame_pure

theorem tame_branchStatement (inner : ∀ s, script.Holds n s → Tame script s statement stmt)
    (holds : script.Holds (n + 1) s) :
    Tame script s (branchStatement statement) (branchStatement stmt) := by
  refine tame_skip_bind holds rfl fun _ => ?_
  have holds₁ := holds.step
  refine (tame_condition _ holds₁).bind holds₁ fun _ s₂ _ holds₂ => ?_
  refine (tame_inScope holds₂ (tame_block inner holds₂.push)).bind holds₂ fun _ s₃ _ holds₃ => ?_
  refine (tame_many (rounds_clauses inner) holds₃).bind holds₃ fun _ s₄ _ holds₄ => ?_
  exact (tame_otherwise inner holds₄).bind holds₄ fun _ _ _ _ => tame_pure

theorem tame_forStatement (inner : ∀ s, script.Holds n s → Tame script s statement stmt)
    (holds : script.Holds (n + 1) s) :
    Tame script s (forStatement statement) (forStatement stmt) := by
  refine tame_skip_bind holds rfl fun _ => ?_
  have holds₁ := holds.step
  refine tame_skip_bind holds₁ rfl fun _ => ?_
  have holds₂ := holds₁.step
  refine tame_skip_bind holds₂ rfl fun _ => ?_
  have holds₃ := holds₂.step
  refine tame_inScope holds₃ ?_
  refine (tame_loopHeader holds₃.push).bind holds₃.push fun header s₄ _ holds₄ => ?_
  refine tame_skip_bind holds₄ rfl fun _ => ?_
  have holds₅ := holds₄.step
  refine tame_skip_bind holds₅ rfl fun _ => ?_
  have holds₆ := holds₅.step
  exact (tame_within holds₆ (tame_block inner (holds₆.withPlace _))).bind holds₆ fun _ _ _ _ =>
    tame_pure

theorem tame_whileStatement (inner : ∀ s, script.Holds n s → Tame script s statement stmt)
    (holds : script.Holds (n + 1) s) :
    Tame script s (whileStatement statement) (whileStatement stmt) := by
  refine tame_skip_bind holds rfl fun _ => ?_
  have holds₁ := holds.step
  refine (tame_condition _ holds₁).bind holds₁ fun _ s₂ _ holds₂ => ?_
  have holds₃ := holds₂.withPlace s₂.place.looping
  have body := tame_inScope holds₃ (tame_block inner holds₃.push)
  exact (tame_within holds₂ body).bind holds₂ fun _ _ _ _ => tame_pure

theorem tame_functionBody (inner : ∀ s, script.Holds n s → Tame script s statement stmt)
    (signature : Signature) (marks : script.Marks position) (holds : script.Holds (n + 1) s) :
    Tame script s (functionBody statement signature position)
      (functionBody stmt signature position) := by
  have holds₁ := holds.withPlace (.inside signature s.place)
  refine tame_within holds (tame_inScope holds₁ ?_)
  exact (tame_declareParameters marks holds₁.push).bind holds₁.push fun _ s₂ _ holds₂ =>
    tame_block inner holds₂

theorem tame_functionStatement (inner : ∀ s, script.Holds n s → Tame script s statement stmt)
    (holds : script.Holds (n + 1) s) (kind : s.kind ≠ .eof) :
    Tame script s (functionStatement statement) (functionStatement stmt) := by
  refine tame_next_bind kind ?_
  rw [tame_positionOf_bind, tame_place_bind]
  have marks : script.Marks ⟨s.current.start, s.next.file⟩ := holds.here
  have holds₁ := holds.step
  refine .ite (fun _ => tame_failAt_bind marks) fun _ => ?_
  refine tame_skip_bind holds₁ rfl fun _ => ?_
  have holds₂ := holds₁.step
  refine tame_takeOr_bind holds₂ rfl fun _ => ?_
  have holds₃ := holds₂.step
  refine (tame_parameters holds₃).bind holds₃ fun found s₄ _ holds₄ => ?_
  refine (tame_resultTypes holds₄).bind holds₄ fun types s₅ _ holds₅ => ?_
  rw [tame_currentKind_bind]
  refine .ite (fun _ => ?_) fun _ => ?_
  · refine tame_skip_bind holds₅ rfl fun _ => ?_
    exact (tame_register marks).bind holds₅.step fun _ _ _ _ => tame_pure
  · refine (tame_register marks).bind holds₅ fun _ s₆ _ holds₆ => ?_
    refine (tame_functionBody inner _ marks holds₆).bind holds₆ fun _ s₇ _ holds₇ => ?_
    exact (tame_requireReturn marks).bind holds₇ fun _ _ _ _ => tame_pure

theorem tame_formed (inner : ∀ s, script.Holds n s → Tame script s statement stmt)
    (holds : script.Holds (n + 1) s)
    {form : Form} (is : s.grammar.form? s.kind = some form) :
    Tame script s (formed statement form) (formed stmt form) := by
  have kind : s.kind ≠ .eof := by
    intro ends
    rw [ends] at is
    cases grammar : s.grammar <;> rw [grammar] at is <;> cases is
  cases form with
  | declaration => exact tame_declarationStatement holds kind
  | returning => exact tame_returnStatement holds kind
  | function => exact tame_functionStatement inner holds kind
  | branch => exact tame_branchStatement inner holds
  | forLoop => exact tame_forStatement inner holds
  | whileLoop => exact tame_whileStatement inner holds
  | loopControl => exact tame_loopControl holds kind

theorem tame_requirePlace (holds : script.Holds n s) (kind : Kind) :
    Tame script s (requirePlace kind) (requirePlace kind) := by
  rw [requirePlace, tame_place_bind]
  exact .ite (fun _ => tame_failHere holds) fun _ => tame_pure

theorem tame_statementWith (inner : ∀ s, script.Holds n s → Tame script s statement stmt)
    (holds : script.Holds (n + 1) s) :
    Tame script s (statementWith statement) (statementWith stmt) := by
  rw [statementWith, statementWith, tame_currentKind_bind]
  refine (tame_requirePlace holds s.kind).bind holds fun _ s₁ run holds₁ => ?_
  obtain ⟨_, rfl⟩ := ok_requirePlace.mp run
  rw [tame_get_bind]
  split
  next form is => exact tame_formed inner holds is
  next => exact tame_expressionStatement holds

end

theorem statementUpTo_eq_iterate (n : Nat) : statementUpTo n = statementWith^[n] boundMet :=
  eq_iterate statementUpTo statementWith (fun _ => rfl) n

/-- Statements never meet the bound on their depth, whatever stands for it. -/
theorem standsFor_statement (bottom : Read Stmt) {m : Nat} (le : n ≤ m) :
    StandsFor script n (fun _ : Unit => statement) (fun _ => statementWith^[m] bottom) := by
  let around : (Unit → Read Stmt) → Unit → Read Stmt := fun inner _ => statementWith (inner ())
  have same : ∀ m bottom, (fun _ => statementWith^[m] bottom) = around^[m] fun _ => bottom := by
    have semiconj : Function.Semiconj (Function.const Unit) statementWith around := fun _ => rfl
    exact fun m bottom => (semiconj.iterate_right m).eq bottom
  rw [same]
  refine standsFor_iterate (fun _ s => ?_) (fun inner _ _ holds => ?_) _ le
  · rw [← same, ← statementUpTo_eq_iterate]
    rfl
  · exact tame_statementWith (inner ()) holds

theorem tame_statement (holds : script.Holds n s) : Tame script s statement statement := by
  have bounded := standsFor_statement boundMet (Nat.le_refl n) () s holds
  exact bounded.congr rfl bounded.same.symm

theorem statement_eq (s : Session) : statement s = statementWith statement s := by
  have inner : StandsFor (.of s) s.ahead.length (fun _ : Unit => statement) _ :=
    standsFor_statement boundMet (Nat.le_refl _)
  have bounded := (tame_statementWith (inner ()) (.of s)).same
  rw [← bounded, ← statementUpTo_eq_iterate]
  rfl

theorem rounds_script : Rounds script n (· ≠ .eof) (alone statement) (alone statement) :=
  rounds_alone (fun _ holds _ => tame_statement holds) advances_statement

theorem tame_program (holds : script.Holds n s) : Tame script s program program := by
  refine tame_inScope holds ?_
  exact (tame_many rounds_script holds.push).bind holds.push fun _ _ _ _ => tame_pure

/-! From the first token on. -/

def Script.ofTokens (tokens : List Token) (file : String) : Script :=
  ⟨(Cursor.ofTokens tokens).stream, file⟩

theorem stream_ofTokens_of_ended (others : List Token) {last : Token} (ends : last.kind = .eof) :
    (Cursor.ofTokens (others ++ [last])).stream = others ++ [last] := by
  obtain ⟨kind, value, start, stop⟩ := last
  obtain rfl : kind = .eof := ends
  simp [Cursor.ofTokens, Cursor.stream, Closing.token]

/-- A list that does not end with the end of the input gets one. -/
theorem stream_ofTokens (tokens : List Token) :
    (Cursor.ofTokens tokens).stream = tokens ∨
      ∃ closing : Token, closing.kind = .eof ∧
      (Cursor.ofTokens tokens).stream = tokens ++ [closing] := by
  unfold Cursor.ofTokens
  split
  next none => exact .inr ⟨_, rfl, by rw [List.getLast?_eq_none_iff.mp none]; rfl⟩
  next last found =>
    split
    next ends =>
      obtain ⟨others, rfl⟩ := List.getLast?_eq_some_iff.mp found
      have whole := stream_ofTokens_of_ended others ends
      simp only [Cursor.ofTokens, found, if_pos ends] at whole
      exact .inl whole
    next => exact .inr ⟨_, rfl, rfl⟩

end ColonScript.Reading
