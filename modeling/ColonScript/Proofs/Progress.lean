import ColonScript.Proofs.Reading.TameStatement

/-! The cursor of a reading never goes back, never passes a token that ends the input, and never
leaves the tokens. Every expression, written type, block and statement takes a token, and so no loop
and no recursion of the language meets the bound that it is given. -/

namespace ColonScript.Reading
open Token (Kind)

variable {α β σ : Type} {script : Script} {s s' : Session} {index : Nat}

def stateAfter : EStateM.Result Fault Session α → Session
  | .ok _ s | .error _ s => s

namespace Script

/-- The state stands at a token of the script, counted from the first one. -/
structure StandsAt (script : Script) (index : Nat) (s : Session) : Prop where
  file : s.file = script.file
  inside : index < script.tokens.length
  stream : s.cursor.stream = script.tokens.drop index

/-- One place is not in front of the other, and no token between them ends the input. -/
structure Goes (script : Script) (index index' : Nat) : Prop where
  le : index ≤ index'
  passed : ∀ token ∈ (script.tokens.take index').drop index, token.kind ≠ .eof

theorem StandsAt.length_eq (stands : script.StandsAt index s) :
    s.ahead.length + 1 + index = script.tokens.length := by
  have length := congrArg List.length stands.stream
  have inside := stands.inside
  simp only [Cursor.stream, List.length_append, List.length_singleton, List.length_drop] at length
  show s.cursor.ahead.length + 1 + index = _
  omega

theorem StandsAt.holds (stands : script.StandsAt index s) {n : Nat}
    (enough : script.tokens.length ≤ n + index) :
    script.Holds n s := by
  have length := stands.length_eq
  refine ⟨stands.file, ?_, by omega⟩
  rw [stands.stream]
  exact List.drop_suffix _ _

theorem StandsAt.passes (stands : script.StandsAt index s) (passes : Passes s s') :
    ∃ index', script.StandsAt index' s' ∧ script.Goes index index' := by
  obtain ⟨tokens, ahead, kinds⟩ := passes.passed
  have split : script.tokens.drop index = tokens ++ s'.cursor.stream := by
    rw [← stands.stream, Cursor.stream, Cursor.stream, passes.closing, ← List.append_assoc, ← ahead]
  have rest : script.tokens.drop (index + tokens.length) = s'.cursor.stream := by
    rw [← List.drop_drop, split, List.drop_left]
  refine ⟨index + tokens.length, ⟨passes.file.trans stands.file, ?_, rest.symm⟩,
    Nat.le_add_right _ _, ?_⟩
  · by_contra outside
    rw [List.drop_eq_nil_of_le (Nat.le_of_not_lt outside)] at rest
    simp [Cursor.stream] at rest
  · rw [List.drop_take, Nat.add_sub_cancel_left, split, List.take_left]
    exact kinds

theorem StandsAt.lt {index' : Nat} (stands : script.StandsAt index s)
    (stands' : script.StandsAt index' s') (shorter : s'.ahead.length < s.ahead.length) :
    index < index' := by
  have length := stands.length_eq
  have length' := stands'.length_eq
  omega

end Script

/-- The readers of the language, each with what holds where it is called. -/
inductive Part (script : Script) : {α : Type} → (Session → Prop) → Read α → Prop where
  | expression (power : Power) : Part script (fun _ => True) (expression power)
  | operand (opening : Opening) :
      Part script (fun s => s.grammar.opening? s.kind = some opening) (operand expression opening)
  | call : Part script (fun _ => True) (call expression)
  | arguments : Part script (fun _ => True) (arguments expression)
  | continued (own : Power) (left : Expr) (continuation : Continuation) :
      Part script (fun s => s.grammar.continuation? s.kind = some (own, continuation))
        (continued expression own left continuation)
  | writtenType (power : Power) : Part script (fun _ => True) (writtenType power)
  | bracketed (before : Ty) : Part script (fun _ => True) (bracketed (writtenType .lowest) before)
  | head : Part script (fun s => s.kind = .varWord ∨ s.kind = .constWord) head
  | declarationRest {found : Head} (marks : script.Marks found.position) :
      Part script (fun _ => True) (declarationRest found)
  | receiver : Part script (fun _ => True) receiver
  | multipleRest {first : Receiver} (marked : first.Marked script) : Part script (fun _ => True)
    (multipleRest first)
  | expressionStatement : Part script (fun _ => True) expressionStatement
  | condition (statement : String) : Part script (fun _ => True) (condition statement)
  | block : Part script (fun _ => True) (block statement)
  | elseIf : Part script (fun _ => True) (elseIf statement)
  | otherwise : Part script (fun _ => True) (otherwise statement)
  | startOfLoop : Part script (fun _ => True) startOfLoop
  | loopHeader : Part script (fun _ => True) loopHeader
  | parameters : Part script (fun _ => True) parameters
  | resultTypes : Part script (fun _ => True) resultTypes
  | givenResults : Part script (fun _ => True) givenResults
  | formed (form : Form) : Part script (fun s => s.grammar.form? s.kind = some form)
    (formed statement form)
  | statement : Part script (fun _ => True) statement
  | program : Part script (fun _ => True) program

inductive Taking : {α : Type} → Read α → Prop where
  | expression (power : Power) : Taking (expression power)
  | writtenType (power : Power) : Taking (writtenType power)
  | block : Taking (block statement)
  | statement : Taking statement

inductive Loop : {α σ : Type} → (Kind → Bool) → (σ → Read (α × σ)) → Prop where
  | elements : Loop (· ≠ .closeBracket) (itemOfList (element expression))
  | entries : Loop (· ≠ .closeCurly) (itemOfList (entry expression))
  | arguments : Loop (· ≠ .closeParen) (itemOfList (alone (placed expression)))
  | parameters : Loop (· ≠ .closeParen) (itemOfList (alone parameter))
  | values : Loop (· = .comma) (alone (behindComma (placed expression)))
  | receivers : Loop (· = .comma) (alone (behindComma receiver))
  | results : Loop (· = .comma) (alone (behindComma (writtenType .lowest)))
  | statements : Loop (· ≠ .closeCurly) (alone (insideBlock statement))
  | clauses : Loop (· = .elseIfWord) (alone (elseIf statement))
  | script : Loop (· ≠ .eof) (alone statement)

inductive Extension : {α : Type} → (α → Read (Option α)) → Prop where
  | expression (power : Power) : Extension (continued? expression power)
  | writtenType (power : Power) : Extension (typeSuffix? (writtenType .lowest) power)

theorem Part.tame {begins : Session → Prop} {reader : Read α} {n : Nat}
    (part : Part script begins reader) (holds : script.Holds n s) (called : begins s) :
    Tame script s reader reader := by
  have within := holds.mono (Nat.le_succ n)
  have inner : ∀ s, script.Holds n s → Tame script s Reading.statement Reading.statement :=
    fun _ => tame_statement
  cases part with
  | expression power => exact tame_expression power s holds
  | operand => exact tame_operand tame_expression within called
  | call => exact tame_call tame_expression within
  | arguments => exact tame_arguments tame_expression within
  | continued _ left => exact tame_continued tame_expression within called left
  | writtenType power => exact tame_writtenType power s holds
  | bracketed before => exact tame_bracketed (tame_writtenType .lowest) within before
  | head => exact tame_head holds (called.elim (· ▸ by simp) (· ▸ by simp))
  | declarationRest marks => exact tame_declarationRest marks holds
  | receiver => exact tame_receiver holds
  | multipleRest marked => exact tame_multipleRest marked holds
  | expressionStatement => exact tame_expressionStatement holds
  | condition statement => exact tame_condition statement holds
  | block => exact tame_block inner within
  | elseIf => exact tame_elseIf inner within
  | otherwise => exact tame_otherwise inner within
  | startOfLoop => exact tame_startOfLoop holds
  | loopHeader => exact tame_loopHeader holds
  | parameters => exact tame_parameters holds
  | resultTypes => exact tame_resultTypes holds
  | givenResults => exact tame_givenResults holds
  | formed => exact tame_formed inner within called
  | statement => exact tame_statement holds
  | program => exact tame_program holds

theorem Tame.passes {x x' : Read α} (tame : Tame script s x x') : Passes s (stateAfter (x s)) := by
  cases run : x s with
  | ok a s' => exact tame.ok run
  | error fault s' => exact (tame.error run).1

theorem advances_block : Advances (block statement) := by
  intro s body s' run
  obtain ⟨opens, s₁, inside, closes, rfl⟩ := repeats_of_block run
  obtain ⟨_, performs⟩ := performs_statements (fun _ _ _ run => ok_statement.mp run) inside
  have between := (forward_of_performs performs).length_le
  have first := length_next opens rfl
  have last := length_next closes rfl
  omega

theorem Taking.advances {reader : Read α} (taking : Taking reader) : Advances reader := by
  cases taking with
  | expression power => exact fun _ _ _ run => (ok_expression.mp run).expr_shorter
  | writtenType power => exact advances_writtenType power
  | block => exact advances_block
  | statement => exact advances_statement

theorem Loop.rounds {more : Kind → Bool} {item : σ → Read (α × σ)} {n : Nat}
    (loop : Loop more item) :
    Rounds script n more item item := by
  cases loop with
  | elements => exact rounds_elements tame_expression
  | entries => exact rounds_entries tame_expression
  | arguments => exact rounds_arguments tame_expression
  | parameters => exact rounds_parameters
  | values => exact rounds_behindCommas (fun _ holds => tame_value holds) advances_placed
  | receivers => exact rounds_receivers
  | results => exact rounds_behindCommas (tame_writtenType .lowest) (advances_writtenType .lowest)
  | statements => exact rounds_statements fun _ => tame_statement
  | clauses => exact (rounds_clauses fun _ => tame_statement).fewer (Nat.le_succ n)
  | script => exact rounds_script

theorem Extension.rounds {round : α → Read (Option α)} {n : Nat} (extension : Extension round) :
    Extends script n round round := by
  cases extension with
  | expression power => exact (extends_continued? tame_expression power).fewer (Nat.le_succ n)
  | writtenType power =>
    exact (extends_typeSuffix? (tame_writtenType .lowest) power).fewer (Nat.le_succ n)

/-- How the readings of a script go: forward over its tokens, and to an end. The recursions and the
loops are the same when they are unrolled as often as there are tokens, whatever stands behind the
last round. -/
structure Script.Progress (script : Script) : Prop where
  forward : ∀ {α : Type} {begins : Session → Prop} {reader : Read α}, Part script begins reader →
    ∀ {index s}, script.StandsAt index s → begins s →
      ∃ index', script.StandsAt index' (stateAfter (reader s)) ∧ script.Goes index index'
  takes : ∀ {α : Type} {reader : Read α}, Taking reader → ∀ {index s a s'},
    script.StandsAt index s →
    reader s = .ok a s' → ∃ index', script.StandsAt index' s' ∧ index < index'
  expressions : ∀ {index s}, script.StandsAt index s →
    ∀ power, expression power s = expressionWith expression power s ∧
    ∀ n ≥ script.tokens.length, ∀ bottom, expressionWith^[n] bottom power s = expression power s
  writtenTypes : ∀ {index s}, script.StandsAt index s → ∀ power,
    writtenType power s = writtenTypeWith (writtenType .lowest) power s ∧
      ∀ n ≥ script.tokens.length, ∀ bottom, writtenTypeAround^[n] bottom power s =
        writtenType power s
  statements : ∀ {index s}, script.StandsAt index s → statement s = statementWith statement s ∧
    ∀ n ≥ script.tokens.length, ∀ bottom, statementWith^[n] bottom s = statement s
  loops : ∀ {α σ : Type} {more : Kind → Bool} {item : σ → Read (α × σ)}, Loop more item →
    ∀ {index s}, script.StandsAt index s → ∀ n ≥ script.tokens.length, ∀ bottom state,
      (collectRound more item)^[n] bottom state s = collect more item state s
  extensions : ∀ {α : Type} {round : α → Read (Option α)}, Extension round →
    ∀ {index s}, script.StandsAt index s → ∀ n ≥ script.tokens.length, ∀ bottom value,
      (extendRound round)^[n] bottom value s = extend round value s

theorem Script.progress (script : Script) : script.Progress := by
  constructor
  case forward =>
    intro α begins reader part index s stands called
    exact stands.passes (part.tame (stands.holds (Nat.le_add_right _ _)) called).passes
  case takes =>
    intro α reader taking index s a s' stands run
    have tame : Tame script s reader reader := by
      have part : ∃ begins, Part script begins reader ∧ begins s := by
        cases taking with
        | expression power => exact ⟨_, .expression power, trivial⟩
        | writtenType power => exact ⟨_, .writtenType power, trivial⟩
        | block => exact ⟨_, .block, trivial⟩
        | statement => exact ⟨_, .statement, trivial⟩
      obtain ⟨begins, part, called⟩ := part
      exact part.tame (stands.holds (Nat.le_add_right _ _)) called
    obtain ⟨index', stands', _⟩ := stands.passes (tame.ok run)
    exact ⟨index', stands', stands.lt stands' (taking.advances run)⟩
  case expressions =>
    intro index s stands power
    refine ⟨expression_eq power s, fun n enough bottom => ?_⟩
    exact (standsFor_expression bottom (Nat.le_refl n) power s
      (stands.holds (Nat.le_add_right_of_le enough))).same
  case writtenTypes =>
    intro index s stands power
    refine ⟨writtenType_eq power s, fun n enough bottom => ?_⟩
    exact (standsFor_writtenType bottom (Nat.le_refl n) power s
      (stands.holds (Nat.le_add_right_of_le enough))).same
  case statements =>
    intro index s stands
    refine ⟨statement_eq s, fun n enough bottom => ?_⟩
    exact (standsFor_statement bottom (Nat.le_refl n) () s
      (stands.holds (Nat.le_add_right_of_le enough))).same
  case loops =>
    intro α σ more item loop index s stands n enough bottom state
    have holds := stands.holds (Nat.le_add_right_of_le enough)
    exact (loop.rounds.collectUpTo bottom state holds (Nat.lt_succ_self _) holds.length).same
  case extensions =>
    intro α round extension index s stands n enough bottom value
    have holds := stands.holds (Nat.le_add_right_of_le enough)
    exact (extension.rounds.extendUpTo bottom value holds (Nat.lt_succ_self _) holds.length).same

theorem kind_of_script {body : Block} (performs : Performs s (.script body) s') :
    s'.kind = .eof := by
  induction body generalizing s with
  | nil =>
    cases performs with
    | noScript ends => exact ends
  | cons st rest ih =>
    cases performs with
    | script _ _ others => exact ih others

theorem length_le_of_script {body : Block} (performs : Performs s (.script body) s') :
    body.length + s'.ahead.length ≤ s.ahead.length := by
  induction body generalizing s with
  | nil =>
    cases performs with
    | noScript => exact Nat.le_of_eq (Nat.zero_add _)
  | cons st rest ih =>
    cases performs with
    | script _ first others =>
      have shorter := shorter_of_performs first
      have later := ih others
      rw [List.length_cons]
      omega

theorem standsAt_ofTokens (tokens : List Token) (file : String) (testing : Bool) :
    (Script.ofTokens tokens file).StandsAt 0 (.ofTokens tokens file testing .standard) := by
  refine ⟨rfl, ?_, rfl⟩
  simp only [Script.ofTokens, Cursor.stream, List.length_append, List.length_singleton]
  omega

theorem stateAfter_program (tokens : List Token) (file : String) (testing : Bool) :
    stateAfter (program (.ofTokens tokens file testing .standard)) =
      (readTokens tokens file testing).2 := by
  unfold readTokens
  cases program (.ofTokens tokens file testing .standard) <;> rfl

theorem program_of_accepted {tokens : List Token} {file : String} {testing : Bool} {p : Program}
    (accepted : (readTokens tokens file testing).1 = .ok p) :
    program (.ofTokens tokens file testing .standard) =
      .ok p (readTokens tokens file testing).2 := by
  unfold readTokens at accepted ⊢
  cases run : program (.ofTokens tokens file testing .standard) with
  | ok q s' =>
    rw [run] at accepted
    obtain rfl : q = p := Except.ok.inj accepted
    rfl
  | error fault s' =>
    rw [run] at accepted
    cases accepted

/-- The loop over the statements of a script, unrolled. -/
theorem program_unrolled {n : Nat} (holds : script.Holds n s)
    (bottom : Unit → Read (List Stmt × Unit)) :
    program s = (inScope do
      return ⟨(← (collectRound (· ≠ .eof) (alone statement))^[n] bottom ()).1⟩ :
      Read Program) s := by
  have shape : program =
    (inScope do return ⟨(← collect (· ≠ .eof) (alone statement) ()).1⟩ : Read Program) := by
    simp only [program, many, bind_assoc, pure_bind]
  have loop := rounds_script.collectUpTo bottom () holds.push (Nat.lt_succ_self _) holds.length
  have whole :=
    tame_inScope holds (loop.bind holds.push fun found _ _ _ =>
      tame_pure (a := (⟨found.1⟩ : Program)))
  rw [shape]
  exact whole.same.symm

/-- A reading of any tokens goes forward and comes to an end: after at most as many statements as
there are tokens, and, when it succeeds, at the first token that ends the input. -/
theorem reading_progresses (tokens : List Token) (file : String) (testing : Bool) :
    let script := Script.ofTokens tokens file
    let first := Session.ofTokens tokens file testing .standard
    let last := (readTokens tokens file testing).2
    (script.tokens = tokens ∨ ∃ closing : Token, closing.kind = .eof ∧
      script.tokens = tokens ++ [closing]) ∧ script.Progress ∧ script.StandsAt 0 first ∧
      (∀ bottom, program first = (inScope do
        return ⟨(← (collectRound (· ≠ .eof) (alone statement))^[tokens.length + 1] bottom
          ()).1⟩ : Read Program) first) ∧
      ∃ index, script.StandsAt index last ∧ script.Goes 0 index ∧
        ∀ p, (readTokens tokens file testing).1 = .ok p →
          p.statements.length ≤ index ∧ index ≤ tokens.length ∧ last.kind = .eof := by
  intro script first last
  have begins : script.StandsAt 0 first := standsAt_ofTokens tokens file testing
  have made := stream_ofTokens tokens
  have count : script.tokens.length ≤ tokens.length + 1 := by
    obtain same | ⟨closing, _, same⟩ := made
    · simp [script, Script.ofTokens, same]
    · simp [script, Script.ofTokens, same]
  have holds : script.Holds (tokens.length + 1) first := begins.holds count
  obtain ⟨index, stands, goes⟩ := begins.passes (tame_program holds).passes
  rw [stateAfter_program] at stands
  refine ⟨made, script.progress, begins, program_unrolled holds, index, stands, goes,
    fun p accepted => ?_⟩
  obtain ⟨s₁, performs, same⟩ := ok_program.mp (program_of_accepted accepted)
  have statements := length_le_of_script performs
  have kind : last.kind = .eof := by
    show (readTokens tokens file testing).2.kind = .eof
    rw [same, Session.pop_kind]
    exact kind_of_script performs
  have ahead : s₁.ahead.length + 1 + index = script.tokens.length := by
    rw [← stands.length_eq, same]
    rfl
  have whole : first.push.ahead.length + 1 + 0 = script.tokens.length := begins.length_eq
  refine ⟨?_, ?_, kind⟩
  · have statements' : p.statements.length + s₁.ahead.length ≤ first.push.ahead.length := statements
    omega
  · have inside := stands.inside
    omega

end ColonScript.Reading
