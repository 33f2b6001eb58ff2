import ColonScript.Proofs.Printing.Returned
import ColonScript.Proofs.Reading.Inside

/-! What each sentence is read as again from its own tokens. Where every `return` in it is plain it
is read as the same sentence; and where anything is read at all, every `return` is plain and it was
that sentence. -/

namespace ColonScript

def Point.Finite (point : Point) : Prop := ∀ e ∈ point.exprs, e.Finite

namespace Reading
open Token (Kind)
open Spelling (curlies headed)

variable {s s₁ s₂ s₃ s' t t₁ t' : Session} {ahead more : List Spelling} {st other : Stmt}
    {env : Env}

/-! What a sentence begins with. -/

def opensStatement : Kind → Bool
  | .closeCurly | .eof | .elseWord | .elseIfWord => false
  | _ => true

def Begins (form : Option Form) (tokens : List Spelling) : Prop :=
  ∀ more, Grammar.standard.form? (leadKind (tokens ++ more)) = form ∧
    opensStatement (leadKind (tokens ++ more)) = true

theorem begins_action {e : Expr} (action : e.isAction = true) :
    Begins none (e.tokens ++ [(.semicolon, ";")]) := by
  cases e with
  | call | step | assign => exact fun _ => ⟨rfl, rfl⟩
  | _ => cases action

theorem begins_ofKeyword (constant : Bool) (rest : List Spelling) :
    Begins (some .declaration) (Spelling.ofKeyword constant :: rest) := by
  cases constant <;> exact fun _ => ⟨rfl, rfl⟩

theorem begins_of_performs (performs : Performs s (.stmt st) s') :
    Begins (s.grammar.form? s.kind) st.tokens := by
  cases performs with
  | expression _ form read =>
    rw [form]
    obtain ⟨_, found, s₁, exists', rest⟩ | ⟨_, e, s₁, _, action, _, rfl, _⟩ :=
      ok_expressionStatement.mp read
    · obtain ⟨_, _, _, _, rfl, _⟩ := ok_existing.mp exists'
      obtain ⟨_, _, _, _, _, _, _, _, _, _, _, _, _, rfl, _⟩ := ok_multipleRest.mp rest
      exact fun _ => ⟨rfl, rfl⟩
    · exact begins_action action
  | declaration _ form read =>
    rw [form]
    obtain ⟨found, s₁, _, ⟨_, rest⟩ | ⟨_, declaration, _, rfl⟩⟩ := ok_declarationStatement.mp read
    · obtain ⟨_, _, _, _, _, _, _, _, _, _, _, _, _, rfl, _⟩ := ok_multipleRest.mp rest
      exact begins_ofKeyword _ _
    · exact begins_ofKeyword _ _
  | returning _ form read =>
    obtain ⟨_, _, _, _, _, _, _, _, _, _, _, _, rfl, _⟩ := ok_returnStatement.mp read
    exact form ▸ fun _ => ⟨rfl, rfl⟩
  | control _ form read =>
    obtain ⟨_, _, rfl, _⟩ := ok_loopControl.mp read
    rw [form]
    split <;> exact fun _ => ⟨rfl, rfl⟩
  | forward _ form | define _ form | branch _ form | forLoop _ form | whileLoop _ form =>
    exact form ▸ fun _ => ⟨rfl, rfl⟩

theorem ne_of_opensStatement {kind : Kind} (opens : opensStatement kind = true) :
    kind ≠ .closeCurly ∧ kind ≠ .eof ∧ kind ≠ .elseWord ∧ kind ≠ .elseIfWord := by
  refine ⟨?_, ?_, ?_, ?_⟩
  all_goals
    rintro rfl
    cases opens

/-! Which reading a statement is. -/

theorem performs_iff_formed {form : Form} (allowed : t.Allows)
    (is : t.grammar.form? t.kind = some form) :
    Performs t (.stmt st) t' ↔ formed (statementUpTo t.ahead.length) form t = .ok st t' := by
  rw [← ok_statement]
  simp only [statement, run_bound_bind, statementUpTo, ok_statementWith, is, allowed]
  simp

theorem performs_iff_expression (allowed : t.Allows) (is : t.grammar.form? t.kind = none) :
    Performs t (.stmt st) t' ↔ expressionStatement t = .ok st t' := by
  rw [← ok_statement]
  simp only [statement, run_bound_bind, statementUpTo, ok_statementWith, is, allowed]
  simp

namespace Poised

theorem allows (poised : Poised s ahead t) (allowed : s.Allows)
    (same : t.grammar.form? t.kind = s.grammar.form? s.kind) (standard : s.grammar = .standard) :
    t.Allows := by
  obtain inside | testing | function := allowed
  · exact .inl (poised.place ▸ inside)
  · exact .inr (.inl (poised.place ▸ testing))
  · have form : s.grammar.form? s.kind = some .function := by
      rw [standard, function]
      rfl
    exact .inr (.inr (kind_of_function (same.trans form)))

theorem looping (poised : Poised s more t) :
    Poised (s.withPlace s.place.looping) more (t.withPlace t.place.looping) := by
  rw [poised.place]
  exact poised.withPlace _

theorem leave {inner : Session} (outside : Poised s₁ ahead t₁) (poised : Poised inner more t) :
    Poised (inner.pop.withPlace s₁.place) more (t.pop.withPlace t₁.place) := by
  rw [outside.place]
  exact poised.pop.withPlace _

end Poised

/-! Sentences. -/

/-- What has to stand behind the tokens of a sentence. -/
def Sentence.Ends (behind : Kind) : Sentence → Prop
  | .stmt _ => behind ≠ .elseWord ∧ behind ≠ .elseIfWord
  | .block _ => True
  | .statements _ => behind = .closeCurly
  | .clauses _ => behind ≠ .elseIfWord
  | .otherwise _ => behind ≠ .elseWord
  | .script _ => behind = .eof

inductive Sentence.Nothing : Sentence → Prop where
  | statements : Nothing (.statements [])
  | clauses : Nothing (.clauses [])
  | otherwise : Nothing (.otherwise none)
  | script : Nothing (.script [])

def Sentence.Like : Sentence → Sentence → Prop
  | .stmt _, .stmt _ | .block _, .block _ | .statements _, .statements _ | .clauses _, .clauses _
  | .otherwise _, .otherwise _ | .script _, .script _ => True
  | _, _ => False

def Sentence.Plain (sentence : Sentence) (env : Env) : Prop :=
  sentence.Everywhere (fun _ point => point.returnsPlain = true) env

/-- The state reads the sentence, if its returns are plain; and if it reads any sentence of this
kind, they are. -/
structure Sentence.Again (sentence : Sentence) (env : Env) (s' : Session) (more : List Spelling)
    (t : Session) : Prop where
  forth : sentence.Plain env → ∃ t', Performs t sentence t' ∧ Poised s' more t'
  back : ∀ ⦃other t'⦄, Performs t other t' → other.Like sentence →
    sentence.Plain env ∧ other = sentence ∧ Poised s' more t'

theorem Sentence.Again.of_stmt
    (forth : (Sentence.stmt st).Plain env → ∃ t', Performs t (.stmt st) t' ∧ Poised s' more t')
    (back : ∀ ⦃other t'⦄, Performs t (.stmt other) t' →
      (Sentence.stmt st).Plain env ∧ other = st ∧ Poised s' more t') :
    (Sentence.stmt st).Again env s' more t := by
  refine ⟨forth, fun other t' performs like => ?_⟩
  match other, like with
  | .stmt other, _ =>
    obtain ⟨plain, rfl, after⟩ := back performs
    exact ⟨plain, rfl, after⟩

/-- Wherever the tokens of the sentence stand in front of what ends them, the sentence is read
again. -/
def Sentence.Recurs (sentence : Sentence) (s s' : Session) : Prop :=
  ∀ ⦃env more t⦄, sentence.Everywhere (fun _ point => point.Finite) env →
    Poised s (sentence.tokens ++ more) t →
    sentence.Ends (leadKind more) → sentence.Again env s' more t

def Admits (form : Option Form) (s : Session) (tokens : List Spelling) : Prop :=
  ∀ ⦃more t⦄, Poised s (tokens ++ more) t → t.Allows ∧ t.grammar.form? t.kind = form

/-! Statements that hold no other. -/

theorem Simple.everywhere {P : Env → Point → Prop} (simple : Simple s st s') :
    st.Everywhere P env ↔ P env (.simple st) := by
  rcases simple.forms with ⟨e, rfl⟩ | ⟨declaration, rfl⟩ | ⟨targets, values, rfl⟩ |
    ⟨values, rfl⟩ | rfl | rfl
  all_goals exact Iff.rfl

/-- What is read by one reader alone is read again if the reader reads it again. -/
theorem recurs_simple (reader : Read Stmt) (simple : Simple s st s')
    (read : ∀ ⦃more t⦄, Poised s (st.tokens ++ more) t → ∀ ⦃other t'⦄,
      Performs t (.stmt other) t' ↔ reader t = .ok other t')
    (again : ∀ ⦃more t⦄, (Point.simple st).Finite → (Point.simple st).returnsPlain = true →
      Poised s (st.tokens ++ more) t → ∃ t', reader t = .ok st t' ∧ Poised s' more t')
    (plain : ∀ ⦃more t other t'⦄, (Point.simple st).Finite → Poised s (st.tokens ++ more) t →
      reader t = .ok other t' → (Point.simple st).returnsPlain = true) :
    (Sentence.stmt st).Recurs s s' := by
  intro env more t finite poised _
  have finite := simple.everywhere.mp finite
  refine .of_stmt ?_ fun other t' performs => ?_
  · intro plain
    obtain ⟨t', run, after⟩ := again finite (simple.everywhere.mp plain) poised
    exact ⟨t', (read poised).mpr run, after⟩
  · have run := (read poised).mp performs
    have plain := plain finite poised run
    obtain ⟨t₁, run', after⟩ := again finite plain poised
    cases run.symm.trans run'
    exact ⟨simple.everywhere.mpr plain, rfl, after⟩

theorem plain_of_multipleRest {first : Receiver} (run : multipleRest first s = .ok st s') :
    (Point.simple st).returnsPlain = true := by
  obtain ⟨_, _, _, _, _, _, _, _, _, _, _, _, _, rfl, _⟩ := ok_multipleRest.mp run
  rfl

theorem recurs_expression (admits : Admits none s st.tokens) (sourced : Sourced s)
    (form : s.grammar.form? s.kind = none) (run : expressionStatement s = .ok st s') :
    (Sentence.stmt st).Recurs s s' := by
  have plain : (Point.simple st).returnsPlain = true := by
    obtain ⟨_, found, s₁, _, rest⟩ | ⟨_, e, s₁, _, _, _, rfl, _⟩ := ok_expressionStatement.mp run
    · exact plain_of_multipleRest rest
    · rfl
  refine recurs_simple expressionStatement (.expression form run) (fun more t poised other t' => ?_)
    (fun _ _ finite _ poised => again_expressionStatement run sourced finite poised)
    fun _ _ _ _ _ _ _ => plain
  exact performs_iff_expression (admits poised).1 (admits poised).2

theorem recurs_declaration (admits : Admits (some .declaration) s st.tokens) (sourced : Sourced s)
    (form : s.grammar.form? s.kind = some .declaration) (run : declarationStatement s = .ok st s') :
    (Sentence.stmt st).Recurs s s' := by
  have plain : (Point.simple st).returnsPlain = true := by
    obtain ⟨found, s₁, _, ⟨_, rest⟩ | ⟨_, declaration, _, rfl⟩⟩ := ok_declarationStatement.mp run
    · exact plain_of_multipleRest rest
    · rfl
  refine recurs_simple declarationStatement (.declaration (kind_of_declaration form) run)
    (fun more t poised other t' => ?_)
    (fun _ _ finite _ poised => again_declarationStatement run sourced finite poised)
    fun _ _ _ _ _ _ _ => plain
  exact performs_iff_formed (admits poised).1 (admits poised).2

theorem recurs_returning (admits : Admits (some .returning) s st.tokens) (sourced : Sourced s)
    (form : s.grammar.form? s.kind = some .returning) (run : returnStatement s = .ok st s') :
    (Sentence.stmt st).Recurs s s' := by
  refine recurs_simple returnStatement (.returning (kind_of_returning form) run)
    (fun more t poised other t' => ?_)
    (fun _ _ finite plain poised => again_returnStatement run sourced finite plain poised)
    fun _ _ _ _ finite poised again => plain_of_returnStatement run sourced finite poised again
  exact performs_iff_formed (admits poised).1 (admits poised).2

theorem recurs_control (admits : Admits (some .loopControl) s st.tokens)
    (form : s.grammar.form? s.kind = some .loopControl) (run : loopControl s = .ok st s') :
    (Sentence.stmt st).Recurs s s' := by
  have plain : (Point.simple st).returnsPlain = true := by
    obtain ⟨_, _, rfl, _⟩ := ok_loopControl.mp run
    split <;> rfl
  have kind := kind_of_control form
  refine recurs_simple loopControl (.control kind run) (fun more t poised other t' => ?_)
    (fun _ _ _ _ poised => again_loopControl kind run poised) fun _ _ _ _ _ _ _ => plain
  exact performs_iff_formed (admits poised).1 (admits poised).2

/-! Statements that hold others. -/

section Compound
variable {condition update : Expr} {start : Start} {body : Block} {clauses : List (Expr × Block)}
  {last : Option Block}

theorem recurs_branch
    (admits : Admits (some .branch) s (Stmt.branch condition body clauses last).tokens)
    (sourced : Sourced s) (read : Reading.condition "if" s.next = .ok condition s₁)
    (inside : (Sentence.block body).Recurs s₁.push s₂)
    (others : (Sentence.clauses clauses).Recurs s₂.pop s₃)
    (final : (Sentence.otherwise last).Recurs s₃ s') :
    (Sentence.stmt (.branch condition body clauses last)).Recurs s s' := by
  rintro env more t ⟨finite, bodyFinite, clausesFinite, lastFinite⟩ poised ends
  obtain ⟨allowed, form⟩ := admits poised
  have whole : Poised s
    ((.ifWord, "if") :: (headed condition.tokens ++ (curlies (Block.tokens body) ++
      (Block.tokensOf clauses ++ (Block.tokensIn last ++ more))))) t := by
    simpa [Sentence.tokens, Stmt.tokens] using poised
  obtain ⟨t₁, read', atBody⟩ :=
    again_condition read sourced.next (finite _ List.mem_cons_self) whole.next
  have bodyAgain := inside bodyFinite atBody.push trivial
  have noClause : leadKind (Block.tokensIn last ++ more) ≠ .elseIfWord := by
    cases last with
    | none => exact ends.2
    | some => simp [Block.tokensIn, leadKind]
  refine .of_stmt ?_ fun other t' performs => ?_
  · rintro ⟨_, bodyPlain, clausesPlain, lastPlain⟩
    obtain ⟨t₂, bodyPerforms, atClauses⟩ := bodyAgain.forth bodyPlain
    obtain ⟨t₃, clausesPerform, atLast⟩ :=
      (others clausesFinite atClauses.pop noClause).forth clausesPlain
    obtain ⟨t', lastPerforms, after⟩ := (final lastFinite atLast ends.1).forth lastPlain
    exact ⟨t', .branch allowed form whole.kind read' bodyPerforms clausesPerform lastPerforms,
      after⟩
  · obtain ⟨_, _, _, _, _, u₁, u₂, u₃, first, bodyRun, clausesRun, lastRun, rfl⟩ :=
      ok_branchStatement.mp ((performs_iff_formed allowed form).mp performs)
    cases first.symm.trans read'
    have sound := performs_statementUpTo t.ahead.length
    obtain ⟨bodyPlain, same, atClauses⟩ := bodyAgain.back (performs_block sound bodyRun) trivial
    cases same
    obtain ⟨clausesPlain, same, atLast⟩ := (others clausesFinite atClauses.pop noClause).back
      (performs_clauses sound (repeats_of_many clausesRun)) trivial
    cases same
    obtain ⟨lastPlain, same, after⟩ :=
      (final lastFinite atLast ends.1).back (performs_otherwise sound lastRun) trivial
    cases same
    exact ⟨⟨rfl, bodyPlain, clausesPlain, lastPlain⟩, rfl, after⟩

theorem recurs_whileLoop
    (admits : Admits (some .whileLoop) s (Stmt.whileLoop condition body).tokens)
    (sourced : Sourced s) (read : Reading.condition "while" s.next = .ok condition s₁)
    (inside : (Sentence.block body).Recurs (s₁.withPlace s₁.place.looping).push s₂) :
    (Sentence.stmt (.whileLoop condition body)).Recurs s (s₂.pop.withPlace s₁.place) := by
  rintro env more t ⟨finite, bodyFinite⟩ poised _
  obtain ⟨allowed, form⟩ := admits poised
  have whole : Poised s ((.whileWord, "while") ::
      (headed condition.tokens ++ (curlies (Block.tokens body) ++ more))) t := by
    simpa [Sentence.tokens, Stmt.tokens] using poised
  obtain ⟨t₁, read', atBody⟩ :=
    again_condition read sourced.next (finite _ List.mem_cons_self) whole.next
  have bodyAgain := inside bodyFinite atBody.looping.push trivial
  refine .of_stmt ?_ fun other t' performs => ?_
  · rintro ⟨_, bodyPlain⟩
    obtain ⟨t₂, bodyPerforms, after⟩ := bodyAgain.forth bodyPlain
    exact ⟨_, .whileLoop allowed form whole.kind read' bodyPerforms, atBody.leave after⟩
  · obtain ⟨_, _, _, u₁, u₂, first, bodyRun, rfl, rfl⟩ :=
      ok_whileStatement.mp ((performs_iff_formed allowed form).mp performs)
    cases first.symm.trans read'
    obtain ⟨bodyPlain, same, after⟩ :=
      bodyAgain.back (performs_block (performs_statementUpTo t.ahead.length) bodyRun) trivial
    cases same
    exact ⟨⟨rfl, bodyPlain⟩, rfl, atBody.leave after⟩

theorem recurs_forLoop
    (admits : Admits (some .forLoop) s (Stmt.forLoop start condition update body).tokens)
    (sourced : Sourced s)
    (header : loopHeader s.next.next.next.push = .ok (start, condition, update) s₁)
    (inside : (Sentence.block body).Recurs (s₁.next.next.withPlace s₁.place.looping) s₂) :
    (Sentence.stmt (.forLoop start condition update body)).Recurs s
      (s₂.withPlace s₁.place).pop := by
  rintro env more t ⟨startFinite, conditionFinite, updateFinite, bodyFinite⟩ poised _
  obtain ⟨allowed, form⟩ := admits poised
  have whole : Poised s ((.forWord, "for") :: (.colon, ":") :: (.openParen, "(") ::
      (start.headerTokens condition update ++ (.closeParen, ")") :: (.colon, ":") ::
        (curlies (Block.tokens body) ++ more))) t := by
    simpa [Sentence.tokens, Stmt.tokens, headed, Spelling.parens] using poised
  obtain ⟨t₁, header', atEnd⟩ :=
    again_loopHeader header sourced.next.next.next.push (startFinite _ List.mem_cons_self)
    (conditionFinite _ List.mem_cons_self) (updateFinite _ List.mem_cons_self)
      whole.next.next.next.push rfl
  have bodyAgain := inside bodyFinite atEnd.next.next.looping trivial
  refine .of_stmt ?_ fun other t' performs => ?_
  · rintro ⟨_, _, _, bodyPlain⟩
    obtain ⟨t₂, bodyPerforms, after⟩ := bodyAgain.forth bodyPlain
    exact ⟨_, .forLoop allowed form whole.kind whole.next.kind whole.next.next.kind header'
      atEnd.kind atEnd.next.kind bodyPerforms, atEnd.leave after⟩
  · obtain ⟨_, _, _, _, _, _, _, u₁, u₂, first, _, _, bodyRun, rfl, rfl⟩ :=
      ok_forStatement.mp ((performs_iff_formed allowed form).mp performs)
    cases first.symm.trans header'
    obtain ⟨bodyPlain, same, after⟩ :=
      bodyAgain.back (performs_block (performs_statementUpTo t.ahead.length) bodyRun) trivial
    cases same
    exact ⟨⟨rfl, rfl, rfl, bodyPlain⟩, rfl, atEnd.leave after⟩

end Compound

/-! Functions. -/

theorem Heads.unique {signature signature' : Signature} (heads : Heads s signature s₁)
    (other : Heads s signature' s₂) : signature = signature' ∧ s₁ = s₂ := by
  obtain ⟨_, _, _, parameters, results⟩ := heads
  obtain ⟨_, _, _, parameters', results'⟩ := other
  cases parameters.symm.trans parameters'
  cases results.symm.trans results'
  exact ⟨rfl, rfl⟩

theorem DeclaresParameters.unique {position : Position} {scopes inner inner' : ScopeStack}
    {parameters : List Parameter} (declares : DeclaresParameters position scopes parameters inner)
    (other : DeclaresParameters position scopes parameters inner') : inner = inner' := by
  induction declares with
  | nil =>
    cases other
    rfl
  | cons declares _ ih =>
    cases other with
    | cons declares' others =>
      cases declares.symm.trans declares'
      exact ih others

section Functions
variable {signature : Signature} {scopes inner : ScopeStack} {body : Block}

theorem recurs_forward (admits : Admits (some .function) s (Stmt.function signature none).tokens)
    (sourced : Sourced s) (heads : Heads s signature s₁)
    (registered : s₁.scopes.register ⟨signature, .declared⟩ s.here = .ok scopes) :
    (Sentence.stmt (.function signature none)).Recurs s (s₁.next.withScopes scopes) := by
  rintro env more t _ poised _
  obtain ⟨allowed, form⟩ := admits poised
  have whole : Poised s ((.funWord, "fun") :: (.colon, ":") ::
    (signature.tokens ++ (.semicolon, ";") :: more)) t := by
    simpa [Sentence.tokens, Stmt.tokens] using poised
  obtain ⟨t₁, heads', atEnd⟩ := again_heads heads sourced whole (by simp [leadKind])
  have registered' := registers_anywhere registered t.here
  rw [← atEnd.scopes] at registered'
  have after := atEnd.next.withScopes scopes
  refine .of_stmt ?_ fun other t' performs => ?_
  · intro _
    exact ⟨_, .forward allowed form heads' atEnd.kind registered', after⟩
  · obtain ⟨_, u₁, first, ⟨_, _, second, rfl, rfl⟩ | ⟨goes, _⟩⟩ :=
      ok_functionStatement.mp ((performs_iff_formed allowed form).mp performs)
    · obtain ⟨rfl, rfl⟩ := first.unique heads'
      cases second.symm.trans registered'
      exact ⟨trivial, rfl, after⟩
    · obtain ⟨_, rfl⟩ := first.unique heads'
      exact absurd atEnd.kind goes

theorem recurs_define
    (admits : Admits (some .function) s (Stmt.function signature (some body)).tokens)
    (sourced : Sourced s) (heads : Heads s signature s₁)
    (registered : s₁.scopes.register ⟨signature, .defined⟩ s.here = .ok scopes)
    (declared : DeclaresParameters s.here scopes.push signature.parameters inner)
    (returns : s₁.place.testing = true ∨ signature.results = [] ∨ Stmt.blockReturns body = true)
    (inside : (Sentence.block body).Recurs
      ((s₁.withPlace (.inside signature s₁.place)).withScopes inner) s₂) :
    (Sentence.stmt (.function signature (some body))).Recurs s (s₂.pop.withPlace s₁.place) := by
  rintro env more t finite poised _
  obtain ⟨allowed, form⟩ := admits poised
  have whole : Poised s ((.funWord, "fun") :: (.colon, ":") ::
      (signature.tokens ++ (curlies (Block.tokens body) ++ more))) t := by
    simpa [Sentence.tokens, Stmt.tokens] using poised
  obtain ⟨t₁, heads', atBody⟩ := again_heads heads sourced whole (by simp [leadKind, curlies])
  have goes : t₁.kind ≠ .semicolon := by simp [atBody.kind_eq, leadKind, curlies]
  have registered' := registers_anywhere registered t.here
  have declared' := declared.anywhere t.here
  rw [← atBody.scopes] at registered'
  rw [← atBody.place] at returns
  have opened : Poised ((s₁.withPlace (.inside signature s₁.place)).withScopes inner)
      (curlies (Block.tokens body) ++ more)
      ((t₁.withPlace (.inside signature t₁.place)).withScopes inner) := by
    rw [atBody.place]
    exact (atBody.withPlace _).withScopes _
  have bodyAgain := inside finite opened trivial
  refine .of_stmt ?_ fun other t' performs => ?_
  · intro plain
    obtain ⟨t₂, bodyPerforms, after⟩ := bodyAgain.forth plain
    exact ⟨_, .define allowed form heads' goes registered' declared' bodyPerforms returns,
      atBody.leave after⟩
  · obtain ⟨_, u₁, first, ⟨ends, _⟩ | ⟨_, _, _, second, bodyRun, _, rfl⟩⟩ :=
      ok_functionStatement.mp ((performs_iff_formed allowed form).mp performs)
    · obtain ⟨_, rfl⟩ := first.unique heads'
      exact absurd ends goes
    · obtain ⟨rfl, rfl⟩ := first.unique heads'
      cases second.symm.trans registered'
      obtain ⟨_, u₂, third, blockRun, rfl⟩ := ok_functionBody.mp bodyRun
      obtain rfl := third.unique declared'
      obtain ⟨plain, same, after⟩ :=
        bodyAgain.back (performs_block (performs_statementUpTo t.ahead.length) blockRun) trivial
      cases same
      exact ⟨plain, rfl, atBody.leave after⟩

end Functions

/-! Blocks and what stands behind them. -/

section Blocks
variable {condition : Expr} {body : Block} {clauses : List (Expr × Block)}

theorem recurs_block (inside : (Sentence.statements body).Recurs s.next s₁) :
    (Sentence.block body).Recurs s s₁.next := by
  rintro env more t finite poised _
  have whole : Poised s
    ((.openCurly, "\x7b") :: (Block.tokens body ++ (.closeCurly, "\x7d") :: more)) t := by
    simpa [Sentence.tokens, curlies] using poised
  have bodyAgain := inside finite whole.next rfl
  constructor
  · intro plain
    obtain ⟨t₁, bodyPerforms, after⟩ := bodyAgain.forth plain
    exact ⟨_, .block whole.kind bodyPerforms after.kind, after.next⟩
  · intro other t' performs like
    cases performs with
    | block _ bodyPerforms =>
      obtain ⟨plain, same, after⟩ := bodyAgain.back bodyPerforms trivial
      cases same
      exact ⟨plain, rfl, after.next⟩
    | _ => cases like

/-! Sentences that are empty. -/

theorem performs_nothing {sentence : Sentence} (nothing : sentence.Nothing)
    (ends : sentence.Ends t.kind) :
    Performs t sentence t := by
  cases nothing with
  | statements => exact .noStatements ends
  | clauses => exact .noClauses ends
  | otherwise => exact .noOtherwise ends
  | script => exact .noScript ends

/-- In front of what ends such a sentence no other of its kind is read. -/
theorem nothing_of_performs {sentence other : Sentence} (performs : Performs t other t')
    (like : other.Like sentence) (nothing : sentence.Nothing) (ends : sentence.Ends t.kind) :
    other = sentence ∧ t' = t := by
  cases nothing with
  | statements =>
    cases performs with
    | noStatements => exact ⟨rfl, rfl⟩
    | statements goes => exact absurd ends goes
    | _ => cases like
  | clauses =>
    cases performs with
    | noClauses => exact ⟨rfl, rfl⟩
    | clauses kind => exact absurd kind ends
    | _ => cases like
  | otherwise =>
    cases performs with
    | noOtherwise => exact ⟨rfl, rfl⟩
    | otherwise kind => exact absurd kind ends
    | _ => cases like
  | script =>
    cases performs with
    | noScript => exact ⟨rfl, rfl⟩
    | script goes => exact absurd ends goes
    | _ => cases like

theorem recurs_nothing {sentence : Sentence} (nothing : sentence.Nothing) :
    sentence.Recurs s s := by
  rintro env more t _ poised ends
  have plain : sentence.Plain env := by cases nothing <;> trivial
  have same : sentence.tokens ++ more = more := by cases nothing <;> rfl
  rw [same] at poised
  rw [← poised.kind_eq] at ends
  constructor
  · exact fun _ => ⟨t, performs_nothing nothing ends, poised⟩
  · intro other t' performs like
    obtain ⟨rfl, rfl⟩ := nothing_of_performs performs like nothing ends
    exact ⟨plain, rfl, poised⟩

/-! Statements one behind the other. -/

def Sentence.row (whole : Bool) (body : Block) : Sentence :=
  if whole then .script body else .statements body

section Rows
variable {whole : Bool}

theorem tokens_row : (Sentence.row whole body).tokens = Block.tokens body := by cases whole <;> rfl

theorem everywhere_row {P : Env → Point → Prop} :
    (Sentence.row whole body).Everywhere P env = Block.Everywhere P env body := by
  cases whole <;> rfl

theorem plain_row : (Sentence.row whole body).Plain env =
    Block.Everywhere (fun _ point => point.returnsPlain = true) env body := everywhere_row

theorem like_row (body' : Block) : (Sentence.row whole body).Like (.row whole body') := by
  cases whole <;> trivial

theorem row_inj {body' : Block} (same : Sentence.row whole body = .row whole body') :
    body = body' := by
  cases whole <;> cases same <;> rfl

theorem performs_row (goes : t.kind ≠ .closeCurly) (open' : t.kind ≠ .eof)
    (first : Performs t (.stmt st) t₁)
    (rest : Performs t₁ (.row whole body) t') : Performs t (.row whole (st :: body)) t' := by
  cases whole with
  | false => exact .statements goes open' first rest
  | true => exact .script open' first rest

theorem row_of_performs {sentence : Sentence} (performs : Performs t sentence t')
    (like : sentence.Like (.row whole body)) (goes : t.kind ≠ .closeCurly) (open' : t.kind ≠ .eof) :
    ∃ st rest t₁, sentence = .row whole (st :: rest) ∧ Performs t (.stmt st) t₁ ∧
      Performs t₁ (.row whole rest) t' := by
  cases whole with
  | false =>
    cases performs with
    | noStatements closes => exact absurd closes goes
    | statements _ _ first rest => exact ⟨_, _, _, rfl, first, rest⟩
    | _ => cases like
  | true =>
    cases performs with
    | noScript ends => exact absurd ends open'
    | script _ first rest => exact ⟨_, _, _, rfl, first, rest⟩
    | _ => cases like

theorem begins_of_row (performs : Performs s (.row whole (st :: body)) s') :
    ∃ s₁, Performs s (.stmt st) s₁ := by
  cases whole <;> cases performs <;> exact ⟨_, by assumption⟩

/-- Behind a statement there are those that follow it, or the end of all of them. -/
theorem ends_of_row (performs : Performs s (.row whole body) s')
    (ends : (Sentence.row whole body).Ends (leadKind more)) :
    (Sentence.stmt st).Ends (leadKind (Block.tokens body ++ more)) := by
  cases body with
  | nil => cases whole <;> simp_all [Sentence.row, Sentence.Ends, Block.tokens]
  | cons next rest =>
    obtain ⟨_, first⟩ := begins_of_row performs
    rw [Block.tokens, List.append_assoc]
    exact (ne_of_opensStatement (begins_of_performs first _).2).2.2

variable (whole) in
theorem recurs_row (performs : Performs s (.stmt st) s₁) (others : Performs s₁ (.row whole body) s')
    (first : (Sentence.stmt st).Recurs s s₁) (rest : (Sentence.row whole body).Recurs s₁ s') :
    (Sentence.row whole (st :: body)).Recurs s s' := by
  intro env more t finite poised ends
  rw [everywhere_row] at finite
  have behind : (Sentence.row whole body).Ends (leadKind more) := by cases whole <;> exact ends
  have whole' : Poised s (st.tokens ++ (Block.tokens body ++ more)) t := by
    simpa [tokens_row, Block.tokens] using poised
  obtain ⟨goes, open', _⟩ :=
    ne_of_opensStatement (begins_of_performs performs (Block.tokens body ++ more)).2
  rw [← whole'.kind_eq] at goes open'
  have firstAgain := first finite.1 whole' (ends_of_row others behind)
  have restAgain : ∀ ⦃u⦄, Poised s₁ (Block.tokens body ++ more) u →
      (Sentence.row whole body).Again (env.after st) s' more u := by
    intro u between
    refine rest ?_ ?_ behind
    · rw [everywhere_row]
      exact finite.2
    · rw [tokens_row]
      exact between
  constructor
  · intro plain
    rw [plain_row] at plain
    obtain ⟨t₁, performs', between⟩ := firstAgain.forth plain.1
    obtain ⟨t', others', after⟩ := (restAgain between).forth (by rw [plain_row]; exact plain.2)
    exact ⟨t', performs_row goes open' performs' others', after⟩
  · intro other t' performs like
    obtain ⟨_, _, t₁, rfl, performs', others'⟩ := row_of_performs performs like goes open'
    obtain ⟨plain, same, between⟩ := firstAgain.back performs' trivial
    cases same
    obtain ⟨plainRest, same, after⟩ := (restAgain between).back others' (like_row body)
    obtain rfl := row_inj same
    rw [plain_row] at plainRest ⊢
    exact ⟨⟨plain, plainRest⟩, rfl, after⟩

end Rows

theorem recurs_clauses (sourced : Sourced s)
    (read : Reading.condition "else if" s.next = .ok condition s₁)
    (inside : (Sentence.block body).Recurs s₁.push s₂)
    (rest : (Sentence.clauses clauses).Recurs s₂.pop s') :
    (Sentence.clauses ((condition, body) :: clauses)).Recurs s s' := by
  rintro env more t ⟨finite, bodyFinite, restFinite⟩ poised ends
  have whole : Poised s
    ((.elseIfWord, "else if") :: (headed condition.tokens ++ (curlies (Block.tokens body) ++
      (Block.tokensOf clauses ++ more)))) t := by
    simpa [Sentence.tokens, Block.tokensOf] using poised
  obtain ⟨t₁, read', atBody⟩ :=
    again_condition read sourced.next (finite _ List.mem_cons_self) whole.next
  have bodyAgain := inside bodyFinite atBody.push trivial
  constructor
  · rintro ⟨_, bodyPlain, restPlain⟩
    obtain ⟨t₂, bodyPerforms, between⟩ := bodyAgain.forth bodyPlain
    obtain ⟨t', others, after⟩ := (rest restFinite between.pop ends).forth restPlain
    exact ⟨t', .clauses whole.kind read' bodyPerforms others, after⟩
  · intro other t' performs like
    cases performs with
    | noClauses last => exact absurd whole.kind last
    | clauses _ first bodyPerforms others =>
      cases first.symm.trans read'
      obtain ⟨bodyPlain, same, between⟩ := bodyAgain.back bodyPerforms trivial
      cases same
      obtain ⟨restPlain, same, after⟩ := (rest restFinite between.pop ends).back others trivial
      cases same
      exact ⟨⟨rfl, bodyPlain, restPlain⟩, rfl, after⟩
    | _ => cases like

theorem recurs_otherwise (inside : (Sentence.block body).Recurs s.next.next.push s₁) :
    (Sentence.otherwise (some body)).Recurs s s₁.pop := by
  rintro env more t finite poised _
  have whole : Poised s ((.elseWord, "else") :: (.colon, ":") ::
    (curlies (Block.tokens body) ++ more)) t := by
    simpa [Sentence.tokens, Block.tokensIn] using poised
  have bodyAgain := inside finite whole.next.next.push trivial
  constructor
  · intro plain
    obtain ⟨t₁, bodyPerforms, after⟩ := bodyAgain.forth plain
    exact ⟨_, .otherwise whole.kind whole.next.kind bodyPerforms, after.pop⟩
  · intro other t' performs like
    cases performs with
    | noOtherwise last => exact absurd whole.kind last
    | otherwise _ _ bodyPerforms =>
      obtain ⟨plain, same, after⟩ := bodyAgain.back bodyPerforms trivial
      cases same
      exact ⟨plain, rfl, after.pop⟩
    | _ => cases like

end Blocks

theorem Performs.allowed (performs : Performs s (.stmt st) s') : s.Allows := by
  cases performs <;> assumption

theorem admits_of_performs {form : Option Form} (performs : Performs s (.stmt st) s')
    (standard : s.grammar = .standard) (is : s.grammar.form? s.kind = form) :
    Admits form s st.tokens := by
  intro more t poised
  have same : t.grammar.form? t.kind = s.grammar.form? s.kind := by
    rw [poised.ready.standard, poised.kind_eq, (begins_of_performs performs more).1]
  exact ⟨poised.allows performs.allowed same standard, same.trans is⟩

/-- From the tokens of any sentence the sentence is read again. -/
theorem recurs_of_performs {sentence : Sentence} (performs : Performs s sentence s')
    (sourced : Sourced s) :
    sentence.Recurs s s' := by
  induction performs with
  | expression allowed form read =>
    have performs := Performs.expression allowed form read
    exact recurs_expression (admits_of_performs performs sourced.standard form) sourced form read
  | declaration allowed form read =>
    have performs := Performs.declaration allowed form read
    exact recurs_declaration (admits_of_performs performs sourced.standard form) sourced form read
  | returning allowed form read =>
    have performs := Performs.returning allowed form read
    exact recurs_returning (admits_of_performs performs sourced.standard form) sourced form read
  | control allowed form read =>
    have performs := Performs.control allowed form read
    exact recurs_control (admits_of_performs performs sourced.standard form) form read
  | forward allowed form heads ends registered =>
    have performs := Performs.forward allowed form heads ends registered
    exact recurs_forward (admits_of_performs performs sourced.standard form) sourced
      heads registered
  | define allowed form heads goes registered declared inside returns body =>
    have performs := Performs.define allowed form heads goes registered declared inside returns
    exact recurs_define (admits_of_performs performs sourced.standard form) sourced heads registered
      declared returns
      (body (sourced.body heads (kind_of_function form) registered declared))
  | branch allowed form kind read inside others last body clauses final =>
    have performs := Performs.branch allowed form kind read inside others last
    have opened := (sourced.next.condition read).2.push
    have closed := (sourced.next.condition read).2.pop (opened.performs inside)
      (forward_of_performs inside).place
    exact recurs_branch (admits_of_performs performs sourced.standard form) sourced read
      (body opened) (clauses closed)
      (final (closed.performs others))
  | forLoop allowed form kind colon opens header closes ends inside body =>
    have performs := Performs.forLoop allowed form kind colon opens header closes ends inside
    have before := sourced.next.next.next.push.loopHeader header
    exact recurs_forLoop (admits_of_performs performs sourced.standard form) sourced header
      (body before.next.next.looping)
  | whileLoop allowed form kind read inside body =>
    have performs := Performs.whileLoop allowed form kind read inside
    exact recurs_whileLoop (admits_of_performs performs sourced.standard form) sourced read
      (body (sourced.next.condition read).2.looping.push)
  | block _ _ _ inside => exact recurs_block (inside sourced.next)
  | noStatements => exact recurs_nothing .statements
  | noScript => exact recurs_nothing .script
  | noClauses => exact recurs_nothing .clauses
  | noOtherwise => exact recurs_nothing .otherwise
  | statements _ _ first others firstRecurs rest =>
    exact recurs_row false first others (firstRecurs sourced) (rest (sourced.performs first))
  | script _ first others firstRecurs rest =>
    exact recurs_row true first others (firstRecurs sourced) (rest (sourced.performs first))
  | clauses _ read inside _ body rest =>
    have opened := (sourced.next.condition read).2.push
    have closed := (sourced.next.condition read).2.pop (opened.performs inside)
      (forward_of_performs inside).place
    exact recurs_clauses sourced read (body opened) (rest closed)
  | otherwise _ _ _ body => exact recurs_otherwise (body sourced.next.next.push)

end Reading

end ColonScript
