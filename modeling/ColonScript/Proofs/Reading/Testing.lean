import ColonScript.Proofs.Reading.Inside
import ColonScript.Proofs.Reading.Placeless

/-! Testing mode. It only lifts two demands: that outside of functions there is nothing but
functions, and that a function with results returns on every way through its body. Inside of
functions both modes are the same. -/

namespace ColonScript.Reading
open Token (Kind)

variable {s s' : Session} {testing : Bool}

def Session.inMode (testing : Bool) (s : Session) : Session := s.withPlace { s.place with testing }

theorem Forward.inMode_eq (forward : Forward s s') :
    s'.inMode testing = s'.withPlace { s.place with testing } := by
  unfold Session.inMode
  rw [forward.place]

theorem Placeless.inMode {α : Type} {reader : Read α} {a : α} (placeless : Placeless reader)
    (forward : Forward s s') (run : reader s = .ok a s') :
    reader (s.inMode testing) = .ok a (s'.inMode testing) := by
  rw [forward.inMode_eq]
  exact placeless _ run

/-- The mode may change to testing anywhere, and in both directions inside of functions. -/
def Session.Free (testing : Bool) (s : Session) : Prop := testing = true ∨ s.place.inFunction = true

theorem Session.Free.allows (free : s.Free testing) : (s.inMode testing).Allows := by
  rcases free with test | inside
  · exact .inr (.inl test)
  · exact .inl inside

theorem Forward.free (forward : Forward s s') (free : s.Free testing) : s'.Free testing := by
  unfold Session.Free
  rw [forward.place]
  exact free

theorem Onward.free (onward : Onward s s') (free : s.Free testing) : s'.Free testing :=
  onward.toForward.free free

theorem Heads.inMode {signature : Signature} (heads : Heads s signature s') (onward : Onward s s') :
    Heads (s.inMode testing) signature (s'.inMode testing) := by
  rw [onward.toForward.inMode_eq]
  exact heads.withPlace rfl

theorem condition_inMode {statement : String} {e : Expr} (run : condition statement s = .ok e s') :
    condition statement (s.inMode testing) = .ok e (s'.inMode testing) :=
  (placeless_condition statement).inMode (onward_condition run).toForward run

/-- A function that may stand in the other mode: what its body says is the same there. -/
theorem define_inMode {s₁ s₂ : Session} {signature : Signature} {scopes inner : ScopeStack}
    {body : Block} (form : s.grammar.form? s.kind = some .function) (heads : Heads s signature s₁)
    (goes : s₁.kind ≠ .semicolon)
    (registered : s₁.scopes.register ⟨signature, .defined⟩ s.here = .ok scopes)
    (declared : DeclaresParameters s.here scopes.push signature.parameters inner)
    (inside : Performs (((s₁.withPlace (.inside signature s₁.place)).withScopes inner).inMode
      testing) (.block body) (s₂.inMode testing))
    (returns : testing = true ∨ signature.results = [] ∨ Stmt.blockReturns body = true) :
    Performs (s.inMode testing) (.stmt (.function signature (some body)))
      ((s₂.pop.withPlace s₁.place).inMode testing) := by
  have kind := kind_of_function form
  have heads' : Heads (s.inMode testing) signature (s₁.inMode testing) :=
    heads.inMode (onward_heads kind heads)
  have body' : Performs
    (((s₁.inMode testing).withPlace (.inside signature (s₁.inMode testing).place)).withScopes inner)
      (.block body) (s₂.inMode testing) := inside
  have defined := Performs.define (s := s.inMode testing) (.inr (.inr kind)) form heads' goes
    registered declared body'
    returns
  exact defined

/-- Where the mode is free to change, what is read stays the same. -/
theorem Performs.inMode {sentence : Sentence} (performs : Performs s sentence s')
    (free : s.Free testing) :
    Performs (s.inMode testing) sentence (s'.inMode testing) := by
  induction performs with
  | expression allowed form read =>
    exact .expression free.allows form
      (placeless_expressionStatement.inMode (forward_expressionStatement read).1 read)
  | declaration allowed form read =>
    exact .declaration free.allows form
      (placeless_declarationStatement.inMode
        (forward_declarationStatement (kind_of_declaration form) read).1 read)
  | returning allowed form read =>
    refine .returning free.allows form ?_
    rw [(onward_returnStatement (kind_of_returning form) read).1.toForward.inMode_eq]
    exact returnStatement_withPlace rfl read
  | control allowed form read =>
    refine .control free.allows form ?_
    have forward := forward_of_performs (.control allowed form read)
    rw [forward.inMode_eq]
    exact loopControl_withPlace rfl read
  | forward allowed form heads ends registered =>
    have kind := kind_of_function form
    have heads' : Heads (Session.inMode testing _) _ (Session.inMode testing _) :=
      heads.inMode (onward_heads kind heads)
    exact .forward free.allows form heads' ends registered
  | define allowed form heads goes registered declared _ returns inside =>
    -- No function stands in another one, so the mode is free here only because it forgives more.
    have test : testing = true := by
      rcases free with test | inFunction
      · exact test
      · exact absurd (heads.outside.symm.trans inFunction) Bool.false_ne_true
    exact define_inMode form heads goes registered declared (inside (.inr rfl)) (.inl test)
  | @branch s s₁ s₂ s₃ _ _ _ _ _ allowed form kind read bodyPerforms othersPerform _
    body others last =>
    have first : s₁.Free testing := (onward_conditional kind rfl read).free free
    have second : s₂.Free testing := (forward_of_performs bodyPerforms).free first
    have third : s₃.Free testing := (forward_of_performs othersPerform).free second
    exact .branch free.allows form kind (condition_inMode read) (body first)
      (others second) (last third)
  | @forLoop s s₁ s₂ _ _ _ _ allowed form kind colon opens header closes ends _ body =>
    have forward := forward_loopHeader header
    have outer := (onward_three kind rfl colon rfl opens rfl).free free
    have first : s₁.Free testing := forward.free outer
    have inside : Performs ((s₁.inMode testing).next.next.withPlace
      (s₁.inMode testing).place.looping) _ (s₂.inMode testing) :=
      body first
    have looped := Performs.forLoop (s := s.inMode testing) free.allows form kind colon opens
      (placeless_loopHeader.inMode forward header) closes ends inside
    exact looped
  | @whileLoop s s₁ s₂ _ _ allowed form kind read _ body =>
    have first : s₁.Free testing := (onward_conditional kind rfl read).free free
    have inside : Performs ((s₁.inMode testing).withPlace (s₁.inMode testing).place.looping).push _
      (s₂.inMode testing) :=
      body first
    have looped := Performs.whileLoop (s := s.inMode testing) free.allows form kind
      (condition_inMode read) inside
    exact looped
  | @block s s₁ _ opens _ closes body =>
    have inside : Performs (s.inMode testing).next _ (s₁.inMode testing) := body free
    have whole := Performs.block (s := s.inMode testing) opens inside closes
    exact whole
  | noStatements closes => exact .noStatements closes
  | statements more open' firstPerforms _ first rest =>
    exact .statements more open' (first free) (rest ((forward_of_performs firstPerforms).free free))
  | noClauses last => exact .noClauses last
  | @clauses s s₁ s₂ s' _ _ _ kind read bodyPerforms _ body rest =>
    have first : s₁.Free testing := (onward_conditional kind rfl read).free free
    have second : s₂.Free testing := (forward_of_performs bodyPerforms).free first
    exact .clauses kind (condition_inMode read) (body first) (rest second)
  | noOtherwise last => exact .noOtherwise last
  | @otherwise s s₁ _ kind colon _ body =>
    have inside : Performs (s.inMode testing).next.next.push _ (s₁.inMode testing) := body free
    have last := Performs.otherwise (s := s.inMode testing) kind colon inside
    exact last
  | noScript ends => exact .noScript ends
  | script more firstPerforms _ first rest =>
    exact .script more (first free) (rest ((forward_of_performs firstPerforms).free free))

/-! At the top of a script. -/

/-- A function that testing mode forgives nothing. -/
inductive Strict : Stmt → Prop where
  | declared (signature : Signature) : Strict (.function signature none)
  | defined {signature : Signature} {body : Block}
      (returns : signature.results = [] ∨ Stmt.blockReturns body = true) :
      Strict (.function signature (some body))

theorem Performs.inMode_of_strict {st : Stmt} (performs : Performs s (.stmt st) s')
    (strict : Strict st) :
    Performs (s.inMode testing) (.stmt st) (s'.inMode testing) := by
  cases performs with
  | expression _ form read =>
    cases strict <;> exact absurd (.expression form read) Simple.not_function
  | declaration _ form read =>
    cases strict <;> exact absurd (.declaration (kind_of_declaration form) read) Simple.not_function
  | returning _ form read =>
    cases strict <;> exact absurd (.returning (kind_of_returning form) read) Simple.not_function
  | control _ form read =>
    cases strict <;> exact absurd (.control (kind_of_control form) read) Simple.not_function
  | forward _ form heads ends registered =>
    have kind := kind_of_function form
    have heads' : Heads (s.inMode testing) _ (Session.inMode testing _) :=
      heads.inMode (onward_heads kind heads)
    exact .forward (s := s.inMode testing) (.inr (.inr kind)) form heads' ends registered
  | define _ form heads goes registered declared inside =>
    cases strict with
    | defined returns =>
      exact define_inMode form heads goes registered declared
        (inside.inMode (.inr rfl)) (.inr returns)
  | branch | forLoop | whileLoop => cases strict

theorem inMode_of_strictScript {body : Block} (performs : Performs s (.script body) s')
    (strict : ∀ st ∈ body, Strict st) :
    Performs (s.inMode testing) (.script body) (s'.inMode testing) := by
  induction body generalizing s with
  | nil =>
    cases performs with
    | noScript ends => exact .noScript ends
  | cons st rest ih =>
    rw [List.forall_mem_cons] at strict
    cases performs with
    | script more first others =>
      exact .script more (first.inMode_of_strict strict.1) (ih others strict.2)

structure Session.Bare (s : Session) : Prop where
  outside : s.place.inFunction = false
  untested : s.place.testing = false
  standard : s.grammar = .standard

theorem Session.Bare.forward (bare : s.Bare) (forward : Forward s s') : s'.Bare := by
  refine ⟨?_, ?_, forward.grammar.trans bare.standard⟩
  · rw [forward.place, bare.outside]
  · rw [forward.place, bare.untested]

theorem Session.Bare.form (bare : s.Bare) (allowed : s.Allows) :
    s.grammar.form? s.kind = some .function := by
  rcases allowed with inside | testing | kind
  · exact absurd (bare.outside.symm.trans inside) Bool.false_ne_true
  · exact absurd (bare.untested.symm.trans testing) Bool.false_ne_true
  · rw [bare.standard, kind]
    rfl

/-- Outside of testing mode a statement at the top is a function, and no other function stands in
it. -/
theorem strict_of_performs {st : Stmt} (performs : Performs s (.stmt st) s') (bare : s.Bare) :
    Strict st ∧ Functionless st.mentions.tail := by
  cases performs with
  | expression allowed form => cases form.symm.trans (bare.form allowed)
  | declaration allowed form => cases form.symm.trans (bare.form allowed)
  | returning allowed form => cases form.symm.trans (bare.form allowed)
  | control allowed form => cases form.symm.trans (bare.form allowed)
  | branch allowed form => cases form.symm.trans (bare.form allowed)
  | forLoop allowed form => cases form.symm.trans (bare.form allowed)
  | whileLoop allowed form => cases form.symm.trans (bare.form allowed)
  | forward => exact ⟨.declared _, fun _ _ => List.not_mem_nil⟩
  | define _ form heads _ _ _ inside returns =>
    have untested := (bare.forward (onward_heads (kind_of_function form) heads).toForward).untested
    exact ⟨.defined (returns.resolve_left (by simp [untested])),
      functionless_of_performs inside rfl⟩

theorem strict_of_script {body : Block} (performs : Performs s (.script body) s') (bare : s.Bare) :
    ∀ st ∈ body, Strict st ∧ Functionless st.mentions.tail := by
  induction body generalizing s with
  | nil => exact fun _ member => absurd member List.not_mem_nil
  | cons st rest ih =>
    cases performs with
    | script _ first others =>
      rw [List.forall_mem_cons]
      exact ⟨strict_of_performs first bare, ih others (bare.forward (forward_of_performs first))⟩

/-- What a function at the top says of functions: itself, and then what its body says. -/
theorem Strict.mentions_eq {st : Stmt} (strict : Strict st) :
    ∃ signature body, st = .function signature body ∧
      st.mentions = .function signature body :: st.mentions.tail := by
  cases strict with
  | declared signature => exact ⟨signature, none, rfl, rfl⟩
  | @defined signature body => exact ⟨signature, some body, rfl, rfl⟩

end ColonScript.Reading

namespace ColonScript.Program
open Reading

theorem bare_ofTokens (tokens : List Token) (file : String) :
    (Session.ofTokens tokens file false .standard).push.Bare := ⟨rfl, rfl, rfl⟩

/-- Outside of testing mode every statement of an accepted script is a function that returns what it
promises on every way through its body, and no function stands in another. -/
theorem strict_of_accepted {tokens : List Token} {file : String} {p : Program}
    (accepted : ofTokens tokens file false = .ok p) :
    ∀ st ∈ p.statements, Strict st ∧ Functionless st.mentions.tail := by
  obtain ⟨s', performs⟩ := ofTokens_eq_ok.mp accepted
  exact strict_of_script performs (bare_ofTokens tokens file)

theorem mem_of_mentioned {tokens : List Token} {file : String} {p : Program}
    (accepted : ofTokens tokens file false = .ok p) {signature : Signature} {body : Option Block}
    (mentioned : .function signature body ∈ p.mentions) :
    .function signature body ∈ p.statements := by
  obtain ⟨st, member, within⟩ := Block.mem_mentions.mp mentioned
  obtain ⟨strict, alone⟩ := strict_of_accepted accepted st member
  obtain ⟨signature', body', rfl, mentions⟩ := strict.mentions_eq
  rw [mentions] at within
  rcases List.mem_cons.mp within with same | inside
  · obtain ⟨rfl, rfl⟩ := Mention.function.inj same
    exact member
  · exact absurd inside (alone signature body)

theorem returns_of_accepted {tokens : List Token} {file : String} {p : Program}
    (accepted : ofTokens tokens file false = .ok p) {signature : Signature} {body : Block}
    (mentioned : .function signature (some body) ∈ p.mentions) (results : signature.results ≠ []) :
    Stmt.blockReturns body = true := by
  cases (strict_of_accepted accepted _ (mem_of_mentioned accepted mentioned)).1 with
  | defined returns => exact returns.resolve_left results

/-- Testing mode lifts two demands and changes nothing else: a script is accepted without it exactly
when it is accepted with it, has nothing but functions at the top, and each function with results
returns on every way through its body. -/
theorem accepted_iff_accepted_testing {tokens : List Token} {file : String} {p : Program} :
    ofTokens tokens file false = .ok p ↔
      ofTokens tokens file true = .ok p ∧
        (∀ st ∈ p.statements, ∃ signature body, st = .function signature body) ∧
        ∀ signature body, .function signature (some body) ∈ p.mentions → signature.results ≠ [] →
          Stmt.blockReturns body = true := by
  constructor
  · intro accepted
    obtain ⟨s', performs⟩ := ofTokens_eq_ok.mp accepted
    have tested : Performs (Session.ofTokens tokens file true .standard).push (.script p.statements)
      (s'.inMode true) :=
      performs.inMode (.inl rfl)
    refine ⟨ofTokens_eq_ok.mpr ⟨_, tested⟩, fun st member => ?_, ?_⟩
    · obtain ⟨signature, body, same, _⟩ := (strict_of_accepted accepted st member).1.mentions_eq
      exact ⟨signature, body, same⟩
    · intro signature body mentioned results
      exact returns_of_accepted accepted mentioned results
  · rintro ⟨accepted, functions, returns⟩
    obtain ⟨s', performs⟩ := ofTokens_eq_ok.mp accepted
    have strict : ∀ st ∈ p.statements, Strict st := by
      intro st member
      obtain ⟨signature, body, rfl⟩ := functions st member
      cases body with
      | none => exact .declared signature
      | some body =>
        have mentioned : Mention.function signature (some body) ∈ p.mentions :=
          Block.mem_mentions.mpr ⟨_, member, Stmt.function_mem_mentions _ _⟩
        refine .defined ?_
        by_cases results : signature.results = []
        · exact .inl results
        · exact .inr (returns signature body mentioned results)
    have untested : Performs (Session.ofTokens tokens file false .standard).push
      (.script p.statements) (s'.inMode false) :=
      inMode_of_strictScript performs strict
    exact ofTokens_eq_ok.mpr ⟨_, untested⟩

end ColonScript.Program
