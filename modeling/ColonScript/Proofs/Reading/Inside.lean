import ColonScript.Proofs.Mentions
import ColonScript.Proofs.Reading.Everywhere

/-! No function stands inside another, and nothing but functions changes what functions there
are. -/

namespace ColonScript

namespace ScopeStack
variable {stack : ScopeStack}

def tables (stack : ScopeStack) : List (Table Function) := stack.toList.map Scope.functions

theorem tables_pop {rest : List (Table Function)} {table : Table Function} (nonempty : rest ≠ [])
    (tables : stack.tables = table :: rest) : stack.pop.tables = rest := by
  unfold ScopeStack.tables toList at tables
  cases opened : stack.opened with
  | nil =>
    simp only [opened, List.nil_append, List.map_cons, List.map_nil, List.cons.injEq] at tables
    exact absurd tables.2.symm nonempty
  | cons scope scopes =>
    simp only [opened, List.cons_append, List.map_cons, List.cons.injEq] at tables
    simpa [ScopeStack.tables, toList, pop, opened] using tables.2

theorem tables_ne_nil (stack : ScopeStack) : stack.tables ≠ [] := by simp [tables, toList]

/-- A scope without functions of its own is taken away without a change. -/
theorem tables_pop_of_push {before : ScopeStack} (tables : stack.tables = before.push.tables) :
    stack.pop.tables = before.tables :=
  tables_pop before.tables_ne_nil tables

theorem tables_bind (stack : ScopeStack) (binding : Binding) :
    (stack.modifyInnermost (Scope.bind binding)).tables = stack.tables := by
  unfold tables
  rw [toList_modifyInnermost, List.map_cons, toList_eq_cons stack, List.map_cons]
  rfl

theorem function?_eq_tables (stack : ScopeStack) (name : String) :
    stack.function? name = stack.tables.findSome? fun table => table.get? name := by
  unfold function? tables
  rw [List.findSome?_map]
  rfl

end ScopeStack

namespace Reading
variable {s s' : Session} {st : Stmt}

theorem tables_declareAll {scopes scopes' : ScopeStack} {receivers : List Receiver}
    (declares : DeclaresAll scopes receivers scopes') : scopes'.tables = scopes.tables := by
  induction declares with
  | nil => rfl
  | declared declares _ ih => rw [ih, ScopeStack.eq_of_declare declares, ScopeStack.tables_bind]
  | existing _ ih => exact ih

theorem tables_declareParameters {scopes scopes' : ScopeStack} {parameters : List Parameter}
    {position : Position} (declares : DeclaresParameters position scopes parameters scopes') :
    scopes'.tables = scopes.tables := by
  induction declares with
  | nil => rfl
  | cons declares _ ih =>
    rw [ih, ScopeStack.eq_of_declareParameter declares, ScopeStack.tables_bind]

theorem Declares.tables {change : Env → Env} (declares : Declares s change s') :
    s'.scopes.tables = s.scopes.tables := by
  obtain ⟨onward, all, _⟩ := declares
  show ScopeStack.tables _ = _
  rw [Session.withScopes_scopes, tables_declareAll all, onward.scopes]

theorem tables_loopHeader {start : Start} {condition update : Expr}
    (run : loopHeader s = .ok (start, condition, update) s') :
    s'.scopes.tables = s.scopes.tables := by
  obtain ⟨s₁, s₂, begins, conditionReads, _, ends, updateReads, _⟩ := ok_loopHeader.mp run
  have after := (conditionReads.onward.trans (onward_next ends rfl)).trans updateReads.onward
  rw [after.scopes, (declares_startOfLoop begins).tables]

/-- The forms of statements that hold no other. -/
theorem Simple.forms (simple : Simple s st s') :
    (∃ e, st = .expression e) ∨ (∃ declaration, st = .declaration declaration) ∨
      (∃ targets values, st = .multiple targets values) ∨ (∃ values, st = .returning values) ∨
      st = .continuing ∨ st = .breaking := by
  cases simple with
  | expression _ read =>
    obtain ⟨_, found, s₁, _, rest⟩ | ⟨_, e, s₁, _, _, _, rfl, _⟩ := ok_expressionStatement.mp read
    · obtain ⟨_, _, _, _, _, _, _, _, _, _, _, _, _, rfl, _⟩ := ok_multipleRest.mp rest
      exact .inr (.inr (.inl ⟨_, _, rfl⟩))
    · exact .inl ⟨e, rfl⟩
  | declaration _ read =>
    obtain ⟨found, s₁, _, ⟨_, rest⟩ | ⟨_, declaration, _, rfl⟩⟩ := ok_declarationStatement.mp read
    · obtain ⟨_, _, _, _, _, _, _, _, _, _, _, _, _, rfl, _⟩ := ok_multipleRest.mp rest
      exact .inr (.inr (.inl ⟨_, _, rfl⟩))
    · exact .inr (.inl ⟨declaration, rfl⟩)
  | returning _ read =>
    obtain ⟨_, _, _, _, _, _, _, _, settled, _, _, _, rfl, _⟩ := ok_returnStatement.mp read
    exact .inr (.inr (.inr (.inl ⟨settled, rfl⟩)))
  | control _ read =>
    obtain ⟨_, _, same, _⟩ := ok_loopControl.mp read
    by_cases continues : s.kind = .continueWord
    · exact .inr (.inr (.inr (.inr (.inl (by rw [same, if_pos continues])))))
    · exact .inr (.inr (.inr (.inr (.inr (by rw [same, if_neg continues])))))

theorem Simple.not_function {signature : Signature} {body : Option Block} :
    ¬Simple s (.function signature body) s' := by
  intro simple
  rcases simple.forms with ⟨_, same⟩ | ⟨_, same⟩ | ⟨_, _, same⟩ | ⟨_, same⟩ | same |
    same <;> cases same

def Sentence.mentions : Sentence → List Mention
  | .stmt st => st.mentions
  | .block body | .statements body | .script body => Block.mentions body
  | .clauses rest => Block.mentionsOf rest
  | .otherwise last => Block.mentionsIn last

def Functionless (mentions : List Mention) : Prop :=
  ∀ signature body, Mention.function signature body ∉ mentions

theorem Functionless.append {first second : List Mention} :
    Functionless (first ++ second) ↔ Functionless first ∧ Functionless second := by
  simp [Functionless, not_or, forall_and]

theorem functionless_callsIn (es : List Expr) : Functionless (callsIn es) :=
  fun _ _ => Mention.function_not_mem_callsIn es

theorem Simple.functionless (simple : Simple s st s') : Functionless st.mentions := by
  rcases simple.forms with ⟨e, rfl⟩ | ⟨declaration, rfl⟩ | ⟨targets, values, rfl⟩ |
    ⟨values, rfl⟩ | rfl | rfl
  · exact functionless_callsIn _
  · exact functionless_callsIn _
  · exact functionless_callsIn _
  · exact functionless_callsIn _
  · exact fun _ _ => List.not_mem_nil
  · exact fun _ _ => List.not_mem_nil

theorem Forward.inside (forward : Forward s s') (inside : s.place.inFunction = true) :
    s'.place.inFunction = true := by
  rw [forward.place]
  exact inside

theorem Heads.outside {signature : Signature} (heads : Heads s signature s') :
    s.place.inFunction = false := by
  obtain ⟨outside, _, _, _, _⟩ := heads
  exact outside

/-- No function stands inside another. -/
theorem functionless_of_performs {sentence : Sentence} (performs : Performs s sentence s')
    (inside : s.place.inFunction = true) : Functionless sentence.mentions := by
  induction performs with
  | expression _ form read => exact (Simple.expression form read).functionless
  | declaration _ form read =>
    exact (Simple.declaration (kind_of_declaration form) read).functionless
  | returning _ form read => exact (Simple.returning (kind_of_returning form) read).functionless
  | control _ form read => exact (Simple.control (kind_of_control form) read).functionless
  | forward _ _ heads => exact absurd (heads.outside.symm.trans inside) Bool.false_ne_true
  | define _ _ heads => exact absurd (heads.outside.symm.trans inside) Bool.false_ne_true
  | branch _ _ kind read bodyPerforms othersPerform _ body others last =>
    have first := (onward_conditional kind rfl read).toForward.inside inside
    have second := (forward_of_performs bodyPerforms).inside first
    have third := (forward_of_performs othersPerform).inside second
    simp only [Sentence.mentions, Stmt.mentions, Functionless.append]
    exact ⟨⟨⟨functionless_callsIn _, body first⟩, others second⟩, last third⟩
  | forLoop _ _ kind colon opens header _ _ _ body =>
    have opened := onward_three kind rfl colon rfl opens rfl
    have outer := opened.toForward.inside inside
    have first := (forward_loopHeader header).inside outer
    simp only [Sentence.mentions, Stmt.mentions, Functionless.append]
    exact ⟨functionless_callsIn _, body first⟩
  | whileLoop _ _ kind read _ body =>
    have first := (onward_conditional kind rfl read).toForward.inside inside
    simp only [Sentence.mentions, Stmt.mentions, Functionless.append]
    exact ⟨functionless_callsIn _, body first⟩
  | block _ _ _ body => exact body inside
  | noStatements | noClauses | noOtherwise | noScript => exact fun _ _ => List.not_mem_nil
  | statements _ _ firstPerforms _ first rest | script _ firstPerforms _ first rest =>
    have second := (forward_of_performs firstPerforms).inside inside
    simp only [Sentence.mentions, Block.mentions, Functionless.append]
    exact ⟨first inside, rest second⟩
  | clauses kind read bodyPerforms _ body rest =>
    have first := (onward_conditional kind rfl read).toForward.inside inside
    have second := (forward_of_performs bodyPerforms).inside first
    simp only [Sentence.mentions, Block.mentionsOf, Functionless.append]
    exact ⟨⟨functionless_callsIn _, body first⟩, rest second⟩
  | otherwise _ _ _ body => exact body inside

/-- A sentence without functions changes no table of functions. -/
theorem tables_of_performs {sentence : Sentence} (performs : Performs s sentence s')
    (functionless : Functionless sentence.mentions) : s'.scopes.tables = s.scopes.tables := by
  induction performs with
  | expression _ form read => exact (Simple.expression form read).declares.tables
  | declaration _ form read =>
    exact (Simple.declaration (kind_of_declaration form) read).declares.tables
  | returning _ form read => exact (Simple.returning (kind_of_returning form) read).declares.tables
  | control _ form read => exact (Simple.control (kind_of_control form) read).declares.tables
  | forward => exact absurd (List.mem_singleton_self _) (functionless _ _)
  | define => exact absurd List.mem_cons_self (functionless _ _)
  | branch _ _ kind read _ _ _ body others last =>
    simp only [Sentence.mentions, Stmt.mentions, Functionless.append] at functionless
    obtain ⟨⟨⟨_, inBody⟩, inOthers⟩, inLast⟩ := functionless
    have before := (onward_conditional kind rfl read).scopes
    rw [last inLast, others inOthers, Session.pop_scopes,
      ScopeStack.tables_pop_of_push (body inBody), before]
  | forLoop _ _ kind colon opens header _ _ _ body =>
    simp only [Sentence.mentions, Stmt.mentions, Functionless.append] at functionless
    have before := (onward_three kind rfl colon rfl opens rfl).scopes
    have inside := body functionless.2
    rw [Session.withPlace_scopes, Session.next_scopes, Session.next_scopes,
      tables_loopHeader header] at inside
    rw [Session.pop_scopes, Session.withPlace_scopes, ScopeStack.tables_pop_of_push inside, before]
  | whileLoop _ _ kind read _ body =>
    simp only [Sentence.mentions, Stmt.mentions, Functionless.append] at functionless
    have before := (onward_conditional kind rfl read).scopes
    rw [Session.withPlace_scopes, Session.pop_scopes,
      ScopeStack.tables_pop_of_push (body functionless.2), Session.withPlace_scopes, before]
  | block _ _ _ body => exact body functionless
  | noStatements | noClauses | noOtherwise | noScript => rfl
  | statements _ _ _ _ first rest | script _ _ _ first rest =>
    simp only [Sentence.mentions, Block.mentions, Functionless.append] at functionless
    rw [rest functionless.2, first functionless.1]
  | clauses kind read _ _ body rest =>
    simp only [Sentence.mentions, Block.mentionsOf, Functionless.append] at functionless
    obtain ⟨⟨_, inBody⟩, inRest⟩ := functionless
    have before := (onward_conditional kind rfl read).scopes
    rw [rest inRest, Session.pop_scopes, ScopeStack.tables_pop_of_push (body inBody), before]
  | otherwise _ _ _ body =>
    rw [Session.pop_scopes, ScopeStack.tables_pop_of_push (body functionless)]; rfl

end Reading

end ColonScript
