import ColonScript.Proofs.Reading.Clause
import ColonScript.Reading.Program

/-! The statements of the language as a relation on states. A statement that holds no other is taken
as it is read; blocks, functions, branches and loops are made of the statements inside them. As with
expressions there are no bounds in the relation, and a bounded reading succeeds exactly where it
holds. -/

namespace ColonScript.Reading
open Token (Kind)

namespace Session

/-- Where a statement may stand: outside of functions only a function, unless in testing mode. -/
def Allows (s : Session) : Prop :=
  s.place.inFunction = true ∨ s.place.testing = true ∨ s.kind = .funWord

end Session

inductive Heads (s : Session) : Signature → Session → Prop where
  | intro {s₁ s' : Session} {found : List Parameter} {types : List Ty}
      (outside : s.place.inFunction = false)
      (colon : s.next.kind = .colon) (name : s.next.next.kind = .identifier)
      (parameters : Reading.parameters s.next.next.next = .ok found s₁)
      (results : resultTypes s₁ = .ok types s') :
      Heads s ⟨s.next.next.current.value, found, types⟩ s'

/-- What has been read of a script, with what came of it. -/
inductive Sentence where
  | stmt (st : Stmt)
  | block (body : Block)
  | statements (body : Block)
  | clauses (clauses : List (Expr × Block))
  | otherwise (body : Option Block)
  | script (body : Block)

inductive Performs : Session → Sentence → Session → Prop where
  | expression {s s' : Session} {st : Stmt} (allowed : s.Allows)
      (form : s.grammar.form? s.kind = none)
      (read : expressionStatement s = .ok st s') : Performs s (.stmt st) s'
  | declaration {s s' : Session} {st : Stmt} (allowed : s.Allows)
      (form : s.grammar.form? s.kind = some .declaration)
      (read : declarationStatement s = .ok st s') : Performs s (.stmt st) s'
  | returning {s s' : Session} {st : Stmt} (allowed : s.Allows)
      (form : s.grammar.form? s.kind = some .returning)
      (read : returnStatement s = .ok st s') : Performs s (.stmt st) s'
  | control {s s' : Session} {st : Stmt} (allowed : s.Allows)
      (form : s.grammar.form? s.kind = some .loopControl)
      (read : loopControl s = .ok st s') : Performs s (.stmt st) s'
  | forward {s s₁ : Session} {signature : Signature} {scopes : ScopeStack} (allowed : s.Allows)
      (form : s.grammar.form? s.kind = some .function) (heads : Heads s signature s₁)
      (ends : s₁.kind = .semicolon)
      (registered : s₁.scopes.register ⟨signature, .declared⟩ s.here = .ok scopes) :
      Performs s (.stmt (.function signature none)) (s₁.next.withScopes scopes)
  | define {s s₁ s₂ : Session} {signature : Signature} {scopes inner : ScopeStack} {body : Block}
      (allowed : s.Allows)
      (form : s.grammar.form? s.kind = some .function) (heads : Heads s signature s₁)
      (goes : s₁.kind ≠ .semicolon)
      (registered : s₁.scopes.register ⟨signature, .defined⟩ s.here = .ok scopes)
      (declared : DeclaresParameters s.here scopes.push signature.parameters inner)
      (inside : Performs ((s₁.withPlace (.inside signature s₁.place)).withScopes inner)
        (.block body) s₂)
      (returns : s₁.place.testing = true ∨ signature.results = [] ∨ Stmt.blockReturns body = true) :
      Performs s (.stmt (.function signature (some body))) (s₂.pop.withPlace s₁.place)
  | branch {s s₁ s₂ s₃ s' : Session} {condition : Expr} {body : Block}
      {clauses : List (Expr × Block)}
      {otherwise : Option Block} (allowed : s.Allows) (form : s.grammar.form? s.kind = some .branch)
      (kind : s.kind = .ifWord) (read : Reading.condition "if" s.next = .ok condition s₁)
      (inside : Performs s₁.push (.block body) s₂) (others : Performs s₂.pop (.clauses clauses) s₃)
      (last : Performs s₃ (.otherwise otherwise) s') :
      Performs s (.stmt (.branch condition body clauses otherwise)) s'
  | forLoop {s s₁ s₂ : Session} {start : Start} {condition update : Expr} {body : Block}
      (allowed : s.Allows)
      (form : s.grammar.form? s.kind = some .forLoop) (kind : s.kind = .forWord)
      (colon : s.next.kind = .colon)
      (opens : s.next.next.kind = .openParen)
      (header : loopHeader s.next.next.next.push = .ok (start, condition, update) s₁)
      (closes : s₁.kind = .closeParen) (ends : s₁.next.kind = .colon)
      (inside : Performs (s₁.next.next.withPlace s₁.place.looping) (.block body) s₂) :
      Performs s (.stmt (.forLoop start condition update body)) (s₂.withPlace s₁.place).pop
  | whileLoop {s s₁ s₂ : Session} {condition : Expr} {body : Block} (allowed : s.Allows)
      (form : s.grammar.form? s.kind = some .whileLoop) (kind : s.kind = .whileWord)
      (read : Reading.condition "while" s.next = .ok condition s₁)
      (inside : Performs (s₁.withPlace s₁.place.looping).push (.block body) s₂) :
      Performs s (.stmt (.whileLoop condition body)) (s₂.pop.withPlace s₁.place)
  | block {s s₁ : Session} {body : Block} (opens : s.kind = .openCurly)
      (inside : Performs s.next (.statements body) s₁) (closes : s₁.kind = .closeCurly) :
      Performs s (.block body) s₁.next
  | noStatements {s : Session} (closes : s.kind = .closeCurly) : Performs s (.statements []) s
  | statements {s s₁ s' : Session} {st : Stmt} {body : Block} (more : s.kind ≠ .closeCurly)
      (open' : s.kind ≠ .eof)
      (first : Performs s (.stmt st) s₁) (rest : Performs s₁ (.statements body) s') :
      Performs s (.statements (st :: body)) s'
  | noClauses {s : Session} (last : s.kind ≠ .elseIfWord) : Performs s (.clauses []) s
  | clauses {s s₁ s₂ s' : Session} {condition : Expr} {body : Block} {clauses : List (Expr × Block)}
      (kind : s.kind = .elseIfWord) (read : Reading.condition "else if" s.next = .ok condition s₁)
      (inside : Performs s₁.push (.block body) s₂) (rest : Performs s₂.pop (.clauses clauses) s') :
      Performs s (.clauses ((condition, body) :: clauses)) s'
  | noOtherwise {s : Session} (last : s.kind ≠ .elseWord) : Performs s (.otherwise none) s
  | otherwise {s s₁ : Session} {body : Block} (kind : s.kind = .elseWord)
      (colon : s.next.kind = .colon) (inside : Performs s.next.next.push (.block body) s₁) :
      Performs s (.otherwise (some body)) s₁.pop
  | noScript {s : Session} (ends : s.kind = .eof) : Performs s (.script []) s
  | script {s s₁ s' : Session} {st : Stmt} {body : Block} (more : s.kind ≠ .eof)
      (first : Performs s (.stmt st) s₁)
      (rest : Performs s₁ (.script body) s') : Performs s (.script (st :: body)) s'

/-! Every successful reading is in the relation. -/

section
variable {stmt : Read Stmt} {s s' : Session} {body : Block}

def Inside (stmt : Read Stmt) (s : Session) (st : Stmt) (s' : Session) : Prop :=
  s.kind ≠ .eof ∧ stmt s = .ok st s'

theorem repeats_of_block (run : block stmt s = .ok body s') :
    s.kind = .openCurly ∧ ∃ s₁, Repeats (· ≠ .closeCurly) (Inside stmt) s.next body s₁ ∧
      s₁.kind = .closeCurly ∧ s' = s₁.next := by
  simp only [block, ok_bind, ok_skip, ok_pure] at run
  obtain ⟨_, _, ⟨opens, rfl⟩, _, s₁, inside, _, _, ⟨closes, rfl⟩, rfl, rfl⟩ := run
  refine ⟨opens, s₁, (repeats_of_many inside).mono ?_, closes, rfl⟩
  intro s st s' run
  simpa [Inside] using run

theorem block_of_repeats {s₁ : Session} (advances : Advances stmt) (opens : s.kind = .openCurly)
    (inside : Repeats (· ≠ .closeCurly) (Inside stmt) s.next body s₁)
    (closes : s₁.kind = .closeCurly) :
    block stmt s = .ok body s₁.next := by
  simp only [block, ok_bind, ok_skip, ok_pure]
  refine ⟨(), _, ⟨opens, rfl⟩, body, s₁, many_of_repeats ?_ (inside.mono ?_), (), _,
    ⟨closes, rfl⟩, rfl, rfl⟩
  · intro s st s' run
    exact advances (by simpa using run : s.kind ≠ .eof ∧ stmt s = .ok st s').2
  · intro s st s' run
    simpa [Inside] using run

theorem ok_functionBody {signature : Signature} {position : Position} :
    functionBody stmt signature position s = .ok body s' ↔ ∃ inner s₁,
      DeclaresParameters position s.scopes.push signature.parameters inner ∧
        block stmt ((s.withPlace (.inside signature s.place)).withScopes inner) = .ok body s₁ ∧
        s' = s₁.pop.withPlace s.place := by
  simp only [functionBody, ok_within, ok_inScope, ok_bind, ok_declareParameters]
  constructor
  · rintro ⟨_, ⟨s₁, ⟨_, _, ⟨inner, declares, rfl⟩, run⟩, rfl⟩, rfl⟩
    exact ⟨inner, s₁, declares, run, rfl⟩
  · rintro ⟨inner, s₁, declares, run, rfl⟩
    exact ⟨_, ⟨s₁, ⟨(), _, ⟨inner, declares, rfl⟩, run⟩, rfl⟩, rfl⟩

theorem ok_requireReturn {signature : Signature} {position : Position} {u : Unit} :
    requireReturn signature body position s = .ok u s' ↔
      (s.place.testing = true ∨ signature.results = [] ∨ Stmt.blockReturns body = true) ∧
      s' = s := by
  cases testing : s.place.testing <;> cases empty : signature.results <;>
    cases returns : Stmt.blockReturns body <;>
    simp [requireReturn, testing, empty, returns]

/-- The end of a function, once its head is read. -/
theorem ok_registered {signature : Signature} {position : Position} {st : Stmt} :
    (do
      if (← currentKind) = .semicolon then
        skip .semicolon
        updateScopes fun scopes => scopes.register ⟨signature, .declared⟩ position
        return .function signature none
      else
        updateScopes fun scopes => scopes.register ⟨signature, .defined⟩ position
        let body ← functionBody stmt signature position
        requireReturn signature body position
        return .function signature (some body) : Read Stmt) s = .ok st s' ↔
      s.kind = .semicolon ∧
        (∃ scopes, s.scopes.register ⟨signature, .declared⟩ position = .ok scopes ∧
        st = .function signature none ∧ s' = s.next.withScopes scopes) ∨
      s.kind ≠ .semicolon ∧ ∃ scopes body, s.scopes.register ⟨signature, .defined⟩
        position = .ok scopes ∧ functionBody stmt signature position
        (s.withScopes scopes) = .ok body s' ∧
        (s'.place.testing = true ∨ signature.results = [] ∨ Stmt.blockReturns body = true) ∧
        st = .function signature (some body) := by
  rw [run_currentKind_bind, ok_ite]
  refine or_congr (and_congr_right fun ends => ?_) (and_congr_right fun _ => ?_)
  · simp only [ok_skip_bind, ok_updateScopes_bind, ok_pure, ends, true_and, Session.next_scopes]
  · simp only [ok_updateScopes_bind]
    refine exists_congr fun scopes => ?_
    constructor
    · rintro ⟨registered, run⟩
      obtain ⟨body, s₁, whole, run⟩ := ok_bind.mp run
      obtain ⟨_, _, required, last⟩ := ok_bind.mp run
      obtain ⟨returns, rfl⟩ := ok_requireReturn.mp required
      obtain ⟨rfl, rfl⟩ := ok_pure.mp last
      exact ⟨body, registered, whole, returns, rfl⟩
    · rintro ⟨body, registered, whole, returns, rfl⟩
      refine ⟨registered, ok_bind.mpr ⟨body, s', whole, ?_⟩⟩
      exact ok_bind.mpr ⟨(), s', ok_requireReturn.mpr ⟨returns, rfl⟩, ok_pure.mpr ⟨rfl, rfl⟩⟩

theorem ok_functionStatement {st : Stmt} :
    functionStatement stmt s = .ok st s' ↔ ∃ signature s₁, Heads s signature s₁ ∧
      (s₁.kind = .semicolon ∧
        (∃ scopes, s₁.scopes.register ⟨signature, .declared⟩ s.here = .ok scopes ∧
          st = .function signature none ∧ s' = s₁.next.withScopes scopes) ∨
        s₁.kind ≠ .semicolon ∧ ∃ scopes body,
        s₁.scopes.register ⟨signature, .defined⟩ s.here = .ok scopes ∧
          functionBody stmt signature s.here (s₁.withScopes scopes) = .ok body s' ∧
          (s'.place.testing = true ∨ signature.results = [] ∨ Stmt.blockReturns body = true) ∧
          st = .function signature (some body)) := by
  simp only [functionStatement, run_next_bind, run_positionOf_bind, run_place_bind, ok_ite,
    ↓ok_failAt_bind, ok_skip_bind, ok_takeOr_bind, and_false, false_or]
  constructor
  · rintro ⟨outside, colon, name, run⟩
    obtain ⟨found, s₁, read, run⟩ := ok_bind.mp run
    obtain ⟨types, s₂, results, run⟩ := ok_bind.mp run
    exact ⟨_, s₂, .intro (by simpa using outside) colon name read results, ok_registered.mp run⟩
  · rintro ⟨_, s₂, heads, run⟩
    obtain ⟨outside, colon, name, read, results⟩ := heads
    refine ⟨by simpa using outside, colon, name, ok_bind.mpr ⟨_, _, read,
      ok_bind.mpr ⟨_, _, results, ?_⟩⟩⟩
    exact ok_registered.mpr run

theorem ok_branchStatement {st : Stmt} :
    branchStatement stmt s = .ok st s' ↔ s.kind = .ifWord ∧ ∃ condition body clauses last s₁ s₂ s₃,
      Reading.condition "if" s.next = .ok condition s₁ ∧ block stmt s₁.push = .ok body s₂ ∧
      many (· = .elseIfWord) (elseIf stmt) s₂.pop = .ok clauses s₃ ∧
      otherwise stmt s₃ = .ok last s' ∧ st = .branch condition body clauses last := by
  simp only [branchStatement, ok_skip_bind]
  constructor
  · rintro ⟨kind, run⟩
    obtain ⟨condition, s₁, first, run⟩ := ok_bind.mp run
    obtain ⟨body, _, inScope', run⟩ := ok_bind.mp run
    obtain ⟨s₂, inside, rfl⟩ := ok_inScope.mp inScope'
    obtain ⟨clauses, s₃, others, run⟩ := ok_bind.mp run
    obtain ⟨last, _, ends, run⟩ := ok_bind.mp run
    obtain ⟨rfl, rfl⟩ := ok_pure.mp run
    exact ⟨kind, condition, body, clauses, last, s₁, s₂, s₃, first, inside, others, ends, rfl⟩
  · rintro ⟨kind, condition, body, clauses, last, s₁, s₂, s₃, first, inside, others, ends, rfl⟩
    have inScope' : inScope (block stmt) s₁ = .ok body s₂.pop := ok_inScope.mpr ⟨s₂, inside, rfl⟩
    refine ⟨kind, ok_bind.mpr ⟨condition, s₁, first, ok_bind.mpr ⟨body, s₂.pop, inScope', ?_⟩⟩⟩
    exact ok_bind.mpr ⟨clauses, s₃, others, ok_bind.mpr ⟨last, s', ends, ok_pure.mpr ⟨rfl, rfl⟩⟩⟩

theorem ok_elseIf {clause : Expr × Block} :
    elseIf stmt s = .ok clause s' ↔ s.kind = .elseIfWord ∧ ∃ s₁ s₂,
      Reading.condition "else if" s.next = .ok clause.1 s₁ ∧ block stmt s₁.push = .ok clause.2 s₂ ∧
      s' = s₂.pop := by
  obtain ⟨condition, body⟩ := clause
  simp [elseIf, and_assoc]

theorem ok_otherwise {last : Option Block} :
    otherwise stmt s = .ok last s' ↔
      (s.kind = .elseWord ∧ s.next.kind = .colon ∧
        ∃ body s₁, block stmt s.next.next.push = .ok body s₁ ∧ last = some body ∧ s' = s₁.pop) ∨
          s.kind ≠ .elseWord ∧ last = none ∧ s' = s := by
  simp [otherwise, and_assoc]
  grind

theorem ok_forStatement {st : Stmt} :
    forStatement stmt s = .ok st s' ↔ s.kind = .forWord ∧ s.next.kind = .colon ∧
      s.next.next.kind = .openParen ∧ ∃ start condition update body s₁ s₂,
      loopHeader s.next.next.next.push = .ok (start, condition, update) s₁ ∧
        s₁.kind = .closeParen ∧ s₁.next.kind = .colon ∧
        block stmt (s₁.next.next.withPlace s₁.place.looping) = .ok body s₂ ∧
        st = .forLoop start condition update body ∧ s' = (s₂.withPlace s₁.place).pop := by
  simp only [forStatement, ok_skip_bind, ok_inScope]
  constructor
  · rintro ⟨kind, colon, opens, _, run, rfl⟩
    obtain ⟨⟨start, condition, update⟩, s₁, header, run⟩ := ok_bind.mp run
    obtain ⟨closes, ends, run⟩ := by simpa only [ok_skip_bind] using run
    obtain ⟨body, _, looped, run⟩ := ok_bind.mp run
    obtain ⟨s₂, inside, rfl⟩ := ok_within.mp looped
    obtain ⟨rfl, rfl⟩ := ok_pure.mp run
    exact ⟨kind, colon, opens, start, condition, update, body, s₁, s₂, header, closes, ends,
      inside, rfl, rfl⟩
  · rintro ⟨kind, colon, opens, start, condition, update, body, s₁, s₂, header, closes, ends,
      inside, rfl, rfl⟩
    have looped : within .looping (block stmt) s₁.next.next = .ok body (s₂.withPlace s₁.place) :=
      ok_within.mpr ⟨s₂, inside, rfl⟩
    refine ⟨kind, colon, opens, s₂.withPlace s₁.place, ok_bind.mpr ⟨_, s₁, header, ?_⟩, rfl⟩
    simp only [ok_skip_bind]
    exact ⟨closes, ends, ok_bind.mpr ⟨body, _, looped, ok_pure.mpr ⟨rfl, rfl⟩⟩⟩

theorem ok_whileStatement {st : Stmt} :
    whileStatement stmt s = .ok st s' ↔ s.kind = .whileWord ∧ ∃ condition body s₁ s₂,
      Reading.condition "while" s.next = .ok condition s₁ ∧
      block stmt (s₁.withPlace s₁.place.looping).push = .ok body s₂ ∧
      st = .whileLoop condition body ∧ s' = s₂.pop.withPlace s₁.place := by
  simp only [whileStatement, ok_skip_bind]
  constructor
  · rintro ⟨kind, run⟩
    obtain ⟨condition, s₁, first, run⟩ := ok_bind.mp run
    obtain ⟨body, _, looped, run⟩ := ok_bind.mp run
    obtain ⟨_, inScope', rfl⟩ := ok_within.mp looped
    obtain ⟨s₂, inside, rfl⟩ := ok_inScope.mp inScope'
    obtain ⟨rfl, rfl⟩ := ok_pure.mp run
    exact ⟨kind, condition, body, s₁, s₂, first, inside, rfl, rfl⟩
  · rintro ⟨kind, condition, body, s₁, s₂, first, inside, rfl, rfl⟩
    have looped : within .looping (inScope (block stmt)) s₁ =
      .ok body (s₂.pop.withPlace s₁.place) :=
      ok_within.mpr ⟨s₂.pop, ok_inScope.mpr ⟨s₂, inside, rfl⟩, rfl⟩
    exact ⟨kind, ok_bind.mpr ⟨condition, s₁, first,
      ok_bind.mpr ⟨body, _, looped, ok_pure.mpr ⟨rfl, rfl⟩⟩⟩⟩

def SoundStmt (stmt : Read Stmt) : Prop :=
  ∀ ⦃s st s'⦄, stmt s = .ok st s' → Performs s (.stmt st) s'

theorem performs_statements (sound : SoundStmt stmt)
    (inside : Repeats (· ≠ .closeCurly) (Inside stmt) s body s') :
    s'.kind = .closeCurly ∧ Performs s (.statements body) s' := by
  induction inside with
  | done last => exact ⟨by simpa using last, .noStatements (by simpa using last)⟩
  | next goes first _ ih =>
    exact ⟨ih.1, .statements (by simpa using goes) first.1 (sound first.2) ih.2⟩

theorem performs_block (sound : SoundStmt stmt) (run : block stmt s = .ok body s') :
    Performs s (.block body) s' := by
  obtain ⟨opens, s₁, inside, closes, rfl⟩ := repeats_of_block run
  exact .block opens (performs_statements sound inside).2 closes

theorem performs_clauses (sound : SoundStmt stmt) {clauses : List (Expr × Block)}
    (repeats : Repeats (· = .elseIfWord) (Reader.Gives (elseIf stmt)) s clauses s') :
    Performs s (.clauses clauses) s' := by
  induction repeats with
  | done last => exact .noClauses (by simpa using last)
  | next goes first _ ih =>
    obtain ⟨kind, s₁, s₂, read, inside, rfl⟩ := ok_elseIf.mp first
    exact .clauses kind read (performs_block sound inside) ih

theorem performs_otherwise (sound : SoundStmt stmt) {last : Option Block}
    (run : otherwise stmt s = .ok last s') :
    Performs s (.otherwise last) s' := by
  obtain ⟨kind, colon, body, s₁, inside, rfl, rfl⟩ | ⟨kind, rfl, rfl⟩ := ok_otherwise.mp run
  · exact .otherwise kind colon (performs_block sound inside)
  · exact .noOtherwise kind

theorem ok_statementWith {st : Stmt} :
    statementWith stmt s = .ok st s' ↔ s.Allows ∧
      (s.grammar.form? s.kind = none ∧ expressionStatement s = .ok st s' ∨
        ∃ form, s.grammar.form? s.kind = some form ∧ formed stmt form s = .ok st s') := by
  simp only [statementWith, run_currentKind_bind, ok_bind, ok_requirePlace]
  constructor
  · rintro ⟨_, s, ⟨allowed, rfl⟩, _, _, ⟨rfl, rfl⟩, run⟩
    refine ⟨allowed, ?_⟩
    cases form : s.grammar.form? s.kind with
    | none => exact .inl ⟨rfl, by simpa only [form] using run⟩
    | some form' => exact .inr ⟨form', rfl, by simpa only [form] using run⟩
  · rintro ⟨allowed, ⟨none, read⟩ | ⟨form, some, read⟩⟩
    · exact ⟨(), s, ⟨allowed, rfl⟩, s, s, rfl, by simpa only [none] using read⟩
    · exact ⟨(), s, ⟨allowed, rfl⟩, s, s, rfl, by simpa only [some] using read⟩

theorem performs_statementWith (sound : SoundStmt stmt) : SoundStmt (statementWith stmt) := by
  intro s st s' run
  obtain ⟨allowed, ⟨none, read⟩ | ⟨form, some, read⟩⟩ := ok_statementWith.mp run
  · exact .expression allowed none read
  · cases form with
    | declaration => exact .declaration allowed some read
    | returning => exact .returning allowed some read
    | loopControl => exact .control allowed some read
    | function =>
      obtain ⟨signature, s₁, heads, ⟨ends, scopes, registered, rfl, rfl⟩ |
        ⟨goes, scopes, body, registered, whole, returns, rfl⟩⟩ := ok_functionStatement.mp read
      · exact .forward allowed some heads ends registered
      · obtain ⟨inner, s₂, declared, inside, rfl⟩ := ok_functionBody.mp whole
        have performs : Performs ((s₁.withPlace (.inside signature s₁.place)).withScopes inner)
          (.block body) s₂ :=
          performs_block sound inside
        have defined := Performs.define allowed some heads goes registered declared performs returns
        exact defined
    | branch =>
      obtain ⟨kind, condition, body, clauses, last, s₁, s₂, s₃, first, inside, others,
        otherwise, rfl⟩ :=
        ok_branchStatement.mp read
      exact .branch allowed some kind first (performs_block sound inside)
        (performs_clauses sound (repeats_of_many others)) (performs_otherwise sound otherwise)
    | forLoop =>
      obtain ⟨kind, colon, opens, start, condition, update, body, s₁, s₂, header, closes, ends,
        inside, rfl, rfl⟩ :=
        ok_forStatement.mp read
      exact .forLoop allowed some kind colon opens header closes ends (performs_block sound inside)
    | whileLoop =>
      obtain ⟨kind, condition, body, s₁, s₂, first, inside, rfl, rfl⟩ := ok_whileStatement.mp read
      exact .whileLoop allowed some kind first (performs_block sound inside)

end

theorem performs_statementUpTo (n : Nat) : SoundStmt (statementUpTo n) := by
  induction n with
  | zero =>
    intro s st s' run
    simp [statementUpTo] at run
  | succ n ih => exact performs_statementWith ih

/-! Statements go forward. -/

theorem kind_of_declaration {grammar : Grammar} {kind : Kind}
    (form : grammar.form? kind = some .declaration) :
    kind = .varWord ∨ kind = .constWord := by
  cases grammar with
  | bare => cases form
  | standard => cases kind <;> first | exact .inl rfl | exact .inr rfl | cases form

theorem kind_of_returning {grammar : Grammar} {kind : Kind}
    (form : grammar.form? kind = some .returning) :
    kind = .returnWord := by
  cases grammar with
  | bare => cases form
  | standard => cases kind <;> first | rfl | cases form

theorem kind_of_function {grammar : Grammar} {kind : Kind}
    (form : grammar.form? kind = some .function) :
    kind = .funWord := by
  cases grammar with
  | bare => cases form
  | standard => cases kind <;> first | rfl | cases form

theorem kind_of_control {grammar : Grammar} {kind : Kind}
    (form : grammar.form? kind = some .loopControl) :
    kind = .continueWord ∨ kind = .breakWord := by
  cases grammar with
  | bare => cases form
  | standard => cases kind <;> first | exact .inl rfl | exact .inr rfl | cases form

theorem onward_heads {s s' : Session} {signature : Signature} (kind : s.kind = .funWord)
    (heads : Heads s signature s') : Onward s s' := by
  obtain ⟨outside, colon, name, read, results⟩ := heads
  calc
    Onward s s.next.next := onward_two kind rfl colon rfl
    Onward _ s.next.next.next := onward_next name rfl
    Onward _ _ := onward_parameters read
    Onward _ s' := onward_resultTypes results

theorem Heads.shorter {s s' : Session} {signature : Signature} (heads : Heads s signature s')
    (kind : s.kind = .funWord) :
    s'.ahead.length < s.ahead.length := by
  obtain ⟨outside, colon, name, read, results⟩ := heads
  have after : Onward s.next s' := calc
    Onward s.next s.next.next.next := onward_two colon rfl name rfl
    Onward _ _ := onward_parameters read
    Onward _ s' := onward_resultTypes results
  exact after.lt (length_next kind rfl)

theorem forward_of_performs {s s' : Session} {sentence : Sentence}
    (performs : Performs s sentence s') :
    Forward s s' := by
  induction performs with
  | expression _ _ read => exact (forward_expressionStatement read).1
  | declaration _ form read =>
    exact (forward_declarationStatement (kind_of_declaration form) read).1
  | returning _ form read =>
    exact (onward_returnStatement (kind_of_returning form) read).1.toForward
  | control _ form read =>
    rcases kind_of_control form with kind | kind
    · exact (onward_loopControl kind rfl read).toForward
    · exact (onward_loopControl kind rfl read).toForward
  | forward _ form heads ends =>
    exact ((onward_heads (kind_of_function form) heads).trans
      (onward_next ends rfl)).toForward.withScopes _
  | define _ form heads _ _ _ _ _ inside =>
    exact (onward_heads (kind_of_function form) heads).toForward.enclosed inside ⟨rfl, rfl, rfl⟩
      ⟨rfl, rfl, rfl, rfl⟩
  | @branch s _ s₂ _ _ _ _ _ _ _ _ kind read _ _ _ body others last =>
    have before := (onward_conditional kind rfl read).toForward
    have after : Forward s s₂.pop :=
      before.enclosed body ⟨rfl, rfl, rfl⟩ ⟨rfl, rfl, rfl, body.place⟩
    exact (after.trans others).trans last
  | @forLoop s s₁ s₂ _ _ _ _ _ _ kind colon opens header closes ends _ body =>
    have first := (onward_three kind rfl colon rfl opens rfl).toForward
    have head := forward_loopHeader header
    have before := head.trans (onward_two closes rfl ends rfl).toForward
    have inside : Forward s.next.next.next.push (s₂.withPlace s₁.place) :=
      before.enclosed body ⟨rfl, rfl, rfl⟩ ⟨rfl, rfl, rfl, rfl⟩
    exact first.enclosed inside ⟨rfl, rfl, rfl⟩ ⟨rfl, rfl, rfl, head.place⟩
  | whileLoop _ _ kind read _ body =>
    have before := (onward_conditional kind rfl read).toForward
    exact before.enclosed body ⟨rfl, rfl, rfl⟩ ⟨rfl, rfl, rfl, rfl⟩
  | block opens _ closes inside =>
    exact ((onward_next opens rfl).toForward.trans inside).trans (onward_next closes rfl).toForward
  | noStatements | noClauses | noOtherwise | noScript => exact .refl _
  | statements _ _ _ _ first rest | script _ _ _ first rest => exact first.trans rest
  | @clauses s _ s₂ _ _ _ _ kind read _ _ body rest =>
    have before := (onward_conditional kind rfl read).toForward
    have after : Forward s s₂.pop :=
      before.enclosed body ⟨rfl, rfl, rfl⟩ ⟨rfl, rfl, rfl, body.place⟩
    exact after.trans rest
  | otherwise kind colon _ body =>
    have before := (onward_two kind rfl colon rfl).toForward
    exact before.enclosed body ⟨rfl, rfl, rfl⟩ ⟨rfl, rfl, rfl, body.place⟩

/-- Every statement takes at least one token. -/
theorem shorter_of_performs {s s' : Session} {st : Stmt} (performs : Performs s (.stmt st) s') :
    s'.ahead.length < s.ahead.length := by
  cases performs with
  | expression _ _ read => exact (forward_expressionStatement read).2
  | declaration _ form read =>
    exact (forward_declarationStatement (kind_of_declaration form) read).2
  | returning _ form read => exact (onward_returnStatement (kind_of_returning form) read).2
  | control _ form read =>
    obtain ⟨_, ends, _, rfl⟩ := ok_loopControl.mp read
    have first := (kind_of_control form).elim (length_next · rfl) (length_next · rfl)
    have second := length_next ends rfl
    omega
  | @forward _ s₁ _ scopes _ form heads ends =>
    have shorter := heads.shorter (kind_of_function form)
    have last : (s₁.next.withScopes scopes).ahead.length < s₁.ahead.length := length_next ends rfl
    omega
  | @define _ s₁ s₂ _ _ _ _ _ form heads _ _ _ inside =>
    have shorter := heads.shorter (kind_of_function form)
    have after : (s₂.pop.withPlace s₁.place).ahead.length ≤ s₁.ahead.length :=
      (forward_of_performs inside).length_le
    omega
  | @branch _ s₁ s₂ s₃ _ _ _ _ _ _ _ kind read inside others last =>
    have shorter := length_next kind rfl
    have between := (onward_condition read).length_le
    have body : s₂.ahead.length ≤ s₁.ahead.length := (forward_of_performs inside).length_le
    have rest : s₃.ahead.length ≤ s₂.ahead.length := (forward_of_performs others).length_le
    have after := (forward_of_performs last).length_le
    omega
  | @forLoop s s₁ s₂ _ _ _ _ _ _ kind colon opens header closes ends inside =>
    have shorter := length_next kind rfl
    have second := length_next colon rfl
    have third := length_next opens rfl
    have head : s₁.ahead.length ≤ s.next.next.next.ahead.length :=
      (forward_loopHeader header).length_le
    have fourth := length_next closes rfl
    have fifth := length_next ends rfl
    have body : (s₂.withPlace s₁.place).pop.ahead.length ≤ s₁.next.next.ahead.length :=
      (forward_of_performs inside).length_le
    omega
  | @whileLoop _ s₁ s₂ _ _ _ _ kind read inside =>
    have shorter := length_next kind rfl
    have between := (onward_condition read).length_le
    have body : (s₂.pop.withPlace s₁.place).ahead.length ≤ s₁.ahead.length :=
      (forward_of_performs inside).length_le
    omega

theorem advances_statementUpTo (n : Nat) : Advances (statementUpTo n) := by
  intro s st s' run
  exact shorter_of_performs (performs_statementUpTo n run)

theorem advances_elseIf {stmt : Read Stmt} (sound : SoundStmt stmt) : Advances (elseIf stmt) := by
  intro s clause s' run
  obtain ⟨kind, s₁, s₂, read, inside, rfl⟩ := ok_elseIf.mp run
  have shorter := length_next kind rfl
  have between := (onward_condition read).length_le
  have body : s₂.pop.ahead.length ≤ s₁.ahead.length :=
    (forward_of_performs (performs_block sound inside)).length_le
  omega

/-! And everything in the relation is read, given bounds larger than the number of tokens ahead. -/

def Sentence.Runs (s s' : Session) : Sentence → Prop
  | .stmt st => ∀ n, s.ahead.length < n → statementUpTo n s = .ok st s'
  | .block body => ∀ n, s.ahead.length ≤ n → Reading.block (statementUpTo n) s = .ok body s'
  | .statements body =>
    ∀ n, s.ahead.length < n → Repeats (· ≠ .closeCurly) (Inside (statementUpTo n)) s body s'
  | .clauses rest => ∀ n, s.ahead.length ≤ n →
      Repeats (· = .elseIfWord) (Reader.Gives (elseIf (statementUpTo n))) s rest s'
  | .otherwise last => ∀ n, s.ahead.length ≤ n → Reading.otherwise (statementUpTo n) s = .ok last s'
  | .script body => Repeats (· ≠ .eof) (Reader.Gives statement) s body s'

theorem statementUpTo_of_form {s s' : Session} {st : Stmt} {form : Form} (allowed : s.Allows)
    (is : s.grammar.form? s.kind = some form)
    (read : ∀ n, s.ahead.length ≤ n → formed (statementUpTo n) form s = .ok st s') :
    ∀ n, s.ahead.length < n → statementUpTo n s = .ok st s' := by
  intro n enough
  obtain ⟨n, rfl⟩ := Nat.exists_eq_add_one_of_ne_zero (Nat.ne_zero_of_lt enough)
  exact ok_statementWith.mpr ⟨allowed, .inr ⟨form, is, read n (by omega)⟩⟩

section
variable {s s₁ s₂ s₃ s' : Session} {condition : Expr} {body : Block} {clauses : List (Expr × Block)}
    {n : Nat}

theorem runs_define {signature : Signature} {scopes inner : ScopeStack} (allowed : s.Allows)
    (form : s.grammar.form? s.kind = some .function) (heads : Heads s signature s₁)
    (goes : s₁.kind ≠ .semicolon)
    (registered : s₁.scopes.register ⟨signature, .defined⟩ s.here = .ok scopes)
    (declared : DeclaresParameters s.here scopes.push signature.parameters inner)
    (returns : s₁.place.testing = true ∨ signature.results = [] ∨ Stmt.blockReturns body = true)
    (inside : (Sentence.block body).Runs
      ((s₁.withPlace (.inside signature s₁.place)).withScopes inner) s₂) :
    (Sentence.stmt (.function signature (some body))).Runs s (s₂.pop.withPlace s₁.place) := by
  refine statementUpTo_of_form allowed form fun n enough => ?_
  have shorter := heads.shorter (kind_of_function form)
  have whole : functionBody (statementUpTo n) signature s.here (s₁.withScopes scopes) =
      .ok body (s₂.pop.withPlace s₁.place) :=
    ok_functionBody.mpr ⟨inner, s₂, declared,
      inside n (Nat.le_of_lt (Nat.lt_of_lt_of_le shorter enough)), rfl⟩
  exact ok_functionStatement.mpr ⟨signature, s₁, heads,
    .inr ⟨goes, scopes, body, registered, whole, returns, rfl⟩⟩

/-- The tokens behind a condition are fewer than those ahead of its keyword. -/
theorem length_condition {statement : String} {kind : Kind} (is : s.kind = kind)
    (holds : inSentence kind = true)
    (read : Reading.condition statement s.next = .ok condition s₁) :
    s₁.ahead.length < s.ahead.length :=
  (onward_condition read).lt (length_next is holds)

theorem runs_branch {otherwise : Option Block} (allowed : s.Allows)
    (form : s.grammar.form? s.kind = some .branch) (kind : s.kind = .ifWord)
    (read : Reading.condition "if" s.next = .ok condition s₁) (inside : Forward s₁.push s₂)
    (others : Forward s₂.pop s₃) (bodyRuns : (Sentence.block body).Runs s₁.push s₂)
    (othersRun : (Sentence.clauses clauses).Runs s₂.pop s₃)
    (lastRuns : (Sentence.otherwise otherwise).Runs s₃ s') :
    (Sentence.stmt (.branch condition body clauses otherwise)).Runs s s' := by
  refine statementUpTo_of_form allowed form fun n enough => ?_
  have opened := Nat.le_trans (Nat.le_of_lt (length_condition kind rfl read)) enough
  have closed : s₂.pop.ahead.length ≤ n := inside.le opened
  have rest := many_of_repeats (advances_elseIf (performs_statementUpTo n)) (othersRun n closed)
  exact ok_branchStatement.mpr
    ⟨kind, _, _, _, _, _, _, _, read, bodyRuns n opened, rest, lastRuns n (others.le closed), rfl⟩

theorem runs_forLoop {start : Start} {update : Expr} (allowed : s.Allows)
    (form : s.grammar.form? s.kind = some .forLoop) (kind : s.kind = .forWord)
    (colon : s.next.kind = .colon)
    (opens : s.next.next.kind = .openParen)
    (header : loopHeader s.next.next.next.push = .ok (start, condition, update) s₁)
    (closes : s₁.kind = .closeParen)
    (ends : s₁.next.kind = .colon)
    (bodyRuns : (Sentence.block body).Runs (s₁.next.next.withPlace s₁.place.looping) s₂) :
    (Sentence.stmt (.forLoop start condition update body)).Runs s (s₂.withPlace s₁.place).pop := by
  refine statementUpTo_of_form allowed form fun n enough => ?_
  have outside : Onward s s.next.next.next :=
    (onward_two kind rfl colon rfl).trans (onward_next opens rfl)
  have entered : s.next.next.next.push.ahead.length ≤ n := outside.le enough
  have opened := (onward_two closes rfl ends rfl).le ((forward_loopHeader header).le entered)
  exact ok_forStatement.mpr ⟨kind, colon, opens, _, _, _, _, _, _, header, closes, ends,
    bodyRuns n opened, rfl, rfl⟩

theorem runs_whileLoop (allowed : s.Allows) (form : s.grammar.form? s.kind = some .whileLoop)
    (kind : s.kind = .whileWord) (read : Reading.condition "while" s.next = .ok condition s₁)
    (bodyRuns : (Sentence.block body).Runs (s₁.withPlace s₁.place.looping).push s₂) :
    (Sentence.stmt (.whileLoop condition body)).Runs s (s₂.pop.withPlace s₁.place) := by
  refine statementUpTo_of_form allowed form fun n enough => ?_
  have opened := Nat.le_trans (Nat.le_of_lt (length_condition kind rfl read)) enough
  exact ok_whileStatement.mpr ⟨kind, _, _, _, _, read, bodyRuns n opened, rfl, rfl⟩

theorem runs_clauses (kind : s.kind = .elseIfWord)
    (read : Reading.condition "else if" s.next = .ok condition s₁) (inside : Forward s₁.push s₂)
    (bodyRuns : (Sentence.block body).Runs s₁.push s₂)
    (restRuns : (Sentence.clauses clauses).Runs s₂.pop s') :
    (Sentence.clauses ((condition, body) :: clauses)).Runs s s' := by
  intro n enough
  have opened := Nat.le_trans (Nat.le_of_lt (length_condition kind rfl read)) enough
  refine .next (by simpa using kind) ?_ (restRuns n (inside.le opened))
  exact ok_elseIf.mpr ⟨kind, _, _, read, bodyRuns n opened, rfl⟩

end

theorem Performs.runs {s s' : Session} {sentence : Sentence} (performs : Performs s sentence s') :
    sentence.Runs s s' := by
  induction performs with
  | expression allowed form read =>
    intro n enough
    obtain ⟨n, rfl⟩ := Nat.exists_eq_add_one_of_ne_zero (Nat.ne_zero_of_lt enough)
    exact ok_statementWith.mpr ⟨allowed, .inl ⟨form, read⟩⟩
  | declaration allowed form read | returning allowed form read | control allowed form read =>
    exact statementUpTo_of_form allowed form fun _ _ => read
  | forward allowed form heads ends registered =>
    refine statementUpTo_of_form allowed form fun n _ => ?_
    exact ok_functionStatement.mpr ⟨_, _, heads, .inl ⟨ends, _, registered, rfl, rfl⟩⟩
  | define allowed form heads goes registered declared _ returns body =>
    exact runs_define allowed form heads goes registered declared returns body
  | branch allowed form kind read inside others _ body othersRun lastRun =>
    exact runs_branch allowed form kind read (forward_of_performs inside)
      (forward_of_performs others) body othersRun
      lastRun
  | forLoop allowed form kind colon opens header closes ends _ body =>
    exact runs_forLoop allowed form kind colon opens header closes ends body
  | whileLoop allowed form kind read _ body => exact runs_whileLoop allowed form kind read body
  | block opens inside closes body =>
    intro n enough
    have shorter := length_next opens rfl
    exact block_of_repeats (advances_statementUpTo n) opens (body n (by omega)) closes
  | noStatements closes => exact fun n _ => .done (by simpa using closes)
  | statements more open' first _ firstRuns restRuns =>
    intro n enough
    have shorter := shorter_of_performs first
    exact .next (by simpa using more) ⟨open', firstRuns n enough⟩ (restRuns n (by omega))
  | noClauses last => exact fun n _ => .done (by simpa using last)
  | clauses kind read inside _ body restRuns =>
    exact runs_clauses kind read (forward_of_performs inside) body restRuns
  | noOtherwise last => exact fun n _ => ok_otherwise.mpr (.inr ⟨last, rfl, rfl⟩)
  | otherwise kind colon _ body =>
    intro n enough
    exact ok_otherwise.mpr
      (.inl ⟨kind, colon, _, _, body n ((onward_two kind rfl colon rfl).le enough), rfl, rfl⟩)
  | noScript ends => exact .done (by simpa using ends)
  | script more first _ firstRuns restRuns =>
    refine .next (by simpa using more) ?_ restRuns
    simp only [Reader.Gives, statement, run_bound_bind]
    exact firstRuns _ (Nat.lt_succ_self _)

/-- A statement is read exactly where the relation leads. -/
theorem ok_statement {s s' : Session} {st : Stmt} :
    statement s = .ok st s' ↔ Performs s (.stmt st) s' := by
  simp only [statement, run_bound_bind]
  exact ⟨fun run => performs_statementUpTo _ run, fun performs =>
    performs.runs _ (Nat.lt_succ_self _)⟩

theorem performs_script {s s' : Session} {body : Block}
    (repeats : Repeats (· ≠ .eof) (Reader.Gives statement) s body s') :
    Performs s (.script body) s' := by
  induction repeats with
  | done last => exact .noScript (by simpa using last)
  | next goes first _ ih => exact .script (by simpa using goes) (ok_statement.mp first) ih

theorem advances_statement : Advances statement := by
  intro s st s' run
  exact shorter_of_performs (ok_statement.mp run)

theorem ok_program {s s' : Session} {p : Program} :
    program s = .ok p s' ↔ ∃ s₁, Performs s.push (.script p.statements) s₁ ∧ s' = s₁.pop := by
  simp only [program, ok_inScope, ok_bind, ok_pure]
  constructor
  · rintro ⟨s₁, ⟨body, _, run, rfl, rfl⟩, rfl⟩
    exact ⟨_, performs_script (repeats_of_many run), rfl⟩
  · rintro ⟨s₁, performs, rfl⟩
    exact ⟨s₁, ⟨p.statements, s₁, many_of_repeats advances_statement performs.runs, rfl, rfl⟩, rfl⟩

end ColonScript.Reading

namespace ColonScript.Program
open Reading

/-- A script is accepted exactly where its statements lead from the first state to one at the end of
the input. -/
theorem ofTokens_eq_ok {tokens : List Token} {file : String} {testing : Bool} {p : Program} :
    ofTokens tokens file testing = .ok p ↔
      ∃ s', Performs (Session.ofTokens tokens file testing .standard).push
      (.script p.statements) s' := by
  unfold ofTokens readTokens
  constructor
  · intro accepted
    cases run : program (.ofTokens tokens file testing .standard) with
    | ok q s₁ =>
      rw [run] at accepted
      obtain rfl : q = p := Except.ok.inj accepted
      obtain ⟨s', performs, _⟩ := ok_program.mp run
      exact ⟨s', performs⟩
    | error fault s₁ =>
      rw [run] at accepted
      cases accepted
  · rintro ⟨s', performs⟩
    rw [ok_program.mpr ⟨s', performs, rfl⟩]

theorem ofSource_eq_ok {source file : String} {testing : Bool} {p : Program} :
    ofSource source file testing = .ok p ↔
      ∃ tokens, Token.ofSource source file = .ok tokens ∧ ofTokens tokens file testing = .ok p := by
  unfold ofSource
  cases Token.ofSource source file with
  | error => exact ⟨nofun, nofun⟩
  | ok tokens => exact ⟨fun accepted => ⟨tokens, rfl, accepted⟩, fun ⟨_, rfl, accepted⟩ => accepted⟩

/-! Results that pass a test. -/

variable {α ε : Type} {result : Except ε α}

theorem exists_ok_of_any {test : α → Bool} (passes : result.toOption.any test = true) :
    ∃ a, result = .ok a ∧ test a = true := by
  cases result with
  | ok a => exact ⟨a, rfl, passes⟩
  | error => cases passes

theorem exists_ok_of_toBool (passes : result.toBool = true) : ∃ a, result = .ok a := by
  cases result with
  | ok a => exact ⟨a, rfl⟩
  | error => cases passes

end ColonScript.Program
