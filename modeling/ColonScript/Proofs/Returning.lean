import ColonScript.Proofs.Reading.Facing
import ColonScript.Proofs.Soundness

/-! A value that is returned and a value that a variable is declared with. Where a function has one
result, both are read from the same tokens to the same tree, unless the tokens begin with a
parenthesis that is closed before they end: behind `return:` such a parenthesis is taken for the one
around a list of values. -/

namespace ColonScript.Reading
open Token (Kind)
open Ty Typing

variable {s s' : Session} {type : Ty} {rest : List Spelling} {value : Expr} {st : Stmt}

/-- The statement takes all tokens of the cursor but the rest. -/
def Takes (s : Session) (c : Cursor) (rest : List Spelling) (st : Stmt) : Prop :=
  ∃ s', statement (s.withCursor c) = .ok st s' ∧ s'.facing = rest

/-- What is ahead up to the semicolon is a value for something of the type. -/
def Offers (s : Session) (type : Ty) (rest : List Spelling) (value : Expr) : Prop :=
  ∃ e own both s', Reads s (.expr .lowest e) s' ∧ e.types = [own] ∧
    (s'.pool.join type own).1 = some both ∧ value = e.settle both ∧ s'.kind = .semicolon ∧
    s'.next.facing = rest

/-- What is ahead up to the semicolon is an expression in parentheses. -/
def Enclosed (s : Session) (rest : List Spelling) : Prop :=
  ∃ e s', group expression s = .ok e s' ∧ s'.kind = .semicolon ∧ s'.next.facing = rest

/-- The same tokens offer the same value, wherever they stand and whatever the pool holds. -/
theorem Offers.elsewhere {t : Session} (offers : Offers s type rest value) (grounded : Grounded s)
    (proper : type.Proper) (same : t = (s.withCursor t.cursor).withPool t.pool)
    (alike : s.cursor.Alike t.cursor) (faithful : t.pool.Faithful) :
    Offers t type rest value := by
  obtain ⟨e, own, both, s', reads, single, joined, rfl, ends, last⟩ := offers
  obtain ⟨ownProper, after⟩ := grounded_of_expr grounded reads
  obtain ⟨c', reads', alike'⟩ := reads.withCursor alike
  obtain ⟨pool', reads'', faithful'⟩ :=
    reads'.inAnyPool ⟨grounded.pool, grounded.scopes⟩ trivial faithful
  rw [← same] at reads''
  obtain ⟨joined', _⟩ :=
    joinsTo_of_joined after.pool proper (proper_of_single ownProper single) joined faithful'
  refine ⟨e, own, both, _, reads'', single, joined', rfl, alike'.kind.trans ends, ?_⟩
  rw [← last]
  exact alike'.next.ahead.symm

theorem fitted_one {pool pool' : Pool} {own : Ty} {e : Expr} {settled : List Expr} :
    Fitted pool [type] [(e, own)] settled pool' ↔
      ∃ both, (pool.join type own).1 = some both ∧ settled = [e.settle both] ∧
      pool' = (pool.join type own).2 := by
  constructor
  · rintro (_ | ⟨joined, _ | _⟩)
    exact ⟨_, joined, rfl, rfl⟩
  · rintro ⟨both, joined, rfl, rfl⟩
    exact .cons joined .nil

/-- A reading has one outcome. -/
theorem Reads.unique {e e' : Expr} {s₁ s₂ : Session} {power : Power}
    (reads : Reads s (.expr power e) s₁)
    (reads' : Reads s (.expr power e') s₂) : e = e' ∧ s₁ = s₂ := by
  have run := ok_expression.mpr reads
  rw [ok_expression.mpr reads'] at run
  cases run
  exact ⟨rfl, rfl⟩

/-- An expression in parentheses that a semicolon follows is all of the expression. -/
theorem reads_of_group {e : Expr} (standard : s.grammar = .standard)
    (run : group expression s = .ok e s') (ends : s'.kind = .semicolon) :
    Reads s (.expr .lowest e) s' := by
  obtain ⟨opens, s₁, inner, closes, rfl⟩ := ok_group.mp run
  have inner := ok_expression.mp inner
  have operand := Reads.group opens inner closes
  refine .expr (by rw [standard, opens]; rfl) operand (.stop fun own continuation continues => ?_)
  have grammar := operand.onward.grammar.trans standard
  rw [grammar, ends] at continues
  cases continues

/-! The two statements. -/

/-- The keyword that comes first decides on the statement. -/
theorem ok_statement_of_form {form : Form} (inside : s.place.inFunction = true)
    (is : s.grammar.form? s.kind = some form) :
    statement s = .ok st s' ↔ formed (statementUpTo s.ahead.length) form s = .ok st s' := by
  have allowed : s.Allows := .inl inside
  simp only [statement, run_bound_bind, statementUpTo, ok_statementWith, is, allowed]
  simp

theorem form_of_kind {kind : Kind} (standard : s.grammar = .standard) (is : s.kind = kind) :
    s.grammar.form? s.kind = Grammar.standard.form? kind := by rw [standard, is]

/-- Of one value in parentheses the parentheses are a group. -/
theorem given_of_group {e : Expr} (run : group expression s = .ok e s') :
    ∃ s₁ position, separated (placed expression) s.next = .ok [(e, position)] s₁ ∧
      s₁.kind = .closeParen ∧ s' = s₁.next := by
  obtain ⟨_, s₁, inner, closes, rfl⟩ := ok_group.mp run
  refine ⟨s₁, s.next.here, (ok_separated advances_placed).mpr
    ⟨_, [], s₁, ok_placed.mpr ⟨inner, rfl⟩, ?_, rfl⟩, closes, rfl⟩
  exact .done (by simp [closes])

theorem group_of_given {e : Expr} {position : Position} {s₁ : Session} (opens : s.kind = .openParen)
    (run : separated (placed expression) s.next = .ok [(e, position)] s₁)
    (closes : s₁.kind = .closeParen) :
    group expression s = .ok e s₁.next := by
  obtain ⟨first, others, s₂, read, more, same⟩ := (ok_separated advances_placed).mp run
  obtain ⟨rfl, rfl⟩ := List.cons.inj same
  cases more
  exact ok_group.mpr ⟨opens, s₁, (ok_placed.mp read).1, closes, rfl⟩

/-- Behind `return:` stands a value for the result; a parenthesis that comes first encloses all of
it. -/
theorem takes_returning {signature : Signature} {more : List Spelling}
    (standard : s.grammar = .standard) (inside : s.place.inFunction = true)
    (function : s.place.function = some signature)
    (one : signature.results = [type])
    (facing : s.facing = (.returnWord, "return") :: (.colon, ":") :: more) :
    (∃ s', statement s = .ok st s' ∧ s'.facing = rest) ↔ ∃ value, st = .returning [value] ∧
      Offers s.next.next type rest value ∧ (s.next.next.kind = .openParen →
        Enclosed s.next.next rest) := by
  have first := Session.faces facing
  have second := Session.faces first.next
  simp only [ok_statement_of_form inside (form_of_kind standard first.kind), formed]
  constructor
  · rintro ⟨s', run, last⟩
    obtain ⟨_, values, s₁, function', given, ends, count, types, settled, pool, singles,
      fitted, rfl, rfl⟩ :=
      ok_returnStatement.mp run
    obtain rfl := Option.some.inj (function.symm.trans function')
    rw [one] at count fitted
    obtain ⟨⟨e, position⟩, rfl⟩ := List.length_eq_one_iff.mp count
    obtain ⟨own, _, single, none, rfl⟩ := List.forall₂_cons_left_iff.mp singles
    obtain rfl := List.forall₂_nil_left_iff.mp none
    obtain ⟨both, joined, rfl, rfl⟩ := fitted_one.mp fitted
    obtain ⟨_, empty, _⟩ | ⟨_, given⟩ := given
    · cases empty
    · obtain ⟨_, ⟨opens, s₂, list, closes, rfl⟩ | ⟨plain, e', reads, _, same⟩⟩ :=
        ok_givenResults.mp given
      · have run := group_of_given opens list closes
        exact ⟨_, rfl, ⟨e, own, both, _, reads_of_group standard run ends, single, joined,
          rfl, ends, last⟩, fun _ => ⟨e, _, run, ends, last⟩⟩
      · obtain ⟨rfl, -⟩ := Prod.mk.inj (List.cons.inj same).1
        exact ⟨_, rfl, ⟨e, own, both, s₁, reads, single, joined, rfl, ends, last⟩, fun opens =>
          absurd opens plain⟩
  · rintro ⟨value, rfl, ⟨e, own, both, s₁, reads, single, joined, rfl, ends, last⟩, enclosed⟩
    suffices given : ∃ position, givenResults s.next = .ok [(e, position)] s₁ by
      obtain ⟨position, given⟩ := given
      refine ⟨_, ok_returnStatement.mpr ⟨signature, _, s₁, function,
        .inr ⟨by simp [second.kind], given⟩, ends, ?_, [own], [e.settle both],
        (s₁.pool.join type own).2, .cons single .nil, ?_, rfl, rfl⟩, last⟩
      · simp [one]
      · rw [one]
        exact fitted_one.mpr ⟨both, joined, rfl, rfl⟩
    by_cases opens : s.next.next.kind = .openParen
    · obtain ⟨e', s₂, run, ends', _⟩ := enclosed opens
      obtain ⟨rfl, rfl⟩ := reads.unique (reads_of_group standard run ends')
      obtain ⟨s₃, position, list, closes, rfl⟩ := given_of_group run
      exact ⟨position, ok_givenResults.mpr ⟨second.kind, .inl ⟨opens, s₃, list, closes, rfl⟩⟩⟩
    · exact ⟨_, ok_givenResults.mpr ⟨second.kind, .inr ⟨opens, e, reads, by simp [ends], rfl⟩⟩⟩

theorem declare_fresh {name : String} {position : Position}
    (fresh : s.scopes.binding? name = none) :
    s.scopes.declare ⟨name, false, type⟩ position =
      .ok (s.scopes.modifyInnermost (Scope.bind ⟨name, false, type⟩)) := by
  simp only [ScopeStack.declare, fresh]

/-- Behind the equals sign of a declaration stands a value for the variable. -/
theorem takes_declaration {name : String} {more : List Spelling} (standard : s.grammar = .standard)
    (inside : s.place.inFunction = true) (fresh : s.scopes.binding? name = none)
    (written : type.Written)
    (faithful : s.pool.Faithful)
    (facing : s.facing = (.varWord, "var") :: (.identifier, name) :: (.colon, ":") ::
      (type.tokens ++ (.assign, "=") :: more)) :
    ∃ t, Onward s t ∧ t.facing = more ∧ t.pool.Faithful ∧ ∀ st,
      (∃ s', statement s = .ok st s' ∧ s'.facing = rest) ↔
      ∃ value, st = .declaration ⟨false, name, type, value⟩ ∧
        Offers t type rest value := by
  have first := Session.faces facing
  have second := Session.faces first.next
  have third := Session.faces second.next
  obtain ⟨t, reads, behind, faithful'⟩ :=
    readsType_whole (s := s.next.next.next) written standard faithful third.next
    (by simp [leadKind])
  have assign := Session.faces behind
  have declares : head s = .ok ⟨false, name, type, s.next.here⟩ t := by
    refine ok_head.mpr ⟨second.kind, third.kind, type, reads, ?_⟩
    rw [first.kind, second.value]
    rfl
  have onward := onward_head (.inl first.kind) declares
  refine ⟨t.next, onward.trans (onward_next assign.kind rfl), assign.next, faithful', fun st => ?_⟩
  simp only [ok_statement_of_form inside (form_of_kind standard first.kind), formed]
  have fresh' : ∀ {u : Session}, Onward t u → u.scopes.binding? name = none := by
    intro u later
    rw [later.scopes, onward.scopes]
    exact fresh
  constructor
  · rintro ⟨s', run, last⟩
    obtain ⟨found, s₁, declares', body⟩ := ok_declarationStatement.mp run
    rw [declares] at declares'
    cases declares'
    obtain ⟨comma, _⟩ | ⟨_, declaration, body, rfl⟩ := body
    · rw [assign.kind] at comma
      cases comma
    · obtain ⟨value, s₂, scopes, given, ends, _, rfl, rfl⟩ := ok_declarationRest.mp body
      obtain ⟨semicolon, _⟩ | ⟨_, given⟩ := given
      · rw [assign.kind] at semicolon
        cases semicolon
      · obtain ⟨_, e, own, both, s₃, reads, single, joined, rfl, rfl⟩ := ok_givenValue.mp given
        exact ⟨_, rfl, e, own, both, s₃, reads, single, joined, rfl, ends, last⟩
  · rintro ⟨value, rfl, e, own, both, s₃, reads, single, joined, rfl, ends, last⟩
    have given : givenValue ⟨false, name, type, s.next.here⟩ t =
      .ok (e.settle both) (s₃.joining type own) :=
      ok_givenValue.mpr ⟨assign.kind, e, own, both, s₃, reads, single, joined, rfl, rfl⟩
    have later := ((onward_next assign.kind rfl).trans reads.onward).joining type own
    refine ⟨_, ok_declarationStatement.mpr ⟨_, t, declares, .inr ⟨by simp [assign.kind], _,
      ok_declarationRest.mpr ⟨_, _, _, .inr ⟨by simp [assign.kind], given⟩, ends,
        declare_fresh (fresh' later), rfl, rfl⟩, rfl⟩⟩, last⟩

/-- What stands behind `return:` and what stands behind the equals sign of a declaration, given that
the tokens are the same: each statement holds one value, and both are accepted with the same values,
save that a parenthesis that comes first behind `return:` has to enclose all of it. -/
structure ReturnsDeclared (s : Session) (type : Ty) (name : String) (given rest : List Spelling)
    (c d : Cursor) : Prop where
  returned : ∀ st, Takes s c rest st → ∃ value, st = .returning [value]
  declared : ∀ st, Takes s d rest st → ∃ value, st = .declaration ⟨false, name, type, value⟩
  alike : ∀ value, Takes s c rest (.returning [value]) ↔
    Takes s d rest (.declaration ⟨false, name, type, value⟩) ∧
    (leadKind given = .openParen → Enclosed (s.withCursor c).next.next rest)

theorem leadKind_append (given : List Spelling) (rest : List Spelling) :
    leadKind (given ++ (.semicolon, ";") :: rest) = .openParen ↔ leadKind given = .openParen := by
  cases given with
  | nil => simp [leadKind]
  | cons first given => rfl

/-- In a function with one result the value behind `return:` is read as that of a new variable would
be. -/
theorem returnsDeclared_of_result {signature : Signature} {name : String} {given : List Spelling}
    {c d : Cursor} (grounded : Grounded s) (standard : s.grammar = .standard)
    (inside : s.place.inFunction = true)
    (function : s.place.function = some signature) (one : signature.results = [type])
    (written : type.Written)
    (fresh : s.scopes.binding? name = none)
    (returns : c.ahead.map Token.meaning =
      (.returnWord, "return") :: (.colon, ":") :: (given ++ (.semicolon, ";") :: rest))
    (declares : d.ahead.map Token.meaning = (.varWord, "var") :: (.identifier, name) ::
      (.colon, ":") ::
      (type.tokens ++ (.assign, "=") :: (given ++ (.semicolon, ";") :: rest)))
    (closing : c.closing.value = d.closing.value) : ReturnsDeclared s type name given rest c d := by
  have returning : ∀ st, Takes s c rest st ↔ _ :=
    fun _ => takes_returning standard inside function one returns
  obtain ⟨t, onward, facing, faithful, declaration⟩ :=
    takes_declaration (s := s.withCursor d) standard inside fresh written grounded.pool declares
  have behind : (s.withCursor c).next.next.facing = given ++ (.semicolon, ";") :: rest :=
    (Session.faces (Session.faces (s := s.withCursor c) returns).next).next
  have alike : (s.withCursor c).next.next.cursor.Alike t.cursor :=
    ⟨behind.trans facing.symm, closing.trans (congrArg Closing.value onward.closing.symm)⟩
  -- Behind the equals sign the reader stands as behind the colon, but with another pool.
  have same : t = ((s.withCursor c).next.next.withCursor t.cursor).withPool t.pool := by
    obtain ⟨⟨place, file, grammar, -, -⟩, scopes⟩ := onward
    obtain ⟨cursor, file', grammar', scopes', pool, place'⟩ := t
    obtain rfl : file' = s.file := file
    obtain rfl : grammar' = s.grammar := grammar
    obtain rfl : scopes' = s.scopes := scopes
    obtain rfl : place' = s.place := place
    rfl
  have lead : (s.withCursor c).next.next.kind = .openParen ↔ leadKind given = .openParen := by
    rw [kind_of_facing behind, leadKind_append]
  have opened : Grounded (s.withCursor c).next.next := ⟨grounded.pool, grounded.scopes⟩
  have offered : ∀ value, Offers (s.withCursor c).next.next type rest value ↔
    Offers t type rest value := by
    intro value
    constructor
    · intro offers
      exact offers.elsewhere opened written.proper same alike faithful
    · intro offers
      have declared : Grounded t := by
        refine ⟨faithful, ?_⟩
        rw [onward.scopes]
        exact grounded.scopes
      exact offers.elsewhere declared written.proper (by rw [same]; rfl) alike.symm grounded.pool
  refine ⟨?_, ?_, ?_⟩
  · intro st takes
    obtain ⟨value, same, _⟩ := (returning st).mp takes
    exact ⟨value, same⟩
  · intro st takes
    obtain ⟨value, same, _⟩ := (declaration st).mp takes
    exact ⟨value, same⟩
  · intro value
    rw [returning, Takes, declaration, lead]
    constructor
    · rintro ⟨_, same, offers, enclosed⟩
      obtain rfl := (List.cons.inj (Stmt.returning.inj same)).1
      exact ⟨⟨_, rfl, (offered _).mp offers⟩, enclosed⟩
    · rintro ⟨⟨_, same, offers⟩, enclosed⟩
      obtain rfl := congrArg Declaration.value (Stmt.declaration.inj same)
      exact ⟨_, rfl, (offered _).mpr offers, enclosed⟩

def Session.insideOf (result : Ty) : Session :=
  let signature : Signature := ⟨"f", [⟨"a", named "string"⟩], [result]⟩
  let scopes := ScopeStack.initial.push.modifyInnermost (Scope.add ⟨signature, .defined⟩)
  { cursor := ⟨[], "EOF", 0, 0⟩, file := "", grammar := .standard, pool := .empty,
    scopes := scopes.push.modifyInnermost (Scope.bind ⟨"a", false, named "string"⟩),
    place := .inside signature (.top false) }

theorem Session.grounded_insideOf {result : Ty} (written : result.Written) :
    Grounded (.insideOf result) := by
  have string : (named "string").Written := written_named (by decide)
  refine ⟨Pool.faithful_empty, ?_⟩
  refine (written_initial.push.modifyInnermost fun _ scope =>
    scope.add ⟨?_, ?_⟩).push.modifyInnermost fun _ scope =>
    scope.bind string
  · intro parameter member
    obtain rfl := List.mem_singleton.mp member
    exact string
  · intro type member
    obtain rfl := List.mem_singleton.mp member
    exact written

def Cursor.ofText (text : String) : Cursor := .ofTokens ((Token.ofSource text "").toOption.getD [])

theorem returnsDeclared_of_result_group :
    (Session.insideOf (named "char")).scopes.binding? "v" = none ∧
      ReturnsDeclared (.insideOf (named "char")) (named "char") "v"
        [(.openParen, "("), (.identifier, "a"), (.openBracket, "["), (.integer, "0"),
          (.closeBracket, "]"), (.closeParen, ")")] [] (.ofText "return: (a[0]);")
            (.ofText "var v: char = (a[0]);") := by
  have written : (named "char").Written := written_named (by decide)
  exact ⟨by decide, returnsDeclared_of_result (Session.grounded_insideOf
    written) rfl rfl rfl rfl written (by decide) (by decide +kernel) (by decide +kernel)
      (by decide +kernel)⟩

/-- An expression that begins with a parenthesis and goes on behind the one that closes it can be
declared and cannot be returned. -/
theorem takes_declared_not_returned :
    (∃ st, Takes (.insideOf (named "char")) (.ofText "var v: char = (a + a)[0];") [] st) ∧
      ∀ st, ¬Takes (.insideOf (named "char")) (.ofText "return: (a + a)[0];") [] st := by
  constructor
  · have run : (match statement ((Session.insideOf (named "char")).withCursor
      (.ofText "var v: char = (a + a)[0];")) with
        | .ok _ s' => decide (s'.facing = [])
        | .error _ _ => false) = true := by decide +kernel
    split at run
    next st s' read => exact ⟨st, s', read, of_decide_eq_true run⟩
    next => cases run
  · rintro st ⟨s', run, _⟩
    have refused : (match statement ((Session.insideOf (named "char")).withCursor
      (.ofText "return: (a + a)[0];")) with
        | .ok _ _ => false
        | .error _ _ => true) = true := by decide +kernel
    rw [run] at refused
    cases refused

end ColonScript.Reading
