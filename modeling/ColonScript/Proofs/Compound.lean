import ColonScript.Proofs.Ordering

/-! Compound assignment. The statement `x += e;` is accepted exactly where `x = x + (e);` is, and in
both the value is recorded alike: as what the type of the variable settles in it. -/

namespace ColonScript.Reading
open Token (Kind)
open Ty Typing
open Spelling (parens)

variable {s t t' : Session} {scopes : ScopeStack} {given more rest : List Spelling} {x op : String}
    {e : Expr}
  {power own : Power} {type : Ty}

/-! Tokens. -/

def compounded : List String := ["+", "-", "*", "/", "%"]

def compoundTokens (op : String) (given : List Spelling) : List Spelling :=
  Spelling.mark (op ++ "=") :: given

def expandedTokens (x op : String) (given : List Spelling) : List Spelling :=
  (.assign, "=") :: (.identifier, x) :: Spelling.mark op :: parens given

structure Compounds (op : String) (own : Power) : Prop where
  continues : Grammar.standard.continuation? (Spelling.mark op).1 = some (own, .binary)
  assigns : Grammar.standard.continuation? (Spelling.mark (op ++ "=")).1 =
    some (.assignment, .assignment)
  inner : underlying (op ++ "=") = op
  compound : op ++ "=" ≠ "="

theorem compounds_of_mem (member : op ∈ compounded) : ∃ own, Compounds op own := by
  simp only [compounded, List.mem_cons, List.not_mem_nil, or_false] at member
  rcases member with rfl | rfl | rfl | rfl | rfl
  all_goals exact ⟨_, rfl, rfl, by decide +kernel, by decide⟩

theorem Compounds.received_eq (compounds : Compounds op own) (target value : Ty) :
    received (Spelling.mark (op ++ "=")).2 target value = Typing.binary op target value := by
  show received (op ++ "=") target value = _
  rw [received, if_neg compounds.compound, compounds.inner]

/-! Types. A variable has a type that is known as a whole, and keeps it. -/

theorem result_eq_target {target value result both : Ty} {pool pool' : Pool}
    (faithful : pool.Faithful) (written : target.Written) (proper : value.Proper)
    (run : Typing.binary op target value pool = .ok result pool')
    (common : common? target result = some both) : result = target ∧ both = target := by
  have resultProper := ((steady_binary written.proper proper).gives faithful run).1
  obtain ⟨targetRefined, resultRefined, _⟩ := common?_refines written.proper resultProper common
  obtain rfl := targetRefined.eq_of_settled written.settled
  refine ⟨?_, rfl⟩
  rcases binary_cases faithful written.proper proper run with
    ⟨_, _, _, _, _, _, rfl⟩ | ⟨_, _, ⟨_, shared⟩ | ⟨_, _, rfl⟩⟩
  · exact resultRefined.eq_of_settled rfl
  · exact ((common?_refines written.proper proper shared).1.eq_of_settled written.settled).symm
  · exact resultRefined.eq_of_settled rfl

theorem anywhere_assignment {name operator : String} {target value : Ty} (proper : target.Proper)
    (result : Anywhere (received operator target value) target) :
    Anywhere (Typing.assignment name operator target value) target := by
  intro pool faithful
  obtain ⟨pool', run, kept⟩ := result faithful
  obtain ⟨joined, kept'⟩ := Pool.join_eq kept proper proper
  refine ⟨(pool'.join target target).2, ?_, kept'⟩
  rw [assignment_eq, run_answered_bind run, run_join_bind, joined, common?_self proper.plain_eq]
  rfl

/-- Where no container comes of it, the value has nothing left to settle. -/
theorem settled_of_binary {value : Ty} (proper : type.Proper) (valueProper : value.Proper)
    (result : Anywhere (Typing.binary op type value) type) (plain : type.isContainer = false) :
    value.settled = true := by
  obtain ⟨_, run, _⟩ := result Pool.faithful_empty
  rcases binary_cases Pool.faithful_empty proper valueProper
    run with ⟨_, _, _, _, rfl, _⟩ | ⟨array, _⟩
  · rfl
  · cases type with
    | array => cases plain
    | _ => cases array

theorem types_combined {left right : Expr} {operator : String} :
    (combined left operator right type).types = [type] := by
  unfold combined
  split <;> rfl

theorem settle_combined {value : Ty} (written : type.Written) (proper : value.Proper)
    (single : e.types = [value])
    (result : Anywhere (Typing.binary op type value) type) :
    (combined (.name x type) op e type).settle type =
      .binary (.name x type) op (e.settle type) type := by
  have stays : ∀ e : Expr, (Expr.binary (.name x type) op e type).settle type =
    .binary (.name x type) op e type :=
    fun _ => settle_of_settled rfl written.settled type
  unfold combined
  split
  next => exact stays _
  next plain =>
    have settled := settled_of_binary written.proper proper result (eq_false_of_ne_true plain)
    rw [settle_of_settled single settled]
    exact stays e

/-! Reading. What comes first decides how the reading goes on. -/

theorem no_comma_of_continues {kind : Kind} {continuation : Continuation}
    (continues : Grammar.standard.continuation? kind = some (own, continuation)) :
    kind ≠ .comma := by
  rintro rfl
  cases continues

theorem ReadFrom.unique {tokens : List Spelling} {e' : Expr}
    (reads : ReadFrom scopes tokens Stops (.expr power e))
    (ready : Ready scopes (tokens ++ more) t) (stops : Stops more)
    (read : Reads t (.expr power e') t') :
    e' = e ∧ Ready scopes more t' := by
  obtain ⟨t₁, after, read'⟩ := reads ready stops
  obtain ⟨rfl, rfl⟩ := read.unique read'
  exact ⟨rfl, after⟩

theorem ReadFrom.parens (reads : ReadFrom scopes given Stops (.expr .lowest e)) (power : Power) :
    ReadFrom scopes (parens given) Stops (.expr power e) := by
  intro more t ready stops
  have inside : Ready scopes (given ++ (.closeParen, ")") :: more) t.next := by
    simpa using ready.next
  obtain ⟨t₁, after, read⟩ := reads inside rfl
  exact ⟨t₁.next, after.next, .expr ready.opening (.group ready.kind read after.kind)
    (after.next.stop stops)⟩

namespace Ready
variable {first : Spelling} {left : Expr}

theorem reads_name (ready : Ready scopes ((.identifier, x) :: more) t)
    (noCall : leadKind more ≠ .openParen) :
    Reads t (.expr power e) t' ↔ ∃ binding, scopes.binding? x = some binding ∧
      Reads t.next (.rest power (.name x binding.type) e) t' := by
  have value : t.current.value = x := ready.value
  have apart : t.next.kind ≠ .openParen := ready.next.kind_eq ▸ noCall
  rw [← value, ← ready.scopes]
  constructor
  · intro reads
    cases reads with
    | expr opens operand rest =>
      rw [ready.opening] at opens
      cases opens
      cases operand with
      | name _ _ bound => exact ⟨_, bound, rest⟩
      | builtinCall _ call => exact absurd call apart
      | call _ call => exact absurd call apart
  · rintro ⟨binding, bound, rest⟩
    exact .expr ready.opening (.name ready.kind apart bound) rest

theorem reads_assign (ready : Ready scopes (first :: more) t)
    (continues : Grammar.standard.continuation? first.1 = some (own, .assignment)) :
    Reads t (.rest .lowest (.name x type) e) t' ↔ scopes.isConstant x = false ∧
      ∃ value valueType both pool t₁, Reads t.next (.expr .lowest value) t₁ ∧
      value.types = [valueType] ∧ Typing.assignment x first.2 type valueType t₁.pool =
        .ok both pool ∧
      Reads (t₁.withPool pool)
        (.rest .lowest (.assign x first.2 (value.settle both) type) e) t' := by
  have operator := ready.continuation.trans continues
  have tight := tight_of_continues continues
  rw [← ready.value, ← ready.scopes]
  constructor
  · intro reads
    cases reads with
    | stop loose => exact absurd (loose _ _ operator) tight
    | assign _ _ mutable given single typed rest =>
      exact ⟨mutable, _, _, _, _, _, given, single, typed, rest⟩
    | binary other | step other | index other => cases other.symm.trans operator
  · rintro ⟨mutable, value, valueType, both, pool, t₁, given, single, typed, rest⟩
    exact .assign operator tight mutable given single typed rest

theorem reads_binary (ready : Ready scopes (first :: more) t)
    (continues : Grammar.standard.continuation? first.1 = some (own, .binary)) :
    Reads t (.rest .lowest left e) t' ↔ ∃ right leftType rightType result pool t₁,
      Reads t.next (.expr own right) t₁ ∧ left.types = [leftType] ∧ right.types = [rightType] ∧
      Typing.binary first.2 leftType rightType t₁.pool = .ok result pool ∧
      Reads (t₁.withPool pool) (.rest .lowest (combined left first.2 right result) e) t' := by
  have operator := ready.continuation.trans continues
  have tight := tight_of_continues continues
  rw [← ready.value]
  constructor
  · intro reads
    cases reads with
    | stop loose => exact absurd (loose _ _ operator) tight
    | binary same _ operand leftSingle rightSingle typed rest =>
      cases same.symm.trans operator
      exact ⟨_, _, _, _, _, _, operand, leftSingle, rightSingle, typed, rest⟩
    | assign other | step other | index other => cases other.symm.trans operator
  · rintro ⟨right, leftType, rightType, result, pool, t₁, operand, leftSingle,
      rightSingle, typed, rest⟩
    exact .binary operator tight operand leftSingle rightSingle typed rest

theorem eq_of_stops (ready : Ready scopes more t) (stops : Stops more)
    (reads : Reads t (.rest power left e) t') :
    e = left ∧ t' = t := by
  have loose : t.grammar.continuation? t.kind = none := by rw [ready.standard, ready.kind_eq, stops]
  cases reads with
  | stop => exact ⟨rfl, rfl⟩
  | assign goes | binary goes | step goes | index goes => cases goes.symm.trans loose

end Ready

/-! The two ways of writing an assignment. -/

/-- The variable can be assigned to, and with the value its operator comes to the type that it
has. -/
structure Combines (s : Session) (x op : String) (e : Expr) (type : Ty) : Prop where
  bound : ∃ binding, s.scopes.binding? x = some binding ∧ binding.type = type
  mutable : s.scopes.isConstant x = false
  result : ∃ value, e.types = [value] ∧ Anywhere (Typing.binary op type value) type

/-- Behind the name of the variable stand the tokens of an assignment, which are read where it
combines with the value, and only there. -/
structure Assigns (s : Session) (x op : String) (e : Expr) (behind : List Spelling)
    (result : Ty → Expr) : Prop where
  noList : ∀ more, leadKind (behind ++ more) ≠ .comma
  action : ∀ type, (result type).isAction = true
  reads : ∀ ⦃type⦄, Combines s x op e type →
    ReadFrom s.scopes ((.identifier, x) :: behind) Stops (.expr .lowest (result type))
  combines : ∀ ⦃more t e' t'⦄, Ready s.scopes ((.identifier, x) :: behind ++ more) t → Stops more →
    Reads t (.expr .lowest e') t' → ∃ type, Combines s x op e type

def compoundOf (x op : String) (e : Expr) (type : Ty) : Expr :=
  .assign x (op ++ "=") (e.settle type) type

def expandedOf (x op : String) (e : Expr) (type : Ty) : Expr :=
  .assign x "=" (.binary (.name x type) op (e.settle type) type) type

section
variable {binding : Binding} {e' : Expr} (grounded : Grounded s) (standard : s.grammar = .standard)
  (readsAs : s.ReadsAs given e) (compounds : Compounds op own)
include grounded

/-- What the operator makes of the value has to agree with the variable, which leaves it the type of
the variable. -/
theorem combines_of_binary {value result both : Ty} {pool pool' : Pool}
    (bound : s.scopes.binding? x = some binding) (mutable : s.scopes.isConstant x = false)
    (single : e.types = [value]) (proper : value.Proper)
    (faithful : pool.Faithful) (run : Typing.binary op binding.type value pool = .ok result pool')
    (common : common? binding.type result = some both) : Combines s x op e binding.type := by
  have written := grounded.scopes.binding bound
  obtain ⟨rfl, _⟩ := result_eq_target faithful written proper run common
  have anywhere := anywhere_of_steady (steady_binary written.proper proper) faithful run
  exact ⟨⟨binding, bound, rfl⟩, mutable, value, single, anywhere⟩

include standard readsAs compounds

/-! The compound assignment. -/

theorem readFrom_compound (combines : Combines s x op e type) :
    ReadFrom s.scopes ((.identifier, x) :: compoundTokens op given) Stops
      (.expr .lowest (compoundOf x op e type)) := by
  intro more t ready stops
  obtain ⟨⟨binding, bound, rfl⟩, mutable, value, single, result⟩ := combines
  have noCall := no_call_of_continues compounds.assigns nofun
  obtain ⟨t₁, after, read⟩ := readsAs.readFrom grounded standard ready.next.next stops
  rw [← compounds.received_eq] at result
  obtain ⟨pool, typed, faithful⟩ :=
    anywhere_assignment (grounded.scopes.binding bound).proper result after.faithful
  have done := after.withPool faithful
  have assign := (ready.next.reads_assign compounds.assigns).mpr
    ⟨mutable, e, value, binding.type, pool, t₁, read, single, typed, done.stop stops⟩
  exact ⟨_, done, (ready.reads_name noCall).mpr ⟨binding, bound, assign⟩⟩

theorem combines_of_compound
    (ready : Ready s.scopes ((.identifier, x) :: compoundTokens op given ++ more) t)
    (stops : Stops more) (reads : Reads t (.expr .lowest e') t') :
    ∃ type, Combines s x op e type := by
  have noCall := no_call_of_continues compounds.assigns nofun
  obtain ⟨binding, bound, rest⟩ := (ready.reads_name noCall).mp reads
  obtain ⟨mutable, _, value, both, _, t₁, read, single, typed, _⟩ :=
    (ready.next.reads_assign compounds.assigns).mp rest
  obtain ⟨rfl, after⟩ := (readsAs.readFrom grounded standard).unique ready.next.next stops read
  have written := grounded.scopes.binding bound
  have proper := readsAs.proper grounded single
  obtain ⟨⟨result, ⟨_, run⟩, common⟩, _⟩ :=
    (steady_assignment written.proper proper).gives after.faithful typed
  rw [compounds.received_eq] at run
  exact ⟨_, combines_of_binary grounded bound mutable single proper Pool.faithful_empty run common⟩

/-! The operation that is assigned when it is written out, and its assignment. -/

theorem readFrom_operation (combines : Combines s x op e type) :
    ReadFrom s.scopes ((.identifier, x) :: Spelling.mark op :: parens given) Stops
      (.expr .lowest (combined (.name x type) op e type)) := by
  intro more t ready stops
  obtain ⟨⟨binding, bound, rfl⟩, _, value, single, result⟩ := combines
  have noCall := no_call_of_continues compounds.continues nofun
  obtain ⟨t₁, after, read⟩ := (readsAs.readFrom grounded standard).parens own ready.next.next stops
  obtain ⟨pool, typed, faithful⟩ := result after.faithful
  have done := after.withPool faithful
  refine ⟨_, done, (ready.reads_name noCall).mpr ⟨binding, bound, ?_⟩⟩
  refine (ready.next.reads_binary compounds.continues).mpr ?_
  exact ⟨e, binding.type, value, binding.type, pool, t₁, read, rfl, single, typed, done.stop stops⟩

theorem binary_of_operation
    (ready : Ready s.scopes ((.identifier, x) :: Spelling.mark op :: parens given ++ more) t)
    (stops : Stops more) (bound : s.scopes.binding? x = some binding)
    (reads : Reads t (.expr .lowest e') t') :
    ∃ value result pool, e.types = [value] ∧ pool.Faithful ∧
      Typing.binary op binding.type value pool = .ok result t'.pool ∧
      e' = combined (.name x binding.type) op e result := by
  have noCall := no_call_of_continues compounds.continues nofun
  obtain ⟨_, bound', rest⟩ := (ready.reads_name noCall).mp reads
  obtain rfl := Option.some.inj (bound.symm.trans bound')
  obtain ⟨_, _, value, result, pool, t₁, operand, leftSingle, single, typed, rest⟩ :=
    (ready.next.reads_binary compounds.continues).mp rest
  cases leftSingle
  obtain ⟨rfl, after⟩ :=
    ((readsAs.readFrom grounded standard).parens own).unique ready.next.next stops operand
  have written := grounded.scopes.binding bound
  have kept :=
    ((steady_binary written.proper (readsAs.proper grounded single)).gives after.faithful typed).2.1
  obtain ⟨rfl, rfl⟩ := (after.withPool kept).eq_of_stops stops rest
  exact ⟨value, result, _, single, after.faithful, typed, rfl⟩

theorem readFrom_expanded (combines : Combines s x op e type) :
    ReadFrom s.scopes ((.identifier, x) :: expandedTokens x op given) Stops
      (.expr .lowest (expandedOf x op e type)) := by
  intro more t ready stops
  obtain ⟨t₁, after, read⟩ :=
    readFrom_operation grounded standard readsAs compounds combines ready.next.next stops
  obtain ⟨⟨binding, bound, rfl⟩, mutable, value, single, result⟩ := combines
  have written := grounded.scopes.binding bound
  have plain : Anywhere (received "=" binding.type binding.type) binding.type :=
    fun pool kept => ⟨pool, rfl, kept⟩
  obtain ⟨pool, typed, faithful⟩ := anywhere_assignment written.proper plain after.faithful
  have done := after.withPool faithful
  refine ⟨_, done, (ready.reads_name nofun).mpr
    ⟨binding, bound, (ready.next.reads_assign rfl).mpr ?_⟩⟩
  refine ⟨mutable, _, binding.type, binding.type, pool, t₁, read, types_combined, typed, ?_⟩
  rw [settle_combined written (readsAs.proper grounded single) single result]
  exact done.stop stops

theorem combines_of_expanded
    (ready : Ready s.scopes ((.identifier, x) :: expandedTokens x op given ++ more) t)
    (stops : Stops more) (reads : Reads t (.expr .lowest e') t') :
    ∃ type, Combines s x op e type := by
  obtain ⟨binding, bound, rest⟩ := (ready.reads_name nofun).mp reads
  obtain ⟨mutable, _, _, both, _, t₁, read, single, typed, _⟩ :=
    (ready.next.reads_assign rfl).mp rest
  obtain ⟨value, result, pool, valueSingle, faithful, run, rfl⟩ :=
    binary_of_operation grounded standard readsAs compounds ready.next.next stops bound read
  rw [types_combined] at single
  cases single
  have written := grounded.scopes.binding bound
  have proper := readsAs.proper grounded valueSingle
  obtain ⟨resultProper, kept, _⟩ := (steady_binary written.proper proper).gives faithful run
  obtain ⟨⟨_, ⟨_, same⟩, common⟩, _⟩ :=
    (steady_assignment written.proper resultProper).gives kept typed
  cases same
  exact ⟨_, combines_of_binary grounded bound mutable valueSingle proper faithful run common⟩

theorem assigns_compound : Assigns s x op e (compoundTokens op given) (compoundOf x op e) where
  noList _ := no_comma_of_continues compounds.assigns
  action _ := rfl
  reads _ combines := readFrom_compound grounded standard readsAs compounds combines
  combines _ _ _ _ ready stops reads :=
    combines_of_compound grounded standard readsAs compounds ready stops reads

theorem assigns_expanded : Assigns s x op e (expandedTokens x op given) (expandedOf x op e) where
  noList _ := nofun
  action _ := rfl
  reads _ combines := readFrom_expanded grounded standard readsAs compounds combines
  combines _ _ _ _ ready stops reads :=
    combines_of_expanded grounded standard readsAs compounds ready stops reads

end

/-! Statements. -/

/-- A statement that begins with the name of a variable, and with no list of them, is an
expression. -/
theorem Ready.statement_of_name {st : Stmt} (ready : Ready scopes ((.identifier, x) :: more) t)
    (noList : leadKind more ≠ .comma) :
    statement t = .ok st t' ↔ (t.place.inFunction = true ∨ t.place.testing = true) ∧
      ∃ e t₁, Reads t (.expr .lowest e) t₁ ∧ e.isAction = true ∧ t₁.kind = .semicolon ∧
      st = .expression e ∧
        t' = t₁.next := by
  have kind : t.kind = .identifier := ready.kind
  have apart : t.next.kind ≠ .comma := ready.next.kind_eq ▸ noList
  have form : t.grammar.form? .identifier = none := by
    rw [ready.standard]
    rfl
  simp [statement, statementUpTo, ok_statementWith, ok_expressionStatement, apart,
    Session.Allows, kind, form]

section
variable {behind : List Spelling} {result : Ty → Expr} {c : Cursor} {st : Stmt}
  (assigns : Assigns s x op e behind result) (grounded : Grounded s)
  (standard : s.grammar = .standard)
  (facing : c.ahead.map Token.meaning = (.identifier, x) :: behind ++ (.semicolon, ";") :: rest)
include assigns grounded standard facing

theorem Assigns.run {type : Ty} (combines : Combines s x op e type)
    (allowed : s.place.inFunction = true ∨ s.place.testing = true) :
    ∃ s', statement (s.withCursor c) = .ok (.expression (result type)) s' := by
  have ready : Ready s.scopes ((.identifier, x) :: behind ++ (.semicolon, ";") :: rest)
    (s.withCursor c) :=
    ⟨standard, rfl, grounded.pool, facing⟩
  obtain ⟨t, after, reads⟩ := assigns.reads combines ready rfl
  exact ⟨t.next, (ready.statement_of_name (assigns.noList _)).mpr
    ⟨allowed, _, t, reads, assigns.action type, after.kind, rfl, rfl⟩⟩

theorem Assigns.of_run {s' : Session} (run : statement (s.withCursor c) = .ok st s') :
    (s.place.inFunction = true ∨ s.place.testing = true) ∧
      ∃ type, Combines s x op e type ∧ st = .expression (result type) ∧ s'.facing = rest := by
  have ready : Ready s.scopes ((.identifier, x) :: behind ++ (.semicolon, ";") :: rest)
    (s.withCursor c) :=
    ⟨standard, rfl, grounded.pool, facing⟩
  obtain ⟨allowed, e', t, reads, _, _, rfl, rfl⟩ :=
    (ready.statement_of_name (assigns.noList _)).mp run
  obtain ⟨type, combines⟩ := assigns.combines ready rfl reads
  obtain ⟨rfl, after⟩ := (assigns.reads combines).unique ready rfl reads
  exact ⟨allowed, type, combines, rfl, after.next.facing⟩

end

/-- Both statements are accepted or neither is. Those that are take the same tokens, up to the
semicolon, and hold the same value with the same types in assignments of the same type. -/
structure Expands (s : Session) (x op : String) (e : Expr) (rest : List Spelling) (c d : Cursor) :
    Prop where
  accepted : (∃ st s', statement (s.withCursor c) = .ok st s') ↔
    ∃ st s', statement (s.withCursor d) = .ok st s'
  alike : ∀ ⦃st st' s' t'⦄, statement (s.withCursor c) = .ok st s' →
    statement (s.withCursor d) = .ok st' t' →
    s'.facing = rest ∧ t'.facing = rest ∧ ∃ type,
      st = .expression (.assign x (op ++ "=") (e.settle type) type) ∧
      st' = .expression (.assign x "=" (.binary (.name x type) op (e.settle type) type) type)

theorem Combines.unique {type' : Ty} (combines : Combines s x op e type)
    (combines' : Combines s x op e type') :
    type = type' := by
  obtain ⟨binding, bound, rfl⟩ := combines.bound
  obtain ⟨binding', bound', rfl⟩ := combines'.bound
  rw [bound] at bound'
  cases bound'
  rfl

/-- Whatever value an expression has, assigning with an operator is assigning what the operator
makes of it. -/
theorem compound_expands {c d : Cursor} (grounded : Grounded s) (standard : s.grammar = .standard)
    (readsAs : s.ReadsAs given e) (operator : op ∈ compounded)
    (compound : c.ahead.map Token.meaning = (.identifier, x) :: compoundTokens op given ++
      (.semicolon, ";") :: rest)
    (expanded : d.ahead.map Token.meaning =
      (.identifier, x) :: expandedTokens x op given ++ (.semicolon, ";") :: rest) :
    Expands s x op e rest c d := by
  obtain ⟨own, compounds⟩ := compounds_of_mem operator
  have short := @assigns_compound s given x op e own grounded standard readsAs compounds
  have long := @assigns_expanded s given x op e own grounded standard readsAs compounds
  refine ⟨⟨?_, ?_⟩, ?_⟩
  · rintro ⟨st, s', run⟩
    obtain ⟨allowed, type, combines, _⟩ := short.of_run grounded standard compound run
    exact ⟨_, long.run grounded standard expanded combines allowed⟩
  · rintro ⟨st, s', run⟩
    obtain ⟨allowed, type, combines, _⟩ := long.of_run grounded standard expanded run
    exact ⟨_, short.run grounded standard compound combines allowed⟩
  · intro st st' s' t' run run'
    obtain ⟨_, type, combines, rfl, ends⟩ := short.of_run grounded standard compound run
    obtain ⟨_, type', combines', rfl, ends'⟩ := long.of_run grounded standard expanded run'
    obtain rfl := combines.unique combines'
    exact ⟨ends, ends', type, rfl, rfl⟩

/-- Appending an array whose elements are not known yet to a variable of which they are. -/
theorem compound_expands_nested :
    let inside := Session.insideOf (named "char")
    let v : Binding := ⟨"v", false, array 0 (array 0 (named "int"))⟩
    let s := inside.withScopes (inside.scopes.modifyInnermost (Scope.bind v))
    let c := Cursor.ofText "v += [[]];"
    let d := Cursor.ofText "v = v + ([[]]);"
    Grounded s ∧ s.grammar = .standard ∧ "+" ∈ compounded ∧
      ∃ e, e.types = [array 0 (array 0 unknown)] ∧
      s.ReadsAs ((Cursor.ofText "[[]]").ahead.map Token.meaning) e ∧ Expands s "v" "+" e [] c d ∧
      ∃ st s', statement (s.withCursor c) = .ok st s' := by
  intro inside v s c d
  have grounded : Grounded inside := Session.grounded_insideOf (written_named (by decide))
  have written : v.type.Written := ⟨⟨rfl, rfl, proper_named (by decide)⟩, rfl⟩
  have grounded : Grounded s :=
    ⟨grounded.pool, grounded.scopes.modifyInnermost fun _ scope => scope.bind written⟩
  obtain ⟨⟨tokens, e, type, reads, single⟩, rfl, rfl, _⟩ :=
    @exists_member_of_text s "[[]]" (array 0 (array 0 unknown)) false (by decide +kernel)
  have expands : Expands s "v" "+" e [] c d :=
    compound_expands grounded rfl reads (by decide) (by decide +kernel) (by decide +kernel)
  refine ⟨grounded, rfl, by decide, e, single, reads, expands, ?_⟩
  have run : (match statement (s.withCursor c) with
      | .ok .. => true
      | .error .. => false) = true := by decide +kernel
  split at run
  next st s' read => exact ⟨st, s', read⟩
  next => cases run

end ColonScript.Reading
