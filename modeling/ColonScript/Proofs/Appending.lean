import ColonScript.Proofs.Reading.Horizon

/-! Tokens put behind those of an accepted script change nothing of what is read of it: the reading
comes by the state in which it ended without them, and goes on from there. -/

namespace ColonScript.Reading
open Token (Kind)

variable {s s₁ s' : Session} {body : Block}

/-! Rounds. Whether a reading succeeds or fails, it does not depend on how many rounds more than
needed are allowed. -/

section
variable {α β : Type} {more : Kind → Bool} {item : Read α} {a : α}

theorem run_bind_of_ok {x : Read α} (f : α → Read β) (run : x s = .ok a s₁) :
    (x >>= f) s = f a s₁ := by
  change EStateM.bind x f s = _
  rw [EStateM.bind, run]

theorem run_bind_of_error {x : Read α} {fault : Fault} (f : α → Read β)
    (run : x s = .error fault s₁) :
    (x >>= f) s = .error fault s₁ := by
  change EStateM.bind x f s = _
  rw [EStateM.bind, run]

theorem run_bind_congr {x y : Read α} (f : α → Read β) (same : x s = y s₁) :
    (x >>= f) s = (y >>= f) s₁ := by
  change EStateM.bind x f s = EStateM.bind y f s₁
  rw [EStateM.bind, EStateM.bind, same]

abbrev rounds (more : Kind → Bool) (item : Read α) (count : Nat) : Read (List α × Unit) :=
  collectUpTo more (fun () => return (← item, ())) count ()

theorem rounds_next {count : Nat} (goes : more s.kind = true) (first : item s = .ok a s₁) :
    rounds more item (count + 1) s =
      (rounds more item count >>= fun rest => pure (a :: rest.1, ())) s₁ := by
  have one : (do return (← item, ()) : Read (α × Unit)) s = .ok (a, ()) s₁ :=
    ok_bind.mpr ⟨a, s₁, first, rfl⟩
  rw [rounds, collectUpTo, run_currentKind_bind, if_pos goes, run_bind_of_ok _ one]

theorem rounds_eq (advances : Advances item) {n m : Nat} (enough : s.ahead.length < n)
    (enough' : s.ahead.length < m) :
    rounds more item n s = rounds more item m s := by
  induction n generalizing m s with
  | zero => omega
  | succ n ih =>
    obtain ⟨m, rfl⟩ := Nat.exists_eq_add_one_of_ne_zero (Nat.ne_zero_of_lt enough')
    by_cases goes : more s.kind = true
    · cases first : item s with
      | ok a s₁ =>
        have shorter := advances first
        rw [rounds_next goes first, rounds_next goes first]
        exact run_bind_congr _ (ih (by omega) (by omega))
      | error fault s₁ =>
        have one : (do return (← item, ()) : Read (α × Unit)) s = .error fault s₁ :=
          run_bind_of_error _ first
        simp only [rounds, collectUpTo, run_currentKind_bind, if_pos goes]
        rw [run_bind_of_error _ one, run_bind_of_error _ one]
    · simp only [rounds, collectUpTo, run_currentKind_bind, if_neg goes]

theorem many_eq (more : Kind → Bool) (item : Read α) (s : Session) :
    many more item s = (rounds more item (s.ahead.length + 1) >>= fun items => pure items.1) s :=
  rfl

theorem many_next (advances : Advances item) (goes : more s.kind = true)
    (first : item s = .ok a s₁) :
    many more item s = (many more item >>= fun rest => pure (a :: rest)) s₁ := by
  have shorter := advances first
  rw [many_eq, run_bind_congr _ (rounds_next goes first), run_bind_congr _ (many_eq more item s₁)]
  simp only [bind_assoc, pure_bind]
  exact run_bind_congr _ (rounds_eq advances shorter (Nat.lt_succ_self _))

end

/-! Statements that have been read. -/

theorem steps_of_script (performs : Performs s (.script body) s') :
    Steps s body s' ∧ s'.kind = .eof := by
  generalize whole : Sentence.script body = sentence at performs
  induction performs generalizing body with
  | noScript ends =>
    cases whole
    exact ⟨.none, ends⟩
  | script more first _ _ ih =>
    cases whole
    obtain ⟨rest, ends⟩ := ih rfl
    exact ⟨.step more (ok_statement.mpr first) rest, ends⟩
  | _ => cases whole

theorem many_of_steps (steps : Steps s body s') :
    many (· ≠ .eof) statement s = (many (· ≠ .eof) statement >>= fun further =>
      pure (body ++ further)) s' := by
  induction steps with
  | none => simp only [List.nil_append, bind_pure]
  | step more first _ ih =>
    rw [many_next advances_statement (by simpa using more) first, run_bind_congr _ ih]
    simp only [bind_assoc, pure_bind, List.cons_append]

def remainder (body : Block) : Read Program := do
  let further ← many (· ≠ .eof) statement
  setScopes (← scopes).pop
  return ⟨body ++ further⟩

theorem program_of_steps (steps : Steps s.push body s') : program s = remainder body s' := by
  have opened : program s =
    ((do return ⟨← many (· ≠ .eof) statement⟩ : Read Program) >>= fun read => do
      setScopes (← scopes).pop
      return read) s.push := rfl
  rw [opened, bind_assoc, run_bind_congr _ (many_of_steps steps), remainder]
  simp only [bind_assoc, pure_bind]

/-- What comes of reading on from a state, when statements have been read before. -/
def resumed (body : Block) (s : Session) : Except Fault Program × Session :=
  match many (· ≠ .eof) statement s with
  | .ok further s' => (.ok ⟨body ++ further⟩, s'.pop)
  | .error fault s' => (.error fault, s')

theorem readTokens_of_steps {tokens : List Token} {file : String} {testing : Bool}
    (steps : Steps (Session.ofTokens tokens file testing .standard).push body s') :
    readTokens tokens file testing = resumed body s' := by
  rw [readTokens, program_of_steps steps, remainder, resumed]
  cases rest : many (· ≠ .eof) statement s' with
  | ok further s₁ =>
    rw [run_bind_of_ok _ rest]
    rfl
  | error fault s₁ => rw [run_bind_of_error _ rest]

/-! Where the tokens put behind begin. -/

def Cursor.behind (count : Nat) (cursor : Cursor) : Cursor :=
  { cursor with ahead := cursor.ahead.drop count }

variable {u : List Token}

theorem ahead_of_noEnd (noEnd : ∀ token ∈ u, token.kind ≠ .eof) :
    (Cursor.ofTokens u).ahead = u := by
  unfold Cursor.ofTokens
  cases last : u.getLast? with
  | none => exact (List.getLast?_eq_none_iff.mp last).symm
  | some token => simp only [if_neg (noEnd token (List.mem_of_getLast? last))]

theorem ahead_append (noEnd : ∀ token ∈ u, token.kind ≠ .eof) (v : List Token) :
    ∃ rest, (Cursor.ofTokens (u ++ v)).ahead = u ++ rest ∧ rest <+: v := by
  obtain rfl | ⟨front, last, rfl⟩ := List.eq_nil_or_concat v
  · exact ⟨[], by rw [List.append_nil, ahead_of_noEnd noEnd], List.prefix_rfl⟩
  · unfold Cursor.ofTokens
    rw [List.concat_eq_append, ← List.append_assoc, List.getLast?_concat]
    dsimp only
    split
    next => exact ⟨front, List.dropLast_concat, List.prefix_append front [last]⟩
    next => exact ⟨front ++ [last], List.append_assoc .., List.prefix_rfl⟩

def Session.before (u v : List Token) (s : Session) : Session :=
  { s with cursor := (Cursor.ofTokens (u ++ v)).behind u.length }

variable {v : List Token}

theorem behind_ahead {rest : List Token} (same : (Cursor.ofTokens (u ++ v)).ahead = u ++ rest) :
    ((Cursor.ofTokens (u ++ v)).behind u.length).ahead = rest := by
  rw [Cursor.behind, same, List.drop_left]

theorem apart_behind (noEnd : ∀ token ∈ u, token.kind ≠ .eof)
    (apart : ∀ token ∈ v.head?, token.kind ≠ .elseIfWord ∧ token.kind ≠ .elseWord) :
    ((Cursor.ofTokens (u ++ v)).behind u.length).Apart := by
  obtain ⟨rest, same, begins⟩ := ahead_append noEnd v
  have ahead := behind_ahead same
  suffices current : ((Cursor.ofTokens (u ++ v)).behind u.length).current.kind ≠ .elseIfWord ∧
      ((Cursor.ofTokens (u ++ v)).behind u.length).current.kind ≠ .elseWord from
      ⟨current.1, current.2⟩
  rw [Cursor.current, ahead]
  cases rest with
  | nil => exact ⟨nofun, nofun⟩
  | cons first rest =>
    obtain ⟨further, rfl⟩ := begins
    exact apart first rfl

theorem onto_ofTokens (noEnd : ∀ token ∈ u, token.kind ≠ .eof) (v : List Token) (file : String)
    (testing : Bool) :
    (Session.ofTokens u file testing .standard).push.onto
      ((Cursor.ofTokens (u ++ v)).behind u.length) =
      (Session.ofTokens (u ++ v) file testing .standard).push := by
  obtain ⟨rest, same, -⟩ := ahead_append noEnd v
  have cursor : Cursor.mk
    ((Cursor.ofTokens u).ahead ++ ((Cursor.ofTokens (u ++ v)).behind u.length).ahead)
      ((Cursor.ofTokens (u ++ v)).behind u.length).closing = Cursor.ofTokens (u ++ v) := by
    rw [ahead_of_noEnd noEnd, behind_ahead same, ← same]
    rfl
  rw [Session.onto]
  exact congrArg (fun cursor => { (Session.ofTokens u file testing .standard).push with cursor })
    cursor

end ColonScript.Reading

namespace ColonScript.Program
open Reading

variable {u v : List Token} {file : String} {testing : Bool} {p : Program}

/-- The reading of more tokens comes by the state in which that of the first ones ended, with the
same statements read, and goes on from there. -/
structure GoesOn (u v : List Token) (file : String) (testing : Bool) (p : Program) (s' : Session) :
    Prop where
  alone : Steps (Session.ofTokens u file testing .standard).push p.statements s'
  atEnd : s'.ahead = [] ∧ readTokens u file testing = (.ok p, s'.pop)
  together : Steps (Session.ofTokens (u ++ v) file testing .standard).push p.statements
    (s'.before u v)
  further : readTokens (u ++ v) file testing = resumed p.statements (s'.before u v)
  /-- What fails is read behind all of the first tokens. -/
  outcome : (∃ more, ofTokens (u ++ v) file testing = .ok ⟨p.statements ++ more⟩) ∨
    ∃ fault s, ofTokens (u ++ v) file testing = .error fault ∧
      many (· ≠ .eof) statement (s'.before u v) = .error fault s

/-- What is put behind an accepted script changes nothing of it. -/
theorem goesOn_of_accepted (noEnd : ∀ token ∈ u, token.kind ≠ .eof)
    (apart : ∀ token ∈ v.head?, token.kind ≠ .elseIfWord ∧ token.kind ≠ .elseWord)
    (accepted : ofTokens u file testing = .ok p) : ∃ s', GoesOn u v file testing p s' := by
  obtain ⟨s', performs⟩ := ofTokens_eq_ok.mp accepted
  obtain ⟨alone, kind⟩ := steps_of_script performs
  -- The reading ends at the end of the input, and no token is one.
  have atEnd : s'.ahead = [] := by
    obtain ⟨tokens, passed, -⟩ := (forward_of_performs performs).passed
    by_contra more
    have first : u = tokens ++ s'.ahead := (ahead_of_noEnd noEnd).symm.trans passed
    have member : s'.current ∈ u := first ▸ List.mem_append_right tokens (Session.current_mem more)
    exact noEnd s'.current member kind
  have together : Steps (Session.ofTokens (u ++ v) file testing .standard).push p.statements
    (s'.before u v) := by
    have steps : Steps _ p.statements _ := performs.onto _ (.inr (apart_behind noEnd apart))
    rw [onto_ofTokens noEnd, Session.onto, atEnd] at steps
    exact steps
  have further := readTokens_of_steps together
  refine ⟨s', alone, ⟨atEnd, ?_⟩, together, further, ?_⟩
  · rw [readTokens, ok_program.mpr ⟨s', performs, rfl⟩]
  · rw [ofTokens, further, resumed]
    cases rest : many (· ≠ .eof) statement (s'.before u v) with
    | ok more s => exact .inl ⟨more, rfl⟩
    | error fault s => exact .inr ⟨fault, s, rfl, rfl⟩

/-- The tokens of a text, with the end of the input cut off. -/
def tokensWithin (source : String) : List Token :=
  ((Token.ofSource source "").toOption.getD []).dropLast

/-- A jump outside of loops fails behind the branch, which is read all the same. -/
theorem goesOn_of_accepted_branch :
    let branch := tokensWithin "if: (true): \x7b var a: int = 1; \x7d"
    let jump := tokensWithin "break;"
    ∃ p s', ofTokens branch "" true = .ok p ∧ p.statements.length = 1 ∧
      (ofTokens (branch ++ jump) "" true).isOk = false ∧ GoesOn branch jump "" true p s' := by
  intro branch jump
  have read : (ofTokens branch "" true).toOption.any (·.statements.length = 1) = true := by
    decide +kernel
  obtain ⟨p, accepted, single⟩ := exists_ok_of_any read
  have fails : (ofTokens (branch ++ jump) "" true).isOk = false := by decide +kernel
  have noEnd : ∀ token ∈ branch, token.kind ≠ .eof := by decide +kernel
  have apart : ∀ token ∈ jump.head?, token.kind ≠ .elseIfWord ∧ token.kind ≠ .elseWord := by
    decide +kernel
  obtain ⟨s', goesOn⟩ := goesOn_of_accepted noEnd apart accepted
  exact ⟨p, s', accepted, of_decide_eq_true single, fails, goesOn⟩

end ColonScript.Program
