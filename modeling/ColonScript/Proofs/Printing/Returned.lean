import ColonScript.Proofs.Printing.Clauses

/-! What is read again of a `return`. Its values are the same as before, unless it holds a single
one whose text begins with a parenthesis that closes before the end: there the parenthesis is taken
for the one around all values. -/

namespace ColonScript.Expr

def opensGroup : Expr → Bool
  | unary .. | binary .. | step .. | assign .. => true
  | .index target .. => target.opensGroup
  | _ => false

/-- The expression is written with a parenthesis first, and with more behind the one that closes
it. -/
def overrunsGroup : Expr → Bool
  | .index target .. => target.opensGroup
  | _ => false

end ColonScript.Expr

namespace ColonScript

/-- A single value that is returned does not begin with a parenthesis that closes before its end. -/
def Point.returnsPlain : Point → Bool
  | .simple (.returning [value]) => !value.overrunsGroup
  | _ => true

theorem Point.returnsPlain_of_single {values : List Expr}
    (single : ∀ value, values = [value] → value.overrunsGroup = false) :
    (Point.simple (.returning values)).returnsPlain = true := by
  rcases values with _ | ⟨value, _ | _⟩
  · rfl
  · simp [Point.returnsPlain, single value rfl]
  · rfl

end ColonScript

namespace ColonScript.Reading
open Token (Kind)
open Ty Typing
open Spelling (parens brackets listed)
open ColonScript.Expr (operandTokens returnedTokens)

variable {s s₁ s' t t' : Session} {more : List Spelling} {e : Expr} {st : Stmt}

/-! What comes first. -/

theorem leadKind_operandTokens : ∀ (e : Expr) (more : List Spelling),
    leadKind (operandTokens e e.tokens ++ more) = .openParen ↔ e.opensGroup = true
  | .index target key _, more => by
    have inner := leadKind_operandTokens target (brackets key.tokens ++ more)
    simpa [operandTokens, Expr.tokens, Expr.opensGroup] using inner
  | .float value _, more => by
    cases value <;> simp [operandTokens, Expr.tokens, Decimal.Binary64.tokens,
      Expr.opensGroup, leadKind]
  | .name .., _ | .integer .., _ | .bool .., _ | .string .., _ | .char ..,
    _ | .array .., _ | .map .., _
  | .call .., _ => by
    simp [operandTokens, Expr.tokens, Expr.opensGroup, leadKind, brackets, Spelling.curlies]
  | .unary .., _ | .binary .., _ | .step .., _ | .assign .., _ => by
    simp [operandTokens, Expr.tokens, Expr.opensGroup, leadKind, parens]

theorem leadKind_tokens (e : Expr) (more : List Spelling) :
    leadKind (e.tokens ++ more) = .openParen ↔ e.isOperation = true ∨ e.overrunsGroup = true := by
  have operand := leadKind_operandTokens e more
  cases e with
  | assign => simp [Expr.tokens, leadKind, Expr.isOperation, Expr.overrunsGroup]
  | _ => simpa [operandTokens, Expr.isOperation, Expr.overrunsGroup, Expr.opensGroup] using operand

theorem overrunsGroup_settle (type : Ty) (e : Expr) :
    (e.settle type).overrunsGroup = e.overrunsGroup := by
  cases e <;> unfold Expr.settle <;> repeat' split
  all_goals rfl

/-! Where the values are read. -/

theorem rereads_of_given {value : Expr × Position} (run : givenResults s = .ok [value] s')
    (sourced : Sourced s) (finite : value.1.Finite) : Rereads s.scopes value.1 := by
  obtain ⟨_, ⟨_, s₁, list, _, _⟩ | ⟨_, e, reads, _, same⟩⟩ := ok_givenResults.mp run
  · obtain ⟨first, others, s₂, read, _, same⟩ := (ok_separated advances_placed).mp list
    obtain ⟨rfl, -⟩ := List.cons.inj same
    have start := sourced.next.next
    exact rereads_of_reads (reads_of_placed read)
      ⟨start.kept.grounded, start.scanned, rfl⟩ trivial finite
  · obtain ⟨rfl, -⟩ := List.cons.inj same
    have start := sourced.next
    exact rereads_of_reads reads ⟨start.kept.grounded, start.scanned, rfl⟩ trivial finite

/-- An operation is read from the parentheses around it, and anything else as it stands. -/
theorem again_givenValueOf {scopes : ScopeStack} (rereads : Rereads scopes e)
    (plain : e.overrunsGroup = false)
    (ready : Ready scopes ((.colon, ":") :: (e.tokens ++ (.semicolon, ";") :: more)) t) :
    ∃ position t', givenResults t = .ok [(e, position)] t' ∧
      Ready scopes ((.semicolon, ";") :: more) t' := by
  have opens : t.next.kind = .openParen ↔ e.isOperation = true := by
    rw [ready.next.kind_eq, leadKind_tokens, plain]
    simp
  by_cases operation : e.isOperation = true
  · obtain ⟨t', after, read⟩ := rereads.group operation ready.next trivial
    cases read with
    | @group _ u _ kind inner closes =>
      have list : separated (placed expression) t.next.next = .ok [(e, t.next.next.here)] u :=
        (ok_separated advances_placed).mpr
          ⟨_, [], u, ok_placed.mpr ⟨ok_expression.mpr inner, rfl⟩, .done (by simp [closes]), rfl⟩
      exact ⟨_, u.next, ok_givenResults.mpr ⟨ready.kind, .inl ⟨kind, u, list, closes, rfl⟩⟩, after⟩
  · obtain ⟨t', after, read⟩ := rereads.whole ready.next rfl
    have apart : t'.kind ≠ .comma := by simp [after.kind]
    exact ⟨_, t', ok_givenResults.mpr ⟨ready.kind,
      .inr ⟨mt opens.mp operation, e, read, apart, rfl⟩⟩, after⟩

theorem again_givenResults {values : List (Expr × Position)} (run : givenResults s = .ok values s')
    (sourced : Sourced s) (finite : ∀ value ∈ values, value.1.Finite)
    (plain : ∀ value, values = [value] → value.1.overrunsGroup = false)
    (poised : Poised s (returnedTokens (values.map (·.1)) ++ (.semicolon, ";") :: more) t) :
    ∃ values' t', givenResults t = .ok values' t' ∧ values'.map (·.1) = values.map (·.1) ∧
      Poised s' ((.semicolon, ";") :: more) t' := by
  match values with
  | [value] =>
    have rereads := rereads_of_given run sourced (finite value List.mem_cons_self)
    obtain ⟨position, t', given, after⟩ := again_givenValueOf rereads (plain value rfl) poised.ready
    exact ⟨_, t', given, rfl, poised.onward (onward_givenResults run)
      (onward_givenResults given) after⟩
  | first :: second :: rest =>
    obtain ⟨_, ⟨_, s₁, list, _, rfl⟩ | ⟨_, e, _, _, same⟩⟩ := ok_givenResults.mp run
    · have whole : Poised s ((.colon, ":") :: (.openParen, "(") ::
          (listed ((first :: second :: rest).map (·.1.tokens)) ++
            (.closeParen, ")") :: (.semicolon, ";") :: more)) t := by
        simpa [returnedTokens, parens, Expr.tokensOf_eq_map, Function.comp_def] using poised
      obtain ⟨values', t₁, list', same, after⟩ := recurs_placed.separated
        (fun _ _ _ run sourced => (Sourced.placed run sourced).2)
        (fun _ lead => stops_of_lead lead rfl) advances_placed
        list sourced.next.next finite whole.next.next ⟨by simp [leadKind], rfl⟩
      exact ⟨values', t₁.next,
        ok_givenResults.mpr ⟨whole.kind, .inl ⟨whole.next.kind, t₁, list', after.kind, rfl⟩⟩,
        same, after.next⟩
    · cases same
  | [] =>
    obtain ⟨_, ⟨_, s₁, list, _, _⟩ | ⟨_, e, _, _, same⟩⟩ := ok_givenResults.mp run
    · obtain ⟨first, rest, _, _, _, same⟩ := (ok_separated advances_placed).mp list
      cases same
    · cases same

theorem values_of_given {values : List (Expr × Position)} (sourced : Sourced s)
    (given : s.next.kind = .semicolon ∧ values = [] ∧ s₁ = s.next ∨
      s.next.kind ≠ .semicolon ∧ givenResults s.next = .ok values s₁) :
    (∀ e ∈ values.map (·.1), Typed s.env e) ∧ Sourced s₁ := by
  obtain ⟨_, rfl, rfl⟩ | ⟨_, given⟩ := given
  · exact ⟨by simp, sourced.next⟩
  · obtain ⟨typed, behind⟩ := typed_of_givenResults given sourced.stands.next
    exact ⟨typed, sourced.next.onward (onward_givenResults given) behind.kept.pool⟩

theorem returnedTokens_settled {es settled : List Expr} (same : Expr.AllSettled es settled) :
    returnedTokens settled = returnedTokens es := by
  have tokens := same.tokensOf_eq
  cases same with
  | nil => rfl
  | cons first rest =>
    cases rest with
    | nil => simpa [returnedTokens, Expr.tokensOf] using tokens
    | cons => simp only [returnedTokens, tokens]

/-- A single value has the form that it is returned with. -/
theorem overrunsGroup_of_settled {value settled : Expr} (same : Expr.AllSettled [value] [settled]) :
    settled.overrunsGroup = value.overrunsGroup := by
  cases same with
  | cons first =>
    obtain ⟨type, rfl⟩ := first
    exact overrunsGroup_settle type value

theorem again_returnStatement (run : returnStatement s = .ok st s') (sourced : Sourced s)
    (finite : ∀ e ∈ st.exprs, e.Finite) (plain : (Point.simple st).returnsPlain = true)
    (poised : Poised s (st.tokens ++ more) t) :
    ∃ t', returnStatement t = .ok st t' ∧ Poised s' more t' := by
  obtain ⟨function, values, s₁, inside, given, _, count, types, settled, pool, singles,
    fitted, rfl, rfl⟩ :=
    ok_returnStatement.mp run
  have settles := settled_of_fitted fitted singles
  obtain ⟨typed, behind⟩ := values_of_given sourced given
  have whole : Poised s
    ((.returnWord, "return") :: (returnedTokens settled ++ (.semicolon, ";") :: more)) t := by
    simpa [Stmt.tokens] using poised
  obtain ⟨values', t₁, given', same, atEnd⟩ : ∃ values' t₁,
      (t.next.kind = .semicolon ∧ values' = [] ∧ t₁ = t.next ∨
        t.next.kind ≠ .semicolon ∧ givenResults t.next = .ok values' t₁) ∧
      values'.map (·.1) = values.map (·.1) ∧ Poised s₁ ((.semicolon, ";") :: more) t₁ := by
    obtain ⟨_, rfl, rfl⟩ | ⟨_, given⟩ := given
    · cases settles
      exact ⟨[], t.next, .inl ⟨whole.next.kind, rfl, rfl⟩, rfl, whole.next⟩
    · have finites : ∀ value ∈ values, value.1.Finite := by
        simpa using (Expr.Finite.settled settles).mp finite
      have plains : ∀ value, values = [value] → value.1.overrunsGroup = false := by
        rintro value rfl
        obtain ⟨last, _, _, none, rfl⟩ := List.forall₂_cons_left_iff.mp settles
        obtain rfl := List.forall₂_nil_left_iff.mp none
        rw [← overrunsGroup_of_settled settles]
        simpa [Point.returnsPlain] using plain
      rw [returnedTokens_settled settles] at whole
      obtain ⟨values', t₁, given', same, atEnd⟩ :=
        again_givenResults given sourced.next finites plains whole.next
      have colon := (ok_givenResults.mp given').1
      exact ⟨values', t₁, .inr ⟨by simp [colon], given'⟩, same, atEnd⟩
  have wanted : AllProper function.results := fun type member =>
    ((sourced.kept.function function inside).results type member).proper
  have proper := proper_of_singles singles typed
  rw [← snd_zip singles] at proper
  obtain ⟨pool', fitted', faithful⟩ :=
    fitsTo_of_fitted fitted behind.kept.pool wanted proper atEnd.ready.faithful
  rw [← same] at singles fitted'
  have count' : values'.length = function.results.length := by
    rw [← count]
    simpa using congrArg List.length same
  rw [← poised.place] at inside
  exact ⟨_, ok_returnStatement.mpr ⟨function, values', t₁, inside, given', atEnd.kind, count',
    types, settled, pool', singles, fitted', rfl, rfl⟩, atEnd.next.withPool faithful⟩

/-! What cannot be read again. -/

theorem facing_of_kind {kind : Kind} (is : s.kind = kind) (real : kind ≠ .eof) :
    s.facing = (kind, s.current.value) :: s.next.facing := by
  obtain ⟨⟨ahead, closing⟩, file, grammar, scopes, pool, place⟩ := s
  cases ahead with
  | nil => exact absurd is.symm real
  | cons token ahead =>
    obtain rfl : token.kind = kind := is
    rfl

/-- What is read as a group ends with the parenthesis that closes it. -/
theorem tokens_of_group {scopes : ScopeStack} {tokens : List Spelling}
    (ready : Ready scopes (tokens ++ more) t)
    (run : group expression t = .ok e t') (behind : t'.facing = more) :
    ∃ front value, tokens = front ++ [(.closeParen, value)] := by
  obtain ⟨opens, u, inner, closes, rfl⟩ := ok_group.mp run
  obtain ⟨passed, ahead, _⟩ :=
    ((onward_next opens rfl).trans (ok_expression.mp inner).onward).passed
  have last : u.facing = (.closeParen, u.current.value) :: more := by
    rw [← behind]
    exact facing_of_kind closes nofun
  have facing : tokens ++ more = (passed.map Token.meaning ++ [(.closeParen, u.current.value)]) ++
    more := by
    rw [← ready.facing, Session.facing, ahead, List.map_append, List.append_assoc,
      List.singleton_append, ← last]
    rfl
  exact ⟨_, _, List.append_cancel_right facing⟩

theorem tokens_of_overrunsGroup (overruns : e.overrunsGroup = true) :
    ∃ front, e.tokens = front ++ [(.closeBracket, "]")] := by
  cases e with
  | index target key =>
    exact ⟨operandTokens target target.tokens ++ (.openBracket, "[") :: key.tokens, by
      simp [Expr.tokens, brackets]⟩
  | _ => cases overruns

/-- The parenthesis that comes first encloses all that is read, if a group in front of a semicolon
is read at all. -/
theorem not_overruns_of_group {scopes : ScopeStack} {other : Expr} (rereads : Rereads scopes e)
    (ready : Ready scopes (e.tokens ++ (.semicolon, ";") :: more) t)
    (run : group expression t = .ok other t')
    (ends : t'.kind = .semicolon) : e.overrunsGroup = false := by
  obtain ⟨t₁, after, reads⟩ := rereads.whole ready rfl
  obtain ⟨rfl, rfl⟩ := reads.unique (reads_of_group ready.standard run ends)
  obtain ⟨front, value, closes⟩ := tokens_of_group ready run after.facing
  refine eq_false_of_ne_true fun overruns => ?_
  obtain ⟨front', closes'⟩ := tokens_of_overrunsGroup overruns
  rw [closes'] at closes
  simpa using congrArg List.getLast? closes

/-- Where the `return` is read at all, the parenthesis that comes first encloses all of the
value. -/
theorem plain_of_returnStatement {other : Stmt} (run : returnStatement s = .ok st s')
    (sourced : Sourced s) (finite : ∀ e ∈ st.exprs, e.Finite)
    (poised : Poised s (st.tokens ++ more) t)
    (run' : returnStatement t = .ok other t') : (Point.simple st).returnsPlain = true := by
  obtain ⟨function, values, s₁, inside, given, _, count, types, settled, pool, singles,
    fitted, rfl, rfl⟩ :=
    ok_returnStatement.mp run
  obtain ⟨function', values', t₁, inside', given', ends', count', _⟩ := ok_returnStatement.mp run'
  have settles := settled_of_fitted fitted singles
  rw [Stmt.tokens, returnedTokens_settled settles] at poised
  refine Point.returnsPlain_of_single fun last only => ?_
  subst only
  obtain ⟨value, rfl⟩ := List.length_eq_one_iff.mp (by simpa using settles.length_eq)
  have whole : Poised s ((.returnWord, "return") :: (.colon, ":") ::
      (value.1.tokens ++ (.semicolon, ";") :: more)) t := by
    simpa [returnedTokens] using poised
  have ready : Ready s.scopes (value.1.tokens ++ (.semicolon, ";") :: more) t.next.next :=
    whole.next.next.ready
  have lead := leadKind_tokens value.1 ((.semicolon, ";") :: more)
  have same : last.overrunsGroup = value.1.overrunsGroup := overrunsGroup_of_settled settles
  rw [same]
  obtain ⟨_, empty, _⟩ | ⟨_, given⟩ := given
  · cases empty
  have rereads :=
    rereads_of_given given sourced.next
      ((Expr.Finite.settled settles).mp finite _ List.mem_cons_self)
  obtain ⟨semicolon, _⟩ | ⟨_, given'⟩ := given'
  · simp [whole.next.kind] at semicolon
  obtain ⟨_, ⟨opens, u, list, closes, rfl⟩ | ⟨plain, _⟩⟩ := ok_givenResults.mp given'
  · obtain rfl := Option.some.inj (inside.symm.trans (poised.place ▸ inside'))
    obtain ⟨⟨other, position⟩, rfl⟩ := List.length_eq_one_iff.mp (count'.trans count.symm)
    simp [not_overruns_of_group rereads ready (group_of_given opens list closes) ends']
  · rw [ready.kind_eq, ne_eq, lead, not_or] at plain
    simpa using plain.2

end ColonScript.Reading
