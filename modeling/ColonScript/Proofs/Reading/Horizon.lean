import ColonScript.Proofs.Reading.Sentence
import ColonScript.Proofs.Reading.Splicing

/-! How far a reading looks. What is read of some tokens is read alike when more tokens stand behind
them, unless it ends where those begin; a statement that is closed by its own last token does not
look further than that one. -/

namespace ColonScript.Reading
open Token (Kind)

variable {s s₁ s' : Session} {tail : Cursor}

def Session.onto (tail : Cursor) (s : Session) : Session :=
  { s with cursor := ⟨s.ahead ++ tail.ahead, tail.closing⟩ }

abbrev Session.More (s : Session) : Prop := s.ahead ≠ []

theorem Forward.more (forward : Forward s s') (more : s'.More) : s.More := by
  obtain ⟨tokens, ahead, -⟩ := forward.passed
  rw [Session.More, ahead]
  exact List.append_ne_nil_of_right_ne_nil tokens more

theorem Session.more_of_kind {kind : Kind} (is : s.kind = kind) (holds : inSentence kind = true) :
    s.More := by
  rw [Session.More, ahead_of_kind (is ▸ (inSentence_iff.mp holds).1)]
  exact nofun

theorem Session.more_of_next (more : s.next.More) : s.More := by
  rintro none
  rw [Session.More, Session.next_ahead, none] at more
  exact more rfl

theorem Session.more_of_shorter (shorter : s'.ahead.length < s.ahead.length) : s.More := by
  rw [Session.More, ← List.length_pos_iff]
  omega

theorem Session.current_mem (more : s.More) : s.current ∈ s.ahead := by
  obtain ⟨⟨ahead, closing⟩, file, grammar, scopes, pool, place⟩ := s
  cases ahead with
  | nil => exact absurd rfl more
  | cons token ahead => exact List.mem_cons_self

/-- The tail is not seen from here: the next token is the same, and so is the way on. -/
structure Session.Front (tail : Cursor) (s : Session) : Prop where
  current : (s.onto tail).current = s.current
  next : (s.onto tail).next = s.next.onto tail

namespace Session.Front

theorem of_more (tail : Cursor) (more : s.More) : s.Front tail := by
  obtain ⟨⟨ahead, closing⟩, file, grammar, scopes, pool, place⟩ := s
  cases ahead with
  | nil => exact absurd rfl more
  | cons token ahead => exact ⟨rfl, rfl⟩

theorem of_kind (tail : Cursor) {kind : Kind} (is : s.kind = kind)
    (holds : inSentence kind = true) : s.Front tail :=
  of_more tail (more_of_kind is holds)

theorem kind (front : s.Front tail) : (s.onto tail).kind = s.kind :=
  congrArg Token.kind front.current

theorem value (front : s.Front tail) : (s.onto tail).current.value = s.current.value :=
  congrArg Token.value front.current

theorem here (front : s.Front tail) : (s.onto tail).here = s.here := by
  rw [Session.here, Session.here, front.current]
  rfl

end Session.Front

theorem Session.Separated.onto {first : Bool} (separated : Session.Separated first s s')
    (tail : Cursor) :
    Session.Separated first (s.onto tail) (s'.onto tail) := by
  cases first with
  | true =>
    obtain rfl : s' = s := separated
    exact rfl
  | false =>
    obtain ⟨comma, rfl⟩ : s.kind = .comma ∧ s' = s.next := separated
    have front := Session.Front.of_kind tail comma rfl
    exact ⟨front.kind.trans comma, front.next.symm⟩

/-! Expressions and written types. -/

open Session (more_of_kind more_of_next)
open Session.Front (of_more of_kind)

theorem Session.splice_zero (tail : Cursor) (s : Session) : s.splice 0 tail = s.onto tail := by
  rw [Session.splice, Nat.sub_zero, List.take_length]
  rfl

theorem Reads.onto {phrase : Phrase} (reads : Reads s phrase s') (tail : Cursor) (more : s'.More) :
    Reads (s.onto tail) phrase (s'.onto tail) := by
  have read := reads.splice tail (phrase.within_of_inside .inl (List.length_pos_iff.mpr more))
  rwa [Session.splice_zero, Session.splice_zero] at read

theorem ReadsType.onto {phrase : TypePhrase} (reads : ReadsType s phrase s') (tail : Cursor)
    (more : s'.More) :
    ReadsType (s.onto tail) phrase (s'.onto tail) := by
  have read := reads.splice tail (List.length_pos_iff.mpr more)
  rwa [Session.splice_zero, Session.splice_zero] at read

/-- With more tokens behind, the reader reads the same, unless it ends where those begin. -/
def Local {α : Type} (reader : Read α) : Prop :=
  ∀ ⦃s a s'⦄ (tail : Cursor), s'.More → reader s = .ok a s' →
    reader (s.onto tail) = .ok a (s'.onto tail)

def Closed {α : Type} (reader : Read α) : Prop :=
  ∀ ⦃s a s'⦄ (tail : Cursor), reader s = .ok a s' → reader (s.onto tail) = .ok a (s'.onto tail)

/-! Lists of parts. -/

section
variable {α : Type} {item : Read α} {as : List α}

theorem afterCommas_onto (each : Local item) (onward : ∀ ⦃s a s'⦄, item s = .ok a s' → Onward s s')
    (tail : Cursor) (more : s'.More) (repeats : AfterCommas item s as s') :
    AfterCommas item (s.onto tail) as (s'.onto tail) := by
  induction repeats with
  | done last => exact .done ((of_more tail more).kind ▸ last)
  | @next s s₁ s' a as goes first rest ih =>
    obtain ⟨comma, read⟩ := first
    have front := of_kind tail comma rfl
    have between : s₁.More := (onward_afterCommas onward rest).more more
    have read' : item (s.onto tail).next = .ok a (s₁.onto tail) := by
      rw [front.next]
      exact each tail between read
    exact .next (front.kind ▸ goes) ⟨front.kind.trans comma, read'⟩ (ih more)

theorem local_separated (advances : Advances item) (each : Local item)
    (onward : ∀ ⦃s a s'⦄, item s = .ok a s' → Onward s s') : Local (separated item) := by
  intro s as s' tail more run
  obtain ⟨first, rest, s₁, value, others, rfl⟩ := (ok_separated advances).mp run
  have between := (onward_afterCommas onward others).more more
  exact (ok_separated advances).mpr
    ⟨first, rest, s₁.onto tail, each tail between value,
      afterCommas_onto each onward tail more others, rfl⟩

theorem Listed.onto {closer : Kind} {first : Bool} (each : Local item)
    (onward : ∀ ⦃s a s'⦄, item s = .ok a s' → Onward s s') (tail : Cursor) (more : s'.More)
    (listed : Listed closer (Reader.Gives item) first s as s') :
    Listed closer (Reader.Gives item) first (s.onto tail) as (s'.onto tail) := by
  induction listed with
  | done closes => exact .done ((of_more tail more).kind.trans closes)
  | item goes separated value rest ih =>
    have between := (rest.onward onward).more more
    have front := of_more tail ((onward_separated separated).more ((onward value).more between))
    exact .item (front.kind ▸ goes) (separated.onto tail) (each tail between value) (ih more)

end

/-! Parts of statements. -/

theorem local_writtenType : Local (writtenType .lowest) := by
  intro s type s' tail more run
  exact ok_writtenType.mpr ((ok_writtenType.mp run).onto tail more)

theorem local_placed : Local (placed expression) := by
  intro s value s' tail more run
  obtain ⟨read, position⟩ := ok_placed.mp run
  have reads := ok_expression.mp read
  have front := of_more tail (reads.onward.more more)
  exact ok_placed.mpr ⟨ok_expression.mpr (reads.onto tail more), position.trans front.here.symm⟩

theorem local_head : Local head := by
  intro s found s' tail more run
  obtain ⟨name, colon, type, reads, rfl⟩ := ok_head.mp run
  have second := of_kind tail name rfl
  have third := of_kind tail colon rfl
  have front := of_more tail (more_of_next (more_of_kind name rfl))
  have reads' := reads.onto tail more
  rw [← third.next, ← second.next, ← front.next] at reads'
  refine ok_head.mpr
    ⟨by rw [front.next, second.kind, name], by rw [front.next, second.next,
      third.kind, colon], type,
    reads', ?_⟩
  rw [front.kind, front.next, second.value, second.here]

theorem closed_defaultValue (found : Head) : Closed (defaultValue found) := by
  intro s value s' tail run
  obtain ⟨mutable, default, rfl⟩ := ok_defaultValue.mp run
  exact ok_defaultValue.mpr ⟨mutable, default, rfl⟩

theorem local_givenValue (found : Head) : Local (givenValue found) := by
  intro s value s' tail more run
  obtain ⟨kind, given, type, both, s₁, reads, single, joined, rfl, rfl⟩ := ok_givenValue.mp run
  have front := of_kind tail kind rfl
  have reads' := reads.onto tail more
  rw [← front.next] at reads'
  exact ok_givenValue.mpr ⟨front.kind.trans kind, given, type, both, s₁.onto tail, reads', single,
    joined, rfl, rfl⟩

theorem more_of_declarationRest {found : Head} {declaration : Declaration}
    (run : declarationRest found s = .ok declaration s') : s.More := by
  obtain ⟨_, _, _, given, ends, _⟩ := ok_declarationRest.mp run
  rcases given with ⟨none, _⟩ | ⟨_, given⟩
  · exact more_of_kind none rfl
  · exact (onward_givenValue given).more (more_of_kind ends rfl)

theorem closed_declarationRest (found : Head) : Closed (declarationRest found) := by
  intro s declaration s' tail run
  obtain ⟨value, s₁, scopes, given, ends, declares, rfl, rfl⟩ := ok_declarationRest.mp run
  have endsMore := more_of_kind ends rfl
  have last := of_kind tail ends rfl
  refine ok_declarationRest.mpr ⟨value, s₁.onto tail, scopes, ?_, last.kind.trans ends,
    declares, rfl, ?_⟩
  · rcases given with ⟨none, default⟩ | ⟨some, given⟩
    · exact .inl ⟨(of_kind tail none rfl).kind.trans none, closed_defaultValue found tail default⟩
    · have front := of_more tail ((onward_givenValue given).more endsMore)
      exact .inr ⟨front.kind ▸ some, local_givenValue found tail endsMore given⟩
  · rw [last.next]
    rfl

theorem closed_existing : Closed existing := by
  intro s found s' tail run
  obtain ⟨kind, binding, bound, mutable, rfl, rfl⟩ := ok_existing.mp run
  have front := of_kind tail kind rfl
  refine ok_existing.mpr ⟨front.kind.trans kind, binding, front.value ▸ bound,
    front.value ▸ mutable, ?_, front.next.symm⟩
  rw [front.value]

theorem local_receiver : Local receiver := by
  intro s found s' tail more run
  obtain ⟨kind, declared, declares, rfl⟩ | exists' := ok_receiver.mp run
  · have front : s.Front tail := kind.elim (of_kind tail · rfl) (of_kind tail · rfl)
    exact ok_receiver.mpr (.inl ⟨front.kind ▸ kind, declared, local_head tail more declares, rfl⟩)
  · exact ok_receiver.mpr (.inr (closed_existing tail exists'))

theorem Distributed.onto {receivers : List Receiver} {values settled : List Expr}
    (distributed : Distributed s receivers values settled s') (tail : Cursor) :
    Distributed (s.onto tail) receivers values settled (s'.onto tail) := by
  cases distributed with
  | each count singles fitted => exact .each (s := s.onto tail) count singles fitted
  | results several count joined => exact .results (s := s.onto tail) several count joined

theorem closed_multipleRest (first : Receiver) : Closed (multipleRest first) := by
  intro s st s' tail run
  obtain ⟨others, values, settled, scopes, s₁, s₂, s₃, receivers, assign, given, ends,
    distributed, declares, rfl, rfl⟩ := ok_multipleRest.mp run
  have middle := of_kind tail assign rfl
  have last := of_kind tail ends rfl
  have receivers' := afterCommas_onto local_receiver onward_receiver tail
    (more_of_kind assign rfl) receivers
  have given' := local_separated advances_placed local_placed onward_placed tail
    (more_of_kind ends rfl) given
  have distributed' := distributed.onto tail
  rw [← middle.next] at given'
  rw [← last.next] at distributed'
  exact ok_multipleRest.mpr ⟨others, values, settled, scopes, _, _, s₃.onto tail, receivers',
    middle.kind.trans assign, given', last.kind.trans ends, distributed', declares, rfl, rfl⟩

theorem closed_declarationStatement : Closed declarationStatement := by
  intro s st s' tail run
  obtain ⟨found, s₁, declares, ⟨comma, rest⟩ | ⟨single, declaration, rest, rfl⟩⟩ :=
    ok_declarationStatement.mp run
  · have more := more_of_kind comma rfl
    exact ok_declarationStatement.mpr ⟨found, _, local_head tail more declares,
      .inl ⟨(of_kind tail comma rfl).kind.trans comma, closed_multipleRest _ tail rest⟩⟩
  · have more := more_of_declarationRest rest
    exact ok_declarationStatement.mpr ⟨found, _, local_head tail more declares,
      .inr ⟨(of_more tail more).kind ▸ single, declaration,
        closed_declarationRest _ tail rest, rfl⟩⟩

theorem closed_expressionStatement : Closed expressionStatement := by
  intro s st s' tail run
  obtain ⟨⟨kind, comma⟩, found, s₁, exists', rest⟩ |
    ⟨single, e, s₁, reads, action, ends, rfl, rfl⟩ :=
    ok_expressionStatement.mp run
  · have front := of_kind tail kind rfl
    have second := of_kind tail comma rfl
    have several : (s.onto tail).kind = .identifier ∧ (s.onto tail).next.kind = .comma :=
      ⟨front.kind.trans kind, by rw [front.next, second.kind, comma]⟩
    exact ok_expressionStatement.mpr
      (.inl ⟨several, found, _, closed_existing tail exists', closed_multipleRest _ tail rest⟩)
  · have endsMore := more_of_kind ends rfl
    have front := of_more tail (reads.onward.more endsMore)
    -- The semicolon is behind the first token, so that the second one is seen too.
    have shorter := reads.expr_shorter
    have left := List.length_pos_iff.mpr endsMore
    have nextMore : s.next.More := by
      rw [Session.More, Session.next_ahead, ← List.length_pos_iff, List.length_tail]
      omega
    have second := of_more tail nextMore
    have last := of_kind tail ends rfl
    refine ok_expressionStatement.mpr (.inr ⟨?_, e, s₁.onto tail, reads.onto tail endsMore, action,
      last.kind.trans ends, rfl, last.next.symm⟩)
    rwa [front.kind, front.next, second.kind]

theorem closed_condition (statement : String) : Closed (condition statement) := by
  intro s e s' tail run
  obtain ⟨colon, opens, type, s₁, reads, closes, ends, single, bool, rfl⟩ := ok_condition.mp run
  have front := of_kind tail colon rfl
  have second := of_kind tail opens rfl
  have middle := of_kind tail closes rfl
  have last := of_kind tail ends rfl
  have reads' := reads.onto tail (more_of_kind closes rfl)
  rw [← second.next, ← front.next] at reads'
  exact ok_condition.mpr ⟨front.kind.trans colon, by
    rw [front.next, second.kind, opens], type, s₁.onto tail, reads', middle.kind.trans closes, by
      rw [middle.next, last.kind, ends], single, bool, by rw [middle.next, last.next]⟩

theorem closed_startOfLoop : Closed startOfLoop := by
  intro s start s' tail run
  obtain ⟨kind, found, declaration, s₁, declares, int, rest, rfl⟩ |
    ⟨kind, target, value, type, s₁, reads, int, ends, rfl, rfl⟩ := ok_startOfLoop.mp run
  · have more := more_of_declarationRest rest
    exact ok_startOfLoop.mpr (.inl ⟨(of_kind tail kind rfl).kind.trans kind, found, declaration, _,
      local_head tail more declares, int, closed_declarationRest _ tail rest, rfl⟩)
  · have last := of_kind tail ends rfl
    exact ok_startOfLoop.mpr (.inr ⟨(of_kind tail kind rfl).kind.trans kind, target, value, type, _,
      reads.onto tail (more_of_kind ends rfl), int, last.kind.trans ends, rfl, last.next.symm⟩)

theorem local_loopHeader : Local loopHeader := by
  intro s header s' tail more run
  obtain ⟨start, condition, update⟩ := header
  obtain ⟨s₁, s₂, begins, conditionReads, isCondition, ends, updateReads, isUpdate⟩ :=
    ok_loopHeader.mp run
  have middle := of_kind tail ends rfl
  have updateReads' := updateReads.onto tail more
  rw [← middle.next] at updateReads'
  exact ok_loopHeader.mpr ⟨_, _, closed_startOfLoop tail begins,
    conditionReads.onto tail (more_of_kind ends rfl), isCondition, middle.kind.trans ends,
    updateReads', isUpdate⟩

theorem closed_loopControl : Closed loopControl := by
  intro s st s' tail run
  obtain ⟨inLoop, ends, rfl, rfl⟩ := ok_loopControl.mp run
  have second := of_kind tail ends rfl
  have front := of_more tail (more_of_next (more_of_kind ends rfl))
  exact ok_loopControl.mpr ⟨inLoop, by rw [front.next, second.kind, ends], by rw [front.kind],
    by rw [front.next, second.next]⟩

theorem local_parameter : Local parameter := by
  intro s found s' tail more run
  obtain ⟨name, colon, type, reads, rfl⟩ := ok_parameter.mp run
  have front := of_kind tail name rfl
  have second := of_kind tail colon rfl
  have reads' := reads.onto tail more
  rw [← second.next, ← front.next] at reads'
  have colon' : (s.onto tail).next.kind = .colon := by rw [front.next, second.kind, colon]
  exact ok_parameter.mpr ⟨front.kind.trans name, colon', type, reads', by rw [front.value]⟩

theorem closed_parameters : Closed parameters := by
  intro s found s' tail run
  obtain ⟨opens, s₁, list, closes, rfl⟩ := ok_parameters.mp run
  have front := of_kind tail opens rfl
  have last := of_kind tail closes rfl
  have list' := list.onto local_parameter onward_parameter tail (more_of_kind closes rfl)
  rw [← front.next] at list'
  exact ok_parameters.mpr ⟨front.kind.trans opens, _, list', last.kind.trans closes, last.next.symm⟩

theorem local_resultTypes : Local resultTypes := by
  intro s types s' tail more run
  obtain ⟨colon, opens, s₁, list, closes, rfl⟩ | ⟨noColon, rfl, rfl⟩ := ok_resultTypes.mp run
  · have front := of_kind tail colon rfl
    have second := of_kind tail opens rfl
    have last := of_kind tail closes rfl
    have list' := local_separated (advances_writtenType .lowest) local_writtenType
      onward_writtenType tail
      (more_of_kind closes rfl) list
    rw [← second.next, ← front.next] at list'
    exact ok_resultTypes.mpr
      (.inl ⟨front.kind.trans colon, by rw [front.next, second.kind, opens], _, list',
      last.kind.trans closes, last.next.symm⟩)
  · exact ok_resultTypes.mpr (.inr ⟨(of_more tail more).kind ▸ noColon, rfl, rfl⟩)

theorem local_givenResults : Local givenResults := by
  intro s values s' tail more run
  obtain ⟨colon, ⟨opens, s₁, list, closes, rfl⟩ | ⟨single, e, reads, noComma, rfl⟩⟩ :=
    ok_givenResults.mp run
  · have front := of_kind tail colon rfl
    have second := of_kind tail opens rfl
    have last := of_kind tail closes rfl
    have list' := local_separated advances_placed local_placed onward_placed tail
      (more_of_kind closes rfl) list
    rw [← second.next, ← front.next] at list'
    exact ok_givenResults.mpr ⟨front.kind.trans colon,
      .inl
      ⟨by rw [front.next, second.kind, opens], _, list', last.kind.trans closes, last.next.symm⟩⟩
  · have front := of_kind tail colon rfl
    have second := of_more tail (reads.onward.more more)
    have reads' := reads.onto tail more
    rw [← front.next] at reads'
    exact ok_givenResults.mpr ⟨front.kind.trans colon,
      .inr
      ⟨by rwa [front.next, second.kind], e, reads', (of_more tail
        more).kind ▸ noComma, by rw [front.next, second.here]⟩⟩

theorem closed_returnStatement (kind : s.kind = .returnWord) {st : Stmt} (tail : Cursor)
    (run : returnStatement s = .ok st s') :
    returnStatement (s.onto tail) = .ok st (s'.onto tail) := by
  obtain ⟨function, values, s₁, inside, given, ends, count, types, settled, pool, singles,
    fitted, rfl, rfl⟩ :=
    ok_returnStatement.mp run
  have front := of_kind tail kind rfl
  have last := of_kind tail ends rfl
  refine ok_returnStatement.mpr ⟨function, values, s₁.onto tail, inside, ?_, last.kind.trans ends,
    count, types, settled, pool, singles, fitted, rfl, by rw [last.next]; rfl⟩
  rw [front.next]
  rcases given with ⟨none, rfl, rfl⟩ | ⟨some, given⟩
  · exact .inl ⟨last.kind.trans none, rfl, rfl⟩
  · have endsMore := more_of_kind ends rfl
    have second := of_more tail ((onward_givenResults given).more endsMore)
    exact .inr ⟨second.kind ▸ some, local_givenResults tail endsMore given⟩

theorem Heads.onto {signature : Signature} (heads : Heads s signature s') (kind : s.kind = .funWord)
    (tail : Cursor) (more : s'.More) : Heads (s.onto tail) signature (s'.onto tail) := by
  obtain ⟨outside, colon, name, read, results⟩ := heads
  have front := of_kind tail kind rfl
  have second := of_kind tail colon rfl
  have third := of_kind tail name rfl
  have read' := closed_parameters tail read
  rw [← third.next, ← second.next, ← front.next] at read'
  have heads := Heads.intro (s := s.onto tail) outside (by rw [front.next, second.kind, colon])
    (by rw [front.next, second.next, third.kind, name]) read' (local_resultTypes tail more results)
  rwa [front.next, second.next, third.value] at heads

/-! Statements. -/

/-- Statements one after the other, whatever follows them. -/
inductive Steps : Session → Block → Session → Prop where
  | none {s : Session} : Steps s [] s
  | step {s s₁ s' : Session} {st : Stmt} {body : Block} (more : s.kind ≠ .eof)
      (first : statement s = .ok st s₁) (rest : Steps s₁ body s') : Steps s (st :: body) s'

/-- The tokens do not go on with a branch. -/
structure Cursor.Apart (tail : Cursor) : Prop where
  noElseIf : tail.current.kind ≠ .elseIfWord
  noElse : tail.current.kind ≠ .elseWord

def Sentence.Onto (tail : Cursor) (s s' : Session) : Sentence → Prop
  | .script body => Steps (s.onto tail) body (s'.onto tail)
  | sentence => Performs (s.onto tail) sentence (s'.onto tail)

theorem Session.Allows.onto (allowed : s.Allows) (front : s.Front tail) : (s.onto tail).Allows := by
  rcases allowed with inside | testing | kind
  · exact .inl inside
  · exact .inr (.inl testing)
  · exact .inr (.inr (front.kind.trans kind))

theorem onto_kind_ne {kind : Kind} (ends : s.More ∨ tail.current.kind ≠ kind) (is : s.kind ≠ kind) :
    (s.onto tail).kind ≠ kind := by
  by_cases more : s.More
  · rwa [(of_more tail more).kind]
  · have none : s.ahead = [] := not_not.mp more
    have kind : (s.onto tail).kind = tail.current.kind := by
      rw [Session.onto, none]
      rfl
    rw [kind]
    exact ends.resolve_left more

theorem Forward.sees {apart : Prop} (forward : Forward s s') (ends : s'.More ∨ apart) :
    s.More ∨ apart :=
  ends.imp_left forward.more

theorem more_of_block {body : Block} (performs : Performs s (.block body) s') : s.More := by
  cases performs with
  | block opens => exact more_of_kind opens rfl

/-! Productions with more tokens behind. -/

section
variable {s₂ : Session} {st : Stmt} {body : Block} {condition update : Expr}

theorem onto_expressionStatement (allowed : s.Allows) (form : s.grammar.form? s.kind = none)
    (read : expressionStatement s = .ok st s') :
    Performs (s.onto tail) (.stmt st) (s'.onto tail) := by
  have front : s.Front tail :=
    of_more tail (Session.more_of_shorter (forward_expressionStatement read).2)
  exact .expression (allowed.onto front) (front.kind ▸ form) (closed_expressionStatement tail read)

theorem onto_declarationStatement (allowed : s.Allows)
    (form : s.grammar.form? s.kind = some .declaration)
    (read : declarationStatement s = .ok st s') :
    Performs (s.onto tail) (.stmt st) (s'.onto tail) := by
  have front : s.Front tail :=
    (kind_of_declaration form).elim (of_kind tail · rfl) (of_kind tail · rfl)
  exact .declaration (allowed.onto front) (front.kind ▸ form)
    (closed_declarationStatement tail read)

theorem onto_returnStatement (allowed : s.Allows) (form : s.grammar.form? s.kind = some .returning)
    (read : returnStatement s = .ok st s') : Performs (s.onto tail) (.stmt st) (s'.onto tail) := by
  have kind := kind_of_returning form
  have front := of_kind tail kind rfl
  exact .returning (allowed.onto front) (front.kind ▸ form) (closed_returnStatement kind tail read)

theorem onto_loopControl (allowed : s.Allows) (form : s.grammar.form? s.kind = some .loopControl)
    (read : loopControl s = .ok st s') : Performs (s.onto tail) (.stmt st) (s'.onto tail) := by
  have front : s.Front tail := (kind_of_control form).elim (of_kind tail · rfl) (of_kind tail · rfl)
  exact .control (allowed.onto front) (front.kind ▸ form) (closed_loopControl tail read)

theorem onto_forward {signature : Signature} {scopes : ScopeStack} (allowed : s.Allows)
    (form : s.grammar.form? s.kind = some .function) (heads : Heads s signature s₁)
    (closes : s₁.kind = .semicolon)
    (registered : s₁.scopes.register ⟨signature, .declared⟩ s.here = .ok scopes) :
    Performs (s.onto tail) (.stmt (.function signature none))
      ((s₁.next.withScopes scopes).onto tail) := by
  have kind := kind_of_function form
  have front := of_kind tail kind rfl
  have last := of_kind tail closes rfl
  have read := Performs.forward (allowed.onto front) (front.kind ▸ form)
    (heads.onto kind tail (more_of_kind closes rfl))
    (last.kind.trans closes) (front.here ▸ registered)
  rw [last.next] at read
  exact read

theorem onto_condition (tail : Cursor) {keyword : String} {kind : Kind} (opens : s.kind = kind)
    (real : inSentence kind = true) (read : Reading.condition keyword s.next = .ok condition s₁) :
    (s.onto tail).kind = kind ∧ Reading.condition keyword (s.onto tail).next = .ok condition
      (s₁.onto tail) := by
  have front := of_kind tail opens real
  refine ⟨front.kind.trans opens, ?_⟩
  rw [front.next]
  exact closed_condition keyword tail read

theorem onto_forLoop {start : Start} (allowed : s.Allows)
    (form : s.grammar.form? s.kind = some .forLoop) (kind : s.kind = .forWord)
    (colon : s.next.kind = .colon) (opens : s.next.next.kind = .openParen)
    (header : loopHeader s.next.next.next.push = .ok (start, condition, update) s₁)
    (closes : s₁.kind = .closeParen)
    (ends : s₁.next.kind = .colon)
    (inside : Performs ((s₁.next.next.withPlace s₁.place.looping).onto tail) (.block body)
      (s₂.onto tail)) :
    Performs (s.onto tail) (.stmt (.forLoop start condition update body))
      ((s₂.withPlace s₁.place).pop.onto tail) := by
  have front := of_kind tail kind rfl
  have second := of_kind tail colon rfl
  have third := of_kind tail opens rfl
  have middle := of_kind tail closes rfl
  have last := of_kind tail ends rfl
  have header' := local_loopHeader tail (more_of_kind closes rfl) header
  have begins : (s.onto tail).next.next.next.push = s.next.next.next.push.onto tail := by
    rw [front.next, second.next, third.next]
    rfl
  have entered : (s₁.onto tail).next.next.withPlace s₁.place.looping =
      (s₁.next.next.withPlace s₁.place.looping).onto tail := by
    rw [middle.next, last.next]
    rfl
  exact .forLoop (allowed.onto front) (front.kind ▸ form) (front.kind.trans kind)
    (by rw [front.next, second.kind, colon]) (by rw [front.next, second.next, third.kind, opens])
    (begins ▸ header') (middle.kind.trans closes) (by rw [middle.next, last.kind, ends])
    (entered ▸ inside)

theorem onto_block (opens : s.kind = .openCurly) (closes : s₁.kind = .closeCurly)
    (inside : Performs (s.next.onto tail) (.statements body) (s₁.onto tail)) :
    Performs (s.onto tail) (.block body) (s₁.next.onto tail) := by
  have front := of_kind tail opens rfl
  have last := of_kind tail closes rfl
  rw [← front.next] at inside
  have read := Performs.block (front.kind.trans opens) inside (last.kind.trans closes)
  rwa [last.next] at read

theorem onto_otherwise (kind : s.kind = .elseWord) (colon : s.next.kind = .colon)
    (inside : Performs (s.next.next.push.onto tail) (.block body) (s₁.onto tail)) :
    Performs (s.onto tail) (.otherwise (some body)) (s₁.pop.onto tail) := by
  have front := of_kind tail kind rfl
  have second := of_kind tail colon rfl
  have start : (s.onto tail).next.next.push = s.next.next.push.onto tail := by
    rw [front.next, second.next]
    rfl
  exact .otherwise (front.kind.trans kind) (by rw [front.next, second.kind, colon]) (start ▸ inside)

end

theorem Performs.onto {sentence : Sentence} (performs : Performs s sentence s') (tail : Cursor)
    (ends : s'.More ∨ tail.Apart) : sentence.Onto tail s s' := by
  induction performs with
  | expression allowed form read => exact onto_expressionStatement allowed form read
  | declaration allowed form read => exact onto_declarationStatement allowed form read
  | returning allowed form read => exact onto_returnStatement allowed form read
  | control allowed form read => exact onto_loopControl allowed form read
  | forward allowed form heads closes registered =>
    exact onto_forward allowed form heads closes registered
  | @define s _ _ _ _ _ _ allowed form heads goes registered declared block returns inside =>
    have kind := kind_of_function form
    have front : s.Front tail := of_kind tail kind rfl
    have more := more_of_block block
    exact .define (allowed.onto front) (front.kind ▸ form) (heads.onto kind tail more)
      ((of_more tail more).kind ▸ goes) (front.here ▸ registered) (front.here ▸ declared)
      (inside ends) returns
  | @branch s _ _ _ _ _ _ _ _ allowed form kind read _ others last inside othersOnto lastOnto =>
    have front : s.Front tail := of_kind tail kind rfl
    have third := (forward_of_performs last).sees ends
    have second := (forward_of_performs others).sees third
    have head := onto_condition tail kind rfl read
    exact .branch (allowed.onto front) (front.kind ▸ form) head.1 head.2 (inside second)
      (othersOnto third)
      (lastOnto ends)
  | forLoop allowed form kind colon opens header closes ends' _ inside =>
    exact onto_forLoop allowed form kind colon opens header closes ends' (inside ends)
  | @whileLoop s _ _ _ _ allowed form kind read _ inside =>
    have front : s.Front tail := of_kind tail kind rfl
    have head := onto_condition tail kind rfl read
    exact .whileLoop (allowed.onto front) (front.kind ▸ form) head.1 head.2 (inside ends)
  | block opens _ closes inside =>
    exact onto_block opens closes (inside (.inl (more_of_kind closes rfl)))
  | noStatements closes => exact .noStatements ((of_kind tail closes rfl).kind.trans closes)
  | @statements s _ _ _ _ more open' first rest firstOnto restOnto =>
    have front : s.Front tail := of_more tail (Session.more_of_shorter (shorter_of_performs first))
    have second := (forward_of_performs rest).sees ends
    exact .statements (front.kind ▸ more) (front.kind ▸ open') (firstOnto second) (restOnto ends)
  | noClauses last => exact .noClauses (onto_kind_ne (ends.imp_right Cursor.Apart.noElseIf) last)
  | clauses kind read _ rest inside restOnto =>
    have head := onto_condition tail kind rfl read
    exact .clauses head.1 head.2 (inside ((forward_of_performs rest).sees ends)) (restOnto ends)
  | noOtherwise last => exact .noOtherwise (onto_kind_ne (ends.imp_right Cursor.Apart.noElse) last)
  | otherwise kind colon _ inside => exact onto_otherwise kind colon (inside ends)
  | noScript => exact .none
  | @script s _ _ _ _ more first rest firstOnto restOnto =>
    have front : s.Front tail := of_more tail (Session.more_of_shorter (shorter_of_performs first))
    have second := (forward_of_performs rest).sees ends
    exact .step (front.kind ▸ more) (ok_statement.mpr (firstOnto second)) (restOnto ends)

end ColonScript.Reading
