import ColonScript.Proofs.Lexing
import ColonScript.Proofs.Reading.Mirroring
import ColonScript.Proofs.Reading.Sentence
import ColonScript.Proofs.Scopes

/-! Where the tokens of a script stand in it is of no account to what is read: only kinds and values
are. A state is compared with one whose tokens stand elsewhere, and what leads on from the one leads
on from the other. -/

namespace ColonScript.Reading
open Token (Kind)

structure Cursor.Alike (c d : Cursor) : Prop where
  ahead : c.ahead.map Token.meaning = d.ahead.map Token.meaning
  closing : c.closing.value = d.closing.value

namespace Cursor.Alike
variable {c d : Cursor}

theorem symm (alike : c.Alike d) : d.Alike c := ⟨alike.ahead.symm, alike.closing.symm⟩

theorem next (alike : c.Alike d) : c.next.Alike d.next := by
  refine ⟨?_, alike.closing⟩
  simp only [Cursor.next, List.map_tail, alike.ahead]

theorem current (alike : c.Alike d) : d.current.meaning = c.current.meaning := by
  obtain ⟨ahead, closing⟩ := c
  obtain ⟨ahead', closing'⟩ := d
  obtain ⟨same, value⟩ := alike
  cases ahead with
  | nil =>
    obtain rfl : ahead' = [] := by simpa using same.symm
    simpa [Cursor.current, Closing.token, Token.meaning] using value.symm
  | cons token ahead =>
    cases ahead' with
    | nil => simp at same
    | cons token' ahead' => exact (List.cons.inj same).1.symm

theorem kind (alike : c.Alike d) : d.current.kind = c.current.kind :=
  congrArg Prod.fst alike.current

theorem value (alike : c.Alike d) : d.current.value = c.current.value :=
  congrArg Prod.snd alike.current

end Cursor.Alike

def Session.withCursor (cursor : Cursor) (s : Session) : Session := { s with cursor }

variable {s s' : Session} {c : Cursor}

theorem withCursor_kind (alike : s.cursor.Alike c) : (s.withCursor c).kind = s.kind := alike.kind

theorem Session.Separated.withCursor {first : Bool} (separated : Session.Separated first s s')
    (alike : s.cursor.Alike c) :
    ∃ c', Session.Separated first (s.withCursor c) (s'.withCursor c') ∧ s'.cursor.Alike c' := by
  cases first with
  | true =>
    obtain rfl : s' = s := separated
    exact ⟨c, rfl, alike⟩
  | false =>
    obtain ⟨comma, rfl⟩ : s.kind = .comma ∧ s' = s.next := separated
    exact ⟨c.next, ⟨alike.kind.trans comma, rfl⟩, alike.next⟩

/-! Expressions and written types. -/

theorem mirror_withCursor :
    Mirror (fun s t => ∃ c, s.cursor.Alike c ∧ t = s.withCursor c) (fun _ => True)
      (fun _ => True) where
  scopes := by rintro s _ ⟨c, -, rfl⟩; rfl
  pool := by rintro s _ ⟨c, -, rfl⟩; rfl
  grammar := by rintro s _ ⟨c, -, rfl⟩; rfl
  withPool := by
    rintro s _ ⟨c, alike, rfl⟩ pool
    exact ⟨c, alike, rfl⟩
  kind := by
    rintro s _ ⟨c, alike, rfl⟩ -
    exact alike.kind
  value := by
    rintro s _ ⟨c, alike, rfl⟩ -
    exact alike.value
  next := by
    rintro s _ ⟨c, alike, rfl⟩ -
    exact ⟨c.next, alike.next, rfl⟩
  stops := by
    rintro s _ ⟨c, alike, rfl⟩ -
    exact .inl alike.kind
  inside_of_onward _ _ _ _ := trivial
  ends_of_onward _ _ _ _ := trivial
  ends_of_inside _ _ := trivial
  inside_of_next _ _ _ := trivial

theorem Reads.withCursor {phrase : Phrase} (reads : Reads s phrase s') (alike : s.cursor.Alike c) :
    ∃ c', Reads (s.withCursor c) phrase (s'.withCursor c') ∧ s'.cursor.Alike c' := by
  have within : phrase.Within (fun _ => True) (fun _ => True) s' :=
    phrase.within_of_inside (fun _ => trivial) trivial
  obtain ⟨_, read, c', alike', rfl⟩ := reads.mirrored mirror_withCursor within ⟨c, alike, rfl⟩
  exact ⟨c', read, alike'⟩

theorem ReadsType.withCursor {phrase : TypePhrase} (reads : ReadsType s phrase s')
    (alike : s.cursor.Alike c) :
    ∃ c', ReadsType (s.withCursor c) phrase (s'.withCursor c') ∧ s'.cursor.Alike c' := by
  obtain ⟨_, read, c', alike', rfl⟩ := reads.mirrored mirror_withCursor trivial ⟨c, alike, rfl⟩
  exact ⟨c', read, alike'⟩

/-! Scopes take note of a position only to report it. -/

section
variable {scopes scopes' : ScopeStack} {position : Position}

theorem declares_anywhere {binding : Binding}
    (declares : scopes.declare binding position = .ok scopes') (other : Position) :
    scopes.declare binding other = .ok scopes' := by
  unfold ScopeStack.declare at declares ⊢
  grind

theorem declaresParameter_anywhere {parameter : Parameter}
    (declares : scopes.declareParameter parameter position = .ok scopes') (other : Position) :
    scopes.declareParameter parameter other = .ok scopes' := by
  unfold ScopeStack.declareParameter at declares ⊢
  grind

theorem registers_anywhere {function : Function}
    (registers : scopes.register function position = .ok scopes') (other : Position) :
    scopes.register function other = .ok scopes' := by
  rcases ScopeStack.register_cases registers with ⟨none, rfl⟩ |
    ⟨known, found, declared, defined, completes, rfl⟩
  · simp only [ScopeStack.register, none]
  · simp only [ScopeStack.register, found, declared, defined, if_pos completes]

theorem DeclaresParameters.anywhere {parameters : List Parameter}
    (declares : DeclaresParameters position scopes parameters scopes') (other : Position) :
    DeclaresParameters other scopes parameters scopes' := by
  induction declares with
  | nil => exact .nil
  | cons declares _ ih => exact .cons (declaresParameter_anywhere declares other) ih

theorem DeclaresAll.anywhere {receivers others : List Receiver}
    (declares : DeclaresAll scopes receivers scopes')
    (same : others.map Receiver.target = receivers.map Receiver.target) :
    DeclaresAll scopes others scopes' := by
  induction declares generalizing others with
  | nil =>
    obtain rfl : others = [] := by simpa using same
    exact .nil
  | declared declares _ ih =>
    obtain ⟨first, rest, rfl, target, more⟩ := List.map_eq_cons_iff.mp same
    cases first with
    | declared found =>
      obtain ⟨constant, name, type⟩ := Target.declared.inj target
      exact .declared (declares_anywhere (by rw [constant, name, type]; exact declares) _) (ih more)
    | existing => cases target
  | existing _ ih =>
    obtain ⟨first, rest, rfl, target, more⟩ := List.map_eq_cons_iff.mp same
    cases first with
    | declared => cases target
    | existing => exact .existing (ih more)

end

/-! Parts of statements. Some of what is read of them says where it stood, and agrees in all the
rest. -/

/-- Where the same tokens stand elsewhere, the other reader reads the same part of what this one
reads. -/
def Follows {α β : Type} (part : α → β) (reader other : Read α) : Prop :=
  ∀ ⦃s a s' c⦄, reader s = .ok a s' → s.cursor.Alike c →
    ∃ b c', other (s.withCursor c) = .ok b (s'.withCursor c') ∧ part b = part a ∧ s'.cursor.Alike c'

abbrev Positionless {α : Type} (reader : Read α) : Prop := Follows id reader reader

section
variable {α β : Type} {part : α → β} {item reader other : Read α} {a : α} {as : List α}

theorem Follows.whole (follows : Follows id reader other) (run : reader s = .ok a s')
    (alike : s.cursor.Alike c) :
    ∃ c', other (s.withCursor c) = .ok a (s'.withCursor c') ∧ s'.cursor.Alike c' := by
  obtain ⟨b, c', read, same, alike'⟩ := follows run alike
  obtain rfl : b = a := same
  exact ⟨c', read, alike'⟩

theorem afterCommas_withCursor (follows : Follows part item item)
    (repeats : AfterCommas item s as s') (alike : s.cursor.Alike c) :
    ∃ bs c', AfterCommas item (s.withCursor c) bs (s'.withCursor c') ∧ bs.map part = as.map part ∧
      s'.cursor.Alike c' := by
  induction repeats generalizing c with
  | done last => exact ⟨[], c, .done (withCursor_kind alike ▸ last), rfl, alike⟩
  | @next s _ _ _ _ goes first _ ih =>
    obtain ⟨comma, read⟩ := first
    obtain ⟨b, c₁, read, same, alike₁⟩ := follows read alike.next
    obtain ⟨bs, c', rest, others, alike'⟩ := ih alike₁
    have first : (s.withCursor c).kind = .comma ∧ item (s.withCursor c).next = .ok b _ :=
      ⟨alike.kind.trans comma, read⟩
    exact ⟨b :: bs, c', .next (withCursor_kind alike ▸ goes) first rest, by
      simp [same, others], alike'⟩

theorem follows_separated (advances : Advances item) (follows : Follows part item item) :
    Follows (List.map part) (separated item) (separated item) := by
  intro s as s' c run alike
  obtain ⟨first, rest, s₁, value, others, rfl⟩ := (ok_separated advances).mp run
  obtain ⟨b, c₁, value, same, alike₁⟩ := follows value alike
  obtain ⟨bs, c', others, rest, alike'⟩ := afterCommas_withCursor follows others alike₁
  exact ⟨b :: bs, c', (ok_separated advances).mpr ⟨b, bs, _, value, others, rfl⟩, by
    simp [same, rest], alike'⟩

theorem Listed.withCursor {closer : Kind} {first : Bool} (positionless : Positionless item)
    (listed : Listed closer (Reader.Gives item) first s as s') (alike : s.cursor.Alike c) :
    ∃ c', Listed closer (Reader.Gives item) first (s.withCursor c) as (s'.withCursor c') ∧
      s'.cursor.Alike c' := by
  induction listed generalizing c with
  | done closes => exact ⟨c, .done (alike.kind.trans closes), alike⟩
  | item more separated value _ ih =>
    obtain ⟨c₁, separated, alike₁⟩ := separated.withCursor alike
    obtain ⟨c₂, value, alike₂⟩ := positionless.whole value alike₁
    obtain ⟨c', rest, alike'⟩ := ih alike₂
    exact ⟨c', .item (alike.kind.trans_ne more) separated value rest, alike'⟩

end

theorem positionless_writtenType (power : Power) : Positionless (writtenType power) := by
  intro s type s' c run alike
  obtain ⟨c', reads, alike'⟩ := (ok_writtenType.mp run).withCursor alike
  exact ⟨type, c', ok_writtenType.mpr reads, rfl, alike'⟩

theorem follows_placed : Follows Prod.fst (placed expression) (placed expression) := by
  intro s value s' c run alike
  obtain ⟨c', reads, alike'⟩ := (reads_of_placed run).withCursor alike
  exact ⟨(value.1, _), c', ok_placed.mpr ⟨ok_expression.mpr reads, rfl⟩, rfl, alike'⟩

abbrev Head.target (found : Head) : Target := (Receiver.declared found).target

theorem follows_head : Follows Head.target head head := by
  intro s found s' c run alike
  obtain ⟨name, colon, type, reads, rfl⟩ := ok_head.mp run
  obtain ⟨c', reads, alike'⟩ := reads.withCursor alike.next.next.next
  refine ⟨_, c', ok_head.mpr ⟨alike.next.kind.trans name, alike.next.next.kind.trans colon, type,
    reads, rfl⟩, ?_, alike'⟩
  have kind : (s.withCursor c).kind = s.kind := alike.kind
  have value : (s.withCursor c).next.current.value = s.next.current.value := alike.next.value
  simp only [Head.target, Receiver.target, kind, value]

theorem follows_declarationRest {found other : Head} (same : other.target = found.target) :
    Follows id (declarationRest found) (declarationRest other) := by
  intro s declaration s' c run alike
  obtain ⟨constant, name, type⟩ := Target.declared.inj same
  obtain ⟨value, s₁, scopes, given, ends, declares, rfl, rfl⟩ := ok_declarationRest.mp run
  suffices again : ∃ c₁, ((s.withCursor c).kind = .semicolon ∧
        defaultValue other (s.withCursor c) = .ok value (s₁.withCursor c₁) ∨
      (s.withCursor c).kind ≠ .semicolon ∧ givenValue other (s.withCursor c) = .ok value
      (s₁.withCursor c₁)) ∧ s₁.cursor.Alike c₁ by
    obtain ⟨c₁, given, alike₁⟩ := again
    refine ⟨_, c₁.next, ok_declarationRest.mpr
      ⟨value, s₁.withCursor c₁, scopes, given, alike₁.kind.trans ends, ?_, ?_, rfl⟩,
      rfl, alike₁.next⟩
    · rw [constant, name, type]
      exact declares_anywhere declares _
    · rw [constant, name, type]
  rcases given with ⟨none, run⟩ | ⟨some, run⟩
  · obtain ⟨mutable, default, rfl⟩ := ok_defaultValue.mp run
    refine ⟨c, .inl ⟨alike.kind.trans none, ?_⟩, alike⟩
    exact ok_defaultValue.mpr ⟨constant.trans mutable, type ▸ default, rfl⟩
  · obtain ⟨kind, value', valueType, both, s₂, reads, single, joined, rfl, rfl⟩ :=
      ok_givenValue.mp run
    obtain ⟨c₁, reads, alike₁⟩ := reads.withCursor alike.next
    have run' := (ok_givenValue (s := s.withCursor c)).mpr
      ⟨alike.kind.trans kind, value', valueType, both, s₂.withCursor c₁, reads, single,
        type ▸ joined, rfl, rfl⟩
    refine ⟨c₁, .inr ⟨alike.kind.trans_ne some, ?_⟩, alike₁⟩
    rw [type] at run'
    exact run'

theorem positionless_existing : Positionless existing := by
  intro s found s' c run alike
  obtain ⟨kind, binding, bound, mutable, rfl, rfl⟩ := ok_existing.mp run
  refine ⟨_, c.next, ok_existing.mpr ⟨alike.kind.trans kind, binding, alike.value ▸ bound,
    alike.value ▸ mutable, ?_, rfl⟩, rfl, alike.next⟩
  exact alike.value ▸ rfl

theorem follows_receiver : Follows Receiver.target receiver receiver := by
  intro s found s' c run alike
  obtain ⟨kind, declared, declares, rfl⟩ | exists' := ok_receiver.mp run
  · obtain ⟨other, c', declares, same, alike'⟩ := follows_head declares alike
    exact ⟨.declared other, c', ok_receiver.mpr
      (.inl ⟨withCursor_kind alike ▸ kind, other, declares, rfl⟩), same, alike'⟩
  · obtain ⟨c', exists', alike'⟩ := positionless_existing.whole exists' alike
    exact ⟨found, c', ok_receiver.mpr (.inr exists'), rfl, alike'⟩

theorem types_of_targets {receivers others : List Receiver}
    (same : others.map Receiver.target = receivers.map Receiver.target) :
    others.map Receiver.type = receivers.map Receiver.type := by
  have type : Receiver.type = Target.type ∘ Receiver.target := by
    funext receiver
    cases receiver <;> rfl
  rw [type, ← List.map_map, ← List.map_map, same]

theorem Distributed.cursor {receivers : List Receiver} {values settled : List Expr}
    (distributed : Distributed s receivers values settled s') : s'.cursor = s.cursor := by
  cases distributed <;> rfl

theorem Distributed.withCursor {receivers others : List Receiver} {values settled : List Expr}
    (same : others.map Receiver.target = receivers.map Receiver.target)
    (distributed : Distributed s receivers values settled s') (cursor : Cursor) :
    Distributed (s.withCursor cursor) others values settled (s'.withCursor cursor) := by
  have length : others.length = receivers.length := by simpa using congrArg List.length same
  have types := types_of_targets same
  cases distributed with
  | each count singles fitted =>
    exact .each (s := s.withCursor cursor) (count.trans length.symm) singles (types ▸ fitted)
  | results several count joined =>
    exact .results (s := s.withCursor cursor) (length.trans_ne several) (count.trans length.symm)
      (types ▸ joined)

theorem follows_multipleRest {first other : Receiver} (same : other.target = first.target) :
    Follows id (multipleRest first) (multipleRest other) := by
  intro s st s' c run alike
  obtain ⟨rest, values, settled, scopes, s₁, s₂, s₃, receivers, assign, given, ends, distributed,
    declares, rfl, rfl⟩ :=
    ok_multipleRest.mp run
  obtain ⟨rest', c₁, receivers, others, alike₁⟩ :=
    afterCommas_withCursor follows_receiver receivers alike
  obtain ⟨values', c₂, given, expressions, alike₂⟩ :=
    follows_separated advances_placed follows_placed given alike₁.next
  have targets : (other :: rest').map Receiver.target = (first :: rest).map Receiver.target := by
    simp [same, others]
  refine ⟨_, c₂.next, ok_multipleRest.mpr ⟨rest', values', settled, scopes, s₁.withCursor c₁,
    s₂.withCursor c₂, s₃.withCursor c₂.next, receivers, alike₁.kind.trans assign, given,
    alike₂.kind.trans ends, ?_, declares.anywhere targets, rfl, rfl⟩, ?_,
      distributed.cursor ▸ alike₂.next⟩
  · exact expressions ▸ distributed.withCursor targets c₂.next
  · rw [targets]

theorem positionless_declarationStatement : Positionless declarationStatement := by
  intro s st s' c run alike
  obtain ⟨found, s₁, declares, rest⟩ := ok_declarationStatement.mp run
  obtain ⟨other, c₁, declares, same, alike₁⟩ := follows_head declares alike
  rcases rest with ⟨comma, rest⟩ | ⟨single, declaration, rest, rfl⟩
  · have follows : Follows id (multipleRest (.declared found)) (multipleRest (.declared other)) :=
      follows_multipleRest same
    obtain ⟨c', rest, alike'⟩ := follows.whole rest alike₁
    exact ⟨_, c', ok_declarationStatement.mpr
      ⟨other, _, declares, .inl ⟨alike₁.kind.trans comma, rest⟩⟩, rfl, alike'⟩
  · obtain ⟨c', rest, alike'⟩ := (follows_declarationRest same).whole rest alike₁
    exact ⟨_, c', ok_declarationStatement.mpr
      ⟨other, _, declares, .inr ⟨alike₁.kind.trans_ne single, _, rest, rfl⟩⟩, rfl, alike'⟩

theorem positionless_expressionStatement : Positionless expressionStatement := by
  intro s st s' c run alike
  have first : (s.withCursor c).kind = s.kind := alike.kind
  have second : (s.withCursor c).next.kind = s.next.kind := alike.next.kind
  obtain ⟨several, found, s₁, exists', rest⟩ | ⟨single, e, s₁, reads, action, ends, rfl, rfl⟩ :=
    ok_expressionStatement.mp run
  · obtain ⟨c₁, exists', alike₁⟩ := positionless_existing.whole exists' alike
    have positionless : Positionless (multipleRest found) := follows_multipleRest rfl
    obtain ⟨c', rest, alike'⟩ := positionless.whole rest alike₁
    exact ⟨st, c', ok_expressionStatement.mpr
      (.inl ⟨by rwa [first, second], found, _, exists', rest⟩), rfl, alike'⟩
  · obtain ⟨c₁, reads, alike₁⟩ := reads.withCursor alike
    have single' : ¬((s.withCursor c).kind = .identifier ∧
        (s.withCursor c).next.kind = .comma) := by rwa [first, second]
    exact ⟨_, c₁.next, ok_expressionStatement.mpr (.inr ⟨single', e, s₁.withCursor c₁, reads,
      action, alike₁.kind.trans ends, rfl, rfl⟩), rfl, alike₁.next⟩

theorem positionless_condition (statement : String) : Positionless (condition statement) := by
  intro s e s' c run alike
  obtain ⟨colon, opens, type, s₁, reads, closes, ends, single, bool, rfl⟩ := ok_condition.mp run
  obtain ⟨c₁, reads, alike₁⟩ := reads.withCursor alike.next.next
  exact ⟨e, c₁.next.next, ok_condition.mpr
    ⟨alike.kind.trans colon, alike.next.kind.trans opens, type, s₁.withCursor c₁, reads,
      alike₁.kind.trans closes, alike₁.next.kind.trans ends, single, bool, rfl⟩, rfl,
    alike₁.next.next⟩

theorem positionless_startOfLoop : Positionless startOfLoop := by
  intro s start s' c run alike
  obtain ⟨kind, found, declaration, s₁, declares, int, rest, rfl⟩ |
    ⟨kind, target, value, type, s₁, reads, int, ends, rfl, rfl⟩ := ok_startOfLoop.mp run
  · obtain ⟨other, c₁, declares, same, alike₁⟩ := follows_head declares alike
    obtain ⟨c', rest, alike'⟩ := (follows_declarationRest same).whole rest alike₁
    obtain ⟨_, _, type⟩ := Target.declared.inj same
    exact ⟨_, c',
      ok_startOfLoop.mpr
      (.inl ⟨alike.kind.trans kind, other, _, _, declares, type ▸ int, rest, rfl⟩), rfl, alike'⟩
  · obtain ⟨c₁, reads, alike₁⟩ := reads.withCursor alike
    exact ⟨_, c₁.next,
      ok_startOfLoop.mpr
      (.inr ⟨alike.kind.trans kind, target, value, type, s₁.withCursor c₁, reads, int,
        alike₁.kind.trans ends, rfl, rfl⟩), rfl, alike₁.next⟩

theorem positionless_loopHeader : Positionless loopHeader := by
  intro s header s' c run alike
  obtain ⟨start, condition, update⟩ := header
  obtain ⟨s₁, s₂, begins, conditionReads, isCondition, ends, updateReads, isUpdate⟩ :=
    ok_loopHeader.mp run
  obtain ⟨c₁, begins, alike₁⟩ := positionless_startOfLoop.whole begins alike
  obtain ⟨c₂, conditionReads, alike₂⟩ := conditionReads.withCursor alike₁
  obtain ⟨c', updateReads, alike'⟩ := updateReads.withCursor alike₂.next
  exact ⟨_, c', ok_loopHeader.mpr ⟨s₁.withCursor c₁, s₂.withCursor c₂, begins,
    conditionReads, isCondition, alike₂.kind.trans ends, updateReads, isUpdate⟩, rfl, alike'⟩

theorem positionless_loopControl : Positionless loopControl := by
  intro s st s' c run alike
  have kind : (s.withCursor c).kind = s.kind := alike.kind
  obtain ⟨inLoop, ends, rfl, rfl⟩ := ok_loopControl.mp run
  exact ⟨_, c.next.next, ok_loopControl.mpr ⟨inLoop, alike.next.kind.trans ends, rfl, rfl⟩, by
    rw [kind], alike.next.next⟩

theorem positionless_parameter : Positionless parameter := by
  intro s found s' c run alike
  obtain ⟨name, colon, type, reads, rfl⟩ := ok_parameter.mp run
  obtain ⟨c', reads, alike'⟩ := reads.withCursor alike.next.next
  exact ⟨_, c', ok_parameter.mpr ⟨alike.kind.trans name, alike.next.kind.trans colon,
    type, reads, rfl⟩, alike.value ▸ rfl, alike'⟩

theorem positionless_parameters : Positionless parameters := by
  intro s found s' c run alike
  obtain ⟨opens, s₁, list, closes, rfl⟩ := ok_parameters.mp run
  obtain ⟨c₁, list, alike₁⟩ := list.withCursor positionless_parameter alike.next
  exact ⟨found, c₁.next, ok_parameters.mpr
    ⟨alike.kind.trans opens, s₁.withCursor c₁, list, alike₁.kind.trans closes, rfl⟩,
    rfl, alike₁.next⟩

theorem positionless_resultTypes : Positionless resultTypes := by
  intro s types s' c run alike
  obtain ⟨colon, opens, s₁, list, closes, rfl⟩ | ⟨noColon, rfl, rfl⟩ := ok_resultTypes.mp run
  · obtain ⟨others, c₁, others', same, alike₁⟩ :=
      follows_separated (advances_writtenType .lowest) (positionless_writtenType .lowest) list
        alike.next.next
    obtain rfl : others = types := by simpa using same
    exact ⟨others, c₁.next, ok_resultTypes.mpr
      (.inl ⟨alike.kind.trans colon, alike.next.kind.trans opens, s₁.withCursor c₁, others',
        alike₁.kind.trans closes, rfl⟩), rfl, alike₁.next⟩
  · exact ⟨[], c, ok_resultTypes.mpr (.inr ⟨alike.kind.trans_ne noColon, rfl, rfl⟩), rfl, alike⟩

theorem follows_givenResults : Follows (List.map Prod.fst) givenResults givenResults := by
  intro s values s' c run alike
  obtain ⟨colon, ⟨opens, s₁, list, closes, rfl⟩ | ⟨single, e, reads, noComma, rfl⟩⟩ :=
    ok_givenResults.mp run
  · obtain ⟨others, c₁, list, same, alike₁⟩ :=
      follows_separated advances_placed follows_placed list alike.next.next
    exact ⟨others, c₁.next, ok_givenResults.mpr
      ⟨alike.kind.trans colon, .inl ⟨alike.next.kind.trans opens, s₁.withCursor c₁, list,
        alike₁.kind.trans closes, rfl⟩⟩, same, alike₁.next⟩
  · obtain ⟨c', reads, alike'⟩ := reads.withCursor alike.next
    exact ⟨_, c', ok_givenResults.mpr ⟨alike.kind.trans colon,
      .inr ⟨alike.next.kind.trans_ne single, e, reads, alike'.kind.trans_ne noComma, rfl⟩⟩, rfl,
        alike'⟩

theorem positionless_returnStatement : Positionless returnStatement := by
  intro s st s' c run alike
  obtain ⟨function, values, s₁, inside, given, ends, count, types, settled, pool, singles,
    fitted, rfl, rfl⟩ :=
    ok_returnStatement.mp run
  suffices again : ∃ others c₁, ((s.withCursor c).next.kind = .semicolon ∧ others = [] ∧
        s₁.withCursor c₁ = (s.withCursor c).next ∨
      (s.withCursor c).next.kind ≠ .semicolon ∧
        givenResults (s.withCursor c).next = .ok others (s₁.withCursor c₁)) ∧
      others.map Prod.fst = values.map Prod.fst ∧ s₁.cursor.Alike c₁ by
    obtain ⟨others, c₁, given, same, alike₁⟩ := again
    have length : others.length = values.length := by simpa using congrArg List.length same
    exact ⟨_, c₁.next, ok_returnStatement.mpr
      ⟨function, others, s₁.withCursor c₁, inside, given, alike₁.kind.trans ends,
        length.trans count, types, settled, pool, same ▸ singles, same ▸ fitted, rfl, rfl⟩,
          rfl, alike₁.next⟩
  rcases given with ⟨none, rfl, rfl⟩ | ⟨some, given⟩
  · exact ⟨[], c.next, .inl ⟨alike.next.kind.trans none, rfl, rfl⟩, rfl, alike.next⟩
  · obtain ⟨others, c₁, given, same, alike₁⟩ := follows_givenResults given alike.next
    exact ⟨others, c₁, .inr ⟨alike.next.kind.trans_ne some, given⟩, same, alike₁⟩

theorem Heads.withCursor {signature : Signature} (heads : Heads s signature s')
    (alike : s.cursor.Alike c) :
    ∃ c', Heads (s.withCursor c) signature (s'.withCursor c') ∧ s'.cursor.Alike c' := by
  obtain ⟨outside, colon, name, read, results⟩ := heads
  obtain ⟨c₁, read, alike₁⟩ := positionless_parameters.whole read alike.next.next.next
  obtain ⟨c', results, alike'⟩ := positionless_resultTypes.whole results alike₁
  have heads := Heads.intro (s := s.withCursor c) outside (alike.next.kind.trans colon)
    (alike.next.next.kind.trans name)
    read results
  exact ⟨c', alike.next.next.value ▸ heads, alike'⟩

/-! Statements. -/

theorem Session.Allows.withCursor (allowed : s.Allows) (alike : s.cursor.Alike c) :
    (s.withCursor c).Allows := by
  rcases allowed with inside | testing | kind
  · exact .inl inside
  · exact .inr (.inl testing)
  · exact .inr (.inr (alike.kind.trans kind))

theorem Performs.withCursor {sentence : Sentence} (performs : Performs s sentence s')
    (alike : s.cursor.Alike c) :
    ∃ c', Performs (s.withCursor c) sentence (s'.withCursor c') ∧ s'.cursor.Alike c' := by
  induction performs generalizing c with
  | expression allowed form read =>
    obtain ⟨c', read, alike'⟩ := positionless_expressionStatement.whole read alike
    exact ⟨c', .expression (allowed.withCursor alike) (withCursor_kind alike ▸ form) read, alike'⟩
  | declaration allowed form read =>
    obtain ⟨c', read, alike'⟩ := positionless_declarationStatement.whole read alike
    exact ⟨c', .declaration (allowed.withCursor alike) (withCursor_kind alike ▸ form) read, alike'⟩
  | returning allowed form read =>
    obtain ⟨c', read, alike'⟩ := positionless_returnStatement.whole read alike
    exact ⟨c', .returning (allowed.withCursor alike) (withCursor_kind alike ▸ form) read, alike'⟩
  | control allowed form read =>
    obtain ⟨c', read, alike'⟩ := positionless_loopControl.whole read alike
    exact ⟨c', .control (allowed.withCursor alike) (withCursor_kind alike ▸ form) read, alike'⟩
  | @forward s s₁ _ _ allowed form heads ends registered =>
    obtain ⟨c₁, heads, alike₁⟩ := heads.withCursor alike
    exact ⟨c₁.next, .forward (s := s.withCursor c) (allowed.withCursor alike)
      (withCursor_kind alike ▸ form) heads (alike₁.kind.trans ends)
      (registers_anywhere registered _), alike₁.next⟩
  | @define s s₁ s₂ _ _ _ _ allowed form heads goes registered declared _ returns inside =>
    obtain ⟨c₁, heads, alike₁⟩ := heads.withCursor alike
    obtain ⟨c₂, inside, alike₂⟩ := inside alike₁
    exact ⟨c₂, .define (s := s.withCursor c) (allowed.withCursor alike)
      (withCursor_kind alike ▸ form) heads (alike₁.kind.trans_ne goes)
      (registers_anywhere registered _)
      (declared.anywhere _) inside returns, alike₂⟩
  | @branch s s₁ s₂ s₃ _ _ _ _ _ allowed form kind read _ _ _ body others last =>
    obtain ⟨c₁, read, alike₁⟩ := (positionless_condition "if").whole read alike.next
    obtain ⟨c₂, body, alike₂⟩ := body alike₁
    obtain ⟨c₃, others, alike₃⟩ := others alike₂
    obtain ⟨c', last, alike'⟩ := last alike₃
    exact ⟨c', .branch (s := s.withCursor c) (allowed.withCursor alike)
      (withCursor_kind alike ▸ form) (alike.kind.trans kind) read body others last, alike'⟩
  | @forLoop s s₁ s₂ _ _ _ _ allowed form kind colon opens header closes ends _ body =>
    obtain ⟨c₁, header, alike₁⟩ := positionless_loopHeader.whole header alike.next.next.next
    obtain ⟨c₂, body, alike₂⟩ := body alike₁.next.next
    exact ⟨c₂, .forLoop (s := s.withCursor c) (allowed.withCursor alike)
      (withCursor_kind alike ▸ form) (alike.kind.trans kind) (alike.next.kind.trans colon)
      (alike.next.next.kind.trans opens) header (alike₁.kind.trans closes)
      (alike₁.next.kind.trans ends) body, alike₂⟩
  | @whileLoop s s₁ s₂ _ _ allowed form kind read _ body =>
    obtain ⟨c₁, read, alike₁⟩ := (positionless_condition "while").whole read alike.next
    obtain ⟨c₂, body, alike₂⟩ := body alike₁
    exact ⟨c₂, .whileLoop (s := s.withCursor c)
      (allowed.withCursor alike) (withCursor_kind alike ▸ form) (alike.kind.trans kind) read body,
      alike₂⟩
  | @block s s₁ _ opens _ closes inside =>
    obtain ⟨c₁, inside, alike₁⟩ := inside alike.next
    exact ⟨c₁.next, .block (s := s.withCursor c) (alike.kind.trans opens) inside
      (alike₁.kind.trans closes), alike₁.next⟩
  | noStatements closes => exact ⟨c, .noStatements (alike.kind.trans closes), alike⟩
  | statements more open' _ _ first rest =>
    obtain ⟨c₁, first, alike₁⟩ := first alike
    obtain ⟨c', rest, alike'⟩ := rest alike₁
    exact ⟨c', .statements (alike.kind.trans_ne more) (alike.kind.trans_ne open') first rest,
      alike'⟩
  | noClauses last => exact ⟨c, .noClauses (alike.kind.trans_ne last), alike⟩
  | @clauses s s₁ s₂ _ _ _ _ kind read _ _ body rest =>
    obtain ⟨c₁, read, alike₁⟩ := (positionless_condition "else if").whole read alike.next
    obtain ⟨c₂, body, alike₂⟩ := body alike₁
    obtain ⟨c', rest, alike'⟩ := rest alike₂
    exact ⟨c', .clauses (s := s.withCursor c) (alike.kind.trans kind)
      read body rest, alike'⟩
  | noOtherwise last => exact ⟨c, .noOtherwise (alike.kind.trans_ne last), alike⟩
  | @otherwise s s₁ _ kind colon _ body =>
    obtain ⟨c₁, body, alike₁⟩ := body alike.next.next
    exact ⟨c₁, .otherwise (s := s.withCursor c) (alike.kind.trans kind)
      (alike.next.kind.trans colon) body, alike₁⟩
  | noScript ends => exact ⟨c, .noScript (alike.kind.trans ends), alike⟩
  | script more _ _ first rest =>
    obtain ⟨c₁, first, alike₁⟩ := first alike
    obtain ⟨c', rest, alike'⟩ := rest alike₁
    exact ⟨c', .script (alike.kind.trans_ne more) first rest, alike'⟩

/-! Whole scripts. -/

variable {tokens others : List Token}

theorem getLast?_meaning (same : others.map Token.meaning = tokens.map Token.meaning) :
    others.getLast?.map Token.meaning = tokens.getLast?.map Token.meaning := by
  rw [← List.getLast?_map, ← List.getLast?_map, same]

theorem alike_ofTokens (same : others.map Token.meaning = tokens.map Token.meaning) :
    (Cursor.ofTokens tokens).Alike (Cursor.ofTokens others) := by
  have lasts := getLast?_meaning same
  unfold Cursor.ofTokens
  cases last : tokens.getLast? with
  | none =>
    have none : others.getLast? = none := by simpa [last] using lasts
    rw [none]
    exact ⟨rfl, rfl⟩
  | some token =>
    obtain ⟨other, some, meaning⟩ := Option.map_eq_some_iff.mp (lasts.trans (congrArg _ last))
    obtain ⟨kind, value⟩ : other.kind = token.kind ∧ other.value = token.value :=
      Prod.mk.inj meaning
    simp only [some, kind]
    split
    · refine ⟨?_, value.symm⟩
      simp only [List.map_dropLast, same]
    · exact ⟨same.symm, rfl⟩

end ColonScript.Reading

namespace ColonScript.Program
open Reading

theorem ofTokens_of_meanings {tokens others : List Token} {file : String} {testing : Bool}
    {p : Program} (same : others.map Token.meaning = tokens.map Token.meaning)
    (accepted : ofTokens tokens file testing = .ok p) :
    ofTokens others file testing = .ok p := by
  obtain ⟨s', performs⟩ := ofTokens_eq_ok.mp accepted
  obtain ⟨c', performs, _⟩ := performs.withCursor (alike_ofTokens same)
  exact ofTokens_eq_ok.mpr ⟨s'.withCursor c', performs⟩

/-- The tree of a script depends on the kinds and values of its tokens, and on nothing else of
them. -/
theorem ofTokens_eq_ok_iff_of_meanings {tokens others : List Token} {file : String} {testing : Bool}
    {p : Program} (same : others.map Token.meaning = tokens.map Token.meaning) :
    ofTokens others file testing = .ok p ↔ ofTokens tokens file testing = .ok p :=
  ⟨ofTokens_of_meanings same.symm, ofTokens_of_meanings same⟩

end ColonScript.Program
