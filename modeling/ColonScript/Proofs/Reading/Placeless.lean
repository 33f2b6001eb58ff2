import ColonScript.Proofs.Reading.Mirroring
import ColonScript.Proofs.Reading.Sentence

/-! Most of what is read does not look at the place in the structure of the script at all. What does
is named in the conditions of statements: where they may stand, the function that `return` answers
to, and the loop around `continue` and `break`. -/

namespace ColonScript.Reading
open Token (Kind)

variable {s s' : Session}

def Session.elsewhere (file : String) (place : Place) (s : Session) : Session :=
  { s with file, place }

theorem Session.Separated.withPlace {first : Bool} (separated : Session.Separated first s s')
    (place : Place) :
    Session.Separated first (s.withPlace place) (s'.withPlace place) := by
  cases first with
  | true =>
    obtain rfl : s' = s := separated
    exact rfl
  | false =>
    obtain ⟨comma, rfl⟩ : s.kind = .comma ∧ s' = s.next := separated
    exact ⟨comma, rfl⟩

theorem mirror_elsewhere (file : String) (place : Place) :
    Mirror (fun s t => t = s.elsewhere file place) (fun _ => True) (fun _ => True) where
  scopes := by rintro s _ rfl; rfl
  pool := by rintro s _ rfl; rfl
  grammar := by rintro s _ rfl; rfl
  withPool := by rintro s _ rfl pool; rfl
  kind := by rintro s _ rfl -; rfl
  value := by rintro s _ rfl -; rfl
  next := by rintro s _ rfl -; rfl
  stops := by
    rintro s _ rfl -
    exact .inl rfl
  inside_of_onward _ _ _ _ := trivial
  ends_of_onward _ _ _ _ := trivial
  ends_of_inside _ _ := trivial
  inside_of_next _ _ _ := trivial

theorem Reads.elsewhere {phrase : Phrase} (reads : Reads s phrase s') (file : String)
    (place : Place) :
    Reads (s.elsewhere file place) phrase (s'.elsewhere file place) := by
  obtain ⟨_, read, rfl⟩ :=
    reads.mirrored (mirror_elsewhere file place)
      (phrase.within_of_inside (fun _ => trivial) trivial) rfl
  exact read

theorem Reads.withPlace {phrase : Phrase} (reads : Reads s phrase s') (place : Place) :
    Reads (s.withPlace place) phrase (s'.withPlace place) := by
  have read := reads.elsewhere s.file place
  have same : s'.elsewhere s.file place = s'.withPlace place := by
    rw [← reads.onward.file]
    rfl
  rwa [same] at read

theorem ReadsType.withPlace {phrase : TypePhrase} (reads : ReadsType s phrase s') (place : Place) :
    ReadsType (s.withPlace place) phrase (s'.withPlace place) := by
  obtain ⟨_, read, rfl⟩ := reads.mirrored (mirror_elsewhere s.file place) trivial rfl
  have same : s'.elsewhere s.file place = s'.withPlace place := by
    rw [← reads.onward.file]
    rfl
  rwa [same] at read

/-- The reader neither sees nor changes the place. -/
def Placeless {α : Type} (reader : Read α) : Prop :=
  ∀ ⦃s a s'⦄ (place : Place), reader s = .ok a s' →
    reader (s.withPlace place) = .ok a (s'.withPlace place)

/-! Lists of parts. -/

section
variable {α : Type} {item : Read α} {as : List α} {place : Place}

theorem Repeats.withPlace {more : Kind → Bool} {item : Session → α → Session → Prop}
    (each : ∀ ⦃s a s'⦄, item s a s' → item (s.withPlace place) a (s'.withPlace place))
    (repeats : Repeats more item s as s') :
    Repeats more item (s.withPlace place) as (s'.withPlace place) := by
  induction repeats with
  | done last => exact .done last
  | next goes first _ ih => exact .next goes (each first) ih

theorem Listed.withPlace {closer : Kind} {first : Bool} (placeless : Placeless item)
    (listed : Listed closer (Reader.Gives item) first s as s') :
    Listed closer (Reader.Gives item) first (s.withPlace place) as (s'.withPlace place) := by
  induction listed with
  | done closes => exact .done closes
  | item more separated value _ ih =>
    exact .item more (separated.withPlace place) (placeless place value) ih

theorem afterCommas_withPlace (placeless : Placeless item) (repeats : AfterCommas item s as s') :
    AfterCommas item (s.withPlace place) as (s'.withPlace place) :=
  repeats.withPlace fun _ _ _ read => ⟨read.1, placeless place read.2⟩

theorem placeless_separated (advances : Advances item) (placeless : Placeless item) :
    Placeless (separated item) := by
  intro s as s' place run
  obtain ⟨first, rest, s₁, value, others, rfl⟩ := (ok_separated advances).mp run
  exact (ok_separated advances).mpr
    ⟨first, rest, _, placeless place value, afterCommas_withPlace placeless others, rfl⟩

end

/-! Parts of statements. -/

theorem placeless_writtenType (power : Power) : Placeless (writtenType power) := by
  intro s type s' place run
  exact ok_writtenType.mpr ((ok_writtenType.mp run).withPlace place)

theorem placeless_placed : Placeless (placed expression) := by
  intro s value s' place run
  obtain ⟨read, position⟩ := ok_placed.mp run
  exact ok_placed.mpr ⟨ok_expression.mpr ((ok_expression.mp read).withPlace place), position⟩

theorem placeless_head : Placeless head := by
  intro s found s' place run
  obtain ⟨name, colon, type, reads, rfl⟩ := ok_head.mp run
  exact ok_head.mpr ⟨name, colon, type, reads.withPlace place, rfl⟩

theorem placeless_defaultValue (found : Head) : Placeless (defaultValue found) := by
  intro s value s' place run
  obtain ⟨mutable, default, rfl⟩ := ok_defaultValue.mp run
  exact ok_defaultValue.mpr ⟨mutable, default, rfl⟩

theorem placeless_givenValue (found : Head) : Placeless (givenValue found) := by
  intro s value s' place run
  obtain ⟨kind, given, type, both, s₁, reads, single, joined, rfl, rfl⟩ := ok_givenValue.mp run
  exact ok_givenValue.mpr ⟨kind, given, type, both, _, reads.withPlace place, single,
    joined, rfl, rfl⟩

theorem placeless_declarationRest (found : Head) : Placeless (declarationRest found) := by
  intro s declaration s' place run
  obtain ⟨value, s₁, scopes, given, ends, declares, rfl, rfl⟩ := ok_declarationRest.mp run
  refine ok_declarationRest.mpr ⟨value, s₁.withPlace place, scopes, ?_, ends, declares, rfl, rfl⟩
  rcases given with ⟨none, default⟩ | ⟨some, given⟩
  · exact .inl ⟨none, placeless_defaultValue found place default⟩
  · exact .inr ⟨some, placeless_givenValue found place given⟩

theorem placeless_existing : Placeless existing := by
  intro s found s' place run
  obtain ⟨kind, binding, bound, mutable, rfl, rfl⟩ := ok_existing.mp run
  exact ok_existing.mpr ⟨kind, binding, bound, mutable, rfl, rfl⟩

theorem placeless_receiver : Placeless receiver := by
  intro s found s' place run
  obtain ⟨kind, declared, declares, rfl⟩ | exists' := ok_receiver.mp run
  · exact ok_receiver.mpr (.inl ⟨kind, declared, placeless_head place declares, rfl⟩)
  · exact ok_receiver.mpr (.inr (placeless_existing place exists'))

theorem Distributed.withPlace {receivers : List Receiver} {values settled : List Expr}
    (distributed : Distributed s receivers values settled s') (place : Place) :
    Distributed (s.withPlace place) receivers values settled (s'.withPlace place) := by
  cases distributed with
  | each count singles fitted => exact .each (s := s.withPlace place) count singles fitted
  | results several count joined => exact .results (s := s.withPlace place) several count joined

theorem placeless_multipleRest (first : Receiver) : Placeless (multipleRest first) := by
  intro s st s' place run
  obtain ⟨others, values, settled, scopes, s₁, s₂, s₃, receivers, assign, given, ends,
    distributed, declares, rfl, rfl⟩ := ok_multipleRest.mp run
  have targets : AfterCommas receiver (s.withPlace place) others (s₁.withPlace place) :=
    afterCommas_withPlace placeless_receiver receivers
  have separated := placeless_separated advances_placed placeless_placed place given
  exact ok_multipleRest.mpr ⟨others, values, settled, scopes, _, _, s₃.withPlace place, targets,
    assign, separated, ends, distributed.withPlace place, declares, rfl, rfl⟩

theorem placeless_declarationStatement : Placeless declarationStatement := by
  intro s st s' place run
  obtain ⟨found, s₁, declares, ⟨comma, rest⟩ | ⟨single, declaration, rest, rfl⟩⟩ :=
    ok_declarationStatement.mp run
  · exact ok_declarationStatement.mpr
      ⟨found, _, placeless_head place declares, .inl ⟨comma, placeless_multipleRest _ place rest⟩⟩
  · exact ok_declarationStatement.mpr
      ⟨found, _, placeless_head place declares,
        .inr ⟨single, declaration, placeless_declarationRest _ place rest, rfl⟩⟩

theorem placeless_expressionStatement : Placeless expressionStatement := by
  intro s st s' place run
  obtain ⟨several, found, s₁, exists', rest⟩ | ⟨single, e, s₁, reads, action, ends, rfl, rfl⟩ :=
    ok_expressionStatement.mp run
  · exact ok_expressionStatement.mpr
      (.inl ⟨several, found, _, placeless_existing place exists',
        placeless_multipleRest _ place rest⟩)
  · exact ok_expressionStatement.mpr
      (.inr ⟨single, e, _, reads.withPlace place, action, ends, rfl, rfl⟩)

theorem placeless_condition (statement : String) : Placeless (condition statement) := by
  intro s e s' place run
  obtain ⟨colon, opens, type, s₁, reads, closes, ends, single, bool, rfl⟩ := ok_condition.mp run
  exact ok_condition.mpr ⟨colon, opens, type, _, reads.withPlace place, closes, ends,
    single, bool, rfl⟩

theorem placeless_startOfLoop : Placeless startOfLoop := by
  intro s start s' place run
  obtain ⟨kind, found, declaration, s₁, declares, int, rest, rfl⟩ |
    ⟨kind, target, value, type, s₁, reads, int, ends, rfl, rfl⟩ := ok_startOfLoop.mp run
  · exact ok_startOfLoop.mpr (.inl ⟨kind, found, declaration, _, placeless_head place declares, int,
      placeless_declarationRest _ place rest, rfl⟩)
  · exact ok_startOfLoop.mpr
      (.inr ⟨kind, target, value, type, _, reads.withPlace place, int, ends, rfl, rfl⟩)

theorem placeless_loopHeader : Placeless loopHeader := by
  intro s header s' place run
  obtain ⟨start, condition, update⟩ := header
  obtain ⟨s₁, s₂, begins, conditionReads, isCondition, ends, updateReads, isUpdate⟩ :=
    ok_loopHeader.mp run
  exact ok_loopHeader.mpr ⟨_, _, placeless_startOfLoop place begins, conditionReads.withPlace place,
    isCondition, ends, updateReads.withPlace place, isUpdate⟩

theorem placeless_parameter : Placeless parameter := by
  intro s found s' place run
  obtain ⟨name, colon, type, reads, rfl⟩ := ok_parameter.mp run
  exact ok_parameter.mpr ⟨name, colon, type, reads.withPlace place, rfl⟩

theorem placeless_parameters : Placeless parameters := by
  intro s found s' place run
  obtain ⟨opens, s₁, list, closes, rfl⟩ := ok_parameters.mp run
  exact ok_parameters.mpr ⟨opens, _, list.withPlace placeless_parameter, closes, rfl⟩

theorem placeless_resultTypes : Placeless resultTypes := by
  intro s types s' place run
  obtain ⟨colon, opens, s₁, list, closes, rfl⟩ | ⟨noColon, rfl, rfl⟩ := ok_resultTypes.mp run
  · have separated := placeless_separated (advances_writtenType .lowest)
      (placeless_writtenType .lowest) place list
    exact ok_resultTypes.mpr (.inl ⟨colon, opens, _, separated, closes, rfl⟩)
  · exact ok_resultTypes.mpr (.inr ⟨noColon, rfl, rfl⟩)

theorem placeless_givenResults : Placeless givenResults := by
  intro s values s' place run
  obtain ⟨colon, ⟨opens, s₁, list, closes, rfl⟩ | ⟨single, e, reads, noComma, rfl⟩⟩ :=
    ok_givenResults.mp run
  · have separated := placeless_separated advances_placed placeless_placed place list
    exact ok_givenResults.mpr ⟨colon, .inl ⟨opens, _, separated, closes, rfl⟩⟩
  · exact ok_givenResults.mpr ⟨colon, .inr ⟨single, e, reads.withPlace place, noComma, rfl⟩⟩

/-! What does look at the place. -/

/-- A `return` looks at the function around it and at nothing else of the place. -/
theorem returnStatement_withPlace {st : Stmt} {place : Place}
    (same : place.function = s.place.function) (run : returnStatement s = .ok st s') :
    returnStatement (s.withPlace place) = .ok st (s'.withPlace place) := by
  obtain ⟨function, values, s₁, inside, given, ends, count, types, settled, pool, singles,
    fitted, rfl, rfl⟩ :=
    ok_returnStatement.mp run
  refine ok_returnStatement.mpr ⟨function, values, s₁.withPlace place, same.trans inside, ?_,
    ends, count, types, settled, pool, singles, fitted, rfl, rfl⟩
  rcases given with ⟨none, rfl, rfl⟩ | ⟨some, given⟩
  · exact .inl ⟨none, rfl, rfl⟩
  · exact .inr ⟨some, placeless_givenResults place given⟩

theorem loopControl_withPlace {st : Stmt} {place : Place} (same : place.inLoop = s.place.inLoop)
    (run : loopControl s = .ok st s') :
    loopControl (s.withPlace place) = .ok st (s'.withPlace place) := by
  obtain ⟨inLoop, ends, rfl, rfl⟩ := ok_loopControl.mp run
  exact ok_loopControl.mpr ⟨same.trans inLoop, ends, rfl, rfl⟩

theorem Heads.withPlace {signature : Signature} {place : Place}
    (same : place.inFunction = s.place.inFunction) (heads : Heads s signature s') :
    Heads (s.withPlace place) signature (s'.withPlace place) := by
  obtain ⟨outside, colon, name, read, results⟩ := heads
  exact .intro (s := s.withPlace place) (same.trans outside) colon name
    (placeless_parameters place read)
    (placeless_resultTypes place results)

end ColonScript.Reading
