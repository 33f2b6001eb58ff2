import ColonScript.Proofs.Printing.ReadBack
import ColonScript.Proofs.Printing.ScriptTokens
import ColonScript.Proofs.Printing.Sourced
import ColonScript.Proofs.Reading.Stems

/-! What each part of a statement is read as again from its own tokens, expressions and written
types included: the same part, up to the places at which its names and values stand. -/

namespace ColonScript.Reading
open Token (Kind)
open Ty Typing
open Spelling (parens listed ofKeyword annotated headed)
open ColonScript.Expr (tokensOf)

variable {s s₁ s' t t₁ t' : Session} {more : List Spelling} {first : Spelling} {e : Expr}

/-- The state stands where the other stands, with these tokens ahead and any types in the pool. -/
structure Poised (s : Session) (ahead : List Spelling) (t : Session) : Prop where
  ready : Ready s.scopes ahead t
  place : t.place = s.place

namespace Poised

theorem kind_eq (poised : Poised s more t) : t.kind = leadKind more := poised.ready.kind_eq

theorem kind (poised : Poised s (first :: more) t) : t.kind = first.1 := poised.ready.kind

theorem value (poised : Poised s (first :: more) t) : t.current.value = first.2 :=
  poised.ready.value

theorem scopes (poised : Poised s more t) : t.scopes = s.scopes := poised.ready.scopes

theorem skip (poised : Poised s (first :: more) t) : Poised s more t.next :=
  ⟨poised.ready.next, poised.place⟩

theorem next (poised : Poised s (first :: more) t) : Poised s.next more t.next :=
  ⟨poised.ready.next, poised.place⟩

theorem withPool {pool pool' : Pool} (poised : Poised s more t) (faithful : pool'.Faithful) :
    Poised (s.withPool pool) more (t.withPool pool') :=
  ⟨poised.ready.withPool faithful, poised.place⟩

/-- What comes to stand ahead of the one comes to stand ahead of the other. -/
theorem onward {ahead : List Spelling} (poised : Poised s ahead t) (before : Onward s s')
    (onward : Onward t t') (ready : Ready s.scopes more t') : Poised s' more t' := by
  refine ⟨?_, onward.place.trans (poised.place.trans before.place.symm)⟩
  rw [before.scopes]
  exact ready

theorem withScopes (poised : Poised s more t) (scopes : ScopeStack) :
    Poised (s.withScopes scopes) more (t.withScopes scopes) :=
  ⟨⟨poised.ready.standard, rfl, poised.ready.faithful, poised.ready.facing⟩, poised.place⟩

theorem withPlace (poised : Poised s more t) (place : Place) :
    Poised (s.withPlace place) more (t.withPlace place) :=
  ⟨⟨poised.ready.standard, poised.scopes, poised.ready.faithful, poised.ready.facing⟩, rfl⟩

theorem push (poised : Poised s more t) : Poised s.push more t.push :=
  ⟨⟨poised.ready.standard, congrArg ScopeStack.push poised.scopes, poised.ready.faithful,
    poised.ready.facing⟩, poised.place⟩

theorem pop (poised : Poised s more t) : Poised s.pop more t.pop :=
  ⟨⟨poised.ready.standard, congrArg ScopeStack.pop poised.scopes, poised.ready.faithful,
    poised.ready.facing⟩, poised.place⟩

end Poised

/-- Wherever the tokens of what the reader has read stand in front of what ends them, it reads the
same part again and leads on alike. -/
def Recurs {α β : Type} (part : α → β) (reader : Read α) (tokens : α → List Spelling)
    (ends : List Spelling → Prop) (good : α → Prop) : Prop :=
  ∀ ⦃s a s' more t⦄, reader s = .ok a s' → Sourced s → good a → Poised s (tokens a ++ more) t →
    ends more →
    ∃ b t', reader t = .ok b t' ∧ part b = part a ∧ Poised s' more t'

/-! Expressions and written types. -/

theorem Sourced.again (sourced : Sourced s) (reads : Reads s (.expr .lowest e) s')
    (finite : e.Finite) (poised : Poised s (e.tokens ++ more) t) (stops : Stops more) :
    ∃ t', Reads t (.expr .lowest e) t' ∧ Poised s' more t' := by
  have rereads : Rereads s.scopes e :=
    rereads_of_reads reads ⟨sourced.kept.grounded, sourced.scanned, rfl⟩ trivial finite
  obtain ⟨t', ready, read⟩ := rereads.whole poised.ready stops
  exact ⟨t', read, poised.onward reads.onward read.onward ready⟩

theorem recurs_placed : Recurs Prod.fst (placed expression) (·.1.tokens) Stops (·.1.Finite) := by
  intro s value s' more t run sourced finite poised stops
  obtain ⟨t', read, after⟩ := sourced.again (reads_of_placed run) finite poised stops
  exact ⟨(value.1, t.here), t', ok_placed.mpr ⟨ok_expression.mpr read, rfl⟩, rfl, after⟩

theorem Sourced.againType {type : Ty} (sourced : Sourced s)
    (reads : ReadsType s (.whole .lowest type) s')
    (poised : Poised s (type.tokens ++ more) t) (ends : leadKind more ≠ .openBracket) :
    ∃ t', ReadsType t (.whole .lowest type) t' ∧ Poised s' more t' := by
  obtain ⟨standard, scopes, faithful, facing⟩ := poised.ready
  obtain ⟨t', read, behind, faithful'⟩ :=
    readsType_whole (sourced.type reads).1 standard faithful facing ends
  have onward := read.onward
  exact ⟨t', read, poised.onward reads.onward onward
    ⟨onward.grammar.trans standard, onward.scopes.trans scopes, faithful', behind⟩⟩

theorem recurs_type :
    Recurs id (writtenType .lowest) Ty.tokens (leadKind · ≠ .openBracket) fun _ => True := by
  intro s type s' more t run sourced _ poised ends
  obtain ⟨t', read, after⟩ := sourced.againType (ok_writtenType.mp run) poised ends
  exact ⟨type, t', ok_writtenType.mpr read, rfl, after⟩

theorem kind_ofKeyword (constant : Bool) :
    (ofKeyword constant).1 = if constant then .constWord else .varWord := by
  cases constant <;> rfl

/-- A name, its colon and its type. -/
theorem Sourced.againNamed {type : Ty} (sourced : Sourced s)
    (reads : ReadsType s.next.next (.whole .lowest type) s')
    (poised : Poised s (annotated s.current.value type ++ more) t)
    (ends : leadKind more ≠ .openBracket) :
    t.kind = .identifier ∧ t.current.value = s.current.value ∧ t.next.kind = .colon ∧
      ∃ t', ReadsType t.next.next (.whole .lowest type) t' ∧ Poised s' more t' := by
  have behind : Poised s.next.next (type.tokens ++ more) t.next.next := poised.next.next
  exact ⟨poised.kind, poised.value, poised.next.kind, sourced.next.next.againType reads behind ends⟩

theorem recurs_head :
    Recurs Head.target head (fun found => found.target.tokens) (leadKind · ≠ .openBracket) fun _ =>
      True := by
  intro s found s' more t run sourced _ poised ends
  obtain ⟨_, _, type, reads, rfl⟩ := ok_head.mp run
  have behind : Poised s.next (annotated s.next.current.value type ++ more) t.next := poised.next
  obtain ⟨name, same, colon, t', read, after⟩ := sourced.next.againNamed reads behind ends
  have keyword : decide (t.kind = .constWord) = decide (s.kind = .constWord) := by
    rw [poised.kind, kind_ofKeyword]
    by_cases constant : s.kind = .constWord <;> simp [constant]
  refine ⟨_, t', ok_head.mpr ⟨name, colon, type, read, rfl⟩, ?_, after⟩
  rw [keyword, same]
  rfl

theorem recurs_parameter :
    Recurs id parameter Parameter.tokens (leadKind · ≠ .openBracket) fun _ => True := by
  intro s found s' more t run sourced _ poised ends
  obtain ⟨_, _, type, reads, rfl⟩ := ok_parameter.mp run
  obtain ⟨name, same, colon, t', read, after⟩ := sourced.againNamed reads poised ends
  exact ⟨_, t', ok_parameter.mpr ⟨name, colon, type, read, rfl⟩, by rw [same], after⟩

theorem recurs_existing :
    Recurs id existing (fun found => found.target.tokens) (fun _ => True) fun _ => True := by
  intro s found s' more t run sourced _ poised _
  obtain ⟨kind, binding, bound, mutable, rfl, rfl⟩ := ok_existing.mp run
  have value : t.current.value = s.current.value := poised.value
  rw [← value, ← poised.scopes] at bound mutable
  refine ⟨_, t.next, ok_existing.mpr ⟨poised.kind, binding, bound, mutable, rfl, rfl⟩,
    ?_, poised.next⟩
  rw [value]

theorem recurs_receiver :
    Recurs Receiver.target receiver (fun found => found.target.tokens) (leadKind · ≠ .openBracket)
      fun _ => True := by
  intro s found s' more t run sourced _ poised ends
  obtain ⟨kind, declared, declares, rfl⟩ | exists' := ok_receiver.mp run
  · obtain ⟨other, t', read, same, after⟩ := recurs_head declares sourced trivial poised ends
    have kind' : t.kind = .varWord ∨ t.kind = .constWord := by
      rw [poised.kind, kind_ofKeyword]
      split <;> simp
    exact ⟨.declared other, t', ok_receiver.mpr (.inl ⟨kind', other, read, rfl⟩), same, after⟩
  · obtain ⟨_, t', read, rfl, after⟩ := recurs_existing exists' sourced trivial poised trivial
    exact ⟨_, t', ok_receiver.mpr (.inr read), rfl, after⟩

/-! Parts between commas. -/

section Lists
variable {α β : Type} {part : α → β} {item : Read α} {tokens : α → List Spelling}
    {ends : List Spelling → Prop}
  {good : α → Prop} {as : List α}

theorem Recurs.afterCommas (recurs : Recurs part item tokens ends good)
    (keeps : ∀ ⦃s a s'⦄, item s = .ok a s' → Sourced s → Sourced s')
    (comma : ∀ ⦃more⦄, leadKind more = .comma → ends more)
    (repeats : AfterCommas item s as s') (sourced : Sourced s) (each : ∀ a ∈ as, good a)
    (poised : Poised s (Spelling.afterCommas (as.map tokens) ++ more) t)
    (last : leadKind more ≠ .comma)
    (stops : ends more) :
    ∃ bs t', AfterCommas item t bs t' ∧ bs.map part = as.map part ∧ Poised s' more t' := by
  induction repeats generalizing t with
  | done =>
    have kind : t.kind = leadKind more := poised.kind_eq
    exact ⟨[], t, .done (by simpa [kind] using last), rfl, poised⟩
  | @next s s₁ s' a as _ first _ ih =>
    obtain ⟨here, later⟩ := List.forall_mem_cons.mp each
    have opened : Poised s
      ((.comma, ",") :: (tokens a ++ (Spelling.afterCommas (as.map tokens) ++ more))) t := by
      simpa [Spelling.afterCommas] using poised
    have ended : ends (Spelling.afterCommas (as.map tokens) ++ more) := by
      cases as with
      | nil => exact stops
      | cons => exact comma rfl
    obtain ⟨b, t₁, read, same, between⟩ := recurs first.2 sourced.next here opened.next ended
    obtain ⟨bs, t', others, sames, after⟩ := ih (keeps first.2 sourced.next) later between
    exact ⟨b :: bs, t', .next (by simp [opened.kind]) ⟨opened.kind, read⟩ others, by
      simp [same, sames], after⟩

theorem Recurs.separated (recurs : Recurs part item tokens ends good)
    (keeps : ∀ ⦃s a s'⦄, item s = .ok a s' → Sourced s → Sourced s')
    (comma : ∀ ⦃more⦄, leadKind more = .comma → ends more)
    (advances : Advances item) :
    Recurs (List.map part) (separated item) (fun as => listed (as.map tokens))
      (fun more => leadKind more ≠ .comma ∧ ends more) (fun as => ∀ a ∈ as, good a) := by
  intro s as s' more t run sourced each poised stops
  obtain ⟨first, rest, s₁, value, others, rfl⟩ := (ok_separated advances).mp run
  obtain ⟨here, later⟩ := List.forall_mem_cons.mp each
  have opened : Poised s (tokens first ++ (Spelling.afterCommas (rest.map tokens) ++ more)) t := by
    simpa [listed] using poised
  have ended : ends (Spelling.afterCommas (rest.map tokens) ++ more) := by
    cases rest with
    | nil => exact stops.2
    | cons => exact comma rfl
  obtain ⟨b, t₁, read, same, between⟩ := recurs value sourced here opened ended
  obtain ⟨bs, t', others', sames, after⟩ :=
    recurs.afterCommas keeps comma others (keeps value sourced) later between stops.1 stops.2
  exact ⟨b :: bs, t', (ok_separated advances).mpr ⟨b, bs, t₁, read, others', rfl⟩, by
    simp [same, sames], after⟩

theorem Recurs.listed {closer : Kind} {first : Bool} (recurs : Recurs id item tokens ends good)
    (keeps : ∀ ⦃s a s'⦄, item s = .ok a s' → Sourced s → Sourced s')
    (opens : ∀ ⦃s a s'⦄, item s = .ok a s' → s.kind ≠ closer)
    (comma : ∀ ⦃more⦄, leadKind more = .comma → ends more) (apart : closer ≠ .comma)
    (listed : Listed closer (Reader.Gives item) first s as s') (sourced : Sourced s)
    (each : ∀ a ∈ as, good a)
    (poised : Poised s (itemized first (as.map tokens) ++ more) t) (closes : leadKind more = closer)
    (stops : ends more) : ∃ t', Listed closer (Reader.Gives item) first t as t' ∧
    Poised s' more t' := by
  induction listed generalizing t with
  | done =>
    rw [List.map_nil, itemized_nil, List.nil_append] at poised
    exact ⟨t, .done (poised.kind_eq.trans closes), poised⟩
  | @item first s s₁ s₂ s' a as _ separated value _ ih =>
    obtain ⟨here, later⟩ := List.forall_mem_cons.mp each
    obtain ⟨t₁, separated', ready⟩ := poised.ready.item
    have opened := poised.onward (onward_separated separated) (onward_separated separated') ready
    have start := keeps_separated (I := Sourced) (fun _ => Sourced.next) separated sourced
    have ended : ends (Spelling.afterCommas (as.map tokens) ++ more) := by
      cases as with
      | nil => exact stops
      | cons => exact comma rfl
    obtain ⟨b, t₂, read, rfl, between⟩ := recurs value start here opened ended
    obtain ⟨t', others, after⟩ := ih (keeps value start) later between
    have more : t.kind ≠ closer := by
      cases first with
      | true =>
        obtain rfl : t₁ = t := separated'
        exact opens read
      | false => exact separated'.1 ▸ apart.symm
    exact ⟨t', .item more separated' read others, after⟩

end Lists

/-! Declarations. -/

/-- A value is read again behind its equals sign, whether it was given or made up. -/
theorem again_givenValue {found other : Head} {value : Expr}
    (head : (Receiver.declared found).Spelled)
    (same : other.target = found.target)
    (given : s.kind = .semicolon ∧ defaultValue found s = .ok value s' ∨
      s.kind ≠ .semicolon ∧ givenValue found s = .ok value s') (sourced : Sourced s)
        (finite : value.Finite)
    (poised : Poised s ((.assign, "=") :: (value.tokens ++ more)) t) (stops : Stops more) :
    ∃ t', givenValue other t = .ok value t' ∧ Poised s' more t' := by
  obtain ⟨_, _, type⟩ := Target.declared.inj same
  have written : found.type.Written := head.type
  have proper := written.proper
  obtain ⟨_, default⟩ | ⟨_, given⟩ := given
  · obtain ⟨_, known, rfl⟩ := ok_defaultValue.mp default
    obtain ⟨token, make, name, literal, carries, member, named', rfl, _⟩ :=
      literal_of_defaultValue written known
    rw [named'] at finite poised proper ⊢
    have rereads : Rereads s'.scopes (make (named name)) :=
      rereads_literal literal member carries finite
    obtain ⟨t₁, ready, read⟩ := rereads.whole poised.skip.ready stops
    have between := poised.skip.onward (.refl s') read.onward ready
    have single : (make (named name)).types = [named name] := by cases literal <;> rfl
    have wanted : other.type = named name := type.trans named'
    obtain ⟨joined, faithful⟩ := Pool.join_eq between.ready.faithful proper proper
    rw [common?_self proper.plain_eq] at joined
    have settled := settle_of_settled single rfl (named name)
    refine ⟨_, ok_givenValue.mpr ⟨poised.kind, make (named name), named name, named name,
      t₁, read, single, ?_, settled.symm, rfl⟩, ?_⟩
    · rw [wanted]
      exact joined
    · rw [wanted]
      have after : Poised (s'.withPool s'.pool) more (t₁.joining (named name) (named name)) :=
        between.withPool faithful
      exact after
  · obtain ⟨_, e, own, both, s₂, reads, single, joined, rfl, rfl⟩ := ok_givenValue.mp given
    rw [Expr.tokens_settle] at poised
    obtain ⟨ownProper, grounded⟩ := grounded_of_expr sourced.next.kept.grounded reads
    obtain ⟨t₁, read, between⟩ :=
      sourced.next.again reads (Expr.finite_settle.mp finite) poised.next stops
    obtain ⟨joined', faithful⟩ :=
      joinsTo_of_joined grounded.pool proper (proper_of_single ownProper single) joined
        between.ready.faithful
    have after : Poised (s₂.joining found.type own) more (t₁.joining found.type own) :=
      between.withPool faithful
    refine ⟨_, ok_givenValue.mpr ⟨poised.kind, e, own, both, t₁, read, single, ?_, rfl, rfl⟩, ?_⟩
    · rw [type]
      exact joined'
    · rw [type]
      exact after

theorem again_declarationRest {found other : Head} {declaration : Declaration}
    (head : (Receiver.declared found).Spelled) (same : other.target = found.target)
    (run : declarationRest found s = .ok declaration s') (sourced : Sourced s)
    (finite : declaration.value.Finite)
    (poised : Poised s
      ((.assign, "=") :: (declaration.value.tokens ++ (.semicolon, ";") :: more)) t) :
    ∃ t', declarationRest other t = .ok declaration t' ∧ Poised s' more t' := by
  obtain ⟨value, s₁, scopes, given, ends, declares, rfl, rfl⟩ := ok_declarationRest.mp run
  obtain ⟨t₁, given', between⟩ := again_givenValue head same given sourced finite poised rfl
  obtain ⟨constant, name, type⟩ := Target.declared.inj same
  have declares' : t₁.scopes.declare ⟨other.name, other.constant, other.type⟩ other.position =
    .ok scopes := by
    rw [constant, name, type, between.scopes]
    exact declares_anywhere declares _
  refine ⟨_, ok_declarationRest.mpr ⟨value, t₁, scopes, .inr ⟨by simp [poised.kind], given'⟩,
    between.kind, declares', ?_, rfl⟩, between.next.withScopes scopes⟩
  rw [constant, name, type]

/-! Several targets. -/

theorem joined_anywhere {pool pool' other : Pool} {wanted types : List Ty}
    (joined : Joined pool wanted types pool') (faithful : pool.Faithful)
    (faithful' : other.Faithful) (wantedProper : AllProper wanted)
    (typesProper : AllProper types) :
    ∃ other', Joined other wanted types other' ∧ other'.Faithful := by
  induction joined generalizing other with
  | nil => exact ⟨other, .nil, faithful'⟩
  | cons joined _ ih =>
    obtain ⟨wantedFirst, wantedRest⟩ := List.forall_mem_cons.mp wantedProper
    obtain ⟨typeFirst, typesRest⟩ := List.forall_mem_cons.mp typesProper
    have here := (Pool.join_eq faithful wantedFirst typeFirst).2
    obtain ⟨joined', there⟩ := joinsTo_of_joined faithful wantedFirst typeFirst joined faithful'
    obtain ⟨other', rest, after⟩ := ih here there wantedRest typesRest
    exact ⟨other', .cons joined' rest, after⟩

theorem Distributed.again {receivers others : List Receiver} {values settled : List Expr}
    {env : Env} (distributed : Distributed s receivers values settled s')
    (same : others.map Receiver.target = receivers.map Receiver.target)
    (written : AllProper (receivers.map Receiver.type)) (typed : ∀ e ∈ values, Typed env e)
    (faithful : s.pool.Faithful)
    (poised : Poised s more t) : ∃ t', Distributed t others values settled t' ∧
    Poised s' more t' := by
  have types := types_of_targets same
  have count : others.length = receivers.length := by simpa using congrArg List.length same
  cases distributed with
  | each even singles fitted =>
    have proper := proper_of_singles singles typed
    rw [← snd_zip singles] at proper
    obtain ⟨pool, fitted', faithful'⟩ :=
      fitsTo_of_fitted fitted faithful written proper poised.ready.faithful
    rw [← types] at fitted'
    exact ⟨_, .each (even.trans count.symm) singles fitted', poised.withPool faithful'⟩
  | results several even joined =>
    have proper := (typed _ List.mem_cons_self).proper
    obtain ⟨pool, joined', faithful'⟩ :=
      joined_anywhere joined faithful poised.ready.faithful written proper
    rw [← types] at joined'
    rw [← count] at several even
    exact ⟨_, .results several even joined', poised.withPool faithful'⟩

/-- What stands behind the first of several targets is read again behind it. -/
theorem again_multipleRest {first : Receiver} {st : Stmt} (spelled : first.Spelled)
    (run : multipleRest first s = .ok st s') (sourced : Sourced s) (comma : s.kind = .comma)
    (finite : ∀ e ∈ st.exprs, e.Finite) :
    ∃ rest, st.tokens = first.target.tokens ++ rest ∧ (∀ more, leadKind (rest ++ more) = .comma) ∧
      ∀ ⦃other more t⦄, Receiver.target other = first.target → Poised s (rest ++ more) t →
        ∃ t', multipleRest other t = .ok st t' ∧ Poised s' more t' := by
  obtain ⟨others, values, settled, scopes, s₁, s₂, s₃, receivers, _, given, _, distributed,
    declares, rfl, rfl⟩ :=
    ok_multipleRest.mp run
  obtain ⟨othersSpelled, between⟩ := sourced.receivers receivers
  have settles := settled_of_distributed distributed
  refine ⟨Spelling.afterCommas (others.map fun found => found.target.tokens) ++
    (.assign, "=") :: (listed (values.map (·.1.tokens)) ++ [(.semicolon, ";")]), ?_, ?_,
    fun other more t same poised => ?_⟩
  · have tokens : (values.map (·.1)).map Expr.tokens = values.map (·.1.tokens) := by simp
    rw [Stmt.tokens, settles.tokensOf_eq, Expr.tokensOf_eq_map, tokens]
    simp [listed, Function.comp_def]
  · cases receivers with
    | done last => simp [comma] at last
    | next => exact fun _ => rfl
  · simp only [List.append_assoc, List.cons_append, List.nil_append] at poised
    obtain ⟨others', t₁, receivers', sames, atAssign⟩ := recurs_receiver.afterCommas
      (fun _ _ _ run sourced => (Sourced.receiver run sourced).2) (fun _ lead => by simp [lead])
      receivers sourced
      (fun _ _ => trivial) poised (by simp [leadKind]) (by simp [leadKind])
    have finites : ∀ value ∈ values, value.1.Finite := by
      simpa using (Expr.Finite.settled settles).mp finite
    obtain ⟨values', t₂, given', sameValues, atEnd⟩ := recurs_placed.separated
      (fun _ _ _ run sourced => (Sourced.placed run sourced).2)
      (fun _ lead => stops_of_lead lead rfl) advances_placed
      given between.next finites atAssign.next ⟨by simp [leadKind], rfl⟩
    have behind := (between.next.values given).2
    have typed := (typed_of_values given between.next.stands).1
    have targets : (other :: others').map Receiver.target =
      (first :: others).map Receiver.target := by
      rw [List.map_cons, List.map_cons, same, sames]
    have wanted : AllProper ((first :: others).map Receiver.type) := by
      intro type member
      obtain ⟨found, within, rfl⟩ := List.mem_map.mp member
      exact (List.forall_mem_cons.mpr ⟨spelled, othersSpelled⟩ found within).type.proper
    obtain ⟨t₃, distributed', after⟩ :=
      distributed.again targets wanted typed behind.next.kept.pool atEnd.next
    have declares' := declares.anywhere targets
    rw [← after.scopes] at declares'
    rw [← sameValues] at distributed'
    exact ⟨_, ok_multipleRest.mpr ⟨others', values', settled, scopes, t₁, t₂, t₃, receivers',
      atAssign.kind, given', atEnd.kind, distributed', declares',
      congrArg (Stmt.multiple · settled) targets.symm, rfl⟩, after.withScopes scopes⟩

/-! The statements that hold no other. -/

theorem again_declarationStatement {st : Stmt} (run : declarationStatement s = .ok st s')
    (sourced : Sourced s) (finite : ∀ e ∈ st.exprs, e.Finite)
    (poised : Poised s (st.tokens ++ more) t) :
    ∃ t', declarationStatement t = .ok st t' ∧ Poised s' more t' := by
  obtain ⟨found, s₁, heads, ⟨comma, rest⟩ | ⟨_, declaration, rest, rfl⟩⟩ :=
    ok_declarationStatement.mp run
  · obtain ⟨spelled, between⟩ := sourced.head heads
    obtain ⟨tokens, written, leads, again⟩ := again_multipleRest spelled rest between comma finite
    rw [written, List.append_assoc] at poised
    obtain ⟨other, t₁, heads', same, between'⟩ :=
      recurs_head heads sourced trivial poised (by simp [leads])
    obtain ⟨t', rest', after⟩ := again same between'
    exact ⟨t', ok_declarationStatement.mpr
      ⟨other, t₁, heads', .inl ⟨between'.kind_eq.trans (leads more), rest'⟩⟩, after⟩
  · obtain ⟨spelled, between⟩ := sourced.head heads
    obtain ⟨_, _, _, _, _, _, same, _⟩ := ok_declarationRest.mp rest
    have whole : Poised s (found.target.tokens ++
        (.assign, "=") :: (declaration.value.tokens ++ (.semicolon, ";") :: more)) t := by
      simpa [same, Stmt.tokens, Declaration.tokens, Declaration.headTokens, Target.tokens,
        Receiver.target] using poised
    obtain ⟨other, t₁, heads', same, between'⟩ :=
      recurs_head heads sourced trivial whole (by simp [leadKind])
    obtain ⟨t', rest', after⟩ :=
      again_declarationRest spelled same rest between (finite _ List.mem_cons_self) between'
    exact ⟨t', ok_declarationStatement.mpr
      ⟨other, t₁, heads', .inr ⟨by simp [between'.kind], declaration, rest', rfl⟩⟩, after⟩

/-- A name that a comma follows is no action. -/
theorem not_comma_of_action (standard : s.grammar = .standard)
    (reads : Reads s (.expr .lowest e) s')
    (action : e.isAction = true) : ¬(s.kind = .identifier ∧ s.next.kind = .comma) := by
  rintro ⟨name, comma⟩
  cases reads with
  | expr opens operand rest =>
    rw [standard, name] at opens
    cases opens
    cases operand with
    | name =>
      cases rest with
      | stop => cases action
      | binary continues | step continues | assign continues | index continues =>
        rw [Session.next_grammar, standard, comma] at continues
        cases continues
    | builtinCall _ opens | call _ opens =>
      rw [comma] at opens
      cases opens

theorem again_expressionStatement {st : Stmt} (run : expressionStatement s = .ok st s')
    (sourced : Sourced s) (finite : ∀ e ∈ st.exprs, e.Finite)
    (poised : Poised s (st.tokens ++ more) t) :
    ∃ t', expressionStatement t = .ok st t' ∧ Poised s' more t' := by
  obtain ⟨⟨_, comma⟩, found, s₁, exists', rest⟩ | ⟨_, e, s₁, reads, action, ends, rfl, rfl⟩ :=
    ok_expressionStatement.mp run
  · obtain ⟨spelled, between⟩ := sourced.existing exists'
    obtain ⟨kind, binding, bound, mutable, rfl, rfl⟩ := ok_existing.mp exists'
    obtain ⟨tokens, written, leads, again⟩ := again_multipleRest spelled rest between comma finite
    rw [written, List.append_assoc] at poised
    obtain ⟨_, t₁, exists'', rfl, between'⟩ :=
      recurs_existing exists' sourced trivial poised trivial
    obtain ⟨t', rest', after⟩ := again rfl between'
    have second : t.next.kind = .comma := poised.next.kind_eq.trans (leads more)
    exact ⟨t', ok_expressionStatement.mpr (.inl ⟨⟨poised.kind, second⟩, _, t₁, exists'', rest'⟩),
      after⟩
  · have whole : Poised s (e.tokens ++ (.semicolon, ";") :: more) t := by
      simpa [Stmt.tokens] using poised
    obtain ⟨t₁, reads', after⟩ := sourced.again reads (finite e List.mem_cons_self) whole rfl
    have apart := not_comma_of_action poised.ready.standard reads' action
    exact ⟨_,
      ok_expressionStatement.mpr (.inr ⟨apart, e, t₁, reads', action, after.kind, rfl, rfl⟩),
      after.next⟩

theorem again_loopControl {st : Stmt} (kind : s.kind = .continueWord ∨ s.kind = .breakWord)
    (run : loopControl s = .ok st s') (poised : Poised s (st.tokens ++ more) t) :
    ∃ t', loopControl t = .ok st t' ∧ Poised s' more t' := by
  obtain ⟨inside, _, rfl, rfl⟩ := ok_loopControl.mp run
  rw [← poised.place] at inside
  rcases kind with kind | kind
  · rw [if_pos kind] at poised ⊢
    have same : t.kind = .continueWord := poised.kind
    exact ⟨_, ok_loopControl.mpr ⟨inside, poised.next.kind, by rw [if_pos same], rfl⟩,
      poised.next.next⟩
  · have other : s.kind ≠ .continueWord := by simp [kind]
    rw [if_neg other] at poised ⊢
    have same : t.kind = .breakWord := poised.kind
    exact ⟨_, ok_loopControl.mpr ⟨inside, poised.next.kind, by simp [same], rfl⟩, poised.next.next⟩

/-! Conditions and the headers of loops. -/

theorem again_condition {statement : String} (run : condition statement s = .ok e s')
    (sourced : Sourced s) (finite : e.Finite) (poised : Poised s (headed e.tokens ++ more) t) :
    ∃ t', condition statement t = .ok e t' ∧ Poised s' more t' := by
  obtain ⟨_, _, type, s₁, reads, _, _, single, bool, rfl⟩ := ok_condition.mp run
  have whole : Poised s ((.colon, ":") :: (.openParen, "(") ::
      (e.tokens ++ (.closeParen, ")") :: (.colon, ":") :: more)) t := by
    simpa [headed, parens] using poised
  obtain ⟨t₁, reads', after⟩ := sourced.next.next.again reads finite whole.next.next rfl
  exact ⟨_, ok_condition.mpr ⟨whole.kind, whole.next.kind, type, t₁, reads', after.kind,
    after.next.kind, single, bool, rfl⟩, after.next.next⟩

theorem again_startOfLoop {start : Start} (run : startOfLoop s = .ok start s') (sourced : Sourced s)
    (finite : start.value.Finite)
    (poised : Poised s (start.tokens ++ (.semicolon, ";") :: more) t) :
    ∃ t', startOfLoop t = .ok start t' ∧ Poised s' more t' := by
  obtain ⟨kind, found, declaration, s₁, heads, int, rest, rfl⟩ |
    ⟨kind, target, value, type, s₁, reads, int, _, rfl, rfl⟩ := ok_startOfLoop.mp run
  · obtain ⟨spelled, between⟩ := sourced.head heads
    obtain ⟨_, _, type, _, named⟩ := ok_head.mp heads
    obtain ⟨_, _, _, _, _, _, same, _⟩ := ok_declarationRest.mp rest
    have whole : Poised s (found.target.tokens ++
        (.assign, "=") :: (declaration.value.tokens ++ (.semicolon, ";") :: more)) t := by
      simpa [same, Start.tokens, Declaration.tokens, Declaration.headTokens, Target.tokens,
        Receiver.target] using poised
    obtain ⟨other, t₁, heads', same, between'⟩ :=
      recurs_head heads sourced trivial whole (by simp [leadKind])
    obtain ⟨t', rest', after⟩ := again_declarationRest spelled same rest between finite between'
    have starts : t.kind = .varWord := by
      rw [whole.kind, kind_ofKeyword]
      simp [named, kind]
    rw [← (Target.declared.inj same).2.2] at int
    exact ⟨t', ok_startOfLoop.mpr (.inl ⟨starts, other, declaration, t₁, heads', int, rest', rfl⟩),
      after⟩
  · obtain ⟨t₁, reads', after⟩ := sourced.again reads finite poised rfl
    have name : t.kind = .identifier := poised.kind
    exact ⟨_,
      ok_startOfLoop.mpr (.inr ⟨name, target, value, type, t₁, reads', int, after.kind, rfl, rfl⟩),
      after.next⟩

theorem again_loopHeader {start : Start} {condition update : Expr}
    (run : loopHeader s = .ok (start, condition, update) s') (sourced : Sourced s)
    (startFinite : start.value.Finite)
    (conditionFinite : condition.Finite) (updateFinite : update.Finite)
    (poised : Poised s (start.headerTokens condition update ++ more) t) (stops : Stops more) :
    ∃ t', loopHeader t = .ok (start, condition, update) t' ∧ Poised s' more t' := by
  obtain ⟨s₁, s₂, begins, conditionReads, isCondition, _, updateReads, isUpdate⟩ :=
    ok_loopHeader.mp run
  simp only [Start.headerTokens, List.append_assoc, List.cons_append] at poised
  obtain ⟨t₁, begins', first⟩ := again_startOfLoop begins sourced startFinite poised
  have started := sourced.startOfLoop begins
  obtain ⟨t₂, conditionReads', second⟩ := started.again conditionReads conditionFinite first rfl
  have between := (started.expr conditionReads).2.next
  obtain ⟨t', updateReads', after⟩ := between.again updateReads updateFinite second.next stops
  exact ⟨t', ok_loopHeader.mpr ⟨t₁, t₂, begins', conditionReads', isCondition, second.kind,
    updateReads', isUpdate⟩, after⟩

/-! The heads of functions. -/

theorem Sourced.parameter ⦃s : Session⦄ ⦃found : Parameter⦄ ⦃s' : Session⦄
    (run : Reading.parameter s = .ok found s') (sourced : Sourced s) : Sourced s' := by
  obtain ⟨_, _, type, reads, _⟩ := ok_parameter.mp run
  exact (sourced.next.next.type reads).2

theorem Sourced.parameters {found : List Parameter} (sourced : Sourced s)
    (run : Reading.parameters s = .ok found s') :
    Sourced s' := by
  obtain ⟨_, s₁, list, _, rfl⟩ := ok_parameters.mp run
  have step : ∀ ⦃s found s'⦄, Reading.parameter s = .ok found s' → Sourced s → True ∧ Sourced s' :=
    fun _ _ _ run sourced => ⟨trivial, Sourced.parameter run sourced⟩
  exact (list.each (I := Sourced) (fun _ => Sourced.next) step sourced.next).2.next

theorem again_parameters {found : List Parameter} (run : parameters s = .ok found s')
    (sourced : Sourced s)
    (poised : Poised s (parens (Spelling.listed (found.map Parameter.tokens)) ++ more) t) :
    ∃ t', parameters t = .ok found t' ∧ Poised s' more t' := by
  obtain ⟨_, s₁, list, _, rfl⟩ := ok_parameters.mp run
  have whole : Poised s ((.openParen, "(") ::
      (itemized true (found.map Parameter.tokens) ++ (.closeParen, ")") :: more)) t := by
    simpa [parens, itemized] using poised
  have opens : ∀ ⦃s found s'⦄, Reading.parameter s = .ok found s' → s.kind ≠ .closeParen := by
    intro s found s' run
    simp [(ok_parameter.mp run).1]
  obtain ⟨t₁, list', after⟩ :=
    recurs_parameter.listed Sourced.parameter opens (fun _ lead => by simp [lead])
    (by decide) list sourced.next (fun _ _ => trivial) whole.next rfl (by simp [leadKind])
  exact ⟨_, ok_parameters.mpr ⟨whole.kind, t₁, list', after.kind, rfl⟩, after.next⟩

theorem again_resultTypes {types : List Ty} (run : resultTypes s = .ok types s')
    (sourced : Sourced s) (poised : Poised s (Signature.resultTokens types ++ more) t)
    (ends : leadKind more ≠ .colon) :
    ∃ t', resultTypes t = .ok types t' ∧ Poised s' more t' := by
  obtain ⟨_, _, s₁, list, _, rfl⟩ | ⟨_, rfl, rfl⟩ := ok_resultTypes.mp run
  · have filled : types ≠ [] := by
      obtain ⟨first, rest, _, _, _, rfl⟩ := (ok_separated (advances_writtenType .lowest)).mp list
      exact List.cons_ne_nil first rest
    have whole : Poised s ((.colon, ":") :: (.openParen, "(") ::
        (listed (types.map Ty.tokens) ++ (.closeParen, ")") :: more)) t := by
      simpa [Signature.resultTokens, filled, parens] using poised
    obtain ⟨types', t₁, list', same, after⟩ := recurs_type.separated
      (fun _ _ _ run sourced => (Sourced.type sourced (ok_writtenType.mp run)).2)
      (fun _ lead => by simp [lead])
      (advances_writtenType .lowest) list sourced.next.next (fun _ _ => trivial) whole.next.next
      ⟨by simp [leadKind], by simp [leadKind]⟩
    obtain rfl : types' = types := by simpa using same
    exact ⟨_, ok_resultTypes.mpr (.inl ⟨whole.kind, whole.next.kind, t₁, list', after.kind, rfl⟩),
      after.next⟩
  · have plain : Poised s' more t := by simpa [Signature.resultTokens] using poised
    exact ⟨t, ok_resultTypes.mpr (.inr ⟨plain.kind_eq ▸ ends, rfl, rfl⟩), plain⟩

theorem again_heads {signature : Signature} (heads : Heads s signature s') (sourced : Sourced s)
    (poised : Poised s (first :: (.colon, ":") :: (signature.tokens ++ more)) t)
    (ends : leadKind more ≠ .colon) :
    ∃ t', Heads t signature t' ∧ Poised s' more t' := by
  obtain ⟨outside, _, _, parameters, results⟩ := heads
  simp only [Signature.tokens, List.append_assoc, List.cons_append] at poised
  obtain ⟨t₁, parameters', between⟩ :=
    again_parameters parameters sourced.next.next.next poised.next.next.next
  obtain ⟨t', results', after⟩ :=
    again_resultTypes results (sourced.next.next.next.parameters parameters) between ends
  have value : t.next.next.current.value = s.next.next.current.value := poised.next.next.value
  rw [← poised.place] at outside
  refine ⟨t', ?_, after⟩
  rw [← value]
  exact .intro outside poised.next.kind poised.next.next.kind parameters' results'

end ColonScript.Reading
