import Mathlib.Data.List.Infix
import Mathlib.Logic.Function.Iterate
import ColonScript.Proofs.Reading.Clause

/-! What a reading does to the tokens, whether it succeeds or fails: it passes some of them, never
one that ends the input, and a fault lies where a token begins. The reader of what lies inside is a
parameter of most productions, and so two readers are looked at side by side, which do the same on
everything that is shorter. In this way the bounds of the recursion are shown never to be met. -/

namespace ColonScript.Reading
open Token (Kind)

def Cursor.stream (cursor : Cursor) : List Token := cursor.ahead ++ [cursor.closing.token]

structure Script where
  tokens : List Token
  file : String

def Script.Marks (script : Script) (position : Position) : Prop :=
  ∃ token ∈ script.tokens, position = ⟨token.start, script.file⟩

/-- The state is one of the reading of the script, with fewer than so many tokens ahead. -/
structure Script.Holds (script : Script) (n : Nat) (s : Session) : Prop where
  file : s.file = script.file
  stream : s.cursor.stream <:+ script.tokens
  length : s.ahead.length < n

def Script.of (s : Session) : Script := ⟨s.cursor.stream, s.file⟩

/-- Tokens have been passed, and none of them ends the input. -/
structure Passes (s s' : Session) : Prop where
  file : s'.file = s.file
  closing : s'.cursor.closing = s.cursor.closing
  passed : ∃ tokens, s.ahead = tokens ++ s'.ahead ∧ ∀ token ∈ tokens, token.kind ≠ .eof

variable {α β σ : Type} {script : Script} {n : Nat} {s s₁ s' : Session}

namespace Passes

/-- No token has been passed. -/
theorem still (cursor : s'.cursor = s.cursor) (file : s'.file = s.file) : Passes s s' := by
  refine ⟨file, by rw [cursor], [], ?_, by simp⟩
  show s.cursor.ahead = s'.cursor.ahead
  rw [cursor]

theorem refl (s : Session) : Passes s s := still rfl rfl

theorem trans (first : Passes s s₁) (second : Passes s₁ s') : Passes s s' := by
  obtain ⟨tokens, ahead, kinds⟩ := first.passed
  obtain ⟨tokens', ahead', kinds'⟩ := second.passed
  refine ⟨second.file.trans first.file, second.closing.trans first.closing,
    tokens ++ tokens', ?_, ?_⟩
  · rw [ahead, ahead', List.append_assoc]
  · rw [List.forall_mem_append]
    exact ⟨kinds, kinds'⟩

theorem next (kind : s.kind ≠ .eof) : Passes s s.next :=
  ⟨rfl, rfl, [s.current], ahead_of_kind kind, by simpa using kind⟩

end Passes

theorem Forward.passes (forward : Forward s s') : Passes s s' := by
  obtain ⟨tokens, ahead, kinds⟩ := forward.passed
  exact ⟨forward.file, forward.closing, tokens, ahead, fun token member => (kinds token member).1⟩

namespace Script.Holds

theorem current_mem (holds : script.Holds n s) : s.current ∈ script.tokens := by
  refine holds.stream.subset ?_
  obtain ⟨⟨ahead, closing⟩, _⟩ := s
  cases ahead with
  | nil => exact List.mem_singleton_self _
  | cons token ahead => exact List.mem_cons_self

theorem here (holds : script.Holds n s) : script.Marks s.here :=
  ⟨s.current, holds.current_mem, by rw [Session.here, holds.file]⟩

theorem passes (holds : script.Holds n s) (passes : Passes s s') : script.Holds n s' := by
  obtain ⟨tokens, ahead, _⟩ := passes.passed
  refine ⟨passes.file.trans holds.file, List.IsSuffix.trans ⟨tokens, ?_⟩ holds.stream, ?_⟩
  · simp only [Cursor.stream, passes.closing, ahead, List.append_assoc]
  · have length := holds.length
    rw [ahead, List.length_append] at length
    omega

theorem mono {m : Nat} (holds : script.Holds n s) (le : n ≤ m) : script.Holds m s :=
  ⟨holds.file, holds.stream, Nat.lt_of_lt_of_le holds.length le⟩

theorem step (holds : script.Holds n s) : script.Holds n s.next := by
  obtain ⟨file, stream, length⟩ := holds
  obtain ⟨⟨ahead, closing⟩, _⟩ := s
  cases ahead with
  | nil => exact ⟨file, stream, length⟩
  | cons token ahead =>
    refine ⟨file, List.IsSuffix.trans (List.suffix_cons _ _) stream, ?_⟩
    exact Nat.lt_of_succ_lt length

theorem push (holds : script.Holds n s) : script.Holds n s.push :=
  ⟨holds.file, holds.stream, holds.length⟩

theorem withPlace (holds : script.Holds n s) (place : Place) : script.Holds n (s.withPlace place) :=
  ⟨holds.file, holds.stream, holds.length⟩

/-- Behind a token of the sentence there is less ahead. -/
theorem next (holds : script.Holds (n + 1) s) {kind : Kind} (is : s.kind = kind)
    (inside : inSentence kind = true) :
    script.Holds n s.next := by
  have passed := holds.step
  have shorter := length_next is inside
  have length := holds.length
  exact ⟨passed.file, passed.stream, by omega⟩

/-- One more than there are tokens ahead is enough. -/
protected theorem bound (holds : script.Holds n s) : script.Holds (s.ahead.length + 1) s :=
  ⟨holds.file, holds.stream, Nat.lt_succ_self _⟩

protected theorem of (s : Session) : (Script.of s).Holds (s.ahead.length + 1) s :=
  ⟨rfl, List.suffix_refl _, Nat.lt_succ_self _⟩

end Script.Holds

/-- From the state the two readers do the same. Whether they succeed or fail, they pass tokens of
which none ends the input, and a fault lies where a token of the script begins. -/
structure Tame (script : Script) (s : Session) (x x' : Read α) : Prop where
  same : x' s = x s
  ok : ∀ {a s'}, x s = .ok a s' → Passes s s'
  error : ∀ {fault s'}, x s = .error fault s' → Passes s s' ∧ script.Marks fault.position

theorem error_bind {x : Read α} {f : α → Read β} {fault : Fault} :
    (x >>= f) s = .error fault s' ↔ x s = .error fault s' ∨ ∃ a s₁, x s = .ok a s₁ ∧
      f a s₁ = .error fault s' := by
  change EStateM.bind x f s = .error fault s' ↔ _
  unfold EStateM.bind
  cases run : x s with
  | ok a s₁ => simp
  | error fault s₁ => simp

namespace Tame
variable {x x' y y' : Read α} {f f' : α → Read β}

theorem bind (holds : script.Holds n s) (first : Tame script s x x')
    (rest : ∀ a s₁, x s = .ok a s₁ → script.Holds n s₁ → Tame script s₁ (f a) (f' a)) :
    Tame script s (x >>= f) (x' >>= f') := by
  refine ⟨?same, ?ok, ?error⟩
  case same =>
    change EStateM.bind x' f' s = EStateM.bind x f s
    unfold EStateM.bind
    rw [first.same]
    cases run : x s with
    | ok a s₁ => exact (rest a s₁ run (holds.passes (first.ok run))).same
    | error fault s₁ => rfl
  case ok =>
    intro b s' run
    obtain ⟨a, s₁, before, after⟩ := ok_bind.mp run
    have passes := first.ok before
    exact passes.trans ((rest a s₁ before (holds.passes passes)).ok after)
  case error =>
    intro fault s' run
    obtain failed | ⟨a, s₁, before, after⟩ := error_bind.mp run
    · exact first.error failed
    · have passes := first.ok before
      obtain ⟨passes', marks⟩ := (rest a s₁ before (holds.passes passes)).error after
      exact ⟨passes.trans passes', marks⟩

theorem ite {c : Prop} [Decidable c] (yes : c → Tame script s x x') (no : ¬c → Tame script s y y') :
    Tame script s (if c then x else y) (if c then x' else y') := by
  split
  next holds => exact yes holds
  next fails => exact no fails

/-- Two readers that do the same as two tame ones. -/
theorem congr (tame : Tame script s x x') (left : y s = x s) (right : y' s = x' s) :
    Tame script s y y' := by
  refine ⟨by rw [left, right, tame.same], fun run => tame.ok (left ▸
    run), fun run => tame.error (left ▸ run)⟩

end Tame

/-- A step that succeeds in front of what follows. -/
theorem Tame.after {x x' : Read α} {f f' : α → Read β} {a : α} (run : x s = .ok a s₁)
    (run' : x' s = .ok a s₁) (passes : Passes s s₁) (rest : Tame script s₁ (f a) (f' a)) :
    Tame script s (x >>= f) (x' >>= f') := by
  refine ⟨?same, ?ok, ?error⟩
  case same =>
    change EStateM.bind x' f' s = EStateM.bind x f s
    simp only [EStateM.bind, run, run']
    exact rest.same
  case ok =>
    intro b s' both
    obtain ⟨a', s₁', before, after⟩ := ok_bind.mp both
    obtain ⟨rfl, rfl⟩ := EStateM.Result.ok.inj (run.symm.trans before)
    exact passes.trans (rest.ok after)
  case error =>
    intro fault s' both
    obtain failed | ⟨a', s₁', before, after⟩ := error_bind.mp both
    · cases run.symm.trans failed
    · obtain ⟨rfl, rfl⟩ := EStateM.Result.ok.inj (run.symm.trans before)
      obtain ⟨passes', marks⟩ := rest.error after
      exact ⟨passes.trans passes', marks⟩

/-- The inner readers do what the others do, and tamely, where fewer than so many tokens are
ahead. -/
def StandsFor {ι : Type} (script : Script) (n : Nat) (reader inner : ι → Read α) : Prop :=
  ∀ i s, script.Holds n s → Tame script s (reader i) (inner i)

/-- Readers that lie inside themselves, at a depth bounded by the tokens ahead. If a step stands for
another where the readers inside do, up to one token less, then the bound is never met, whatever
stands for it. -/
theorem standsFor_iterate {ι : Type} {reader : ι → Read α} {step : (ι → Read α) → ι → Read α}
    (unfolds : ∀ i s, reader i s = step (step^[s.ahead.length] fun _ => boundMet) i s)
    (lifts : ∀ {n inner}, StandsFor script n reader inner →
      StandsFor script (n + 1) (step reader) (step inner))
    (bottom : ι → Read α) {m : Nat} (le : n ≤ m) : StandsFor script n reader (step^[m] bottom) := by
  induction n using Nat.strongRecOn generalizing m bottom with
  | ind n ih =>
    intro i s holds
    have less := holds.length
    obtain ⟨m, rfl⟩ := Nat.exists_eq_add_one_of_ne_zero
      (Nat.ne_zero_of_lt (Nat.lt_of_lt_of_le less le))
    have own := lifts (ih s.ahead.length less (fun _ => boundMet) (Nat.le_refl _)) i s holds.bound
    have enough : s.ahead.length ≤ m := Nat.le_of_lt_succ (Nat.lt_of_lt_of_le less le)
    have given := lifts (ih s.ahead.length less bottom enough) i s holds.bound
    rw [Function.iterate_succ_apply']
    exact given.congr ((unfolds i s).trans own.same) rfl

/-! What only looks at the state. -/

section
variable {x : Read α} {f f' : α → Read β}

@[simp] theorem tame_get_bind {f f' : Session → Read β} :
    Tame script s (get >>= f) (get >>= f') ↔ Tame script s (f s) (f' s) :=
  ⟨fun tame => tame.congr rfl rfl, fun tame => tame.congr rfl rfl⟩

@[simp] theorem tame_currentKind_bind {f f' : Kind → Read β} :
    Tame script s (currentKind >>= f) (currentKind >>= f') ↔ Tame script s (f s.kind) (f' s.kind) :=
  ⟨fun tame => tame.congr rfl rfl, fun tame => tame.congr rfl rfl⟩

@[simp] theorem tame_second_bind {f f' : Token → Read β} :
    Tame script s (second >>= f) (second >>= f') ↔
      Tame script s (f s.next.current) (f' s.next.current) :=
  ⟨fun tame => tame.congr rfl rfl, fun tame => tame.congr rfl rfl⟩

@[simp] theorem tame_positionOf_bind {token : Token} {f f' : Position → Read β} :
    Tame script s (positionOf token >>= f) (positionOf token >>= f') ↔
      Tame script s (f ⟨token.start, s.file⟩) (f' ⟨token.start, s.file⟩) :=
  ⟨fun tame => tame.congr rfl rfl, fun tame => tame.congr rfl rfl⟩

@[simp] theorem tame_here_bind {f f' : Position → Read β} :
    Tame script s (here >>= f) (here >>= f') ↔ Tame script s (f s.here) (f' s.here) :=
  ⟨fun tame => tame.congr rfl rfl, fun tame => tame.congr rfl rfl⟩

@[simp] theorem tame_bound_bind {f f' : Nat → Read β} :
    Tame script s (bound >>= f) (bound >>= f') ↔
      Tame script s (f (s.ahead.length + 1)) (f' (s.ahead.length + 1)) :=
  ⟨fun tame => tame.congr rfl rfl, fun tame => tame.congr rfl rfl⟩

@[simp] theorem tame_scopes_bind {f f' : ScopeStack → Read β} :
    Tame script s (Reading.scopes >>= f) (Reading.scopes >>= f') ↔
      Tame script s (f s.scopes) (f' s.scopes) :=
  ⟨fun tame => tame.congr rfl rfl, fun tame => tame.congr rfl rfl⟩

@[simp] theorem tame_place_bind {f f' : Place → Read β} :
    Tame script s (Reading.place >>= f) (Reading.place >>= f') ↔
      Tame script s (f s.place) (f' s.place) :=
  ⟨fun tame => tame.congr rfl rfl, fun tame => tame.congr rfl rfl⟩

end

/-! The steps. -/

section
variable {a : α} {position : Position} {cause : Cause} {kind : Kind}

theorem tame_pure : Tame script s (pure a) (pure a) := by
  refine ⟨rfl, fun run => ?_, fun run => ?_⟩
  · obtain ⟨rfl, rfl⟩ := ok_pure.mp run
    exact .refl _
  · cases run

theorem tame_failAt (marks : script.Marks position) :
    Tame script s (failAt position cause : Read α) (failAt position cause) := by
  refine ⟨rfl, fun run => (ok_failAt.mp run).elim, fun run => ?_⟩
  cases run
  exact ⟨.refl _, marks⟩

theorem tame_failAt_bind {f f' : α → Read β} (marks : script.Marks position) :
    Tame script s (failAt position cause >>= f) (failAt position cause >>= f') := by
  refine ⟨rfl, fun run => (ok_failAt_bind.mp run).elim, fun run => ?_⟩
  cases run
  exact ⟨.refl _, marks⟩

theorem tame_failHere (holds : script.Holds n s) {cause : Token → Cause} :
    Tame script s (failHere cause : Read α) (failHere cause) :=
  (tame_failAt holds.here).congr rfl rfl

theorem tame_next_bind {f f' : Token → Read β} (inside : s.kind ≠ .eof)
    (rest : Tame script s.next (f s.current) (f' s.current)) :
    Tame script s (next >>= f) (next >>= f') :=
  rest.after rfl rfl (.next inside)

/-- A token of one kind, or else a fault at the current token. -/
theorem tame_expected_bind {x : Read α} {f f' : α → Read β} {a : α} (holds : script.Holds n s)
    (inside : inSentence kind = true) (found : s.kind = kind → x s = .ok a s.next)
    (other : s.kind ≠ kind → ∃ cause, x s = .error ⟨cause, s.here⟩ s)
    (rest : s.kind = kind → Tame script s.next (f a) (f' a)) :
    Tame script s (x >>= f) (x >>= f') := by
  by_cases is : s.kind = kind
  · exact (rest is).after (found is) (found is) (onward_next is inside).toForward.passes
  · obtain ⟨cause, failed⟩ := other is
    have stuck : ∀ g : α → Read β, (x >>= g) s = .error ⟨cause, s.here⟩ s :=
      fun g => error_bind.mpr (.inl failed)
    have fails : Tame script s (failAt s.here cause : Read β) (failAt s.here cause) :=
      tame_failAt holds.here
    exact fails.congr (stuck f) (stuck f')

theorem tame_take_bind {f f' : Token → Read β} (holds : script.Holds n s)
    (inside : inSentence kind = true)
    (rest : s.kind = kind → Tame script s.next (f s.current) (f' s.current)) :
    Tame script s (take kind >>= f) (take kind >>= f') := by
  refine tame_expected_bind holds inside (fun is => ok_take.mpr ⟨is, rfl, rfl⟩)
    (fun other => ?_) rest
  refine ⟨.unexpected s.current.value kind.name, ?_⟩
  simp only [take, run_currentKind_bind, if_neg other]
  rfl

theorem tame_takeOr_bind {message : String} {f f' : Token → Read β} (holds : script.Holds n s)
    (inside : inSentence kind = true)
    (rest : s.kind = kind → Tame script s.next (f s.current) (f' s.current)) :
    Tame script s (takeOr kind message >>= f) (takeOr kind message >>= f') := by
  refine tame_expected_bind holds inside (fun is => ok_takeOr.mpr ⟨is, rfl, rfl⟩)
    (fun other => ?_) rest
  refine ⟨.unexpectedHere s.current.value message, ?_⟩
  simp only [takeOr, run_currentKind_bind, if_neg other]
  rfl

theorem tame_skip_bind {f f' : Unit → Read β} (holds : script.Holds n s)
    (inside : inSentence kind = true) (rest : s.kind = kind → Tame script s.next (f ()) (f' ())) :
    Tame script s (skip kind >>= f) (skip kind >>= f') := by
  refine tame_expected_bind holds inside (fun is => ok_skip.mpr ⟨is, rfl⟩) (fun other => ?_) rest
  refine ⟨.unexpected s.current.value kind.name, ?_⟩
  simp only [skip, take, run_currentKind_bind, if_neg other, error_bind]
  exact .inl rfl

/-! Types. -/

theorem tame_pooled {f : Ty.Pool → α × Ty.Pool} : Tame script s (pooled f) (pooled f) := by
  refine ⟨rfl, fun run => ?_, fun run => ?_⟩
  · obtain ⟨_, rfl⟩ := ok_pooled.mp run
    exact .still rfl rfl
  · cases run

theorem tame_pooled_bind {g : Ty.Pool → α × Ty.Pool} {f f' : α → Read β}
    (rest : Tame script (s.withPool (g s.pool).2) (f (g s.pool).1) (f' (g s.pool).1)) :
    Tame script s (pooled g >>= f) (pooled g >>= f') :=
  rest.after rfl rfl (.still rfl rfl)

theorem tame_typed {rule : Typing α} (marks : script.Marks position) :
    Tame script s (typed position rule) (typed position rule) := by
  refine ⟨rfl, fun run => ?_, fun run => ?_⟩
  · obtain ⟨_, _, rfl⟩ := ok_typed.mp run
    exact .still rfl rfl
  · unfold typed at run
    split at run
    · cases run
    · cases run
      exact ⟨.still rfl rfl, marks⟩

theorem tame_check {result : Except Cause α} (marks : script.Marks position) :
    Tame script s (check position result) (check position result) := by
  cases result with
  | ok a => exact tame_pure
  | error cause => exact tame_failAt marks

theorem tame_joinOr {a b : Ty} (marks : script.Marks position) :
    Tame script s (joinOr position a b cause) (joinOr position a b cause) := by
  refine tame_pooled_bind ?_
  split
  · exact tame_pure
  · exact tame_failAt marks

/-! Scopes and places. -/

theorem tame_updateScopes {f : ScopeStack → Except Fault ScopeStack}
    (faults : ∀ fault, f s.scopes = .error fault → script.Marks fault.position) :
    Tame script s (updateScopes f) (updateScopes f) := by
  refine ⟨rfl, fun run => ?_, fun run => ?_⟩
  · obtain ⟨_, _, rfl⟩ := ok_updateScopes.mp run
    exact .still rfl rfl
  · simp only [updateScopes, run_scopes_bind] at run
    cases updated : f s.scopes with
    | ok scopes =>
      rw [updated] at run
      cases run
    | error fault =>
      rw [updated] at run
      cases run
      exact ⟨.refl _, faults _ updated⟩

/-- A reading that begins where another does, in other scopes or at another place. -/
theorem Tame.moved {x x' y y' : Read α} (tame : Tame script s₁ x x') (cursor : s₁.cursor = s.cursor)
    (file : s₁.file = s.file) (left : y s = x s₁) (right : y' s = x' s₁) : Tame script s y y' := by
  have begins : Passes s s₁ := .still cursor file
  refine ⟨by rw [left, right, tame.same], fun run => ?_, fun run => ?_⟩
  · exact begins.trans (tame.ok (left.symm.trans run))
  · obtain ⟨passes, marks⟩ := tame.error (left.symm.trans run)
    exact ⟨begins.trans passes, marks⟩

theorem tame_inScope {body body' : Read α} (holds : script.Holds n s)
    (inside : Tame script s.push body body') :
    Tame script s (inScope body) (inScope body') := by
  have closes : ∀ a s₁, Tame script s₁ (do setScopes (← Reading.scopes).pop; return a : Read α)
      (do setScopes (← Reading.scopes).pop; return a) := by
    intro a s₁
    rw [tame_scopes_bind]
    have passes : Passes s₁ s₁.pop := .still rfl rfl
    exact .after rfl rfl passes tame_pure
  exact (inside.bind holds.push fun a s₁ _ _ => closes a s₁).moved rfl rfl rfl rfl

theorem tame_within {inner : Place → Place} {body body' : Read α} (holds : script.Holds n s)
    (inside : Tame script (s.withPlace (inner s.place)) body body') :
    Tame script s (within inner body) (within inner body') := by
  have leaves : ∀ a s₁, Tame script s₁ (do setPlace s.place; return a : Read α)
    (do setPlace s.place; return a) := by
    intro a s₁
    have passes : Passes s₁ (s₁.withPlace s.place) := .still rfl rfl
    exact .after rfl rfl passes tame_pure
  exact (inside.bind (holds.withPlace _) fun a s₁ _ _ => leaves a s₁).moved rfl rfl rfl rfl

end

/-! Repetition. -/

def collectRound (more : Kind → Bool) (item : σ → Read (α × σ)) (again : σ → Read (List α × σ))
    (state : σ) :
    Read (List α × σ) := do
  if more (← currentKind) then
    let (first, state) ← item state
    let (rest, state) ← again state
    return (first :: rest, state)
  else return ([], state)

def extendRound (round : α → Read (Option α)) (again : α → Read α) (value : α) : Read α := do
  match ← round value with
  | some more => again more
  | none => return value

/-- What grows by one more step with its bound is the iterate of the step. -/
theorem eq_iterate {β : Type} (upTo : Nat → β) (step : β → β)
    (grows : ∀ n, upTo (n + 1) = step (upTo n)) (n : Nat) :
    upTo n = step^[n] (upTo 0) := by
  induction n with
  | zero => rfl
  | succ n ih => rw [grows, ih, Function.iterate_succ_apply']

theorem collectUpTo_eq_iterate (more : Kind → Bool) (item : σ → Read (α × σ)) (rounds : Nat) :
    collectUpTo more item rounds = (collectRound more item)^[rounds] fun _ => boundMet :=
  eq_iterate (collectUpTo more item) (collectRound more item) (fun _ => rfl) rounds

theorem extendUpTo_eq_iterate (round : α → Read (Option α)) (rounds : Nat) :
    extendUpTo round rounds = (extendRound round)^[rounds] fun _ => boundMet :=
  eq_iterate (extendUpTo round) (extendRound round) (fun _ => rfl) rounds

structure Rounds (script : Script) (n : Nat) (more : Kind → Bool) (item item' : σ → Read (α × σ)) :
    Prop where
  each : ∀ state s, script.Holds n s → more s.kind = true → Tame script s (item state) (item' state)
  shorter : ∀ ⦃state s a state' s'⦄, script.Holds n s → more s.kind = true →
    item state s = .ok (a, state') s' →
    s'.ahead.length < s.ahead.length

namespace Rounds
variable {more : Kind → Bool} {item item' : σ → Read (α × σ)}

/-- The loop never meets its bound, whatever stands for it. -/
theorem collectUpTo (rounds : Rounds script n more item item') (bottom : σ → Read (List α × σ))
    (state : σ) {bound bound' : Nat} (holds : script.Holds n s) (enough : s.ahead.length < bound)
    (enough' : s.ahead.length < bound') :
    Tame script s (collectUpTo more item bound state)
      ((collectRound more item')^[bound'] bottom state) := by
  induction bound generalizing bound' state s with
  | zero => exact absurd enough (Nat.not_lt_zero _)
  | succ bound ih =>
    obtain ⟨bound', rfl⟩ := Nat.exists_eq_add_one_of_ne_zero (Nat.ne_zero_of_lt enough')
    rw [Function.iterate_succ_apply']
    simp only [Reading.collectUpTo, collectRound, tame_currentKind_bind]
    refine .ite (fun goes => ?_) fun _ => tame_pure
    refine (rounds.each state s holds goes).bind holds fun found s₁ first holds₁ => ?_
    obtain ⟨a, state'⟩ := found
    have shorter := rounds.shorter holds goes first
    exact (ih state' holds₁ (by omega) (by omega)).bind holds₁ fun _ _ _ _ => tame_pure

theorem fewer {m : Nat} (rounds : Rounds script m more item item') (le : n ≤ m) :
    Rounds script n more item item' :=
  ⟨fun state s holds => rounds.each state s (holds.mono le), fun _ _ _ _ _ holds =>
    rounds.shorter (holds.mono le)⟩

theorem collect (rounds : Rounds script n more item item') (state : σ) (holds : script.Holds n s) :
    Tame script s (collect more item state) (collect more item' state) := by
  rw [Reading.collect, Reading.collect, tame_bound_bind, collectUpTo_eq_iterate more item']
  exact rounds.collectUpTo _ state holds (Nat.lt_succ_self _) (Nat.lt_succ_self _)

end Rounds

structure Extends (script : Script) (n : Nat) (round round' : α → Read (Option α)) : Prop where
  each : ∀ value s, script.Holds n s → Tame script s (round value) (round' value)
  shorter : ∀ ⦃value s more s'⦄, round value s = .ok (some more) s' →
    s'.ahead.length < s.ahead.length

namespace Extends
variable {round round' : α → Read (Option α)}

theorem extendUpTo (rounds : Extends script n round round') (bottom : α → Read α) (value : α)
    {bound bound' : Nat} (holds : script.Holds n s) (enough : s.ahead.length < bound)
    (enough' : s.ahead.length < bound') :
    Tame script s (extendUpTo round bound value) ((extendRound round')^[bound'] bottom value) := by
  induction bound generalizing bound' value s with
  | zero => exact absurd enough (Nat.not_lt_zero _)
  | succ bound ih =>
    obtain ⟨bound', rfl⟩ := Nat.exists_eq_add_one_of_ne_zero (Nat.ne_zero_of_lt enough')
    rw [Function.iterate_succ_apply']
    simp only [Reading.extendUpTo, extendRound]
    refine (rounds.each value s holds).bind holds fun found s₁ first holds₁ => ?_
    cases found with
    | none => exact tame_pure
    | some more =>
      have less := rounds.shorter first
      exact ih more holds₁ (by omega) (by omega)

theorem fewer {m : Nat} (rounds : Extends script m round round') (le : n ≤ m) :
    Extends script n round round' :=
  ⟨fun value s holds => rounds.each value s (holds.mono le), rounds.shorter⟩

theorem extend (rounds : Extends script n round round') (value : α) (holds : script.Holds n s) :
    Tame script s (extend round value) (extend round' value) := by
  rw [Reading.extend, Reading.extend, tame_bound_bind, extendUpTo_eq_iterate round']
  exact rounds.extendUpTo _ value holds (Nat.lt_succ_self _) (Nat.lt_succ_self _)

end Extends

abbrev alone (item : Read α) : Unit → Read (α × Unit) := fun () => return (← item, ())

abbrev behindComma (item : Read α) : Read α := do
  skip .comma
  item

theorem ok_alone {item : Read α} {a : α} : alone item () s = .ok (a, ()) s' ↔
    item s = .ok a s' := by
  simp only [alone, ok_bind, ok_pure, Prod.mk.injEq, and_true]
  constructor
  · rintro ⟨_, _, run, rfl, rfl⟩
    exact run
  · intro run
    exact ⟨a, s', run, rfl, rfl⟩

section
variable {item item' : Read α} {more : Kind → Bool}

theorem rounds_alone (each : ∀ s, script.Holds n s → more s.kind = true → Tame script s item item')
    (advances : Advances item) : Rounds script n more (alone item) (alone item') := by
  constructor
  · intro _ s holds goes
    exact (each s holds goes).bind holds fun _ _ _ _ => tame_pure
  · intro _ s a _ s' _ _ run
    exact advances (ok_alone.mp run)

theorem rounds_behindCommas (each : ∀ s, script.Holds n s → Tame script s item item')
    (advances : Advances item) :
    Rounds script n (· = .comma) (alone (behindComma item)) (alone (behindComma item')) := by
  refine rounds_alone (fun s holds _ => tame_skip_bind holds rfl fun _ => each _ holds.step) ?_
  intro s a s' run
  obtain ⟨comma, run⟩ := ok_skip_bind.mp run
  exact Nat.lt_trans (advances run) (length_next comma rfl)

theorem rounds_itemOfList {item item' : σ → Read (α × σ)}
    (each : ∀ state s, script.Holds n s → Tame script s (item state) (item' state))
    (shorter : ∀ ⦃state s a state' s'⦄, item state s = .ok (a, state') s' →
      s'.ahead.length < s.ahead.length)
    (closer : Kind) : Rounds script n (· ≠ closer) (itemOfList item) (itemOfList item') := by
  constructor
  · intro state s holds _
    obtain ⟨_ | _, state⟩ := state
    · refine tame_skip_bind holds rfl fun _ => ?_
      have holds₁ := holds.step
      exact (each state _ holds₁).bind holds₁ fun _ _ _ _ => tame_pure
    · exact (each state s holds).bind holds fun _ _ _ _ => tame_pure
  · intro state s a state' s' _ _ run
    obtain ⟨first, state⟩ := state
    obtain ⟨_, state'⟩ := state'
    obtain ⟨_, s₁, separated, read⟩ := ok_itemOfList.mp run
    exact Nat.lt_of_lt_of_le (shorter read) (onward_separated separated).length_le

theorem rounds_listed (each : ∀ s, script.Holds n s → Tame script s item item')
    (advances : Advances item) (closer : Kind) :
    Rounds script n (· ≠ closer) (itemOfList (alone item)) (itemOfList (alone item')) :=
  rounds_itemOfList (fun _ s holds => (each s holds).bind holds fun _ _ _ _ => tame_pure)
    (fun _ _ _ _ _ run => advances (ok_alone.mp run)) closer

theorem tame_many (rounds : Rounds script n more (alone item) (alone item'))
    (holds : script.Holds n s) :
    Tame script s (many more item) (many more item') :=
  (rounds.collect () holds).bind holds fun _ _ _ _ => tame_pure

theorem tame_separated (each : ∀ s, script.Holds n s → Tame script s item item')
    (advances : Advances item) (holds : script.Holds n s) :
    Tame script s (separated item) (separated item') :=
  (each s holds).bind holds fun _ _ _ holds₁ =>
    (tame_many (rounds_behindCommas each advances) holds₁).bind holds₁ fun _ _ _ _ => tame_pure

theorem tame_items {item item' : σ → Read (α × σ)} {closer : Kind}
    (rounds : Rounds script n (· ≠ closer) (itemOfList item) (itemOfList item')) (state : σ)
    (holds : script.Holds n s) :
    Tame script s (items closer item state) (items closer item' state) :=
  (rounds.collect (true, state) holds).bind holds fun _ _ _ _ => tame_pure

end

end ColonScript.Reading
