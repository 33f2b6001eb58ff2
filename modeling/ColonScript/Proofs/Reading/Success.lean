import ColonScript.Reading.Program

/-! What it takes for a reading to succeed, and the state in which it ends. Every step of the
reading monad has one law here; a production is opened by these laws and by nothing else. -/

namespace ColonScript.Reading
open Token (Kind)

variable {α β σ : Type} {s s' : Session}

namespace Session

abbrev current (s : Session) : Token := s.cursor.current

abbrev kind (s : Session) : Kind := s.cursor.current.kind

abbrev ahead (s : Session) : List Token := s.cursor.ahead

def next (s : Session) : Session := { s with cursor := s.cursor.next }

def withPool (pool : Ty.Pool) (s : Session) : Session := { s with pool }

def withScopes (scopes : ScopeStack) (s : Session) : Session := { s with scopes }

def withPlace (place : Place) (s : Session) : Session := { s with place }

def push (s : Session) : Session := s.withScopes s.scopes.push

def pop (s : Session) : Session := s.withScopes s.scopes.pop

/-- The state after two types have been joined, whether they agree or not. -/
def joining (a b : Ty) (s : Session) : Session := s.withPool (s.pool.join a b).2

def here (s : Session) : Position := ⟨s.current.start, s.file⟩

/-! What a change of one part leaves as it was. The proofs stand in parentheses so that conditions
on the state are rewritten together with what decides them. -/

section
variable (s : Session) (pool : Ty.Pool) (scopes : ScopeStack) (place : Place) (a b : Ty)

@[simp] theorem next_file : s.next.file = s.file := (rfl)
@[simp] theorem next_grammar : s.next.grammar = s.grammar := (rfl)
@[simp] theorem next_scopes : s.next.scopes = s.scopes := (rfl)
@[simp] theorem next_pool : s.next.pool = s.pool := (rfl)
@[simp] theorem next_place : s.next.place = s.place := (rfl)
@[simp] theorem withPool_cursor : (s.withPool pool).cursor = s.cursor := (rfl)
@[simp] theorem withPool_current : (s.withPool pool).current = s.current := (rfl)
@[simp] theorem withPool_kind : (s.withPool pool).kind = s.kind := (rfl)
@[simp] theorem withPool_ahead : (s.withPool pool).ahead = s.ahead := (rfl)
@[simp] theorem withPool_file : (s.withPool pool).file = s.file := (rfl)
@[simp] theorem withPool_grammar : (s.withPool pool).grammar = s.grammar := (rfl)
@[simp] theorem withPool_scopes : (s.withPool pool).scopes = s.scopes := (rfl)
@[simp] theorem withPool_pool : (s.withPool pool).pool = pool := (rfl)
@[simp] theorem withPool_place : (s.withPool pool).place = s.place := (rfl)
@[simp] theorem joining_cursor : (s.joining a b).cursor = s.cursor := (rfl)
@[simp] theorem joining_current : (s.joining a b).current = s.current := (rfl)
@[simp] theorem joining_kind : (s.joining a b).kind = s.kind := (rfl)
@[simp] theorem joining_ahead : (s.joining a b).ahead = s.ahead := (rfl)
@[simp] theorem joining_file : (s.joining a b).file = s.file := (rfl)
@[simp] theorem joining_grammar : (s.joining a b).grammar = s.grammar := (rfl)
@[simp] theorem joining_scopes : (s.joining a b).scopes = s.scopes := (rfl)
@[simp] theorem joining_pool : (s.joining a b).pool = (s.pool.join a b).2 := (rfl)
@[simp] theorem joining_place : (s.joining a b).place = s.place := (rfl)
@[simp] theorem withScopes_cursor : (s.withScopes scopes).cursor = s.cursor := (rfl)
@[simp] theorem withScopes_current : (s.withScopes scopes).current = s.current := (rfl)
@[simp] theorem withScopes_kind : (s.withScopes scopes).kind = s.kind := (rfl)
@[simp] theorem withScopes_ahead : (s.withScopes scopes).ahead = s.ahead := (rfl)
@[simp] theorem withScopes_file : (s.withScopes scopes).file = s.file := (rfl)
@[simp] theorem withScopes_grammar : (s.withScopes scopes).grammar = s.grammar := (rfl)
@[simp] theorem withScopes_scopes : (s.withScopes scopes).scopes = scopes := (rfl)
@[simp] theorem withScopes_pool : (s.withScopes scopes).pool = s.pool := (rfl)
@[simp] theorem withScopes_place : (s.withScopes scopes).place = s.place := (rfl)
@[simp] theorem withPlace_cursor : (s.withPlace place).cursor = s.cursor := (rfl)
@[simp] theorem withPlace_current : (s.withPlace place).current = s.current := (rfl)
@[simp] theorem withPlace_kind : (s.withPlace place).kind = s.kind := (rfl)
@[simp] theorem withPlace_ahead : (s.withPlace place).ahead = s.ahead := (rfl)
@[simp] theorem withPlace_file : (s.withPlace place).file = s.file := (rfl)
@[simp] theorem withPlace_grammar : (s.withPlace place).grammar = s.grammar := (rfl)
@[simp] theorem withPlace_scopes : (s.withPlace place).scopes = s.scopes := (rfl)
@[simp] theorem withPlace_pool : (s.withPlace place).pool = s.pool := (rfl)
@[simp] theorem withPlace_place : (s.withPlace place).place = place := (rfl)
@[simp] theorem push_cursor : s.push.cursor = s.cursor := (rfl)
@[simp] theorem push_current : s.push.current = s.current := (rfl)
@[simp] theorem push_kind : s.push.kind = s.kind := (rfl)
@[simp] theorem push_ahead : s.push.ahead = s.ahead := (rfl)
@[simp] theorem push_file : s.push.file = s.file := (rfl)
@[simp] theorem push_grammar : s.push.grammar = s.grammar := (rfl)
@[simp] theorem push_scopes : s.push.scopes = s.scopes.push := (rfl)
@[simp] theorem push_pool : s.push.pool = s.pool := (rfl)
@[simp] theorem push_place : s.push.place = s.place := (rfl)
@[simp] theorem pop_cursor : s.pop.cursor = s.cursor := (rfl)
@[simp] theorem pop_current : s.pop.current = s.current := (rfl)
@[simp] theorem pop_kind : s.pop.kind = s.kind := (rfl)
@[simp] theorem pop_ahead : s.pop.ahead = s.ahead := (rfl)
@[simp] theorem pop_file : s.pop.file = s.file := (rfl)
@[simp] theorem pop_grammar : s.pop.grammar = s.grammar := (rfl)
@[simp] theorem pop_scopes : s.pop.scopes = s.scopes.pop := (rfl)
@[simp] theorem pop_pool : s.pop.pool = s.pool := (rfl)
@[simp] theorem pop_place : s.pop.place = s.place := (rfl)

end

theorem next_ahead (s : Session) : s.next.ahead = s.ahead.tail := rfl

/-- A comma has been passed, unless what follows is the first of its list. -/
def Separated (first : Bool) (s s' : Session) : Prop :=
  if first then s' = s else s.kind = .comma ∧ s' = s.next

end Session

@[simp] theorem ok_bind {x : Read α} {f : α → Read β} {b : β} :
    (x >>= f) s = .ok b s' ↔ ∃ a s₁, x s = .ok a s₁ ∧ f a s₁ = .ok b s' := by
  change EStateM.bind x f s = .ok b s' ↔ _
  unfold EStateM.bind
  cases x s with
  | ok a s₁ =>
    constructor
    · intro run
      exact ⟨a, s₁, rfl, run⟩
    · rintro ⟨_, _, ⟨rfl, rfl⟩, run⟩
      exact run
  | error fault s₁ => simp

@[simp] theorem ok_pure {a b : α} : (pure a : Read α) s = .ok b s' ↔ b = a ∧ s' = s := by
  change EStateM.Result.ok a s = .ok b s' ↔ _
  simp only [EStateM.Result.ok.injEq]
  exact ⟨fun h => ⟨h.1.symm, h.2.symm⟩, fun h => ⟨h.1.symm, h.2.symm⟩⟩

@[simp] theorem ok_map {f : α → β} {x : Read α} {b : β} :
    (f <$> x) s = .ok b s' ↔ ∃ a, x s = .ok a s' ∧ b = f a := by
  rw [← bind_pure_comp, ok_bind]
  constructor
  · rintro ⟨a, s₁, run, last⟩
    obtain ⟨rfl, rfl⟩ := ok_pure.mp last
    exact ⟨a, run, rfl⟩
  · rintro ⟨a, run, rfl⟩
    exact ⟨a, s', run, ok_pure.mpr ⟨rfl, rfl⟩⟩

@[simp] theorem ok_ite {c : Prop} [Decidable c] {x y : Read α} {a : α} :
    (if c then x else y) s = .ok a s' ↔ c ∧ x s = .ok a s' ∨ ¬c ∧ y s = .ok a s' := by
  split
  next holds => simp [holds]
  next fails => simp [fails]

/-! What only looks at the state needs no case of its own in front of what follows. -/

@[simp] theorem run_get_bind {f : Session → Read α} : (get >>= f) s = f s s := rfl

@[simp] theorem run_current_bind {f : Token → Read α} : (current >>= f) s = f s.current s := rfl

@[simp] theorem run_currentKind_bind {f : Kind → Read α} : (currentKind >>= f) s = f s.kind s := rfl

@[simp] theorem run_second_bind {f : Token → Read α} : (second >>= f) s = f s.next.current s := rfl

@[simp] theorem run_next_bind {f : Token → Read α} : (next >>= f) s = f s.current s.next := rfl

@[simp] theorem run_positionOf_bind {token : Token} {f : Position → Read α} :
    (positionOf token >>= f) s = f ⟨token.start, s.file⟩ s := rfl

@[simp] theorem run_here_bind {f : Position → Read α} : (here >>= f) s = f s.here s := rfl

@[simp] theorem run_bound_bind {f : Nat → Read α} : (bound >>= f) s = f (s.ahead.length + 1) s :=
  rfl

@[simp] theorem run_scopes_bind {f : ScopeStack → Read α} :
    (Reading.scopes >>= f) s = f s.scopes s := rfl

@[simp] theorem run_place_bind {f : Place → Read α} : (Reading.place >>= f) s = f s.place s := rfl

@[simp] theorem run_pooled_bind {g : Ty.Pool → β × Ty.Pool} {f : β → Read α} :
    (pooled g >>= f) s = f (g s.pool).1 (s.withPool (g s.pool).2) := rfl

@[simp] theorem ok_get {t : Session} : (get : Read Session) s = .ok t s' ↔ t = s ∧ s' = s := ok_pure

@[simp] theorem ok_current {token : Token} :
    current s = .ok token s' ↔ token = s.current ∧ s' = s := by
  simp [current, and_comm]

@[simp] theorem ok_currentKind {kind : Kind} :
    currentKind s = .ok kind s' ↔ kind = s.kind ∧ s' = s := by
  simp [currentKind, and_comm]

@[simp] theorem ok_next {token : Token} : next s = .ok token s' ↔ token = s.current ∧ s' = s.next :=
  ok_pure (s := s.next)

@[simp] theorem ok_positionOf {token : Token} {position : Position} :
    positionOf token s = .ok position s' ↔ position = ⟨token.start, s.file⟩ ∧ s' = s := by
  simp [positionOf, and_comm]

@[simp] theorem ok_here {position : Position} : here s = .ok position s' ↔
    position = s.here ∧ s' = s := by
  simp [here, Session.here]

@[simp] theorem ok_failAt {position : Position} {cause : Cause} {a : α} :
    (failAt position cause : Read α) s = .ok a s' ↔ False := by
  change EStateM.Result.error _ s = .ok a s' ↔ False
  simp

@[simp] theorem ok_failHere {cause : Token → Cause} {a : α} :
    (failHere cause : Read α) s = .ok a s' ↔ False := by
  simp [failHere]

@[simp] theorem ok_unexpectedHere {message : String} {a : α} :
    (unexpectedHere message : Read α) s = .ok a s' ↔ False := by
  simp [unexpectedHere]

@[simp] theorem ok_take {kind : Kind} {token : Token} :
    take kind s = .ok token s' ↔ s.kind = kind ∧ token = s.current ∧ s' = s.next := by
  simp [take]

@[simp] theorem ok_takeOr {kind : Kind} {message : String} {token : Token} :
    takeOr kind message s = .ok token s' ↔ s.kind = kind ∧ token = s.current ∧ s' = s.next := by
  simp [takeOr]

@[simp] theorem ok_skip {kind : Kind} {u : Unit} :
    skip kind s = .ok u s' ↔ s.kind = kind ∧ s' = s.next := by
  simp [skip]

@[simp] theorem ok_bound {n : Nat} : bound s = .ok n s' ↔ n = s.ahead.length + 1 ∧ s' = s := by
  simp [bound, and_comm]

@[simp] theorem ok_boundMet {a : α} : (boundMet : Read α) s = .ok a s' ↔ False := ok_failHere

/-! Types. -/

@[simp] theorem ok_pooled {f : Ty.Pool → α × Ty.Pool} {a : α} :
    pooled f s = .ok a s' ↔ a = (f s.pool).1 ∧ s' = s.withPool (f s.pool).2 :=
  ok_pure (s := s.withPool (f s.pool).2)

@[simp] theorem ok_typed {position : Position} {rule : Typing α} {a : α} :
    typed position rule s = .ok a s' ↔ ∃ pool, rule s.pool = .ok a pool ∧ s' = s.withPool pool := by
  unfold typed
  cases rule s.pool with
  | ok b pool =>
    simp only [EStateM.Result.ok.injEq]
    constructor
    · rintro ⟨rfl, rfl⟩
      exact ⟨pool, ⟨rfl, rfl⟩, rfl⟩
    · rintro ⟨_, ⟨rfl, rfl⟩, rfl⟩
      exact ⟨rfl, rfl⟩
  | error cause pool => simp

@[simp] theorem ok_check {position : Position} {result : Except Cause α} {a : α} :
    check position result s = .ok a s' ↔ result = .ok a ∧ s' = s := by
  cases result with
  | ok b => simp [check, eq_comm]
  | error cause => simp [check]

@[simp] theorem ok_single {position : Position} {expr : Expr} {context : Context} {type : Ty} :
    single position expr context s = .ok type s' ↔ expr.types = [type] ∧ s' = s := by
  simp only [single, ok_check, Typing.single]
  split
  next ty one => simp [one]
  next types other =>
    simp only [reduceCtorEq, false_and, false_iff, not_and]
    intro one
    exact absurd one (other type)

@[simp] theorem ok_joinOr {position : Position} {a b both : Ty} {cause : Cause} :
    joinOr position a b cause s = .ok both s' ↔
      (s.pool.join a b).1 = some both ∧ s' = s.joining a b := by
  simp only [joinOr, ok_bind, ok_pooled]
  constructor
  · rintro ⟨_, s₁, ⟨rfl, rfl⟩, run⟩
    cases found : (s.pool.join a b).1 with
    | none => simp [found] at run
    | some both => simp_all [Session.joining]
  · rintro ⟨found, rfl⟩
    exact ⟨_, _, ⟨rfl, rfl⟩, by simp [found, Session.joining]⟩

/-! Scopes and places. -/

@[simp] theorem ok_scopes {scopes : ScopeStack} :
    Reading.scopes s = .ok scopes s' ↔ scopes = s.scopes ∧ s' = s := by
  simp [Reading.scopes]

@[simp] theorem ok_setScopes {scopes : ScopeStack} {u : Unit} :
    setScopes scopes s = .ok u s' ↔ s' = s.withScopes scopes := by
  change EStateM.Result.ok () (s.withScopes scopes) = .ok u s' ↔ _
  simp [eq_comm]

@[simp] theorem ok_updateScopes {f : ScopeStack → Except Fault ScopeStack} {u : Unit} :
    updateScopes f s = .ok u s' ↔ ∃ scopes, f s.scopes = .ok scopes ∧ s' = s.withScopes scopes := by
  simp only [updateScopes, run_scopes_bind]
  cases f s.scopes with
  | ok scopes => simp
  | error fault =>
    change EStateM.Result.error fault s = .ok u s' ↔ _
    simp

@[simp] theorem ok_inScope {body : Read α} {a : α} :
    inScope body s = .ok a s' ↔ ∃ s₁, body s.push = .ok a s₁ ∧ s' = s₁.pop := by
  simp only [inScope, run_scopes_bind, ok_bind, ok_setScopes, ok_pure]
  constructor
  · rintro ⟨_, _, rfl, value, s₁, run, _, _, rfl, rfl, rfl⟩
    exact ⟨s₁, run, rfl⟩
  · rintro ⟨s₁, run, rfl⟩
    exact ⟨(), _, rfl, a, s₁, run, (), _, rfl, rfl, rfl⟩

@[simp] theorem ok_place {place : Place} :
    Reading.place s = .ok place s' ↔ place = s.place ∧ s' = s := by
  simp [Reading.place]

@[simp] theorem ok_setPlace {place : Place} {u : Unit} :
    setPlace place s = .ok u s' ↔ s' = s.withPlace place := by
  change EStateM.Result.ok () (s.withPlace place) = .ok u s' ↔ _
  simp [eq_comm]

@[simp] theorem ok_within {inner : Place → Place} {body : Read α} {a : α} :
    within inner body s = .ok a s' ↔
      ∃ s₁, body (s.withPlace (inner s.place)) = .ok a s₁ ∧ s' = s₁.withPlace s.place := by
  simp only [within, run_place_bind, ok_bind, ok_setPlace, ok_pure]
  constructor
  · rintro ⟨_, _, rfl, value, s₁, run, _, _, rfl, rfl, rfl⟩
    exact ⟨s₁, run, rfl⟩
  · rintro ⟨s₁, run, rfl⟩
    exact ⟨(), _, rfl, a, s₁, run, (), _, rfl, rfl, rfl⟩

/-! Steps that end in a known state stand in front of what follows as conditions. -/

section
variable {f : β → Read α} {a : α}

@[simp] theorem ok_skip_bind {kind : Kind} {f : Unit → Read α} :
    (skip kind >>= f) s = .ok a s' ↔ s.kind = kind ∧ f () s.next = .ok a s' := by
  rw [ok_bind]
  constructor
  · rintro ⟨_, _, step, run⟩
    obtain ⟨is, rfl⟩ := ok_skip.mp step
    exact ⟨is, run⟩
  · rintro ⟨is, run⟩
    exact ⟨(), s.next, ok_skip.mpr ⟨is, rfl⟩, run⟩

@[simp] theorem ok_take_bind {kind : Kind} {f : Token → Read α} :
    (take kind >>= f) s = .ok a s' ↔ s.kind = kind ∧ f s.current s.next = .ok a s' := by
  rw [ok_bind]
  constructor
  · rintro ⟨_, _, step, run⟩
    obtain ⟨is, rfl, rfl⟩ := ok_take.mp step
    exact ⟨is, run⟩
  · rintro ⟨is, run⟩
    exact ⟨s.current, s.next, ok_take.mpr ⟨is, rfl, rfl⟩, run⟩

@[simp] theorem ok_takeOr_bind {kind : Kind} {message : String} {f : Token → Read α} :
    (takeOr kind message >>= f) s = .ok a s' ↔ s.kind = kind ∧ f s.current s.next = .ok a s' := by
  rw [ok_bind]
  constructor
  · rintro ⟨_, _, step, run⟩
    obtain ⟨is, rfl, rfl⟩ := ok_takeOr.mp step
    exact ⟨is, run⟩
  · rintro ⟨is, run⟩
    exact ⟨s.current, s.next, ok_takeOr.mpr ⟨is, rfl, rfl⟩, run⟩

@[simp] theorem ok_single_bind {position : Position} {expr : Expr} {context : Context}
    {f : Ty → Read α} :
    (single position expr context >>= f) s = .ok a s' ↔ ∃ type, expr.types = [type] ∧
      f type s = .ok a s' := by
  rw [ok_bind]
  constructor
  · rintro ⟨type, _, step, run⟩
    obtain ⟨single, rfl⟩ := ok_single.mp step
    exact ⟨type, single, run⟩
  · rintro ⟨type, single, run⟩
    exact ⟨type, s, ok_single.mpr ⟨single, rfl⟩, run⟩

@[simp] theorem ok_joinOr_bind {position : Position} {left right : Ty} {cause : Cause}
    {f : Ty → Read α} :
    (joinOr position left right cause >>= f) s = .ok a s' ↔
      ∃ both, (s.pool.join left right).1 = some both ∧
      f both (s.joining left right) = .ok a s' := by
  rw [ok_bind]
  constructor
  · rintro ⟨both, _, step, run⟩
    obtain ⟨joined, rfl⟩ := ok_joinOr.mp step
    exact ⟨both, joined, run⟩
  · rintro ⟨both, joined, run⟩
    exact ⟨both, _, ok_joinOr.mpr ⟨joined, rfl⟩, run⟩

@[simp] theorem ok_typed_bind {position : Position} {rule : Typing β} :
    (typed position rule >>= f) s = .ok a s' ↔
      ∃ b pool, rule s.pool = .ok b pool ∧ f b (s.withPool pool) = .ok a s' := by
  rw [ok_bind]
  constructor
  · rintro ⟨b, _, step, run⟩
    obtain ⟨pool, typed, rfl⟩ := ok_typed.mp step
    exact ⟨b, pool, typed, run⟩
  · rintro ⟨b, pool, typed, run⟩
    exact ⟨b, _, ok_typed.mpr ⟨pool, typed, rfl⟩, run⟩

theorem ok_updateScopes_bind {g : ScopeStack → Except Fault ScopeStack} {f : Unit → Read α} :
    (updateScopes g >>= f) s = .ok a s' ↔ ∃ scopes, g s.scopes = .ok scopes ∧
      f () (s.withScopes scopes) = .ok a s' := by
  rw [ok_bind]
  constructor
  · rintro ⟨_, _, step, run⟩
    obtain ⟨scopes, updated, rfl⟩ := ok_updateScopes.mp step
    exact ⟨scopes, updated, run⟩
  · rintro ⟨scopes, updated, run⟩
    exact ⟨(), _, ok_updateScopes.mpr ⟨scopes, updated, rfl⟩, run⟩

theorem ok_failAt_bind {position : Position} {cause : Cause} :
    (failAt position cause >>= f) s = .ok a s' ↔ False := by
  simp [ok_bind]

end

/-! Repetition, one round at a time. -/

section
variable {more : Kind → Bool} {n : Nat}

theorem ok_collectUpTo {item : σ → Read (α × σ)} {state state' : σ} {values : List α} :
    collectUpTo more item (n + 1) state s = .ok (values, state') s' ↔
      (more s.kind = true ∧ ∃ first between s₁ rest, item state s = .ok (first, between) s₁ ∧
        collectUpTo more item n between s₁ = .ok (rest, state') s' ∧ values = first :: rest) ∨
      more s.kind = false ∧ values = [] ∧ state' = state ∧ s' = s := by
  simp [collectUpTo, and_assoc]

theorem not_ok_collectUpTo_zero {item : σ → Read (α × σ)} {state : σ} {result : List α × σ} :
    collectUpTo more item 0 state s ≠ .ok result s' := by
  simp [collectUpTo]

theorem ok_collect {item : σ → Read (α × σ)} {state : σ} {result : List α × σ} :
    collect more item state s = .ok result s' ↔
      collectUpTo more item (s.ahead.length + 1) state s = .ok result s' := by
  simp [collect]

theorem ok_extendUpTo {round : α → Read (Option α)} {value result : α} :
    extendUpTo round (n + 1) value s = .ok result s' ↔
      (∃ better s₁, round value s = .ok (some better) s₁ ∧
        extendUpTo round n better s₁ = .ok result s') ∨
      round value s = .ok none s' ∧ result = value := by
  simp only [extendUpTo, ok_bind]
  constructor
  · rintro ⟨_ | better, s₁, run, rest⟩
    · obtain ⟨rfl, rfl⟩ := ok_pure.mp rest
      exact .inr ⟨run, rfl⟩
    · exact .inl ⟨better, s₁, run, rest⟩
  · rintro (⟨better, s₁, run, rest⟩ | ⟨run, rfl⟩)
    · exact ⟨some better, s₁, run, rest⟩
    · exact ⟨none, s', run, ok_pure.mpr ⟨rfl, rfl⟩⟩

theorem not_ok_extendUpTo_zero {round : α → Read (Option α)} {value result : α} :
    extendUpTo round 0 value s ≠ .ok result s' := by
  simp [extendUpTo]

theorem ok_itemOfList {item : σ → Read (α × σ)} {first first' : Bool} {state state' : σ} {a : α} :
    itemOfList item (first, state) s = .ok (a, first', state') s' ↔
      first' = false ∧ ∃ s₁, Session.Separated first s s₁ ∧ item state s₁ = .ok (a, state') s' := by
  cases first <;> simp [itemOfList, Session.Separated, and_assoc, and_comm]

theorem ok_items {closer : Kind} {item : σ → Read (α × σ)} {state state' : σ} {values : List α} :
    items closer item state s = .ok (values, state') s' ↔
      ∃ first, collectUpTo (· ≠ closer) (itemOfList item) (s.ahead.length + 1) (true, state) s =
        .ok (values, first, state') s' := by
  simp [items, ok_collect]

end

end ColonScript.Reading
