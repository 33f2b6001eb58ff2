import ColonScript.Proofs.Reading.Phrase

/-! Written types as a relation on states, in the manner of expressions. -/

namespace ColonScript.Reading
open Token (Kind)

inductive TypePhrase where
  | whole (power : Power) (type : Ty)
  | suffix (power : Power) (before type : Ty)

inductive ReadsType : Session → TypePhrase → Session → Prop where
  | whole {s s' : Session} {power : Power} {type : Ty} (opens : s.grammar.opensType s.kind = true)
      (kind : s.kind = .type)
      (rest : ReadsType (s.next.withPool (s.pool.base s.current.value).2)
        (.suffix power (s.pool.base s.current.value).1 type) s') :
      ReadsType s (.whole power type) s'
  | stop {s : Session} {power : Power} {type : Ty}
      (loose : ∀ own, s.grammar.typeSuffix? s.kind = some own → own ≤ power) :
      ReadsType s (.suffix power type type) s
  | array {s s' : Session} {power own : Power} {before type : Ty}
      (brackets : s.grammar.typeSuffix? s.kind = some own) (tight : ¬own ≤ power)
      (opens : s.kind = .openBracket)
      (closes : s.next.kind = .closeBracket)
      (rest : ReadsType (s.next.next.withPool (s.pool.array before).2)
        (.suffix power (s.pool.array before).1 type) s') :
      ReadsType s (.suffix power before type) s'
  | map {s s₁ s' : Session} {power own : Power} {before value type : Ty}
      (brackets : s.grammar.typeSuffix? s.kind = some own) (tight : ¬own ≤ power)
      (opens : s.kind = .openBracket)
      (filled : s.next.kind ≠ .closeBracket) (inner : ReadsType s.next (.whole .lowest value) s₁)
      (closes : s₁.kind = .closeBracket)
      (rest : ReadsType (s₁.next.withPool (s₁.pool.map before value).2)
        (.suffix power (s₁.pool.map before value).1 type) s') :
      ReadsType s (.suffix power before type) s'

variable {s s' : Session} {type before : Ty} {power : Power} {inner : Read Ty}

theorem ok_bracketed :
    bracketed inner before s = .ok type s' ↔ s.kind = .openBracket ∧
      ((s.next.kind = .closeBracket ∧ type = (s.pool.array before).1 ∧
          s' = s.next.next.withPool (s.pool.array before).2) ∨
        (s.next.kind ≠ .closeBracket ∧ ∃ value s₁, inner s.next = .ok value s₁ ∧
          s₁.kind = .closeBracket ∧ type = (s₁.pool.map before value).1 ∧
          s' = s₁.next.withPool (s₁.pool.map before value).2)) := by
  simp [bracketed, and_assoc]

theorem ok_typeSuffix? {result : Option Ty} :
    typeSuffix? inner power before s = .ok result s' ↔
      (∃ own more, s.grammar.typeSuffix? s.kind = some own ∧ ¬own ≤ power ∧
        bracketed inner before s = .ok more s' ∧ result = some more) ∨
      (∀ own, s.grammar.typeSuffix? s.kind = some own → own ≤ power) ∧ result = none ∧ s' = s := by
  simp only [typeSuffix?, run_get_bind, run_currentKind_bind]
  cases s.grammar.typeSuffix? s.kind with
  | none => simp
  | some own =>
    simp
    grind

theorem ok_writtenTypeWith :
    writtenTypeWith inner power s = .ok type s' ↔ s.grammar.opensType s.kind = true ∧
      s.kind = .type ∧
      extendUpTo (typeSuffix? inner power) (s.next.ahead.length + 1) (s.pool.base s.current.value).1
        (s.next.withPool (s.pool.base s.current.value).2) = .ok type s' := by
  simp [writtenTypeWith, baseType, extend, and_assoc]

def SoundType (inner : Read Ty) : Prop :=
  ∀ ⦃s type s'⦄, inner s = .ok type s' → ReadsType s (.whole .lowest type) s'

theorem readsType_suffix (sound : SoundType inner) {n : Nat}
    (run : extendUpTo (typeSuffix? inner power) n before s = .ok type s') :
    ReadsType s (.suffix power before type) s' := by
  induction n generalizing before s with
  | zero => exact absurd run not_ok_extendUpTo_zero
  | succ n ih =>
    obtain ⟨better, s₁, round, rest⟩ | ⟨round, rfl⟩ := ok_extendUpTo.mp run
    · obtain ⟨own, more, brackets, tight, grown, same⟩ | ⟨_, none, _⟩ := ok_typeSuffix?.mp round
      · obtain rfl := Option.some.inj same
        obtain ⟨opens, ⟨closes, rfl, rfl⟩ | ⟨filled, value, s₂, read, closes, rfl, rfl⟩⟩ :=
          ok_bracketed.mp grown
        · exact .array brackets tight opens closes (ih rest)
        · exact .map brackets tight opens filled (sound read) closes (ih rest)
      · cases none
    · obtain ⟨_, _, _, _, _, same⟩ | ⟨loose, _, rfl⟩ := ok_typeSuffix?.mp round
      · cases same
      · exact .stop loose

theorem readsType_with (sound : SoundType inner)
    (run : writtenTypeWith inner power s = .ok type s') :
    ReadsType s (.whole power type) s' := by
  obtain ⟨opens, kind, rest⟩ := ok_writtenTypeWith.mp run
  exact .whole opens kind (readsType_suffix sound rest)

theorem readsType_upTo (n : Nat) (run : writtenTypeUpTo n power s = .ok type s') :
    ReadsType s (.whole power type) s' := by
  induction n generalizing power s type s' with
  | zero => simp [writtenTypeUpTo] at run
  | succ n ih => exact readsType_with (fun _ _ _ read => ih read) run

theorem ReadsType.onward {s s' : Session} {phrase : TypePhrase} (reads : ReadsType s phrase s') :
    Onward s s' := by
  induction reads with
  | whole _ kind _ rest => exact ((onward_next kind rfl).withPool _).trans rest
  | stop => exact .refl _
  | array _ _ opens closes _ rest => exact (onward_two opens rfl closes rfl).trans rest.of_withPool
  | map _ _ opens _ _ closes _ inner rest =>
    exact (onward_enclosed opens rfl inner closes rfl).trans rest.of_withPool

def TypePhrase.Runs (s s' : Session) : TypePhrase → Prop
  | .whole power type => ∀ n, s.ahead.length < n → writtenTypeUpTo n power s = .ok type s'
  | .suffix power before type => ∀ n rounds, s.ahead.length ≤ n → s.ahead.length < rounds →
      extendUpTo (typeSuffix? (writtenTypeUpTo n .lowest) power) rounds before s = .ok type s'

theorem extendUpTo_of_bracketed {own : Power} {more : Ty} {s₁ : Session} {rounds : Nat}
    (brackets : s.grammar.typeSuffix? s.kind = some own) (tight : ¬own ≤ power)
    (grown : bracketed inner before s = .ok more s₁)
    (rest : extendUpTo (typeSuffix? inner power) rounds more s₁ = .ok type s') :
    extendUpTo (typeSuffix? inner power) (rounds + 1) before s = .ok type s' :=
  ok_extendUpTo.mpr
    (.inl ⟨more, s₁, ok_typeSuffix?.mpr (.inl ⟨own, more, brackets, tight, grown, rfl⟩), rest⟩)

theorem ReadsType.runs {s s' : Session} {phrase : TypePhrase} (reads : ReadsType s phrase s') :
    phrase.Runs s s' := by
  induction reads with
  | whole opens kind _ rest =>
    intro n enough
    obtain ⟨n, rfl⟩ := Nat.exists_eq_add_one_of_ne_zero (Nat.ne_zero_of_lt enough)
    have shorter := length_next kind rfl
    exact ok_writtenTypeWith.mpr ⟨opens, kind, rest n _ (by simp; omega) (by simp)⟩
  | stop loose =>
    intro n rounds enough more
    obtain ⟨rounds, rfl⟩ := Nat.exists_eq_add_one_of_ne_zero (Nat.ne_zero_of_lt more)
    exact ok_extendUpTo.mpr (.inr ⟨ok_typeSuffix?.mpr (.inr ⟨loose, rfl, rfl⟩), rfl⟩)
  | array brackets tight opens closes _ rest =>
    intro n rounds enough more
    obtain ⟨rounds, rfl⟩ := Nat.exists_eq_add_one_of_ne_zero (Nat.ne_zero_of_lt more)
    have shorter := length_next opens rfl
    have shorter' := length_next closes rfl
    exact extendUpTo_of_bracketed brackets tight (ok_bracketed.mpr ⟨opens, .inl ⟨closes, rfl, rfl⟩⟩)
      (rest n rounds (by simp; omega) (by simp; omega))
  | map brackets tight opens filled innerReads closes _ inner rest =>
    intro n rounds enough more
    obtain ⟨rounds, rfl⟩ := Nat.exists_eq_add_one_of_ne_zero (Nat.ne_zero_of_lt more)
    have shorter := length_next opens rfl
    have inside := innerReads.onward.trans (onward_next closes rfl)
    refine extendUpTo_of_bracketed brackets tight ?_
      (rest n rounds (inside.le (by omega)) (inside.lt (by omega)))
    exact ok_bracketed.mpr ⟨opens, .inr ⟨filled, _, _, inner n (by omega), closes, rfl, rfl⟩⟩

/-- A written type is read exactly where the relation leads. -/
theorem ok_writtenType : writtenType power s = .ok type s' ↔
    ReadsType s (.whole power type) s' := by
  simp only [writtenType, run_bound_bind]
  exact ⟨fun run => readsType_upTo _ run, fun reads => reads.runs _ (Nat.lt_succ_self _)⟩

end ColonScript.Reading
