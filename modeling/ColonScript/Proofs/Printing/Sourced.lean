import ColonScript.Proofs.Printing.Spelled
import ColonScript.Proofs.Soundness

/-! What is true of every state on the way through a source, and what it makes of the parts that are
read: names, written types and expressions are all spelled as a script can spell them. -/

namespace ColonScript.Reading
open Token (Kind IsName)
open Ty Typing

variable {s s₁ s' : Session}

/-- A state in the reading of a source: it holds nothing that a script cannot have written, all
tokens ahead come from lexemes, and all of the language can be read. -/
structure Sourced (s : Session) : Prop where
  kept : Kept s
  scanned : Scanned s
  standard : s.grammar = .standard

structure Receiver.Spelled (found : Receiver) : Prop where
  name : IsName found.name
  type : found.type.Written

namespace Sourced
variable {e : Expr} {power : Power}

theorem stands (sourced : Sourced s) : Stands s.env s := ⟨s.agrees_env, sourced.kept⟩

theorem forward (sourced : Sourced s) (forward : Forward s s') (kept : Kept s') : Sourced s' :=
  ⟨kept, sourced.scanned.forward forward, forward.grammar.trans sourced.standard⟩

theorem onward (sourced : Sourced s) (onward : Onward s s') (pool : s'.pool.Faithful) :
    Sourced s' :=
  sourced.forward onward.toForward (sourced.kept.onward onward pool)

theorem next (sourced : Sourced s) : Sourced s.next :=
  ⟨sourced.kept.next, sourced.scanned.next, sourced.standard⟩

theorem push (sourced : Sourced s) : Sourced s.push :=
  ⟨sourced.kept.push, sourced.scanned, sourced.standard⟩

theorem looping (sourced : Sourced s) : Sourced (s.withPlace s.place.looping) :=
  ⟨sourced.kept.looping, sourced.scanned, sourced.standard⟩

theorem leave {inner : Session} (sourced : Sourced s) (inside : Sourced inner) :
    Sourced (inner.pop.withPlace s.place) :=
  ⟨sourced.kept.leave inside.kept, inside.scanned, inside.standard⟩

theorem pop {inner : Session} (sourced : Sourced s) (inside : Sourced inner)
    (place : inner.place = s.place) :
    Sourced inner.pop := pop_eq_leave place ▸ sourced.leave inside

theorem isName (sourced : Sourced s) (kind : s.kind = .identifier) : IsName s.current.value :=
  sourced.scanned.carries kind rfl

/-! Expressions and written types. -/

theorem expr (sourced : Sourced s) (reads : Reads s (.expr power e) s') :
    e.Spelled ∧ Sourced s' := by
  obtain ⟨_, behind⟩ := typed_of_expression reads sourced.stands
  exact ⟨spelled_of_reads reads sourced.scanned, sourced.forward reads.onward.toForward behind.kept⟩

theorem placed ⦃s : Session⦄ ⦃value : Expr × Position⦄ ⦃s' : Session⦄
    (run : placed expression s = .ok value s') (sourced : Sourced s) :
    value.1.Spelled ∧ Sourced s' := sourced.expr (reads_of_placed run)

theorem values {values : List (Expr × Position)} (sourced : Sourced s)
    (run : separated (Reading.placed expression) s = .ok values s') :
    (∀ value ∈ values.map (·.1), value.Spelled) ∧ Sourced s' := by
  obtain ⟨spelled, after⟩ :=
    each_of_separated (I := Sourced) advances_placed (fun _ => next) placed run sourced
  exact ⟨by simpa using spelled, after⟩

theorem type {type : Ty} (sourced : Sourced s) (reads : ReadsType s (.whole power type) s') :
    type.Written ∧ Sourced s' := by
  obtain ⟨written, kept⟩ := kept_of_writtenType reads sourced.kept
  exact ⟨written, sourced.forward reads.onward.toForward kept⟩

/-! Declarations and targets. -/

theorem head {found : Head} (sourced : Sourced s) (run : head s = .ok found s') :
    (Receiver.declared found).Spelled ∧ Sourced s' := by
  obtain ⟨name, _, type, reads, rfl⟩ := ok_head.mp run
  obtain ⟨written, after⟩ := sourced.next.next.next.type reads
  exact ⟨⟨sourced.next.isName name, written⟩, after⟩

theorem existing {found : Receiver} (sourced : Sourced s) (run : existing s = .ok found s') :
    found.Spelled ∧ Sourced s' := by
  obtain ⟨kind, binding, known, _, rfl, rfl⟩ := ok_existing.mp run
  exact ⟨⟨sourced.isName kind, sourced.kept.scopes.binding known⟩, sourced.next⟩

theorem receiver ⦃s : Session⦄ ⦃found : Receiver⦄ ⦃s' : Session⦄ (run : receiver s = .ok found s')
    (sourced : Sourced s) : found.Spelled ∧ Sourced s' := by
  obtain ⟨_, declared, declares, rfl⟩ | exists' := ok_receiver.mp run
  · exact sourced.head declares
  · exact sourced.existing exists'

theorem receivers {found : List Receiver} (sourced : Sourced s)
    (receivers : AfterCommas Reading.receiver s found s') :
    (∀ receiver ∈ found, receiver.Spelled) ∧ Sourced s' :=
  receivers.each (I := Sourced) (fun _ _ _ read sourced => receiver read.2 sourced.next) sourced

/-! Functions. -/

theorem heads {signature : Signature} (sourced : Sourced s) (kind : s.kind = .funWord)
    (heads : Heads s signature s') : Sourced s' :=
  sourced.forward (onward_heads kind heads).toForward (kept_of_heads heads sourced.kept).2

theorem body {signature : Signature} {scopes inner : ScopeStack} {position position' : Position}
    (sourced : Sourced s) (heads : Heads s signature s') (kind : s.kind = .funWord)
    (registered : s'.scopes.register ⟨signature, .defined⟩ position = .ok scopes)
    (declared : DeclaresParameters position' scopes.push signature.parameters inner) :
    Sourced ((s'.withPlace (.inside signature s'.place)).withScopes inner) := by
  have after := sourced.heads kind heads
  have kept := ((pointwise_wellTyped.heads sourced.kept heads).2 registered).2 declared
  exact ⟨kept, after.scanned, after.standard⟩

/-! Statements. -/

theorem condition {statement : String} (sourced : Sourced s)
    (run : condition statement s = .ok e s') :
    e.Spelled ∧ Sourced s' := by
  obtain ⟨_, _, _, s₁, reads, _, _, _, _, rfl⟩ := ok_condition.mp run
  obtain ⟨spelled, after⟩ := sourced.next.next.expr reads
  exact ⟨spelled, after.next.next⟩

theorem startOfLoop {start : Start} (sourced : Sourced s) (run : startOfLoop s = .ok start s') :
    Sourced s' :=
  sourced.forward (forward_startOfLoop run) (wellTyped_of_startOfLoop run sourced.stands).2

theorem loopHeader {start : Start} {condition update : Expr} (sourced : Sourced s)
    (run : loopHeader s = .ok (start, condition, update) s') : Sourced s' := by
  obtain ⟨s₁, s₂, begins, conditionReads, _, _, updateReads, _⟩ := ok_loopHeader.mp run
  exact (((sourced.startOfLoop begins).expr conditionReads).2.next.expr updateReads).2

theorem performs {sentence : Sentence} (sourced : Sourced s) (performs : Performs s sentence s') :
    Sourced s' :=
  sourced.forward (forward_of_performs performs)
    (everywhere_of_performs pointwise_wellTyped performs s.agrees_env sourced.kept).2

end Sourced

/-- A value that is made up for a variable is one that a literal can stand for. -/
theorem literal_of_defaultValue {type : Ty} {value : Expr} (written : type.Written)
    (default : defaultValue? type = some value) :
    ∃ token make name, Literal token make name ∧ Token.Carries token.value token.kind ∧
      name ∈ baseNames ∧ type = named name ∧ value = make type ∧ value.Finite := by
  have finite : ∀ e : Expr, e.floats.all Decimal.Binary64.isFinite = true → e.Finite :=
    fun _ all => List.all_eq_true.mp all
  unfold defaultValue? at default
  split at default
  next is =>
    obtain rfl := Option.some.inj default
    exact ⟨⟨.integer, "0", 0, 0⟩, _, _, .integer rfl rfl, Decimal.Binary64.isDigits_zero, by decide,
      eq_named_of_isBase written.proper is, rfl, finite _ rfl⟩
  split at default
  next is =>
    obtain rfl := Option.some.inj default
    exact ⟨⟨.float, "0.0", 0, 0⟩, _, _, .float rfl (by decide +kernel),
      ⟨['0'], ['0'], Decimal.Binary64.isDigits_zero, Decimal.Binary64.isDigits_zero, rfl⟩,
      by decide, eq_named_of_isBase written.proper is, rfl, finite _ rfl⟩
  split at default
  next is =>
    obtain rfl := Option.some.inj default
    exact ⟨⟨.bool, "false", 0, 0⟩, _, _, .bool rfl, fun mark => absurd mark (by decide), by decide,
      eq_named_of_isBase written.proper is, rfl, finite _ rfl⟩
  split at default
  next is =>
    obtain rfl := Option.some.inj default
    exact ⟨⟨.string, "", 0, 0⟩, _, _, .string rfl, by simp [Token.Carries], by decide,
      eq_named_of_isBase written.proper is, rfl, finite _ rfl⟩
  split at default
  next is =>
    obtain rfl := Option.some.inj default
    exact ⟨⟨.char, "", 0, 0⟩, _, _, .char rfl, .inl rfl, by decide,
      eq_named_of_isBase written.proper is, rfl, finite _ rfl⟩
  next => cases default

theorem spelled_of_defaultValue {type : Ty} {value : Expr} (written : type.Written)
    (default : defaultValue? type = some value) : value.Spelled := by
  obtain ⟨token, make, name, literal, carries, _, _, rfl, _⟩ :=
    literal_of_defaultValue written default
  exact spelled_of_literal carries literal type

end ColonScript.Reading
