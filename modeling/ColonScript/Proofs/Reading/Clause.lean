import ColonScript.Proofs.Reading.Written
import ColonScript.Reading.Statement

/-! What each part of a statement comes to when it is read, expressions and written types taken as
they are. -/

namespace ColonScript.Reading
open Token (Kind)

/-! Lists of parts that do not depend on one another. -/

inductive Repeats {α : Type} (more : Kind → Bool) (item : Session → α → Session → Prop) :
    Session → List α → Session → Prop where
  | done {s : Session} (last : more s.kind = false) : Repeats more item s [] s
  | next {s s₁ s' : Session} {a : α} {as : List α} (goes : more s.kind = true) (first : item s a s₁)
      (rest : Repeats more item s₁ as s') : Repeats more item s (a :: as) s'

abbrev Reader.Gives {α : Type} (reader : Read α) (s : Session) (a : α) (s' : Session) : Prop :=
  reader s = .ok a s'

def Advances {α : Type} (reader : Read α) : Prop :=
  ∀ ⦃s a s'⦄, reader s = .ok a s' → s'.ahead.length < s.ahead.length

variable {α : Type} {more : Kind → Bool} {item : Read α} {as : List α} {s s' : Session}

theorem repeats_of_collectUpTo {n : Nat}
    (run : collectUpTo more (fun () => return (← item, ())) n () s = .ok (as, ()) s') :
    Repeats more (Reader.Gives item) s as s' := by
  induction n generalizing s as with
  | zero => exact absurd run not_ok_collectUpTo_zero
  | succ n ih =>
    obtain ⟨goes, a, ⟨⟩, s₁, rest, first, others, rfl⟩ | ⟨last, rfl, _, rfl⟩ :=
      ok_collectUpTo.mp run
    · obtain ⟨_, _, first, last⟩ := ok_bind.mp first
      obtain ⟨same, rfl⟩ := ok_pure.mp last
      obtain ⟨rfl, _⟩ := Prod.mk.inj same
      exact .next goes first (ih others)
    · exact .done last

theorem collectUpTo_of_repeats (advances : Advances item)
    (repeats : Repeats more (Reader.Gives item) s as s') :
    ∀ n, s.ahead.length < n → collectUpTo more (fun () => return (← item, ())) n () s = .ok
      (as, ()) s' := by
  induction repeats with
  | done last =>
    intro n enough
    obtain ⟨n, rfl⟩ := Nat.exists_eq_add_one_of_ne_zero (Nat.ne_zero_of_lt enough)
    exact ok_collectUpTo.mpr (.inr ⟨last, rfl, rfl, rfl⟩)
  | next goes first _ ih =>
    intro n enough
    obtain ⟨n, rfl⟩ := Nat.exists_eq_add_one_of_ne_zero (Nat.ne_zero_of_lt enough)
    have shorter := advances first
    refine ok_collectUpTo.mpr (.inl ⟨goes, _, (), _, _, ?_, ih n (by omega), rfl⟩)
    exact ok_bind.mpr ⟨_, _, first, ok_pure.mpr ⟨rfl, rfl⟩⟩

theorem repeats_of_many (run : many more item s = .ok as s') :
    Repeats more (Reader.Gives item) s as s' := by
  simp only [many, ok_bind, ok_collect, ok_pure] at run
  obtain ⟨⟨values, ⟨⟩⟩, _, run, rfl, rfl⟩ := run
  exact repeats_of_collectUpTo run

theorem many_of_repeats (advances : Advances item)
    (repeats : Repeats more (Reader.Gives item) s as s') :
    many more item s = .ok as s' := by
  simp only [many, ok_bind, ok_collect, ok_pure]
  exact ⟨(as, ()), s', collectUpTo_of_repeats advances repeats _ (Nat.lt_succ_self _), rfl, rfl⟩

abbrev AfterCommas (item : Read α) : Session → List α → Session → Prop :=
  Repeats (· = .comma) fun s a s' => s.kind = .comma ∧ item s.next = .ok a s'

theorem Repeats.mono {item item' : Session → α → Session → Prop}
    (implies : ∀ ⦃s a s'⦄, item s a s' → item' s a s') (repeats : Repeats more item s as s') :
    Repeats more item' s as s' := by
  induction repeats with
  | done last => exact .done last
  | next goes first _ ih => exact .next goes (implies first) ih

/-- What holds of each part, and of the state from part to part. -/
theorem Repeats.each {item : Session → α → Session → Prop} {I : Session → Prop} {good : α → Prop}
    (step : ∀ ⦃s a s'⦄, item s a s' → I s → good a ∧ I s') (repeats : Repeats more item s as s')
    (begins : I s) :
    (∀ a ∈ as, good a) ∧ I s' := by
  induction repeats with
  | done => exact ⟨by simp, begins⟩
  | next _ first _ ih =>
    obtain ⟨holds, between⟩ := step first begins
    obtain ⟨rest, after⟩ := ih between
    exact ⟨by simpa using ⟨holds, rest⟩, after⟩

theorem ok_afterCommas (advances : Advances item) :
    afterCommas item s = .ok as s' ↔ AfterCommas item s as s' := by
  have opened : ∀ {s : Session} {a : α} {s' : Session},
      (do skip .comma; item : Read α) s = .ok a s' ↔ s.kind = .comma ∧ item s.next = .ok a s' := by
    intro s a s'
    simp [and_assoc]
  constructor
  · intro run
    exact (repeats_of_many run).mono fun _ _ _ => opened.mp
  · intro repeats
    refine many_of_repeats ?_ (repeats.mono fun _ _ _ => opened.mpr)
    intro s a s' run
    obtain ⟨comma, run⟩ := opened.mp run
    exact Nat.lt_trans (advances run) (length_next comma rfl)

theorem ok_separated (advances : Advances item) :
    separated item s = .ok as s' ↔ ∃ first rest s₁, item s = .ok first s₁ ∧
      AfterCommas item s₁ rest s' ∧ as = first :: rest := by
  simp [separated, ok_afterCommas advances]
  grind

/-- What every step forward keeps, and every part that is read, is kept by parts between commas. -/
theorem each_of_separated {I : Session → Prop} {good : α → Prop} (advances : Advances item)
    (next : ∀ ⦃s⦄, I s → I s.next) (step : ∀ ⦃s a s'⦄, item s = .ok a s' → I s → good a ∧ I s')
    (run : separated item s = .ok as s') (begins : I s) : (∀ a ∈ as, good a) ∧ I s' := by
  obtain ⟨first, rest, s₁, value, others, rfl⟩ := (ok_separated advances).mp run
  obtain ⟨holds, between⟩ := step value begins
  obtain ⟨later, after⟩ :=
    others.each (I := I) (fun _ _ _ read holds => step read.2 (next holds)) between
  exact ⟨by simpa using ⟨holds, later⟩, after⟩

theorem keeps_separated {I : Session → Prop} {first : Bool} (next : ∀ ⦃s⦄, I s → I s.next)
    (separated : Session.Separated first s s') (begins : I s) : I s' := by
  cases first with
  | true =>
    obtain rfl : s' = s := separated
    exact begins
  | false =>
    obtain ⟨_, rfl⟩ : s.kind = .comma ∧ s' = s.next := separated
    exact next begins

/-- Parts with commas between them, up to a closing token. -/
inductive Listed {α : Type} (closer : Kind) (item : Session → α → Session → Prop) :
    Bool → Session → List α → Session → Prop where
  | done {first : Bool} {s : Session} (closes : s.kind = closer) : Listed closer item first s [] s
  | item {first : Bool} {s s₁ s₂ s' : Session} {a : α} {as : List α} (more : s.kind ≠ closer)
      (separated : Session.Separated first s s₁) (value : item s₁ a s₂)
      (rest : Listed closer item false s₂ as s') :
      Listed closer item first s (a :: as) s'

theorem Listed.each {item : Session → α → Session → Prop} {I : Session → Prop} {good : α → Prop}
    {closer : Kind} {first : Bool} (next : ∀ ⦃s⦄, I s → I s.next)
    (step : ∀ ⦃s a s'⦄, item s a s' → I s → good a ∧ I s')
    (listed : Listed closer item first s as s') (begins : I s) : (∀ a ∈ as, good a) ∧ I s' := by
  induction listed with
  | done => exact ⟨by simp, begins⟩
  | item _ separated value _ ih =>
    obtain ⟨holds, between⟩ := step value (keeps_separated next separated begins)
    obtain ⟨rest, after⟩ := ih between
    exact ⟨by simpa using ⟨holds, rest⟩, after⟩

theorem listed_of_collectUpTo {closer : Kind} {first first' : Bool} {n : Nat}
    (run : collectUpTo (· ≠ closer) (itemOfList fun () => return (← item, ())) n (first, ()) s =
      .ok (as, first', ()) s') : Listed closer (Reader.Gives item) first s as s' := by
  induction n generalizing first as s with
  | zero => exact absurd run not_ok_collectUpTo_zero
  | succ n ih =>
    obtain ⟨goes, a, ⟨_, ⟨⟩⟩, s₁, rest, part, others, rfl⟩ | ⟨last, rfl, _, rfl⟩ :=
      ok_collectUpTo.mp run
    · obtain ⟨rfl, s₂, separated, read⟩ := ok_itemOfList.mp part
      obtain ⟨_, _, value, last⟩ := ok_bind.mp read
      obtain ⟨same, rfl⟩ := ok_pure.mp last
      obtain ⟨rfl, _⟩ := Prod.mk.inj same
      exact .item (by simpa using goes) separated value (ih others)
    · exact .done (by simpa using last)

theorem collectUpTo_of_listed (advances : Advances item) {closer : Kind} {first : Bool}
    (listed : Listed closer (Reader.Gives item) first s as s') :
    ∀ n, s.ahead.length < n → ∃ first', collectUpTo (· ≠ closer)
      (itemOfList fun () => return (← item, ())) n
      (first, ()) s = .ok (as, first', ()) s' := by
  induction listed with
  | done closes =>
    intro n enough
    obtain ⟨n, rfl⟩ := Nat.exists_eq_add_one_of_ne_zero (Nat.ne_zero_of_lt enough)
    exact ⟨_, ok_collectUpTo.mpr (.inr ⟨by simpa using closes, rfl, rfl, rfl⟩)⟩
  | item goes separated value _ ih =>
    intro n enough
    obtain ⟨n, rfl⟩ := Nat.exists_eq_add_one_of_ne_zero (Nat.ne_zero_of_lt enough)
    have before := (onward_separated separated).length_le
    have shorter := advances value
    obtain ⟨first', others⟩ := ih n (by omega)
    refine ⟨first', ok_collectUpTo.mpr (.inl ⟨by simpa using goes, _, (false, ()), _, _,
      ok_itemOfList.mpr ⟨rfl, _, separated, ?_⟩, others, rfl⟩)⟩
    exact ok_bind.mpr ⟨_, _, value, ok_pure.mpr ⟨rfl, rfl⟩⟩

theorem ok_itemsOf (advances : Advances item) {closer : Kind} :
    items closer (fun () => return (← item, ())) () s = .ok (as, ()) s' ↔
      Listed closer (Reader.Gives item) true s as s' := by
  constructor
  · intro run
    obtain ⟨first, run⟩ := ok_items.mp run
    exact listed_of_collectUpTo run
  · intro listed
    exact ok_items.mpr (collectUpTo_of_listed advances listed _ (Nat.lt_succ_self _))

/-! Every reader of a part takes at least one token. -/

theorem advances_writtenType (power : Power) : Advances (writtenType power) := by
  intro s type s' run
  cases ok_writtenType.mp run with
  | whole _ kind rest => exact Nat.lt_of_le_of_lt rest.onward.length_le (length_next kind rfl)

theorem reads_of_placed {value : Expr × Position} (run : placed expression s = .ok value s') :
    Reads s (.expr .lowest value.1) s' := by
  obtain ⟨e, position⟩ := value
  exact ok_expression.mp (ok_placed.mp run).1

theorem advances_placed : Advances (placed expression) := by
  intro s value s' run
  exact (reads_of_placed run).expr_shorter

/-! Declarations. -/

theorem ok_head {found : Head} :
    head s = .ok found s' ↔ s.next.kind = .identifier ∧ s.next.next.kind = .colon ∧
      ∃ type, ReadsType s.next.next.next (.whole .lowest type) s' ∧
        found = ⟨s.kind = .constWord, s.next.current.value, type, s.next.here⟩ := by
  simp [head, ok_writtenType, and_assoc]

theorem ok_declare {found : Head} {u : Unit} :
    declare found s = .ok u s' ↔ ∃ scopes,
      s.scopes.declare ⟨found.name, found.constant, found.type⟩ found.position = .ok scopes ∧
        s' = s.withScopes scopes := by
  simp [declare]

theorem ok_defaultValue {found : Head} {value : Expr} :
    defaultValue found s = .ok value s' ↔
      found.constant = false ∧ defaultValue? found.type = some value ∧ s' = s := by
  cases constant : found.constant with
  | true => simp [defaultValue, constant]
  | false =>
    cases given : defaultValue? found.type with
    | none => simp [defaultValue, constant, given]
    | some default =>
      simp [defaultValue, constant, given]
      grind

theorem ok_givenValue {found : Head} {value : Expr} :
    givenValue found s = .ok value s' ↔ s.kind = .assign ∧ ∃ given type both s₁,
      Reads s.next (.expr .lowest given) s₁ ∧ given.types = [type] ∧
      (s₁.pool.join found.type type).1 = some both ∧
        value = given.settle both ∧ s' = s₁.joining found.type type := by
  simp only [givenValue, ok_skip_bind]
  refine and_congr_right fun _ => ?_
  constructor
  · intro run
    obtain ⟨⟨given, position⟩, s₁, read, run⟩ := ok_bind.mp run
    simp only [ok_single_bind, ok_joinOr_bind, ok_pure] at run
    obtain ⟨type, single, both, joined, rfl, rfl⟩ := run
    exact ⟨given, type, both, s₁, ok_expression.mp (ok_placed.mp read).1, single, joined, rfl, rfl⟩
  · rintro ⟨given, type, both, s₁, reads, single, joined, rfl, rfl⟩
    refine ok_bind.mpr ⟨(given, s.next.here), s₁, ok_placed.mpr ⟨ok_expression.mpr reads, rfl⟩, ?_⟩
    simp only [ok_single_bind, ok_joinOr_bind, ok_pure]
    exact ⟨type, single, both, joined, rfl, rfl⟩

theorem ok_declarationRest {found : Head} {declaration : Declaration} :
    declarationRest found s = .ok declaration s' ↔ ∃ value s₁ scopes,
      (s.kind = .semicolon ∧ defaultValue found s = .ok value s₁ ∨
        s.kind ≠ .semicolon ∧ givenValue found s = .ok value s₁) ∧ s₁.kind = .semicolon ∧
      s₁.scopes.declare ⟨found.name, found.constant, found.type⟩ found.position = .ok scopes ∧
      declaration = ⟨found.constant, found.name, found.type, value⟩ ∧
        s' = s₁.next.withScopes scopes := by
  have declaring {value : Expr} {s₁ : Session} :
      (do
        skip .semicolon
        declare found
        return ⟨found.constant, found.name, found.type, value⟩ : Read Declaration) s₁ =
          .ok declaration s' ↔
      s₁.kind = .semicolon ∧ ∃ scopes,
        s₁.scopes.declare ⟨found.name, found.constant, found.type⟩ found.position = .ok scopes ∧
          declaration = ⟨found.constant, found.name, found.type, value⟩ ∧
          s' = s₁.next.withScopes scopes := by
    simp only [declare, ok_skip_bind, ok_updateScopes_bind, ok_pure, Session.next_scopes]
  rw [declarationRest, run_currentKind_bind, ok_ite, ok_bind, ok_bind]
  simp only [declaring]
  constructor
  · rintro (⟨kind, value, s₁, given, ends, scopes, declares, rest⟩ |
      ⟨kind, value, s₁, given, ends, scopes, declares, rest⟩)
    · exact ⟨value, s₁, scopes, .inl ⟨kind, given⟩, ends, declares, rest⟩
    · exact ⟨value, s₁, scopes, .inr ⟨kind, given⟩, ends, declares, rest⟩
  · rintro ⟨value, s₁, scopes, ⟨kind, given⟩ | ⟨kind, given⟩, ends, declares, rest⟩
    · exact .inl ⟨kind, value, s₁, given, ends, scopes, declares, rest⟩
    · exact .inr ⟨kind, value, s₁, given, ends, scopes, declares, rest⟩

/-! Several targets. -/

theorem ok_existing {found : Receiver} :
    existing s = .ok found s' ↔ s.kind = .identifier ∧
      ∃ binding, s.scopes.binding? s.current.value = some binding ∧
      s.scopes.isConstant s.current.value = false ∧ found = .existing s.current.value binding.type ∧
      s' = s.next := by
  simp [existing, ok_resolve, ok_refuseConstant, and_assoc]
  grind

theorem ok_receiver {found : Receiver} :
    receiver s = .ok found s' ↔
      (s.kind = .varWord ∨ s.kind = .constWord) ∧
      (∃ declared, head s = .ok declared s' ∧ found = .declared declared) ∨
        existing s = .ok found s' := by
  have named : existing s = .ok found s' → s.kind = .identifier := fun run => (ok_existing.mp run).1
  rw [receiver, run_currentKind_bind]
  generalize s.kind = kind at named
  split
  next =>
    have noName : existing s ≠ .ok found s' := fun run => by cases named run
    simp only [noName, ok_map, bind_pure_comp, true_or, true_and, or_false]
  next =>
    have noName : existing s ≠ .ok found s' := fun run => by cases named run
    simp only [noName, ok_map, bind_pure_comp, or_true, true_and, or_false]
  next => simp only [reduceCtorEq, or_false, false_and, false_or]
  next noVar noConst other =>
    rw [ok_unexpectedHere, false_iff, not_or]
    exact ⟨fun declared => declared.1.elim noVar noConst, fun run => other (named run)⟩

theorem length_next_le (s : Session) : s.next.ahead.length ≤ s.ahead.length := by
  rw [Session.next_ahead, List.length_tail]
  omega

theorem advances_head : Advances head := by
  intro s found s' run
  obtain ⟨name, colon, type, reads, rfl⟩ := ok_head.mp run
  have inside := reads.onward.length_le
  have shorter := length_next name rfl
  have shorter' := length_next colon rfl
  have first := length_next_le s
  omega

theorem advances_existing : Advances existing := by
  intro s found s' run
  obtain ⟨kind, _, _, _, _, rfl⟩ := ok_existing.mp run
  exact length_next kind rfl

theorem advances_receiver : Advances receiver := by
  intro s found s' run
  obtain ⟨_, declared, declares, rfl⟩ | exists' := ok_receiver.mp run
  · exact advances_head declares
  · exact advances_existing exists'

inductive Joined : Ty.Pool → List Ty → List Ty → Ty.Pool → Prop where
  | nil {pool : Ty.Pool} : Joined pool [] [] pool
  | cons {pool pool' : Ty.Pool} {wanted type both : Ty} {wanteds types : List Ty}
      (joined : (pool.join wanted type).1 = some both)
      (rest : Joined (pool.join wanted type).2 wanteds types pool') :
      Joined pool (wanted :: wanteds) (type :: types) pool'

inductive DeclaresAll : ScopeStack → List Receiver → ScopeStack → Prop where
  | nil {scopes : ScopeStack} : DeclaresAll scopes [] scopes
  | declared {scopes scopes₁ scopes' : ScopeStack} {found : Head} {rest : List Receiver}
      (declares : scopes.declare ⟨found.name, found.constant, found.type⟩
        found.position = .ok scopes₁)
      (others : DeclaresAll scopes₁ rest scopes') : DeclaresAll scopes
        (.declared found :: rest) scopes'
  | existing {scopes scopes' : ScopeStack} {name : String} {type : Ty} {rest : List Receiver}
      (others : DeclaresAll scopes rest scopes') : DeclaresAll scopes
      (.existing name type :: rest) scopes'

/-- How values are handed out to targets: one each, or the results of one call. -/
inductive Distributed (s : Session) (receivers : List Receiver) :
    List Expr → List Expr → Session → Prop where
  | each {values settled : List Expr} {types : List Ty} {pool : Ty.Pool}
      (count : values.length = receivers.length) (singles : Singles values types)
      (fitted : Fitted s.pool (receivers.map Receiver.type) (values.zip types) settled pool) :
      Distributed s receivers values settled (s.withPool pool)
  | results {callee : String} {args : List Expr} {results : List Ty} {pool : Ty.Pool}
      (several : receivers.length ≠ 1) (count : results.length = receivers.length)
      (joined : Joined s.pool (receivers.map Receiver.type) results pool) :
      Distributed s receivers [.call callee args results] [.call callee args results]
        (s.withPool pool)

theorem settled_of_distributed {receivers : List Receiver} {values settled : List Expr}
    (distributed : Distributed s receivers values settled s') : Expr.AllSettled values settled := by
  cases distributed with
  | each _ singles fitted => exact settled_of_fitted fitted singles
  | results => exact .cons ⟨.unknown, rfl⟩ .nil

theorem ok_receive {found : Receiver} {type both : Ty} {position : Position} :
    receive found type position s = .ok both s' ↔
      (s.pool.join found.type type).1 = some both ∧ s' = s.joining found.type type := by
  simp [receive]

theorem ok_receiveEach {receivers : List Receiver} {values : List (Expr × Position)}
    {settled : List Expr} (even : values.length = receivers.length) :
    receiveEach receivers values s = .ok settled s' ↔
      ∃ types pool, Singles (values.map (·.1)) types ∧ Fitted s.pool (receivers.map Receiver.type)
      ((values.map (·.1)).zip types) settled pool ∧ s' = s.withPool pool := by
  induction receivers generalizing values settled s s' with
  | nil =>
    obtain rfl : values = [] := by simpa using even
    simp only [receiveEach, ok_pure, List.map_nil, List.forall₂_nil_left_iff]
    constructor
    · rintro ⟨rfl, rfl⟩
      exact ⟨[], s'.pool, rfl, .nil, rfl⟩
    · rintro ⟨types, pool, rfl, fitted, rfl⟩
      cases fitted
      exact ⟨rfl, rfl⟩
  | cons found receivers ih =>
    cases values with
    | nil => simp at even
    | cons value values =>
      obtain ⟨value, position⟩ := value
      simp only [List.length_cons, Nat.add_right_cancel_iff] at even
      simp only [receiveEach, ok_bind, ok_single, ok_receive, ih even, ok_pure, List.map_cons,
        List.forall₂_cons_left_iff]
      constructor
      · rintro ⟨type, _, ⟨single, rfl⟩, both, _, ⟨joined, rfl⟩, rest, _,
          ⟨types, pool, singles, fitted, rfl⟩, rfl, rfl⟩
        exact ⟨type :: types, pool, ⟨type, types, single, singles, rfl⟩, .cons joined fitted, rfl⟩
      · rintro ⟨_, pool, ⟨type, types, single, singles, rfl⟩, fitted, rfl⟩
        cases fitted with
        | cons joined fitted =>
          exact ⟨type, s, ⟨single, rfl⟩, _, _, ⟨joined, rfl⟩, _, _,
            ⟨types, pool, singles, fitted, rfl⟩, rfl, rfl⟩

theorem ok_receiveResults {receivers : List Receiver} {types : List Ty} {position : Position}
    {u : Unit} (even : types.length = receivers.length) :
    receiveResults position receivers types s = .ok u s' ↔
      ∃ pool, Joined s.pool (receivers.map Receiver.type) types pool ∧ s' = s.withPool pool := by
  induction receivers generalizing types s s' with
  | nil =>
    obtain rfl : types = [] := by simpa using even
    simp only [receiveResults, ok_pure, List.map_nil, true_and]
    constructor
    · rintro rfl
      exact ⟨s'.pool, .nil, rfl⟩
    · rintro ⟨pool, joined, rfl⟩
      cases joined
      rfl
  | cons found receivers ih =>
    cases types with
    | nil => simp at even
    | cons type types =>
      simp only [List.length_cons, Nat.add_right_cancel_iff] at even
      simp only [receiveResults, ok_bind, ok_receive, ih even, List.map_cons]
      constructor
      · rintro ⟨both, _, ⟨joined, rfl⟩, pool, rest, rfl⟩
        exact ⟨pool, .cons joined rest, rfl⟩
      · rintro ⟨pool, joined, rfl⟩
        cases joined with
        | cons joined rest => exact ⟨_, _, ⟨joined, rfl⟩, pool, rest, rfl⟩

theorem ok_distribute {receivers : List Receiver} {values : List (Expr × Position)}
    {position : Position} {settled : List Expr} :
    distribute receivers values position s = .ok settled s' ↔
      Distributed s receivers (values.map (·.1)) settled s' := by
  unfold distribute
  by_cases even : values.length = receivers.length
  · rw [if_pos even, ok_receiveEach even]
    constructor
    · rintro ⟨types, pool, singles, fitted, rfl⟩
      exact .each (by simpa using even) singles fitted
    · intro distributed
      generalize same : values.map (·.1) = exprs at distributed ⊢
      cases distributed with
      | each count singles fitted => exact ⟨_, _, singles, fitted, rfl⟩
      | results several count joined =>
        have one : values.length = 1 := by simpa using congrArg List.length same
        exact absurd (even ▸ one) several
  · rw [if_neg even]
    constructor
    · intro run
      match values with
      | [(.call callee args results, start)] =>
        simp only [ok_ite] at run
        obtain ⟨count, run⟩ | ⟨_, run⟩ := run
        · simp only [ok_bind, ok_receiveResults count, ok_pure] at run
          obtain ⟨_, _, ⟨pool, joined, rfl⟩, rfl, rfl⟩ := run
          exact .results (fun one => even one.symm) count joined
        · simp at run
      | [] => simp at run
      | (_, _) :: (_, _) :: _ => simp at run
      | [(.name .., _)] | [(.integer .., _)] | [(.float .., _)] | [(.bool .., _)] |
        [(.string .., _)]
      | [(.char .., _)] | [(.array .., _)] | [(.map .., _)] | [(.unary .., _)] | [(.binary .., _)]
      | [(.step .., _)] | [(.assign .., _)] | [(.index .., _)] => simp at run
    · intro distributed
      generalize same : values.map (·.1) = exprs at distributed
      cases distributed with
      | each count singles fitted => exact absurd (by simpa [← same] using count) even
      | results several count joined =>
        obtain ⟨⟨_, start⟩, rfl, rfl⟩ := List.map_eq_singleton_iff.mp same
        simp only [if_pos count, ok_bind, ok_receiveResults count, ok_pure]
        exact ⟨(), _, ⟨_, joined, rfl⟩, trivial, rfl⟩

theorem ok_declareAll {receivers : List Receiver} {u : Unit} :
    declareAll receivers s = .ok u s' ↔ ∃ scopes, DeclaresAll s.scopes receivers scopes ∧
      s' = s.withScopes scopes := by
  induction receivers generalizing s s' with
  | nil =>
    simp only [declareAll, ok_pure, true_and]
    constructor
    · rintro rfl
      exact ⟨s'.scopes, .nil, rfl⟩
    · rintro ⟨scopes, declares, rfl⟩
      cases declares
      rfl
  | cons found receivers ih =>
    cases found with
    | declared found =>
      simp only [declareAll, ok_bind, ok_declare, ih]
      constructor
      · rintro ⟨_, _, ⟨scopes, declares, rfl⟩, scopes', others, rfl⟩
        exact ⟨scopes', .declared declares others, rfl⟩
      · rintro ⟨scopes', declares, rfl⟩
        cases declares with
        | declared declares others => exact ⟨(), _, ⟨_, declares, rfl⟩, scopes', others, rfl⟩
    | existing name type =>
      simp only [declareAll, ih]
      constructor
      · rintro ⟨scopes, others, rfl⟩
        exact ⟨scopes, .existing others, rfl⟩
      · rintro ⟨scopes, declares, rfl⟩
        cases declares with
        | existing others => exact ⟨scopes, others, rfl⟩

theorem ok_multipleRest {first : Receiver} {st : Stmt} :
    multipleRest first s = .ok st s' ↔ ∃ others values settled scopes s₁ s₂ s₃,
      AfterCommas receiver s others s₁ ∧ s₁.kind = .assign ∧
      separated (placed expression) s₁.next = .ok values s₂ ∧ s₂.kind = .semicolon ∧
      Distributed s₂.next (first :: others) (values.map (·.1)) settled s₃ ∧
      DeclaresAll s₃.scopes (first :: others) scopes ∧
      st = .multiple ((first :: others).map Receiver.target) settled ∧
      s' = s₃.withScopes scopes := by
  simp only [multipleRest]
  constructor
  · intro run
    obtain ⟨others, s₁, receivers, run⟩ := ok_bind.mp run
    simp only [ok_take_bind, run_positionOf_bind] at run
    obtain ⟨assign, run⟩ := run
    obtain ⟨values, s₂, given, run⟩ := ok_bind.mp run
    rw [ok_skip_bind] at run
    obtain ⟨ends, run⟩ := run
    obtain ⟨settled, s₃, distributes, run⟩ := ok_bind.mp run
    obtain ⟨_, _, declaring, run⟩ := ok_bind.mp run
    obtain ⟨scopes, declares, rfl⟩ := ok_declareAll.mp declaring
    obtain ⟨rfl, rfl⟩ := ok_pure.mp run
    exact ⟨others, values, settled, scopes, s₁, s₂, s₃,
      (ok_afterCommas advances_receiver).mp receivers, assign, given, ends,
      ok_distribute.mp distributes, declares, rfl, rfl⟩
  · rintro ⟨others, values, settled, scopes, s₁, s₂, s₃, receivers, assign, given, ends,
      distributed, declares, rfl, rfl⟩
    refine ok_bind.mpr ⟨others, s₁, (ok_afterCommas advances_receiver).mpr receivers, ?_⟩
    simp only [ok_take_bind, run_positionOf_bind]
    refine ⟨assign, ok_bind.mpr ⟨values, s₂, given, ok_skip_bind.mpr ⟨ends, ?_⟩⟩⟩
    refine ok_bind.mpr ⟨settled, s₃, ok_distribute.mpr distributed,
      ok_bind.mpr ⟨(), _, ?_, ok_pure.mpr ⟨rfl, rfl⟩⟩⟩
    exact ok_declareAll.mpr ⟨scopes, declares, rfl⟩

theorem ok_declarationStatement {st : Stmt} :
    declarationStatement s = .ok st s' ↔ ∃ found s₁, head s = .ok found s₁ ∧
      (s₁.kind = .comma ∧ multipleRest (.declared found) s₁ = .ok st s' ∨
        s₁.kind ≠ .comma ∧ ∃ declaration, declarationRest found s₁ = .ok declaration s' ∧
          st = .declaration declaration) := by
  simp [declarationStatement]

theorem ok_expressionStatement {st : Stmt} :
    expressionStatement s = .ok st s' ↔
      (s.kind = .identifier ∧ s.next.kind = .comma) ∧
        (∃ found s₁, existing s = .ok found s₁ ∧ multipleRest found s₁ = .ok st s') ∨
      ¬(s.kind = .identifier ∧ s.next.kind = .comma) ∧
        ∃ e s₁, Reads s (.expr .lowest e) s₁ ∧ e.isAction = true ∧ s₁.kind = .semicolon ∧
          st = .expression e ∧ s' = s₁.next := by
  simp [expressionStatement, ok_placed, ok_expression, and_assoc]
  grind

/-! Conditions and the headers of loops. -/

theorem ok_condition {statement : String} {e : Expr} :
    condition statement s = .ok e s' ↔ s.kind = .colon ∧ s.next.kind = .openParen ∧ ∃ type s₁,
      Reads s.next.next (.expr .lowest e) s₁ ∧ s₁.kind = .closeParen ∧ s₁.next.kind = .colon ∧
      e.types = [type] ∧
        type.isBase "bool" = true ∧ s' = s₁.next.next := by
  simp only [condition, ok_skip_bind]
  refine and_congr_right fun _ => and_congr_right fun _ => ?_
  constructor
  · intro run
    obtain ⟨⟨value, position⟩, s₁, read, run⟩ := ok_bind.mp run
    simp only [ok_skip_bind, ok_single_bind, ok_ite, ↓ok_failAt_bind, and_false, or_false,
      ok_pure] at run
    obtain ⟨closes, ends, type, single, bool, rfl, rfl⟩ := run
    exact ⟨type, s₁, ok_expression.mp (ok_placed.mp read).1, closes, ends, single, bool, rfl⟩
  · rintro ⟨type, s₁, reads, closes, ends, single, bool, rfl⟩
    refine ok_bind.mpr ⟨(e, s.next.next.here), s₁, ok_placed.mpr ⟨ok_expression.mpr reads, rfl⟩, ?_⟩
    simp only [ok_skip_bind, ok_single_bind]
    refine ⟨closes, ends, type, single, ?_⟩
    rw [if_pos bool]
    exact ok_pure.mpr ⟨rfl, rfl⟩

theorem ok_startOfLoop {start : Start} :
    startOfLoop s = .ok start s' ↔
      (s.kind = .varWord ∧ ∃ found declaration s₁, head s = .ok found s₁ ∧
        found.type.isBase "int" = true ∧ declarationRest found s₁ = .ok declaration s' ∧
        start = .declaration declaration) ∨
      s.kind = .identifier ∧ ∃ target value type s₁,
        Reads s (.expr .lowest (.assign target "=" value type)) s₁ ∧
        type.isBase "int" = true ∧ s₁.kind = .semicolon ∧
        start = .assignment (.assign target "=" value type) ∧ s' = s₁.next := by
  rw [startOfLoop, run_here_bind, run_currentKind_bind]
  generalize s.kind = kind
  split
  next =>
    simp only [true_and, reduceCtorEq, false_and, or_false]
    constructor
    · intro run
      obtain ⟨found, s₁, heads, run⟩ := ok_bind.mp run
      simp only [ok_ite, ↓ok_failAt_bind, and_false, or_false, bind_pure_comp, ok_map] at run
      obtain ⟨int, declaration, rest, rfl⟩ := run
      exact ⟨found, declaration, s₁, heads, int, rest, rfl⟩
    · rintro ⟨found, declaration, s₁, heads, int, rest, rfl⟩
      refine ok_bind.mpr ⟨found, s₁, heads, ?_⟩
      simp only [if_pos int, bind_pure_comp, ok_map]
      exact ⟨declaration, rest, rfl⟩
  next => simp only [ok_failAt, reduceCtorEq, false_and, or_false]
  next =>
    simp only [reduceCtorEq, false_and, false_or, true_and, ok_bind, ok_expression]
    constructor
    · rintro ⟨e, s₁, reads, run⟩
      split at run
      next target operator value type =>
        simp only [ite_not, ok_ite, ↓ok_failAt_bind, and_false, or_false, ok_skip_bind,
          ok_pure] at run
        obtain ⟨rfl, int, ends, rfl, rfl⟩ := run
        exact ⟨target, value, type, s₁, reads, int, ends, rfl, rfl⟩
      next => cases ok_failAt.mp run
    · rintro ⟨target, value, type, s₁, reads, int, ends, rfl, rfl⟩
      exact ⟨_, s₁, reads, by simp [int, ends]⟩
  next noVar noConst noName =>
    rw [ok_failAt, false_iff, not_or]
    exact ⟨fun declared => noVar declared.1, fun assigned => noName assigned.1⟩

theorem ok_loopHeader {start : Start} {condition update : Expr} :
    loopHeader s = .ok (start, condition, update) s' ↔ ∃ s₁ s₂, startOfLoop s = .ok start s₁ ∧
      Reads s₁ (.expr .lowest condition) s₂ ∧ isLoopCondition condition = true ∧
      s₂.kind = .semicolon ∧ Reads s₂.next (.expr .lowest update) s' ∧
      isLoopUpdate update = true := by
  simp only [loopHeader]
  constructor
  · intro run
    obtain ⟨_, s₁, begins, run⟩ := ok_bind.mp run
    obtain ⟨⟨_, position⟩, s₂, first, run⟩ := ok_bind.mp run
    simp only [ok_ite, ↓ok_failAt_bind, and_false, or_false, ok_skip_bind] at run
    obtain ⟨isCondition, ends, run⟩ := run
    obtain ⟨⟨_, position'⟩, s₃, second, run⟩ := ok_bind.mp run
    simp only [ok_ite, ↓ok_failAt_bind, and_false, or_false, ok_pure, Prod.mk.injEq] at run
    obtain ⟨isUpdate, ⟨rfl, rfl, rfl⟩, rfl⟩ := run
    exact ⟨s₁, s₂, begins, reads_of_placed first, isCondition, ends,
      reads_of_placed second, isUpdate⟩
  · rintro ⟨s₁, s₂, begins, conditionReads, isCondition, ends, updateReads, isUpdate⟩
    have first := ok_placed.mpr ⟨ok_expression.mpr conditionReads, rfl⟩
    have second := ok_placed.mpr ⟨ok_expression.mpr updateReads, rfl⟩
    refine ok_bind.mpr ⟨start, s₁, begins, ok_bind.mpr ⟨(condition, s₁.here), s₂, first, ?_⟩⟩
    rw [if_pos isCondition, ok_skip_bind]
    refine ⟨ends, ok_bind.mpr ⟨(update, s₂.next.here), s', second, ?_⟩⟩
    rw [if_pos isUpdate]
    exact ok_pure.mpr ⟨rfl, rfl⟩

theorem ok_loopControl {st : Stmt} :
    loopControl s = .ok st s' ↔ s.place.inLoop = true ∧ s.next.kind = .semicolon ∧
      st = (if s.kind = .continueWord then .continuing else .breaking) ∧ s' = s.next.next := by
  simp [loopControl, and_assoc]
  intros
  exact and_comm

/-! Functions and `return`. -/

theorem ok_parameter {found : Parameter} :
    parameter s = .ok found s' ↔ s.kind = .identifier ∧ s.next.kind = .colon ∧
      ∃ type, ReadsType s.next.next (.whole .lowest type) s' ∧ found = ⟨s.current.value, type⟩ := by
  simp [parameter, ok_writtenType, and_assoc]

theorem advances_parameter : Advances parameter := by
  intro s found s' run
  obtain ⟨name, colon, type, reads, rfl⟩ := ok_parameter.mp run
  have inside := reads.onward.length_le
  have shorter := length_next name rfl
  have shorter' := length_next colon rfl
  omega

theorem ok_parameters {found : List Parameter} :
    parameters s = .ok found s' ↔ s.kind = .openParen ∧ ∃ s₁,
      Listed .closeParen (Reader.Gives parameter) true s.next found s₁ ∧ s₁.kind = .closeParen ∧
      s' = s₁.next := by
  simp only [parameters, ok_bind, ok_skip, ok_pure]
  constructor
  · rintro ⟨_, _, ⟨opens, rfl⟩, ⟨_, ⟨⟩⟩, s₁, list, _, _, ⟨closes, rfl⟩, rfl, rfl⟩
    exact ⟨opens, s₁, (ok_itemsOf advances_parameter).mp list, closes, rfl⟩
  · rintro ⟨opens, s₁, list, closes, rfl⟩
    exact ⟨(), _, ⟨opens, rfl⟩, (found, ()), s₁, (ok_itemsOf advances_parameter).mpr list, (), _,
      ⟨closes, rfl⟩, rfl, rfl⟩

theorem ok_resultTypes {types : List Ty} :
    resultTypes s = .ok types s' ↔
      (s.kind = .colon ∧ s.next.kind = .openParen ∧ ∃ s₁,
        separated (writtenType .lowest) s.next.next = .ok types s₁ ∧ s₁.kind = .closeParen ∧
        s' = s₁.next) ∨
      s.kind ≠ .colon ∧ types = [] ∧ s' = s := by
  simp [resultTypes, and_assoc]

inductive DeclaresParameters (position : Position) :
    ScopeStack → List Parameter → ScopeStack → Prop where
  | nil {scopes : ScopeStack} : DeclaresParameters position scopes [] scopes
  | cons {scopes scopes₁ scopes' : ScopeStack} {parameter : Parameter} {rest : List Parameter}
      (declares : scopes.declareParameter parameter position = .ok scopes₁)
      (others : DeclaresParameters position scopes₁ rest scopes') :
      DeclaresParameters position scopes (parameter :: rest) scopes'

theorem ok_declareParameters {position : Position} {found : List Parameter} {u : Unit} :
    declareParameters position found s = .ok u s' ↔
      ∃ scopes, DeclaresParameters position s.scopes found scopes ∧ s' = s.withScopes scopes := by
  induction found generalizing s s' with
  | nil =>
    simp only [declareParameters, ok_pure, true_and]
    constructor
    · rintro rfl
      exact ⟨s'.scopes, .nil, rfl⟩
    · rintro ⟨scopes, declares, rfl⟩
      cases declares
      rfl
  | cons parameter rest ih =>
    simp only [declareParameters, ok_bind, ok_updateScopes, ih]
    constructor
    · rintro ⟨_, _, ⟨scopes, declares, rfl⟩, scopes', others, rfl⟩
      exact ⟨scopes', .cons declares others, rfl⟩
    · rintro ⟨scopes', declares, rfl⟩
      cases declares with
      | cons declares others => exact ⟨(), _, ⟨_, declares, rfl⟩, scopes', others, rfl⟩

theorem ok_givenResults {values : List (Expr × Position)} :
    givenResults s = .ok values s' ↔ s.kind = .colon ∧
      ((s.next.kind = .openParen ∧ ∃ s₁, separated (placed expression) s.next.next = .ok values s₁ ∧
          s₁.kind = .closeParen ∧ s' = s₁.next) ∨
        s.next.kind ≠ .openParen ∧ ∃ e, Reads s.next (.expr .lowest e) s' ∧ s'.kind ≠ .comma ∧
          values = [(e, s.next.here)]) := by
  simp [givenResults, ok_placed, ok_expression, and_assoc]

theorem ok_fitResults {function : String} {results : List Ty} {values : List (Expr × Position)}
    {settled : List Expr} (even : values.length = results.length) :
    fitResults function results values s = .ok settled s' ↔
      ∃ types pool, Singles (values.map (·.1)) types ∧
      Fitted s.pool results ((values.map (·.1)).zip types) settled pool ∧ s' = s.withPool pool := by
  induction results generalizing values settled s s' with
  | nil =>
    obtain rfl : values = [] := by simpa using even
    simp only [fitResults, ok_pure, List.map_nil, List.forall₂_nil_left_iff]
    constructor
    · rintro ⟨rfl, rfl⟩
      exact ⟨[], s'.pool, rfl, .nil, rfl⟩
    · rintro ⟨types, pool, rfl, fitted, rfl⟩
      cases fitted
      exact ⟨rfl, rfl⟩
  | cons result results ih =>
    cases values with
    | nil => simp at even
    | cons value values =>
      obtain ⟨value, position⟩ := value
      simp only [List.length_cons, Nat.add_right_cancel_iff] at even
      simp only [fitResults, ok_bind, ok_single, ok_joinOr, ih even, ok_pure, List.map_cons,
        List.forall₂_cons_left_iff]
      constructor
      · rintro ⟨type, _, ⟨single, rfl⟩, both, _, ⟨joined, rfl⟩, rest, _,
          ⟨types, pool, singles, fitted, rfl⟩, rfl, rfl⟩
        exact ⟨type :: types, pool, ⟨type, types, single, singles, rfl⟩, .cons joined fitted, rfl⟩
      · rintro ⟨_, pool, ⟨type, types, single, singles, rfl⟩, fitted, rfl⟩
        cases fitted with
        | cons joined fitted =>
          exact ⟨type, s, ⟨single, rfl⟩, _, _, ⟨joined, rfl⟩, _, _,
            ⟨types, pool, singles, fitted, rfl⟩, rfl, rfl⟩

/-- The end of a `return`, once its values are read. -/
theorem ok_returned {function : Signature} {values : List (Expr × Position)} {position : Position}
    {st : Stmt} :
    (do
      skip .semicolon
      if values.length ≠ function.results.length then
        failAt position (.resultCount function.name function.results.length values.length)
      return .returning (← fitResults function.name function.results values) : Read Stmt)
        s = .ok st s' ↔
    s.kind = .semicolon ∧ values.length = function.results.length ∧ ∃ types settled pool,
      Singles (values.map (·.1)) types ∧
        Fitted s.pool function.results ((values.map (·.1)).zip types) settled pool ∧
        st = .returning settled ∧ s' = s.next.withPool pool := by
  by_cases even : values.length = function.results.length
  · simp [even, ok_fitResults even, and_assoc]
    grind
  · simp [even]

theorem ok_returnStatement {st : Stmt} :
    returnStatement s = .ok st s' ↔ ∃ function values s₁, s.place.function = some function ∧
      (s.next.kind = .semicolon ∧ values = [] ∧ s₁ = s.next ∨
        s.next.kind ≠ .semicolon ∧ givenResults s.next = .ok values s₁) ∧ s₁.kind = .semicolon ∧
      values.length = function.results.length ∧
      ∃ types settled pool, Singles (values.map (·.1)) types ∧
        Fitted s₁.pool function.results ((values.map (·.1)).zip types) settled pool ∧
        st = .returning settled ∧ s' = s₁.next.withPool pool := by
  simp only [returnStatement, run_next_bind, run_positionOf_bind, run_place_bind,
    Session.next_place]
  cases inside : s.place.function with
  | none => simp
  | some function =>
    simp only [Option.some.injEq, run_currentKind_bind, ok_ite, pure_bind]
    constructor
    · rintro (⟨ends, run⟩ | ⟨more, run⟩)
      · exact ⟨function, [], s.next, rfl, .inl ⟨ends, rfl, rfl⟩, ok_returned.mp run⟩
      · obtain ⟨values, s₁, given, run⟩ := ok_bind.mp run
        exact ⟨function, values, s₁, rfl, .inr ⟨more, given⟩, ok_returned.mp run⟩
    · rintro ⟨_, values, s₁, rfl, ⟨ends, rfl, rfl⟩ | ⟨more, given⟩, rest⟩
      · exact .inl ⟨ends, ok_returned.mpr rest⟩
      · exact .inr ⟨more, ok_bind.mpr ⟨values, s₁, given, ok_returned.mpr rest⟩⟩

theorem ok_requirePlace {kind : Kind} {u : Unit} :
    requirePlace kind s = .ok u s' ↔
      (s.place.inFunction = true ∨ s.place.testing = true ∨ kind = .funWord) ∧ s' = s := by
  cases inFunction : s.place.inFunction <;> cases testing : s.place.testing <;>
    simp [requirePlace, inFunction, testing]

/-! Every part goes forward. -/

theorem Repeats.onward {item : Session → α → Session → Prop}
    (each : ∀ ⦃s a s'⦄, item s a s' → Onward s s') (repeats : Repeats more item s as s') :
    Onward s s' := by
  induction repeats with
  | done => exact .refl _
  | next _ first _ ih => exact (each first).trans ih

theorem Listed.onward {item : Session → α → Session → Prop} {closer : Kind} {first : Bool}
    (each : ∀ ⦃s a s'⦄, item s a s' → Onward s s') (listed : Listed closer item first s as s') :
    Onward s s' := by
  induction listed with
  | done => exact .refl _
  | item _ separated value _ ih => exact ((onward_separated separated).trans (each value)).trans ih

theorem onward_afterCommas (each : ∀ ⦃s a s'⦄, item s = .ok a s' → Onward s s')
    (repeats : AfterCommas item s as s') :
    Onward s s' :=
  repeats.onward fun _ _ _ read => (onward_next read.1 rfl).trans (each read.2)

theorem onward_separatedBy (advances : Advances item)
    (each : ∀ ⦃s a s'⦄, item s = .ok a s' → Onward s s') (run : separated item s = .ok as s') :
    Onward s s' := by
  obtain ⟨first, rest, s₁, value, others, rfl⟩ := (ok_separated advances).mp run
  exact (each value).trans (onward_afterCommas each others)

theorem onward_writtenType ⦃s : Session⦄ ⦃type : Ty⦄ ⦃s' : Session⦄
    (run : writtenType .lowest s = .ok type s') :
    Onward s s' := (ok_writtenType.mp run).onward

theorem onward_placed ⦃s : Session⦄ ⦃value : Expr × Position⦄ ⦃s' : Session⦄
    (run : placed expression s = .ok value s') : Onward s s' :=
  (reads_of_placed run).onward

/-- A head is read behind `var` or `const`. -/
theorem onward_head {found : Head} (kind : s.kind = .varWord ∨ s.kind = .constWord)
    (run : head s = .ok found s') :
    Onward s s' := by
  obtain ⟨name, colon, type, reads, rfl⟩ := ok_head.mp run
  calc
    Onward s s.next := kind.elim (onward_next · rfl) (onward_next · rfl)
    Onward _ s.next.next.next := onward_two name rfl colon rfl
    Onward _ s' := reads.onward

theorem onward_existing {found : Receiver} (run : existing s = .ok found s') : Onward s s' := by
  obtain ⟨kind, _, _, _, _, rfl⟩ := ok_existing.mp run
  exact onward_next kind rfl

theorem onward_receiver ⦃s : Session⦄ ⦃found : Receiver⦄ ⦃s' : Session⦄
    (run : receiver s = .ok found s') :
    Onward s s' := by
  obtain ⟨kind, declared, declares, rfl⟩ | exists' := ok_receiver.mp run
  · exact onward_head kind declares
  · exact onward_existing exists'

theorem onward_parameter ⦃s : Session⦄ ⦃found : Parameter⦄ ⦃s' : Session⦄
    (run : parameter s = .ok found s') :
    Onward s s' := by
  obtain ⟨name, colon, type, reads, rfl⟩ := ok_parameter.mp run
  exact (onward_two name rfl colon rfl).trans reads.onward

theorem onward_givenValue {found : Head} {value : Expr} (run : givenValue found s = .ok value s') :
    Onward s s' := by
  obtain ⟨kind, given, type, both, s₁, reads, _, _, _, rfl⟩ := ok_givenValue.mp run
  exact ((onward_next kind rfl).trans reads.onward).joining _ _

theorem forward_declarationRest {found : Head} {declaration : Declaration}
    (run : declarationRest found s = .ok declaration s') : Forward s s' := by
  obtain ⟨value, s₁, scopes, given, ends, _, _, rfl⟩ := ok_declarationRest.mp run
  have onward : Onward s s₁ := by
    rcases given with ⟨_, default⟩ | ⟨_, given⟩
    · obtain ⟨_, _, rfl⟩ := ok_defaultValue.mp default
      exact .refl _
    · exact onward_givenValue given
  exact (onward.trans (onward_next ends rfl)).toForward.withScopes _

theorem onward_distributed {receivers : List Receiver} {values settled : List Expr}
    (distributed : Distributed s receivers values settled s') : Onward s s' := by
  cases distributed <;> exact (Onward.refl s).withPool _

theorem forward_multipleRest {first : Receiver} {st : Stmt}
    (run : multipleRest first s = .ok st s') :
    Forward s s' := by
  obtain ⟨others, values, settled, scopes, s₁, s₂, s₃, receivers, assign, given, ends,
    distributed, _, _, rfl⟩ :=
    ok_multipleRest.mp run
  have whole : Onward s s₃ := calc
    Onward s s₁ := onward_afterCommas onward_receiver receivers
    Onward _ s₂.next :=
      onward_enclosed assign rfl (onward_separatedBy advances_placed onward_placed given) ends rfl
    Onward _ s₃ := onward_distributed distributed
  exact whole.toForward.withScopes _

theorem forward_declarationStatement {st : Stmt} (kind : s.kind = .varWord ∨ s.kind = .constWord)
    (run : declarationStatement s = .ok st s') :
    Forward s s' ∧ s'.ahead.length < s.ahead.length := by
  obtain ⟨found, s₁, declares, rest⟩ := ok_declarationStatement.mp run
  have after : Forward s₁ s' := by
    rcases rest with ⟨_, rest⟩ | ⟨_, declaration, rest, _⟩
    · exact forward_multipleRest rest
    · exact forward_declarationRest rest
  exact ⟨(onward_head kind declares).toForward.trans after, after.lt (advances_head declares)⟩

theorem forward_expressionStatement {st : Stmt} (run : expressionStatement s = .ok st s') :
    Forward s s' ∧ s'.ahead.length < s.ahead.length := by
  obtain ⟨_, found, s₁, exists', rest⟩ | ⟨_, e, s₁, reads, _, ends, _, rfl⟩ :=
    ok_expressionStatement.mp run
  · have after := forward_multipleRest rest
    exact ⟨(onward_existing exists').toForward.trans after, after.lt (advances_existing exists')⟩
  · have last := onward_next ends rfl
    exact ⟨(reads.onward.trans last).toForward, last.lt reads.expr_shorter⟩

theorem onward_condition {statement : String} {e : Expr} (run : condition statement s = .ok e s') :
    Onward s s' := by
  obtain ⟨colon, opens, type, s₁, reads, closes, ends, _, _, rfl⟩ := ok_condition.mp run
  calc
    Onward s s.next := onward_next colon rfl
    Onward _ s₁.next := onward_enclosed opens rfl reads.onward closes rfl
    Onward _ s₁.next.next := onward_next ends rfl

theorem onward_conditional {statement : String} {kind : Kind} {e : Expr} (is : s.kind = kind)
    (holds : inSentence kind = true) (run : condition statement s.next = .ok e s') : Onward s s' :=
  (onward_next is holds).trans (onward_condition run)

theorem forward_startOfLoop {start : Start} (run : startOfLoop s = .ok start s') :
    Forward s s' := by
  obtain ⟨kind, found, declaration, s₁, declares, _, rest, _⟩ |
    ⟨_, target, value, type, s₁, reads, _, ends, _, rfl⟩ :=
    ok_startOfLoop.mp run
  · exact (onward_head (.inl kind) declares).toForward.trans (forward_declarationRest rest)
  · exact (reads.onward.trans (onward_next ends rfl)).toForward

theorem forward_loopHeader {start : Start} {condition update : Expr}
    (run : loopHeader s = .ok (start, condition, update) s') : Forward s s' := by
  obtain ⟨s₁, s₂, begins, conditionReads, _, ends, updateReads, _⟩ := ok_loopHeader.mp run
  have condition := conditionReads.onward.trans (onward_next ends rfl)
  exact (forward_startOfLoop begins).trans (condition.trans updateReads.onward).toForward

theorem onward_loopControl {st : Stmt} {kind : Kind} (is : s.kind = kind)
    (holds : inSentence kind = true) (run : loopControl s = .ok st s') : Onward s s' := by
  obtain ⟨_, ends, _, rfl⟩ := ok_loopControl.mp run
  exact (onward_next is holds).trans (onward_next ends rfl)

theorem onward_parameters {found : List Parameter} (run : parameters s = .ok found s') :
    Onward s s' := by
  obtain ⟨opens, s₁, list, closes, rfl⟩ := ok_parameters.mp run
  exact onward_enclosed opens rfl (list.onward onward_parameter) closes rfl

theorem onward_resultTypes {types : List Ty} (run : resultTypes s = .ok types s') :
    Onward s s' := by
  obtain ⟨colon, opens, s₁, list, closes, rfl⟩ | ⟨_, _, rfl⟩ := ok_resultTypes.mp run
  · have inside := onward_separatedBy (advances_writtenType .lowest) onward_writtenType list
    exact (onward_next colon rfl).trans (onward_enclosed opens rfl inside closes rfl)
  · exact .refl _

theorem onward_givenResults {values : List (Expr × Position)}
    (run : givenResults s = .ok values s') : Onward s s' := by
  obtain ⟨colon, ⟨opens, s₁, list, closes, rfl⟩ | ⟨_, e, reads, _, _⟩⟩ := ok_givenResults.mp run
  · have inside := onward_separatedBy advances_placed onward_placed list
    exact (onward_next colon rfl).trans (onward_enclosed opens rfl inside closes rfl)
  · exact (onward_next colon rfl).trans reads.onward

theorem onward_returnStatement {st : Stmt} (kind : s.kind = .returnWord)
    (run : returnStatement s = .ok st s') :
    Onward s s' ∧ s'.ahead.length < s.ahead.length := by
  obtain ⟨function, values, s₁, _, given, ends, _, types, settled, pool, _, _, _, rfl⟩ :=
    ok_returnStatement.mp run
  have inside : Onward s.next s₁ := by
    rcases given with ⟨_, _, rfl⟩ | ⟨_, given⟩
    · exact .refl _
    · exact onward_givenResults given
  have after : Onward s.next (s₁.next.withPool pool) :=
    (inside.trans (onward_next ends rfl)).withPool _
  exact ⟨(onward_next kind rfl).trans after, after.lt (length_next kind rfl)⟩

end ColonScript.Reading
