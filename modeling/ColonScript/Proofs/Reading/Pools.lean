import ColonScript.Proofs.Reading.Typed

/-! What the pool of types holds is of no account to what is read. In a faithful pool every rule of
typing answers as it does in any other, so that a reading in one of them goes alike in all, and
leaves them faithful. -/

namespace ColonScript.Reading
open Token (Kind)
open Ty Typing

variable {s s₁ s' : Session}

def Session.env (s : Session) : Env := ⟨s.scopes.binding?, s.scopes.callee?, s.place.function⟩

theorem Session.agrees_env (s : Session) : Agrees s.env s := ⟨⟨fun _ => rfl, fun _ => rfl⟩, rfl⟩

/-! What typing gives along the way. -/

section
variable (grounded : Grounded s) {e : Expr}
include grounded

theorem grounded_of_expr {power : Power} (reads : Reads s (.expr power e) s') :
    AllProper e.types ∧ Grounded s' := by
  obtain ⟨typed, after⟩ := typed_of_reads reads ⟨grounded, s.agrees_env⟩
  exact ⟨typed.proper, after.grounded⟩

theorem grounded_of_operand {opening : Opening} (reads : Reads s (.operand opening e) s') :
    AllProper e.types ∧ Grounded s' := by
  obtain ⟨typed, after⟩ := typed_of_reads reads ⟨grounded, s.agrees_env⟩
  exact ⟨typed.proper, after.grounded⟩

theorem grounded_of_elements {first : Bool} {before type : Ty} {es : List Expr}
    (proper : before.Proper) (reads : Reads s (.elements first before es type) s') :
    type.Proper ∧ Grounded s' := by
  obtain ⟨_, _, typeProper, after⟩ := typed_of_reads reads ⟨grounded, s.agrees_env⟩ proper
  exact ⟨typeProper, after.grounded⟩

theorem grounded_of_entries {first : Bool} {before types : Ty × Ty} {pairs : List (Expr × Expr)}
    (keys : before.1.Proper) (values : before.2.Proper)
    (reads : Reads s (.entries first before pairs types) s') :
    types.1.Proper ∧ types.2.Proper ∧ Grounded s' := by
  obtain ⟨_, _, _, keysProper, valuesProper, after⟩ :=
    typed_of_reads reads ⟨grounded, s.agrees_env⟩ keys values
  exact ⟨keysProper, valuesProper, after.grounded⟩

theorem grounded_of_arguments {first : Bool} {es : List Expr} {types : List Ty}
    (singles : Singles es types) (reads : Reads s (.arguments first es) s') :
    AllProper types ∧ Grounded s' := by
  obtain ⟨each, after⟩ := typed_of_reads reads ⟨grounded, s.agrees_env⟩
  exact ⟨proper_of_singles singles each, after.grounded⟩

/-- Joining what has been read with a type of the same kind keeps the state. -/
theorem grounded_joining {a b : Ty} (left : a.Proper) (right : b.Proper) :
    Grounded (s.joining a b) :=
  grounded.withPool (Pool.join_eq grounded.pool left right).2

end

theorem proper_unknown : Ty.unknown.Proper := trivial

theorem proper_of_single {e : Expr} {type : Ty} (proper : AllProper e.types)
    (single : e.types = [type]) :
    type.Proper := proper type (by simp [single])

theorem proper_of_join {pool : Pool} {a b both : Ty} (faithful : pool.Faithful) (left : a.Proper)
    (right : b.Proper) (joined : (pool.join a b).1 = some both) : both.Proper := by
  rw [(Pool.join_eq faithful left right).1] at joined
  exact (common?_refines left right joined).2.2

/-- In every faithful pool the rule gives this answer, and leaves the pool faithful. -/
def Anywhere {α : Type} (rule : Typing α) (a : α) : Prop :=
  ∀ ⦃pool⦄, Pool.Faithful pool → ∃ pool', rule pool = .ok a pool' ∧ pool'.Faithful

def JoinsTo (a b both : Ty) : Prop :=
  ∀ ⦃pool⦄, Pool.Faithful pool → (pool.join a b).1 = some both ∧ (pool.join a b).2.Faithful

def FitsTo (wanted : List Ty) (values : List (Expr × Ty)) (settled : List Expr) : Prop :=
  ∀ ⦃pool⦄, Pool.Faithful pool → ∃ pool', Fitted pool wanted values settled pool' ∧ pool'.Faithful

theorem anywhere_of_steady {α : Type} {good : α → Prop} {rule : Typing α} {a : α}
    {pool pool' : Pool} (steady : Steady good rule) (faithful : pool.Faithful)
    (run : rule pool = .ok a pool') : Anywhere rule a := by
  intro other faithful'
  obtain ⟨_, _, other', run', kept⟩ := steady faithful faithful' run
  exact ⟨other', run', kept⟩

theorem joinsTo_of_joined {pool : Pool} {a b both : Ty} (faithful : pool.Faithful) (left : a.Proper)
    (right : b.Proper) (joined : (pool.join a b).1 = some both) : JoinsTo a b both := by
  intro other faithful'
  rw [(Pool.join_eq faithful left right).1] at joined
  obtain ⟨common, kept⟩ := Pool.join_eq faithful' left right
  exact ⟨common.trans joined, kept⟩

theorem fitsTo_of_fitted {pool pool' : Pool} {wanted : List Ty} {values : List (Expr × Ty)}
    {settled : List Expr} (fitted : Fitted pool wanted values settled pool')
    (faithful : pool.Faithful) (wantedProper : AllProper wanted)
    (valuesProper : AllProper (values.map Prod.snd)) : FitsTo wanted values settled := by
  induction fitted with
  | nil => exact fun other faithful' => ⟨other, .nil, faithful'⟩
  | cons joined rest ih =>
    intro other faithful'
    obtain ⟨wantedFirst, wantedRest⟩ := List.forall_mem_cons.mp wantedProper
    obtain ⟨valueFirst, valuesRest⟩ := List.forall_mem_cons.mp valuesProper
    obtain ⟨joined', there⟩ := joinsTo_of_joined faithful wantedFirst valueFirst joined faithful'
    obtain ⟨other', fitted', kept⟩ :=
      ih (Pool.join_eq faithful wantedFirst valueFirst).2 wantedRest valuesRest there
    exact ⟨other', .cons joined' fitted', kept⟩

theorem snd_zip {es : List Expr} {types : List Ty} (singles : Singles es types) :
    (es.zip types).map Prod.snd = types :=
  List.map_snd_zip (Nat.le_of_eq singles.length_eq.symm)

theorem Session.Separated.withPool {first : Bool} (separated : Session.Separated first s s')
    (pool : Pool) :
    Session.Separated first (s.withPool pool) (s'.withPool pool) := by
  cases first with
  | true =>
    obtain rfl : s' = s := separated
    exact rfl
  | false =>
    obtain ⟨comma, rfl⟩ : s.kind = .comma ∧ s' = s.next := separated
    exact ⟨comma, rfl⟩

def Phrase.Begins : Phrase → Prop
  | .rest _ left _ => AllProper left.types
  | .elements _ before _ _ => before.Proper
  | .entries _ before _ _ => before.1.Proper ∧ before.2.Proper
  | _ => True

/-- The result of an operator is proper, as is the pool behind it. -/
theorem proper_combined {operator : String} {left right : Expr} {type : Ty} (proper : type.Proper) :
    AllProper (combined left operator right type).types := by
  unfold combined
  split
  · exact allProper_singleton proper
  · exact allProper_singleton proper

theorem proper_step {operator : String} {left : Expr} {own type : Ty}
    (proper : AllProper left.types) (single : left.types = [own])
    (typed : Typing.step operator own = .ok type) :
    AllProper (Expr.step left operator type).types := by
  refine allProper_singleton ?_
  rw [type_of_step typed]
  exact proper_of_single proper single

/-! What a rule says of proper types it says in every faithful pool. -/

namespace Grounded
variable {pool : Pool} {left right e : Expr} {operator : String} {own type both : Ty}

theorem builtin {builtin : Builtin} {types results : List Ty} (grounded : Grounded s)
    (proper : AllProper types) (typed : builtin.results types s.pool = .ok results pool) :
    Anywhere (builtin.results types) results :=
  anywhere_of_steady (builtin.steady_results proper) grounded.pool typed

theorem fitted {signature : Signature} {es settled : List Expr} {types : List Ty}
    (grounded : Grounded s) (written : signature.Written) (proper : AllProper types)
    (singles : Singles es types)
    (fitted : Fitted s.pool (signature.parameters.map (·.type)) (es.zip types) settled pool) :
    FitsTo (signature.parameters.map (·.type)) (es.zip types) settled := by
  rw [← snd_zip singles] at proper
  exact fitsTo_of_fitted fitted grounded.pool
    (fun type member => (written_parameters written type member).proper) proper

theorem binary {l r : Ty} (grounded : Grounded s) (leftProper : AllProper left.types)
    (rightProper : AllProper right.types) (leftSingle : left.types = [l])
    (rightSingle : right.types = [r])
    (typed : Typing.binary operator l r s.pool = .ok type pool) :
    Anywhere (Typing.binary operator l r) type ∧
      AllProper (combined left operator right type).types ∧ Grounded (s.withPool pool) := by
  have steady := @steady_binary operator _ _ (proper_of_single leftProper leftSingle)
    (proper_of_single rightProper rightSingle)
  obtain ⟨proper, faithful, _⟩ := steady grounded.pool grounded.pool typed
  exact ⟨anywhere_of_steady steady grounded.pool typed, proper_combined proper,
    grounded.withPool faithful⟩

theorem assignment {target : String} {value : Expr} (grounded : Grounded s)
    (targetProper : AllProper (Expr.name target type).types) (valueProper : AllProper value.types)
    (single : value.types = [own])
    (typed : Typing.assignment target operator type own s.pool = .ok both pool) :
    Anywhere (Typing.assignment target operator type own) both ∧ Grounded (s.withPool pool) := by
  have steady := @steady_assignment target operator _ _ (proper_of_single targetProper rfl)
    (proper_of_single valueProper single)
  obtain ⟨_, faithful, _⟩ := steady grounded.pool grounded.pool typed
  exact ⟨anywhere_of_steady steady grounded.pool typed, grounded.withPool faithful⟩

theorem index {key : Expr} {l k : Ty} (grounded : Grounded s) (leftProper : AllProper left.types)
    (keyProper : AllProper key.types) (leftSingle : left.types = [l]) (keySingle : key.types = [k])
    (typed : Typing.index l k s.pool = .ok type pool) :
    Anywhere (Typing.index l k) type ∧ AllProper (Expr.index left key type).types ∧
      Grounded (s.next.withPool pool) := by
  have steady := steady_index (proper_of_single leftProper leftSingle)
    (proper_of_single keyProper keySingle)
  obtain ⟨proper, faithful, _⟩ := steady grounded.pool grounded.pool typed
  exact ⟨anywhere_of_steady steady grounded.pool typed, allProper_singleton proper,
    grounded.next.withPool faithful⟩

theorem join {before : Ty} (grounded : Grounded s) (beforeProper : before.Proper)
    (proper : AllProper e.types) (single : e.types = [own])
    (joined : (s.pool.join before own).1 = some both) :
    JoinsTo before own both ∧ both.Proper ∧ Grounded (s.joining before own) := by
  have ownProper := proper_of_single proper single
  exact ⟨joinsTo_of_joined grounded.pool beforeProper ownProper joined,
    proper_of_join grounded.pool beforeProper ownProper joined,
    grounded_joining grounded beforeProper ownProper⟩

end Grounded

/-- In every faithful pool the phrase is read alike, and the pool behind it is faithful. -/
def InAnyPool (s : Session) (phrase : Phrase) (s' : Session) : Prop :=
  ∀ ⦃pool⦄, Pool.Faithful pool → ∃ pool', Reads (s.withPool pool) phrase (s'.withPool pool') ∧
    pool'.Faithful

namespace InAnyPool
variable {s₂ s₃ : Session} {pool : Pool} {left right e key value : Expr} {es : List Expr}
    {types : List Ty}
  {power own : Power} {l r type both before : Ty} {first : Bool}

theorem literal {make : Ty → Expr} {name : String} (grounded : Grounded s)
    (token : Literal s.current make name) :
    InAnyPool s (.operand .literal (make (s.pool.base name).1))
      (s.next.withPool (s.pool.base name).2) := by
  intro pool faithful
  have member := (@typed_literal s.env _ _ _ token).1
  obtain ⟨here, _⟩ := Pool.base_eq grounded.pool member
  obtain ⟨there, faithful'⟩ := Pool.base_eq faithful member
  have read := Reads.literal (s := s.withPool pool) token
  rw [Session.withPool_pool, there] at read
  rw [here]
  exact ⟨_, read, faithful'⟩

theorem builtinCall {function : Function} {builtin : Builtin} {results : List Ty}
    (kind : s.kind = .identifier) (call : s.next.kind = .openParen)
    (known : s.scopes.function? s.current.value = some function)
    (stage : function.builtin? = some builtin) (closes : s₁.kind = .closeParen)
    (singles : Singles es types)
    (typed : Anywhere (builtin.results types) results)
    (arguments : InAnyPool s.next.next (.arguments true es) s₁) :
    InAnyPool s (.operand .name (.call s.current.value es results)) (s₁.next.withPool pool) := by
  intro other faithful
  obtain ⟨other₁, arguments', faithful₁⟩ := arguments faithful
  obtain ⟨other', typed', faithful'⟩ := typed faithful₁
  have read : Reads (s.withPool other) _ ((s₁.withPool other₁).next.withPool other') :=
    .builtinCall kind call known stage arguments' closes singles typed'
  exact ⟨other', read, faithful'⟩

theorem call {function : Function} {settled : List Expr} (kind : s.kind = .identifier)
    (call : s.next.kind = .openParen) (known : s.scopes.function? s.current.value = some function)
    (stage : function.builtin? = none)
    (closes : s₁.kind = .closeParen) (singles : Singles es types)
    (count : function.signature.parameters.length = es.length)
    (fits : FitsTo (function.signature.parameters.map (·.type)) (es.zip types) settled)
    (arguments : InAnyPool s.next.next (.arguments true es) s₁) :
    InAnyPool s (.operand .name (.call s.current.value settled function.signature.results))
      (s₁.next.withPool pool) := by
  intro other faithful
  obtain ⟨other₁, arguments', faithful₁⟩ := arguments faithful
  obtain ⟨other', fitted', faithful'⟩ := fits faithful₁
  have read : Reads (s.withPool other) _ ((s₁.withPool other₁).next.withPool other') :=
    .call kind call known stage arguments' closes singles count fitted'
  exact ⟨other', read, faithful'⟩

theorem array (opens : s.kind = .openBracket) (closes : s₁.kind = .closeBracket)
    (between : Grounded s₁) (proper : type.Proper)
    (elements : InAnyPool s.next (.elements true .unknown es type) s₁) :
    InAnyPool s (.operand .array (.array (Expr.settleAll type es) (s₁.pool.array type).1))
      (s₁.next.withPool (s₁.pool.array type).2) := by
  intro other faithful
  obtain ⟨other₁, elements', faithful₁⟩ := elements faithful
  obtain ⟨here, _⟩ := Pool.array_eq between.pool proper
  obtain ⟨there, faithful'⟩ := Pool.array_eq faithful₁ proper
  have read := Reads.array (s := s.withPool other) opens elements' closes
  rw [Session.withPool_pool, there] at read
  rw [here]
  exact ⟨_, read, faithful'⟩

theorem map {pairs : List (Expr × Expr)} {types : Ty × Ty} (opens : s.kind = .openCurly)
    (closes : s₁.kind = .closeCurly) (between : Grounded s₁) (keys : types.1.Proper)
    (values : types.2.Proper)
    (entries : InAnyPool s.next (.entries true (.unknown, .unknown) pairs types) s₁) :
    InAnyPool s
      (.operand .map (.map (Expr.settleValues types.2 pairs) (s₁.pool.map types.1 types.2).1))
      (s₁.next.withPool (s₁.pool.map types.1 types.2).2) := by
  intro other faithful
  obtain ⟨other₁, entries', faithful₁⟩ := entries faithful
  obtain ⟨here, _⟩ := Pool.map_eq between.pool keys values
  obtain ⟨there, faithful'⟩ := Pool.map_eq faithful₁ keys values
  have read := Reads.map (s := s.withPool other) opens entries' closes
  rw [Session.withPool_pool, there] at read
  rw [here]
  exact ⟨_, read, faithful'⟩

theorem binary (operator : s.grammar.continuation? s.kind = some (own, .binary))
    (tight : ¬own ≤ power) (leftSingle : left.types = [l]) (rightSingle : right.types = [r])
    (typed : Anywhere (Typing.binary s.current.value l r) type)
    (operand : InAnyPool s.next (.expr own right) s₁)
    (rest : InAnyPool (s₁.withPool pool)
      (.rest power (combined left s.current.value right type) e) s') :
    InAnyPool s (.rest power left e) s' := by
  intro other faithful
  obtain ⟨other₁, operand', faithful₁⟩ := operand faithful
  obtain ⟨other₂, typed', faithful₂⟩ := typed faithful₁
  obtain ⟨other', rest', faithful'⟩ := rest faithful₂
  exact ⟨other', .binary (s := s.withPool other) operator tight operand' leftSingle rightSingle
    typed' rest', faithful'⟩

theorem assign {target : String}
    (operator : s.grammar.continuation? s.kind = some (own, .assignment))
    (tight : ¬own ≤ power) (mutable : s.scopes.isConstant target = false)
    (single : value.types = [r])
    (typed : Anywhere (Typing.assignment target s.current.value type r) both)
    (given : InAnyPool s.next (.expr .lowest value) s₁)
    (rest : InAnyPool (s₁.withPool pool)
      (.rest power (.assign target s.current.value (value.settle both) type) e) s') :
    InAnyPool s (.rest power (.name target type) e) s' := by
  intro other faithful
  obtain ⟨other₁, given', faithful₁⟩ := given faithful
  obtain ⟨other₂, typed', faithful₂⟩ := typed faithful₁
  obtain ⟨other', rest', faithful'⟩ := rest faithful₂
  exact ⟨other', .assign (s := s.withPool other) operator tight mutable given' single typed' rest',
    faithful'⟩

theorem index (operator : s.grammar.continuation? s.kind = some (own, .index))
    (tight : ¬own ≤ power) (opens : s.kind = .openBracket) (closes : s₁.kind = .closeBracket)
    (leftSingle : left.types = [l])
    (keySingle : key.types = [r]) (typed : Anywhere (Typing.index l r) type)
    (inner : InAnyPool s.next (.expr .lowest key) s₁)
    (rest : InAnyPool (s₁.next.withPool pool) (.rest power (.index left key type) e) s') :
    InAnyPool s (.rest power left e) s' := by
  intro other faithful
  obtain ⟨other₁, inner', faithful₁⟩ := inner faithful
  obtain ⟨other₂, typed', faithful₂⟩ := typed faithful₁
  obtain ⟨other', rest', faithful'⟩ := rest faithful₂
  exact ⟨other', .index (s := s.withPool other) operator tight opens inner' closes leftSingle
    keySingle typed' rest', faithful'⟩

theorem element (more : s.kind ≠ .closeBracket) (separated : Session.Separated first s s₁)
    (single : e.types = [l])
    (joins : JoinsTo before l both) (value : InAnyPool s₁ (.expr .lowest e) s₂)
    (rest : InAnyPool (s₂.joining before l) (.elements false both es type) s') :
    InAnyPool s (.elements first before (e :: es) type) s' := by
  intro other faithful
  obtain ⟨other₁, value', faithful₁⟩ := value faithful
  obtain ⟨joined', faithful₂⟩ := joins faithful₁
  obtain ⟨other', rest', faithful'⟩ := rest faithful₂
  exact ⟨other', .element (s := s.withPool other) more (separated.withPool other) value' single
    joined' rest', faithful'⟩

theorem entry {before types : Ty × Ty} {keyType valueType keys values : Ty}
    {pairs : List (Expr × Expr)}
    (more : s.kind ≠ .closeCurly) (separated : Session.Separated first s s₁)
    (literal : key.isBaseLiteral = true)
    (colon : s₂.kind = .colon) (keySingle : key.types = [keyType])
    (keyJoins : JoinsTo before.1 keyType keys)
    (valueSingle : value.types = [valueType]) (valueJoins : JoinsTo before.2 valueType values)
    (keyReads : InAnyPool s₁ (.expr .lowest key) s₂)
    (valueReads : InAnyPool s₂.next (.expr .lowest value) s₃)
    (rest : InAnyPool ((s₃.joining before.1 keyType).joining before.2 valueType)
      (.entries false (keys, values) pairs types) s') :
    InAnyPool s (.entries first before ((key, value) :: pairs) types) s' := by
  intro other faithful
  obtain ⟨other₁, key', faithful₁⟩ := keyReads faithful
  obtain ⟨other₂, value', faithful₂⟩ := valueReads faithful₁
  obtain ⟨keyJoined, faithful₃⟩ := keyJoins faithful₂
  obtain ⟨valueJoined, faithful₄⟩ := valueJoins faithful₃
  obtain ⟨other', rest', faithful'⟩ := rest faithful₄
  exact ⟨other', .entry (s := s.withPool other) more (separated.withPool other) key' literal colon
    value' keySingle keyJoined valueSingle valueJoined rest', faithful'⟩

end InAnyPool

theorem Reads.inAnyPool {phrase : Phrase} (reads : Reads s phrase s') (grounded : Grounded s)
    (begins : phrase.Begins) :
    InAnyPool s phrase s' := by
  induction reads with
  | expr opens operandReads _ operand rest =>
    intro pool faithful
    obtain ⟨proper, between⟩ := grounded_of_operand grounded operandReads
    obtain ⟨pool₁, operand', faithful₁⟩ := operand grounded trivial faithful
    obtain ⟨pool', rest', faithful'⟩ := rest between proper faithful₁
    exact ⟨pool', .expr opens operand' rest', faithful'⟩
  | literal token => exact .literal grounded token
  | name kind noCall bound => exact fun pool faithful => ⟨pool, .name kind noCall bound, faithful⟩
  | builtinCall kind call known stage argumentsRead closes singles typed arguments =>
    obtain ⟨proper, between⟩ := grounded_of_arguments grounded.next.next singles argumentsRead
    exact .builtinCall kind call known stage closes singles (between.builtin proper typed)
      (arguments grounded.next.next trivial)
  | call kind call known stage argumentsRead closes singles count fitted arguments =>
    obtain ⟨proper, between⟩ := grounded_of_arguments grounded.next.next singles argumentsRead
    have fits := between.fitted (grounded.scopes.function known) proper singles fitted
    exact .call kind call known stage closes singles count fits
      (arguments grounded.next.next trivial)
  | array opens elementsRead closes elements =>
    obtain ⟨proper, between⟩ := grounded_of_elements grounded.next proper_unknown elementsRead
    exact .array opens closes between proper (elements grounded.next trivial)
  | map opens entriesRead closes entries =>
    obtain ⟨keys, values, between⟩ :=
      grounded_of_entries grounded.next proper_unknown proper_unknown entriesRead
    exact .map opens closes between keys values (entries grounded.next ⟨trivial, trivial⟩)
  | @group s _ _ opens _ closes inner =>
    intro pool faithful
    obtain ⟨pool', inner', faithful'⟩ := inner grounded.next trivial faithful
    exact ⟨pool', .group (s := s.withPool pool) opens inner' closes, faithful'⟩
  | @unary s _ _ _ _ kind _ single typed operand =>
    intro pool faithful
    obtain ⟨pool', operand', faithful'⟩ := operand grounded.next trivial faithful
    exact ⟨pool', .unary (s := s.withPool pool) kind operand' single typed, faithful'⟩
  | stop loose => exact fun pool faithful => ⟨pool, .stop loose, faithful⟩
  | binary operator tight operandReads leftSingle rightSingle typed _ operand rest =>
    obtain ⟨proper, between⟩ := grounded_of_expr grounded.next operandReads
    obtain ⟨anywhere, both, after⟩ := between.binary begins proper leftSingle rightSingle typed
    exact .binary operator tight leftSingle rightSingle anywhere (operand grounded.next trivial)
      (rest after both)
  | @step s _ _ _ _ _ _ _ operator tight single typed _ rest =>
    intro pool faithful
    obtain ⟨pool', rest', faithful'⟩ :=
      rest grounded.next (proper_step begins single typed) faithful
    exact ⟨pool', .step (s := s.withPool pool) operator tight single typed rest', faithful'⟩
  | assign operator tight mutable valueReads single typed _ value rest =>
    obtain ⟨proper, between⟩ := grounded_of_expr grounded.next valueReads
    obtain ⟨anywhere, after⟩ := between.assignment begins proper single typed
    exact .assign operator tight mutable single anywhere (value grounded.next trivial)
      (rest after begins)
  | index operator tight opens innerReads closes leftSingle keySingle typed _ inner rest =>
    obtain ⟨proper, between⟩ := grounded_of_expr grounded.next innerReads
    obtain ⟨anywhere, both, after⟩ := between.index begins proper leftSingle keySingle typed
    exact .index operator tight opens closes leftSingle keySingle anywhere
      (inner grounded.next trivial) (rest after both)
  | noElements closes => exact fun pool faithful => ⟨pool, .noElements closes, faithful⟩
  | element more separated valueReads single joined _ value rest =>
    have start := grounded.separated separated
    obtain ⟨proper, between⟩ := grounded_of_expr start valueReads
    obtain ⟨joins, both, after⟩ := between.join begins proper single joined
    exact .element more separated single joins (value start trivial) (rest after both)
  | noEntries closes => exact fun pool faithful => ⟨pool, .noEntries closes, faithful⟩
  | entry more separated keyReads literal colon valueReads keySingle keyJoined valueSingle
    valueJoined _ key value rest =>
    have start := grounded.separated separated
    obtain ⟨keyProper, between⟩ := grounded_of_expr start keyReads
    obtain ⟨valueProper, between'⟩ := grounded_of_expr between.next valueReads
    obtain ⟨keyJoins, keys, after⟩ := between'.join begins.1 keyProper keySingle keyJoined
    obtain ⟨valueJoins, values, after'⟩ := after.join begins.2 valueProper valueSingle valueJoined
    exact .entry more separated literal colon keySingle keyJoins valueSingle valueJoins
      (key start trivial)
      (value between.next trivial) (rest after' ⟨keys, values⟩)
  | noArguments closes => exact fun pool faithful => ⟨pool, .noArguments closes, faithful⟩
  | argument more separated valueReads _ value rest =>
    intro pool faithful
    have start := grounded.separated separated
    obtain ⟨pool₁, value', faithful₁⟩ := value start trivial faithful
    obtain ⟨pool', rest', faithful'⟩ := rest (grounded_of_expr start valueReads).2 trivial faithful₁
    exact ⟨pool', .argument more (separated.withPool pool) value' rest', faithful'⟩

end ColonScript.Reading
