import ColonScript.Proofs.Reading.Written

/-! States from which the same phrases are read, shown for each production by itself. What has to be
known of the states is that they have the same tokens at hand wherever a phrase looks at one, in the
same scopes and with the same types. -/

namespace ColonScript.Reading
open Token (Kind)

variable {s s₁ s₂ s₃ s' t : Session}

/-- Related states are read alike. The token at hand is the same where a state is `Inside`, and goes
on with an expression in the same manner, if in any, where a phrase `Ends`. -/
structure Mirror (Related : Session → Session → Prop) (Inside Ends : Session → Prop) : Prop where
  scopes : ∀ ⦃s t⦄, Related s t → t.scopes = s.scopes
  pool : ∀ ⦃s t⦄, Related s t → t.pool = s.pool
  grammar : ∀ ⦃s t⦄, Related s t → t.grammar = s.grammar
  withPool : ∀ ⦃s t⦄, Related s t → ∀ pool, Related (s.withPool pool) (t.withPool pool)
  kind : ∀ ⦃s t⦄, Related s t → Inside s → t.kind = s.kind
  value : ∀ ⦃s t⦄, Related s t → Inside s → t.current.value = s.current.value
  next : ∀ ⦃s t⦄, Related s t → Inside s → Related s.next t.next
  stops : ∀ ⦃s t⦄, Related s t → Ends s → t.kind = s.kind ∨
    Grammar.standard.continuation? t.kind = none
  inside_of_onward : ∀ ⦃s s'⦄, Onward s s' → Inside s' → Inside s
  ends_of_onward : ∀ ⦃s s'⦄, Onward s s' → Ends s' → Ends s
  ends_of_inside : ∀ ⦃s⦄, Inside s → Ends s
  inside_of_next : ∀ ⦃s⦄, inSentence s.kind = true → Ends s.next → Inside s

/-- Where the reading of a phrase may end: a list ends with a token of its own. -/
def Phrase.Within (Inside Ends : Session → Prop) (s' : Session) : Phrase → Prop
  | .expr .. | .operand .. | .rest .. => Ends s'
  | .elements .. | .entries .. | .arguments .. => Inside s'

theorem Phrase.within_of_inside {Inside Ends : Session → Prop} (ends_of_inside : Inside s → Ends s)
    (phrase : Phrase) (inside : Inside s) : phrase.Within Inside Ends s := by
  cases phrase with
  | expr | operand | rest => exact ends_of_inside inside
  | elements | entries | arguments => exact inside

structure Shown (Related : Session → Session → Prop) (s t : Session) : Prop where
  kind : t.kind = s.kind
  value : t.current.value = s.current.value
  grammar : t.grammar = s.grammar
  next : Related s.next t.next

theorem Shown.continuation? {Related : Session → Session → Prop} (shown : Shown Related s t) :
    t.grammar.continuation? t.kind = s.grammar.continuation? s.kind := by
  rw [shown.grammar, shown.kind]

theorem Literal.alike {token token' : Token} {make : Ty → Expr} {name : String}
    (kind : token'.kind = token.kind) (value : token'.value = token.value)
    (literal : Literal token make name) : Literal token' make name := by
  cases literal with
  | integer is read => exact .integer (kind.trans is) (value ▸ read)
  | float is read => exact .float (kind.trans is) (value ▸ read)
  | bool is => exact value ▸ .bool (kind.trans is)
  | string is => exact value ▸ .string (kind.trans is)
  | char is => exact value ▸ .char (kind.trans is)

theorem continuation?_eq_none (grammar : Grammar) {kind : Kind}
    (stops : Grammar.standard.continuation? kind = none) : grammar.continuation? kind = none := by
  cases grammar with
  | standard => exact stops
  | bare => rfl

namespace Mirror
variable {Related : Session → Session → Prop} {Inside Ends : Session → Prop}
    (mirror : Mirror Related Inside Ends)
  {e left : Expr} {es : List Expr} {types : List Ty} {pool : Ty.Pool} {power own : Power}

/-- A phrase is read from every related state, up to one that is related again. -/
def Keeps (_ : Mirror Related Inside Ends) (s : Session) (phrase : Phrase) (s' : Session) : Prop :=
  phrase.Within Inside Ends s' → ∀ ⦃t⦄, Related s t → ∃ t', Reads t phrase t' ∧ Related s' t'

include mirror

theorem shown (inside : Inside s) (related : Related s t) : Shown Related s t :=
  ⟨mirror.kind related inside, mirror.value related inside, mirror.grammar related,
    mirror.next related inside⟩

theorem joining (related : Related s t) (a b : Ty) : Related (s.joining a b) (t.joining a b) := by
  rw [Session.joining, Session.joining, mirror.pool related]
  exact mirror.withPool related _

theorem before {kind : Kind} (is : s.kind = kind) (holds : inSentence kind = true)
    (onward : Onward s.next s') (ends : Ends s') : Inside s :=
  mirror.inside_of_next (is ▸ holds) (mirror.ends_of_onward onward ends)

theorem closed {kind : Kind} (is : s.kind = kind) (holds : inSentence kind = true)
    (ends : Ends (s.next.withPool pool)) : Inside s :=
  mirror.before is holds ((Onward.refl _).withPool _) ends

theorem separated {first : Bool} (separated : Session.Separated first s s₁) (inside : Inside s₁)
    (related : Related s t) : ∃ t₁, Session.Separated first t t₁ ∧ Related s₁ t₁ := by
  cases first with
  | true =>
    obtain rfl : s₁ = s := separated
    exact ⟨t, rfl, related⟩
  | false =>
    obtain ⟨comma, rfl⟩ : s.kind = .comma ∧ s₁ = s.next := separated
    have shown := mirror.shown (mirror.inside_of_onward (onward_next comma rfl) inside) related
    exact ⟨t.next, ⟨shown.kind.trans comma, rfl⟩, shown.next⟩

theorem expr {opening : Opening} {first : Expr} (opens : s.grammar.opening? s.kind = some opening)
    (operandReads : Reads s (.operand opening first) s₁) (restOnward : Onward s₁ s')
    (operand : mirror.Keeps s (.operand opening first) s₁)
    (rest : mirror.Keeps s₁ (.rest power first e) s') :
    mirror.Keeps s (.expr power e) s' := by
  intro ends t related
  have between := mirror.ends_of_onward restOnward ends
  have before := mirror.before rfl operandReads.begun.1 operandReads.begun.2 between
  have shown := mirror.shown before related
  obtain ⟨t₁, operand', related₁⟩ := operand between related
  obtain ⟨t', rest', related'⟩ := rest ends related₁
  exact ⟨t', .expr (by rwa [shown.grammar, shown.kind]) operand' rest', related'⟩

/-! Operands. -/

theorem literal {make : Ty → Expr} {name : String} (token : Literal s.current make name) :
    mirror.Keeps s (.operand .literal (make (s.pool.base name).1))
      (s.next.withPool (s.pool.base name).2) := by
  intro ends t related
  have shown := mirror.shown (mirror.closed rfl token.kind ends) related
  have read := Reads.literal (token.alike shown.kind shown.value)
  rw [mirror.pool related] at read
  exact ⟨_, read, mirror.withPool shown.next _⟩

theorem name {binding : Binding} (kind : s.kind = .identifier) (noCall : s.next.kind ≠ .openParen)
    (bound : s.scopes.binding? s.current.value = some binding) :
    mirror.Keeps s (.operand .name (.name s.current.value binding.type)) s.next := by
  intro ends t related
  have shown := mirror.shown (mirror.before kind rfl (.refl _) ends) related
  -- Behind the name the tokens may differ already, but only where no parenthesis stands.
  have noCall' : t.next.kind ≠ .openParen := by
    obtain same | stops := mirror.stops shown.next ends
    · rwa [same]
    · intro opens
      rw [opens] at stops
      cases stops
  rw [← shown.value] at bound ⊢
  rw [← mirror.scopes related] at bound
  exact ⟨_, .name (shown.kind.trans kind) noCall' bound, shown.next⟩

/-- The name of a function and what is given to it, which are the same whether it is built in or
not. -/
theorem given (kind : s.kind = .identifier) (call : s.next.kind = .openParen)
    (onward : Onward s.next.next s₁) (closes : s₁.kind = .closeParen)
    (arguments : mirror.Keeps s.next.next (.arguments true es) s₁) (inside : Inside s₁)
    (related : Related s t) :
    ∃ t₁, Shown Related s t ∧ t.next.kind = .openParen ∧ Reads t.next.next (.arguments true es) t₁ ∧
      t₁.kind = .closeParen ∧ t₁.pool = s₁.pool ∧ Related s₁.next t₁.next := by
  have inside₁ := mirror.inside_of_onward ((onward_next call rfl).trans onward) inside
  have shown := mirror.shown (mirror.inside_of_onward (onward_next kind rfl) inside₁) related
  have shown₁ := mirror.shown inside₁ shown.next
  obtain ⟨t₁, arguments', related₁⟩ := arguments inside shown₁.next
  have last := mirror.shown inside related₁
  exact ⟨t₁, shown, shown₁.kind.trans call, arguments', last.kind.trans closes,
    mirror.pool related₁, last.next⟩

theorem builtinCall {function : Function} {builtin : Builtin} {results : List Ty}
    (kind : s.kind = .identifier) (call : s.next.kind = .openParen)
    (known : s.scopes.function? s.current.value = some function)
    (stage : function.builtin? = some builtin) (onward : Onward s.next.next s₁)
    (closes : s₁.kind = .closeParen)
    (singles : Singles es types) (typed : builtin.results types s₁.pool = .ok results pool)
    (arguments : mirror.Keeps s.next.next (.arguments true es) s₁) :
    mirror.Keeps s (.operand .name (.call s.current.value es results)) (s₁.next.withPool pool) := by
  intro ends t related
  obtain ⟨t₁, shown, call', arguments', closes', samePool, related'⟩ :=
    mirror.given kind call onward closes arguments (mirror.closed closes rfl ends) related
  rw [← samePool] at typed
  rw [← shown.value] at known ⊢
  rw [← mirror.scopes related] at known
  exact ⟨_, .builtinCall (shown.kind.trans kind) call' known stage arguments' closes' singles typed,
    mirror.withPool related' _⟩

theorem call {function : Function} {settled : List Expr} (kind : s.kind = .identifier)
    (call : s.next.kind = .openParen) (known : s.scopes.function? s.current.value = some function)
    (stage : function.builtin? = none) (onward : Onward s.next.next s₁)
    (closes : s₁.kind = .closeParen)
    (singles : Singles es types) (count : function.signature.parameters.length = es.length)
    (fitted : Fitted s₁.pool (function.signature.parameters.map (·.type))
      (es.zip types) settled pool)
    (arguments : mirror.Keeps s.next.next (.arguments true es) s₁) :
    mirror.Keeps s (.operand .name (.call s.current.value settled function.signature.results))
      (s₁.next.withPool pool) := by
  intro ends t related
  obtain ⟨t₁, shown, call', arguments', closes', samePool, related'⟩ :=
    mirror.given kind call onward closes arguments (mirror.closed closes rfl ends) related
  rw [← samePool] at fitted
  rw [← shown.value] at known ⊢
  rw [← mirror.scopes related] at known
  exact ⟨_, .call (shown.kind.trans kind) call' known stage arguments' closes' singles count fitted,
    mirror.withPool related' _⟩

/-- A phrase between brackets of its own. -/
theorem enclosed {phrase : Phrase} {opener closer : Kind} (opens : s.kind = opener)
    (holds : inSentence opener = true) (onward : Onward s.next s₁) (closes : s₁.kind = closer)
    (inner : mirror.Keeps s.next phrase s₁)
    (inside : Inside s₁) (related : Related s t) :
    ∃ t₁, Shown Related s t ∧ Reads t.next phrase t₁ ∧ t₁.kind = closer ∧ t₁.pool = s₁.pool ∧
      Related s₁.next t₁.next := by
  have shown :=
    mirror.shown (mirror.inside_of_onward ((onward_next opens holds).trans onward) inside) related
  have within := phrase.within_of_inside (fun inside => mirror.ends_of_inside inside) inside
  obtain ⟨t₁, inner', related₁⟩ := inner within shown.next
  have last := mirror.shown inside related₁
  exact ⟨t₁, shown, inner', last.kind.trans closes, mirror.pool related₁, last.next⟩

theorem array {type : Ty} (opens : s.kind = .openBracket) (onward : Onward s.next s₁)
    (closes : s₁.kind = .closeBracket)
    (elements : mirror.Keeps s.next (.elements true .unknown es type) s₁) :
    mirror.Keeps s (.operand .array (.array (Expr.settleAll type es) (s₁.pool.array type).1))
      (s₁.next.withPool (s₁.pool.array type).2) := by
  intro ends t related
  obtain ⟨t₁, shown, elements', closes', samePool, related'⟩ :=
    mirror.enclosed opens rfl onward closes elements (mirror.closed closes rfl ends) related
  rw [← samePool]
  exact ⟨_, .array (shown.kind.trans opens) elements' closes', mirror.withPool related' _⟩

theorem map {pairs : List (Expr × Expr)} {types : Ty × Ty} (opens : s.kind = .openCurly)
    (onward : Onward s.next s₁) (closes : s₁.kind = .closeCurly)
    (entries : mirror.Keeps s.next (.entries true (.unknown, .unknown) pairs types) s₁) :
    mirror.Keeps s
      (.operand .map (.map (Expr.settleValues types.2 pairs) (s₁.pool.map types.1 types.2).1))
      (s₁.next.withPool (s₁.pool.map types.1 types.2).2) := by
  intro ends t related
  obtain ⟨t₁, shown, entries', closes', samePool, related'⟩ :=
    mirror.enclosed opens rfl onward closes entries (mirror.closed closes rfl ends) related
  rw [← samePool]
  exact ⟨_, .map (shown.kind.trans opens) entries' closes', mirror.withPool related' _⟩

theorem group (opens : s.kind = .openParen) (onward : Onward s.next s₁)
    (closes : s₁.kind = .closeParen) (inner : mirror.Keeps s.next (.expr .lowest e) s₁) :
    mirror.Keeps s (.operand .group e) s₁.next := by
  intro ends t related
  obtain ⟨t₁, shown, inner', closes', _, related'⟩ :=
    mirror.enclosed opens rfl onward closes inner (mirror.before closes rfl (.refl _) ends) related
  exact ⟨_, .group (shown.kind.trans opens) inner' closes', related'⟩

theorem unary {operandType type : Ty} (kind : s.kind = .minus ∨ s.kind = .not)
    (onward : Onward s.next s') (single : e.types = [operandType])
    (typed : Typing.unary s.current.value operandType = .ok type)
    (operand : mirror.Keeps s.next (.expr .unary e) s') :
    mirror.Keeps s (.operand .unary (.unary s.current.value e type)) s' := by
  intro ends t related
  have inside := kind.elim (mirror.before · rfl onward ends) (mirror.before · rfl onward ends)
  have shown := mirror.shown inside related
  obtain ⟨t', operand', related'⟩ := operand ends shown.next
  rw [← shown.value] at typed ⊢
  exact ⟨t', .unary (shown.kind ▸ kind) operand' single typed, related'⟩

/-! What goes on behind an operand. -/

theorem stop
    (loose : ∀ own continuation, s.grammar.continuation? s.kind = some (own, continuation) →
      own ≤ power) :
    mirror.Keeps s (.rest power e e) s := by
  intro ends t related
  refine ⟨t, .stop fun own continuation continues => ?_, related⟩
  rw [mirror.grammar related] at continues
  obtain same | stops := mirror.stops related ends
  · exact loose own continuation (same ▸ continues)
  · rw [continuation?_eq_none _ stops] at continues
    cases continues

theorem binary {right : Expr} {leftType rightType type : Ty}
    (operator : s.grammar.continuation? s.kind = some (own, .binary)) (tight : ¬own ≤ power)
    (operandOnward : Onward s.next s₁) (leftSingle : left.types = [leftType])
    (rightSingle : right.types = [rightType])
    (typed : Typing.binary s.current.value leftType rightType s₁.pool = .ok type pool)
    (restOnward : Onward s₁ s')
    (operand : mirror.Keeps s.next (.expr own right) s₁)
    (rest : mirror.Keeps (s₁.withPool pool)
      (.rest power (combined left s.current.value right type) e) s') :
    mirror.Keeps s (.rest power left e) s' := by
  intro ends t related
  have between := mirror.ends_of_onward restOnward ends
  have before := mirror.before rfl (kind_of_continues operator) operandOnward between
  have shown := mirror.shown before related
  obtain ⟨t₁, operand', related₁⟩ := operand between shown.next
  obtain ⟨t', rest', related'⟩ := rest ends (mirror.withPool related₁ _)
  rw [← shown.value] at typed rest'
  rw [← mirror.pool related₁] at typed
  exact ⟨t', .binary (shown.continuation?.trans operator) tight operand' leftSingle rightSingle
    typed rest', related'⟩

theorem step {leftType type : Ty} (operator : s.grammar.continuation? s.kind = some (own, .step))
    (tight : ¬own ≤ power) (single : left.types = [leftType])
    (typed : Typing.step s.current.value leftType = .ok type)
    (restOnward : Onward s.next s')
    (rest : mirror.Keeps s.next (.rest power (.step left s.current.value type) e) s') :
    mirror.Keeps s (.rest power left e) s' := by
  intro ends t related
  have before := mirror.before rfl (kind_of_continues operator) restOnward ends
  have shown := mirror.shown before related
  obtain ⟨t', rest', related'⟩ := rest ends shown.next
  rw [← shown.value] at typed rest'
  exact ⟨t', .step (shown.continuation?.trans operator) tight single typed rest', related'⟩

theorem assign {target : String} {type valueType both : Ty} {value : Expr}
    (operator : s.grammar.continuation? s.kind = some (own, .assignment)) (tight : ¬own ≤ power)
    (mutable : s.scopes.isConstant target = false) (valueOnward : Onward s.next s₁)
    (single : value.types = [valueType])
    (typed : Typing.assignment target s.current.value type valueType s₁.pool = .ok both pool)
    (restOnward : Onward s₁ s') (given : mirror.Keeps s.next (.expr .lowest value) s₁)
    (rest : mirror.Keeps (s₁.withPool pool)
      (.rest power (.assign target s.current.value (value.settle both) type) e) s') :
    mirror.Keeps s (.rest power (.name target type) e) s' := by
  intro ends t related
  have between := mirror.ends_of_onward restOnward ends
  have before := mirror.before rfl (kind_of_continues operator) valueOnward between
  have shown := mirror.shown before related
  obtain ⟨t₁, given', related₁⟩ := given between shown.next
  obtain ⟨t', rest', related'⟩ := rest ends (mirror.withPool related₁ _)
  rw [← shown.value] at typed rest'
  rw [← mirror.pool related₁] at typed
  rw [← mirror.scopes related] at mutable
  exact ⟨t', .assign (shown.continuation?.trans operator) tight mutable given' single typed rest',
    related'⟩

theorem index {key : Expr} {leftType keyType type : Ty}
    (operator : s.grammar.continuation? s.kind = some (own, .index)) (tight : ¬own ≤ power)
    (opens : s.kind = .openBracket) (innerOnward : Onward s.next s₁)
    (closes : s₁.kind = .closeBracket)
    (leftSingle : left.types = [leftType]) (keySingle : key.types = [keyType])
    (typed : Typing.index leftType keyType s₁.pool = .ok type pool) (restOnward : Onward s₁.next s')
    (inner : mirror.Keeps s.next (.expr .lowest key) s₁)
    (rest : mirror.Keeps (s₁.next.withPool pool) (.rest power (.index left key type) e) s') :
    mirror.Keeps s (.rest power left e) s' := by
  intro ends t related
  obtain ⟨t₁, shown, inner', closes', samePool, related₁⟩ :=
    mirror.enclosed opens rfl innerOnward closes inner
      (mirror.before closes rfl restOnward ends) related
  obtain ⟨t', rest', related'⟩ := rest ends (mirror.withPool related₁ _)
  rw [← samePool] at typed
  exact ⟨t', .index (shown.continuation?.trans operator) tight (shown.kind.trans opens) inner'
    closes' leftSingle keySingle typed rest', related'⟩

/-! Lists. -/

theorem last {phrase : Phrase} {closer : Kind} (closes : s.kind = closer)
    (none : ∀ {t : Session}, t.kind = closer → Reads t phrase t)
    (within : phrase.Within Inside Ends s → Inside s) :
    mirror.Keeps s phrase s := by
  intro ends t related
  exact ⟨t, none ((mirror.kind related (within ends)).trans closes), related⟩

/-- An expression of a list that is not yet at its end. -/
theorem item {first : Bool} {closer : Kind} (more : s.kind ≠ closer)
    (separated : Session.Separated first s s₁) (onward : Onward s₁ s₂)
    (value : mirror.Keeps s₁ (.expr .lowest e) s₂) (inside : Inside s₂)
    (related : Related s t) :
    ∃ t₁ t₂, t.kind ≠ closer ∧ Session.Separated first t t₁ ∧ Reads t₁ (.expr .lowest e) t₂ ∧
      Related s₂ t₂ := by
  have inside₁ := mirror.inside_of_onward onward inside
  have kind := mirror.kind related (mirror.inside_of_onward (onward_separated separated) inside₁)
  obtain ⟨t₁, separated', related₁⟩ := mirror.separated separated inside₁ related
  obtain ⟨t₂, value', related₂⟩ := value (mirror.ends_of_inside inside) related₁
  exact ⟨t₁, t₂, kind ▸ more, separated', value', related₂⟩

theorem element {first : Bool} {before elementType both type : Ty} (more : s.kind ≠ .closeBracket)
    (separated : Session.Separated first s s₁) (valueOnward : Onward s₁ s₂)
    (single : e.types = [elementType])
    (joined : (s₂.pool.join before elementType).1 = some both) (restOnward : Onward s₂ s')
    (value : mirror.Keeps s₁ (.expr .lowest e) s₂)
    (rest : mirror.Keeps (s₂.joining before elementType) (.elements false both es type) s') :
    mirror.Keeps s (.elements first before (e :: es) type) s' := by
  intro inside t related
  obtain ⟨t₁, t₂, more', separated', value', related₂⟩ :=
    mirror.item more separated valueOnward value (mirror.inside_of_onward restOnward inside) related
  obtain ⟨t', rest', related'⟩ := rest inside (mirror.joining related₂ before elementType)
  rw [← mirror.pool related₂] at joined
  exact ⟨t', .element more' separated' value' single joined rest', related'⟩

theorem entry {first : Bool} {before types : Ty × Ty} {keyType valueType keys values : Ty}
    {key value : Expr} {pairs : List (Expr × Expr)} (more : s.kind ≠ .closeCurly)
    (separated : Session.Separated first s s₁)
    (keyOnward : Onward s₁ s₂) (literal : key.isBaseLiteral = true) (colon : s₂.kind = .colon)
    (valueOnward : Onward s₂.next s₃) (keySingle : key.types = [keyType])
    (keyJoined : (s₃.pool.join before.1 keyType).1 = some keys)
    (valueSingle : value.types = [valueType])
    (valueJoined : ((s₃.joining before.1 keyType).pool.join before.2 valueType).1 = some values)
    (restOnward : Onward s₃ s') (keyKept : mirror.Keeps s₁ (.expr .lowest key) s₂)
    (valueKept : mirror.Keeps s₂.next (.expr .lowest value) s₃)
    (rest : mirror.Keeps ((s₃.joining before.1 keyType).joining before.2 valueType)
      (.entries false (keys, values) pairs types) s') :
    mirror.Keeps s (.entries first before ((key, value) :: pairs) types) s' := by
  intro inside t related
  have inside₃ := mirror.inside_of_onward restOnward inside
  have inside₂ := mirror.inside_of_onward ((onward_next colon rfl).trans valueOnward) inside₃
  obtain ⟨t₁, t₂, more', separated', key', related₂⟩ :=
    mirror.item more separated keyOnward keyKept inside₂ related
  have shown := mirror.shown inside₂ related₂
  obtain ⟨t₃, value', related₃⟩ := valueKept (mirror.ends_of_inside inside₃) shown.next
  have related₄ := mirror.joining related₃ before.1 keyType
  obtain ⟨t', rest', related'⟩ := rest inside (mirror.joining related₄ before.2 valueType)
  rw [← mirror.pool related₃] at keyJoined
  rw [← mirror.pool related₄] at valueJoined
  exact ⟨t', .entry more' separated' key' literal (shown.kind.trans colon) value' keySingle
    keyJoined valueSingle valueJoined rest', related'⟩

theorem argument {first : Bool} (more : s.kind ≠ .closeParen)
    (separated : Session.Separated first s s₁) (valueOnward : Onward s₁ s₂)
    (restOnward : Onward s₂ s') (value : mirror.Keeps s₁ (.expr .lowest e) s₂)
    (rest : mirror.Keeps s₂ (.arguments false es) s') :
    mirror.Keeps s (.arguments first (e :: es)) s' := by
  intro inside t related
  obtain ⟨t₁, t₂, more', separated', value', related₂⟩ :=
    mirror.item more separated valueOnward value (mirror.inside_of_onward restOnward inside) related
  obtain ⟨t', rest', related'⟩ := rest inside related₂
  exact ⟨t', .argument more' separated' value' rest', related'⟩

end Mirror

theorem Reads.mirrored {Related : Session → Session → Prop} {Inside Ends : Session → Prop}
    (mirror : Mirror Related Inside Ends) {phrase : Phrase} (reads : Reads s phrase s') :
    mirror.Keeps s phrase s' := by
  induction reads with
  | expr opens operandReads restReads operand rest =>
    exact mirror.expr opens operandReads restReads.onward operand rest
  | literal token => exact mirror.literal token
  | name kind noCall bound => exact mirror.name kind noCall bound
  | builtinCall kind call known stage read closes singles typed arguments =>
    exact mirror.builtinCall kind call known stage read.onward closes singles typed arguments
  | call kind call known stage read closes singles count fitted arguments =>
    exact mirror.call kind call known stage read.onward closes singles count fitted arguments
  | array opens read closes elements => exact mirror.array opens read.onward closes elements
  | map opens read closes entries => exact mirror.map opens read.onward closes entries
  | group opens read closes inner => exact mirror.group opens read.onward closes inner
  | unary kind read single typed operand => exact mirror.unary kind read.onward single typed operand
  | stop loose => exact mirror.stop loose
  | binary operator tight read leftSingle rightSingle typed readRest operand rest =>
    exact mirror.binary operator tight read.onward leftSingle rightSingle typed
      readRest.onward.of_withPool operand rest
  | step operator tight single typed readRest rest =>
    exact mirror.step operator tight single typed readRest.onward rest
  | assign operator tight mutable read single typed readRest given rest =>
    exact mirror.assign operator tight mutable read.onward single typed
      readRest.onward.of_withPool given rest
  | index operator tight opens read closes leftSingle keySingle typed readRest inner rest =>
    exact mirror.index operator tight opens read.onward closes leftSingle keySingle typed
      readRest.onward.of_withPool inner rest
  | noElements closes => exact mirror.last closes (.noElements ·) id
  | element more separated read single joined readRest value rest =>
    exact mirror.element more separated read.onward single joined
      readRest.onward.of_withPool value rest
  | noEntries closes => exact mirror.last closes (.noEntries ·) id
  | entry more separated keyRead literal colon valueRead keySingle keyJoined valueSingle valueJoined
      readRest key value rest =>
    exact mirror.entry more separated keyRead.onward literal colon valueRead.onward keySingle
      keyJoined valueSingle valueJoined readRest.onward.of_withPool.of_withPool key value rest
  | noArguments closes => exact mirror.last closes (.noArguments ·) id
  | argument more separated read readRest value rest =>
    exact mirror.argument more separated read.onward readRest.onward value rest

theorem ReadsType.mirrored {Related : Session → Session → Prop} {Inside Ends : Session → Prop}
    (mirror : Mirror Related Inside Ends) {phrase : TypePhrase} (reads : ReadsType s phrase s')
    (inside : Inside s')
    (related : Related s t) : ∃ t', ReadsType t phrase t' ∧ Related s' t' := by
  induction reads generalizing t with
  | whole opens kind read rest =>
    have onward := (onward_next kind rfl).trans read.onward.of_withPool
    have shown := mirror.shown (mirror.inside_of_onward onward inside) related
    obtain ⟨t', rest', related'⟩ := rest inside (mirror.withPool shown.next _)
    rw [← mirror.pool related, ← shown.value] at rest'
    exact ⟨t', .whole (by rwa [shown.grammar, shown.kind]) (shown.kind.trans kind) rest', related'⟩
  | stop loose =>
    have shown := mirror.shown inside related
    exact ⟨t, .stop (by rwa [shown.grammar, shown.kind]), related⟩
  | array brackets tight opens closes read rest =>
    have inside₁ := mirror.inside_of_onward
      ((onward_next closes rfl).trans read.onward.of_withPool) inside
    have shown := mirror.shown (mirror.inside_of_onward (onward_next opens rfl) inside₁) related
    have shown₁ := mirror.shown inside₁ shown.next
    obtain ⟨t', rest', related'⟩ := rest inside (mirror.withPool shown₁.next _)
    rw [← mirror.pool related] at rest'
    exact ⟨t', .array (by rwa [shown.grammar, shown.kind]) tight (shown.kind.trans opens)
      (shown₁.kind.trans closes) rest', related'⟩
  | map brackets tight opens filled readInner closes readRest inner rest =>
    have inside₂ := mirror.inside_of_onward
      ((onward_next closes rfl).trans readRest.onward.of_withPool) inside
    have inside₁ := mirror.inside_of_onward readInner.onward inside₂
    have shown := mirror.shown (mirror.inside_of_onward (onward_next opens rfl) inside₁) related
    have shown₁ := mirror.shown inside₁ shown.next
    obtain ⟨t₁, inner', related₁⟩ := inner inside₂ shown.next
    have last := mirror.shown inside₂ related₁
    obtain ⟨t', rest', related'⟩ := rest inside (mirror.withPool last.next _)
    rw [← mirror.pool related₁] at rest'
    exact ⟨t', .map (by rwa [shown.grammar, shown.kind]) tight (shown.kind.trans opens)
      (shown₁.kind.trans_ne filled) inner' (last.kind.trans closes) rest', related'⟩

end ColonScript.Reading
