import ColonScript.Proofs.Reading.Production

/-! The expressions of the language as a relation on states: which phrase leads from one state to
another. There are no bounds in it, and a bounded reading succeeds exactly where the relation holds.
What is to be shown of every expression that is read is shown by induction on this relation. -/

namespace ColonScript.Reading
open Token (Kind)

/-- What has been read of an expression or a list of them, with what came of it. -/
inductive Phrase where
  | expr (power : Power) (e : Expr)
  | operand (opening : Opening) (e : Expr)
  | rest (power : Power) (left e : Expr)
  | elements (first : Bool) (before : Ty) (es : List Expr) (type : Ty)
  | entries (first : Bool) (before : Ty × Ty) (pairs : List (Expr × Expr)) (types : Ty × Ty)
  | arguments (first : Bool) (es : List Expr)

/-- A property of every expression that has been read, if what goes on was begun with one of its
kind. -/
def Phrase.Each (P : Expr → Prop) : Phrase → Prop
  | .expr _ e | .operand _ e => P e
  | .rest _ left e => P left → P e
  | .elements _ _ es _ | .arguments _ es => ∀ e ∈ es, P e
  | .entries _ _ pairs _ => ∀ pair ∈ pairs, P pair.1 ∧ P pair.2

inductive Reads : Session → Phrase → Session → Prop where
  | expr {s s₁ s' : Session} {power : Power} {opening : Opening} {first e : Expr}
      (opens : s.grammar.opening? s.kind = some opening)
      (operand : Reads s (.operand opening first) s₁) (rest : Reads s₁ (.rest power first e) s') :
      Reads s (.expr power e) s'
  | literal {s : Session} {make : Ty → Expr} {name : String} (token : Literal s.current make name) :
      Reads s (.operand .literal (make (s.pool.base name).1)) (s.next.withPool (s.pool.base name).2)
  | name {s : Session} {binding : Binding} (kind : s.kind = .identifier)
      (noCall : s.next.kind ≠ .openParen)
      (bound : s.scopes.binding? s.current.value = some binding) :
      Reads s (.operand .name (.name s.current.value binding.type)) s.next
  | builtinCall {s s₁ : Session} {function : Function} {builtin : Builtin} {args : List Expr}
      {types results : List Ty}
      {pool : Ty.Pool} (kind : s.kind = .identifier) (call : s.next.kind = .openParen)
      (known : s.scopes.function? s.current.value = some function)
      (stage : function.builtin? = some builtin)
      (arguments : Reads s.next.next (.arguments true args) s₁) (closes : s₁.kind = .closeParen)
      (singles : Singles args types) (typed : builtin.results types s₁.pool = .ok results pool) :
      Reads s (.operand .name (.call s.current.value args results)) (s₁.next.withPool pool)
  | call {s s₁ : Session} {function : Function} {args settled : List Expr} {types : List Ty}
      {pool : Ty.Pool} (kind : s.kind = .identifier) (call : s.next.kind = .openParen)
      (known : s.scopes.function? s.current.value = some function)
      (stage : function.builtin? = none)
      (arguments : Reads s.next.next (.arguments true args) s₁) (closes : s₁.kind = .closeParen)
      (singles : Singles args types) (count : function.signature.parameters.length = args.length)
      (fitted : Fitted s₁.pool (function.signature.parameters.map (·.type)) (args.zip types)
        settled pool) :
      Reads s (.operand .name (.call s.current.value settled function.signature.results))
        (s₁.next.withPool pool)
  | array {s s₁ : Session} {es : List Expr} {type : Ty} (opens : s.kind = .openBracket)
      (elements : Reads s.next (.elements true .unknown es type) s₁)
      (closes : s₁.kind = .closeBracket) :
      Reads s (.operand .array (.array (Expr.settleAll type es) (s₁.pool.array type).1))
        (s₁.next.withPool (s₁.pool.array type).2)
  | map {s s₁ : Session} {pairs : List (Expr × Expr)} {types : Ty × Ty}
      (opens : s.kind = .openCurly)
      (entries : Reads s.next (.entries true (.unknown, .unknown) pairs types) s₁)
      (closes : s₁.kind = .closeCurly) :
      Reads s
        (.operand .map (.map (Expr.settleValues types.2 pairs) (s₁.pool.map types.1 types.2).1))
        (s₁.next.withPool (s₁.pool.map types.1 types.2).2)
  | group {s s₁ : Session} {e : Expr} (opens : s.kind = .openParen)
      (inner : Reads s.next (.expr .lowest e) s₁)
      (closes : s₁.kind = .closeParen) : Reads s (.operand .group e) s₁.next
  | unary {s s₁ : Session} {e : Expr} {operandType type : Ty}
      (kind : s.kind = .minus ∨ s.kind = .not)
      (operand : Reads s.next (.expr .unary e) s₁) (single : e.types = [operandType])
      (typed : Typing.unary s.current.value operandType = .ok type) :
      Reads s (.operand .unary (.unary s.current.value e type)) s₁
  | stop {s : Session} {power : Power} {e : Expr}
      (loose : ∀ own continuation, s.grammar.continuation? s.kind = some (own, continuation) →
        own ≤ power) :
      Reads s (.rest power e e) s
  | binary {s s₁ s' : Session} {power own : Power} {left right e : Expr}
      {leftType rightType type : Ty} {pool : Ty.Pool}
      (operator : s.grammar.continuation? s.kind = some (own, .binary))
      (tight : ¬own ≤ power)
      (operand : Reads s.next (.expr own right) s₁) (leftSingle : left.types = [leftType])
      (rightSingle : right.types = [rightType])
      (typed : Typing.binary s.current.value leftType rightType s₁.pool = .ok type pool)
      (rest : Reads (s₁.withPool pool)
        (.rest power (combined left s.current.value right type) e) s') :
      Reads s (.rest power left e) s'
  | step {s s' : Session} {power own : Power} {left e : Expr} {leftType type : Ty}
      (operator : s.grammar.continuation? s.kind = some (own, .step)) (tight : ¬own ≤ power)
      (single : left.types = [leftType]) (typed : Typing.step s.current.value leftType = .ok type)
      (rest : Reads s.next (.rest power (.step left s.current.value type) e) s') :
      Reads s (.rest power left e) s'
  | assign {s s₁ s' : Session} {power own : Power} {target : String} {type valueType both : Ty}
      {value e : Expr}
      {pool : Ty.Pool} (operator : s.grammar.continuation? s.kind = some (own, .assignment))
      (tight : ¬own ≤ power)
      (mutable : s.scopes.isConstant target = false) (given : Reads s.next (.expr .lowest value) s₁)
      (single : value.types = [valueType])
      (typed : Typing.assignment target s.current.value type valueType s₁.pool = .ok both pool)
      (rest : Reads (s₁.withPool pool)
        (.rest power (.assign target s.current.value (value.settle both) type) e) s') :
      Reads s (.rest power (.name target type) e) s'
  | index {s s₁ s' : Session} {power own : Power} {left key e : Expr} {leftType keyType type : Ty}
      {pool : Ty.Pool}
      (operator : s.grammar.continuation? s.kind = some (own, .index)) (tight : ¬own ≤ power)
      (opens : s.kind = .openBracket) (inner : Reads s.next (.expr .lowest key) s₁)
      (closes : s₁.kind = .closeBracket) (leftSingle : left.types = [leftType])
      (keySingle : key.types = [keyType])
      (typed : Typing.index leftType keyType s₁.pool = .ok type pool)
      (rest : Reads (s₁.next.withPool pool) (.rest power (.index left key type) e) s') :
      Reads s (.rest power left e) s'
  | noElements {s : Session} {first : Bool} {before : Ty} (closes : s.kind = .closeBracket) :
      Reads s (.elements first before [] before) s
  | element {s s₁ s₂ s' : Session} {first : Bool} {before elementType both type : Ty} {e : Expr}
      {es : List Expr} (more : s.kind ≠ .closeBracket) (separated : Session.Separated first s s₁)
      (value : Reads s₁ (.expr .lowest e) s₂) (single : e.types = [elementType])
      (joined : (s₂.pool.join before elementType).1 = some both)
      (rest : Reads (s₂.joining before elementType) (.elements false both es type) s') :
      Reads s (.elements first before (e :: es) type) s'
  | noEntries {s : Session} {first : Bool} {before : Ty × Ty} (closes : s.kind = .closeCurly) :
      Reads s (.entries first before [] before) s
  | entry {s s₁ s₂ s₃ s' : Session} {first : Bool} {before types : Ty × Ty}
      {keyType valueType keys values : Ty}
      {key value : Expr} {pairs : List (Expr × Expr)} (more : s.kind ≠ .closeCurly)
      (separated : Session.Separated first s s₁) (keyRead : Reads s₁ (.expr .lowest key) s₂)
      (literal : key.isBaseLiteral = true) (colon : s₂.kind = .colon)
      (valueRead : Reads s₂.next (.expr .lowest value) s₃) (keySingle : key.types = [keyType])
      (keyJoined : (s₃.pool.join before.1 keyType).1 = some keys)
      (valueSingle : value.types = [valueType])
      (valueJoined : ((s₃.joining before.1 keyType).pool.join before.2 valueType).1 = some values)
      (rest : Reads ((s₃.joining before.1 keyType).joining before.2 valueType)
        (.entries false (keys, values) pairs types) s') :
      Reads s (.entries first before ((key, value) :: pairs) types) s'
  | noArguments {s : Session} {first : Bool} (closes : s.kind = .closeParen) :
      Reads s (.arguments first []) s
  | argument {s s₁ s₂ s' : Session} {first : Bool} {e : Expr} {es : List Expr}
      (more : s.kind ≠ .closeParen)
      (separated : Session.Separated first s s₁) (value : Reads s₁ (.expr .lowest e) s₂)
      (rest : Reads s₂ (.arguments false es) s') : Reads s (.arguments first (e :: es)) s'

/-! Every successful reading is in the relation. -/

theorem kind_of_opens_name {grammar : Grammar} {kind : Kind}
    (opens : grammar.opening? kind = some .name) :
    kind = .identifier := by
  cases grammar with
  | bare => cases opens
  | standard => cases kind <;> first | rfl | cases opens

theorem kind_of_opens_unary {grammar : Grammar} {kind : Kind}
    (opens : grammar.opening? kind = some .unary) :
    kind = .minus ∨ kind = .not := by
  cases grammar with
  | bare => cases opens
  | standard => cases kind <;> first | exact .inl rfl | exact .inr rfl | cases opens

variable {s s' : Session} {e : Expr}


section
variable {expr : Power → Read Expr} {n : Nat}

def Sound (expr : Power → Read Expr) : Prop :=
  ∀ ⦃power s e s'⦄, expr power s = .ok e s' → Reads s (.expr power e) s'

theorem reads_elements (sound : Sound expr) {first first' : Bool} {before type : Ty}
    {es : List Expr}
    (run : collectUpTo (· ≠ .closeBracket) (itemOfList (element expr)) n (first, before) s =
      .ok (es, first', type) s') : Reads s (.elements first before es type) s' := by
  induction n generalizing first before es s with
  | zero => exact absurd run not_ok_collectUpTo_zero
  | succ n ih =>
    obtain ⟨more, e, ⟨_, both⟩, s₁, rest, item, run, rfl⟩ | ⟨last, rfl, same, rfl⟩ :=
      ok_collectUpTo.mp run
    · obtain ⟨rfl, s₂, separated, read⟩ := ok_itemOfList.mp item
      obtain ⟨elementType, s₃, value, single, joined, rfl⟩ := ok_element.mp read
      exact .element (by simpa using more) separated (sound value) single joined (ih run)
    · obtain ⟨rfl, rfl⟩ := Prod.mk.inj same
      exact .noElements (by simpa using last)

theorem reads_entries (sound : Sound expr) {first first' : Bool} {before types : Ty × Ty}
    {pairs : List (Expr × Expr)}
    (run : collectUpTo (· ≠ .closeCurly) (itemOfList (entry expr)) n (first, before) s =
      .ok (pairs, first', types) s') : Reads s (.entries first before pairs types) s' := by
  induction n generalizing first before pairs s with
  | zero => exact absurd run not_ok_collectUpTo_zero
  | succ n ih =>
    obtain ⟨more, ⟨key, value⟩, ⟨_, both⟩, s₁, rest, item, run, rfl⟩ | ⟨last, rfl, same, rfl⟩ :=
      ok_collectUpTo.mp run
    · obtain ⟨rfl, s₂, separated, read⟩ := ok_itemOfList.mp item
      obtain ⟨keyType, valueType, s₃, s₄, keyRead, literal, colon, valueRead, keySingle,
        keyJoined, valueSingle, valueJoined, rfl⟩ := ok_entry.mp read
      exact .entry (by simpa using more) separated (sound keyRead) literal colon
        (sound valueRead) keySingle
        keyJoined valueSingle valueJoined (ih run)
    · obtain ⟨rfl, rfl⟩ := Prod.mk.inj same
      exact .noEntries (by simpa using last)

theorem reads_arguments (sound : Sound expr) {first first' : Bool} {args : List (Expr × Position)}
    (run : collectUpTo (· ≠ .closeParen) (itemOfList fun () => return (← placed expr, ())) n
      (first, ()) s = .ok (args, first', ()) s') :
    Reads s (.arguments first (args.map (·.1))) s' := by
  induction n generalizing first args s with
  | zero => exact absurd run not_ok_collectUpTo_zero
  | succ n ih =>
    obtain ⟨more, ⟨e, position⟩, ⟨_, ⟨⟩⟩, s₁, rest, item, run, rfl⟩ | ⟨last, rfl, same, rfl⟩ :=
      ok_collectUpTo.mp run
    · obtain ⟨rfl, s₂, separated, read⟩ := ok_itemOfList.mp item
      obtain ⟨_, _, value, last⟩ := ok_bind.mp read
      obtain ⟨same, rfl⟩ := ok_pure.mp last
      obtain ⟨rfl, -⟩ := Prod.mk.inj same
      exact .argument (by simpa using more) separated (sound (ok_placed.mp value).1) (ih run)
    · exact .noArguments (by simpa using last)

theorem reads_operand (sound : Sound expr) {opening : Opening}
    (opens : s.grammar.opening? s.kind = some opening) (run : operand expr opening s = .ok e s') :
    Reads s (.operand opening e) s' := by
  cases opening with
  | literal =>
    obtain ⟨make, name, token, rfl, rfl⟩ := ok_literal.mp run
    exact .literal token
  | name =>
    obtain ⟨called, run⟩ | ⟨noCall, binding, bound, rfl, rfl⟩ := ok_nameOrCall.mp run
    · obtain ⟨kind, function, args, s₁, known, given, result⟩ := ok_call.mp run
      obtain ⟨_, s₂, list, closes, rfl⟩ := ok_arguments.mp given
      obtain ⟨first, list⟩ := ok_items.mp list
      have read := reads_arguments sound list
      obtain ⟨types, singles, ⟨builtin, results, pool, stage, typed, rfl, rfl⟩ |
        ⟨settled, pool, stage, count, fitted, rfl, rfl⟩⟩ := ok_callOf.mp result
      · exact .builtinCall kind called known stage read closes singles typed
      · exact .call kind called known stage read closes singles (by simpa using count) fitted
    · exact .name (kind_of_opens_name opens) noCall bound
  | array =>
    obtain ⟨kind, es, type, s₁, list, closes, rfl, rfl⟩ := ok_arrayLiteral.mp run
    obtain ⟨first, list⟩ := ok_items.mp list
    exact .array kind (reads_elements sound list) closes
  | map =>
    obtain ⟨kind, pairs, types, s₁, list, closes, rfl, rfl⟩ := ok_mapLiteral.mp run
    obtain ⟨first, list⟩ := ok_items.mp list
    exact .map kind (reads_entries sound list) closes
  | group =>
    obtain ⟨kind, s₁, inner, closes, rfl⟩ := ok_group.mp run
    exact .group kind (sound inner) closes
  | unary =>
    obtain ⟨inner, operandType, type, read, single, typed, rfl⟩ := ok_unary.mp run
    exact .unary (kind_of_opens_unary opens) (sound read) single typed

theorem reads_rest (sound : Sound expr) {power : Power} {left : Expr}
    (run : extendUpTo (continued? expr power) n left s = .ok e s') :
    Reads s (.rest power left e) s' := by
  induction n generalizing left s with
  | zero => exact absurd run not_ok_extendUpTo_zero
  | succ n ih =>
    obtain ⟨better, s₁, round, rest⟩ | ⟨round, rfl⟩ := ok_extendUpTo.mp run
    · obtain ⟨own, continuation, more, continues, tight, grown, same⟩ | ⟨_, none, _⟩ :=
        ok_continued?.mp round
      · obtain rfl := Option.some.inj same
        cases continuation with
        | assignment =>
          obtain ⟨target, type, value, valueType, both, pool, s₂, rfl, mutable, given, single,
            typed, rfl, rfl⟩ :=
            ok_assignment.mp grown
          exact .assign continues tight mutable (sound given) single typed (ih rest)
        | binary =>
          obtain ⟨right, leftType, rightType, type, pool, s₂, operand, leftSingle, rightSingle,
            typed, rfl, rfl⟩ :=
            ok_binary.mp grown
          exact .binary continues tight (sound operand) leftSingle rightSingle typed (ih rest)
        | step =>
          obtain ⟨leftType, type, single, typed, rfl, rfl⟩ := ok_step.mp grown
          exact .step continues tight single typed (ih rest)
        | call => simp [continued] at grown
        | index =>
          obtain ⟨kind, key, leftType, keyType, type, pool, s₂, inner, closes, leftSingle,
            keySingle, typed, rfl, rfl⟩ :=
            ok_index.mp grown
          exact .index continues tight kind (sound inner) closes leftSingle keySingle
            typed (ih rest)
      · cases none
    · obtain ⟨_, _, _, _, _, _, same⟩ | ⟨loose, _, rfl⟩ := ok_continued?.mp round
      · cases same
      · exact .stop loose

theorem reads_expressionWith (sound : Sound expr) {power : Power}
    (run : expressionWith expr power s = .ok e s') :
    Reads s (.expr power e) s' := by
  obtain ⟨opening, first, s₁, opens, first, rest⟩ := ok_expressionWith.mp run
  exact .expr opens (reads_operand sound opens first) (reads_rest sound rest)

end

theorem reads_expressionUpTo (n : Nat) : Sound (expressionUpTo n) := by
  induction n with
  | zero =>
    intro power s e s' run
    simp [expressionUpTo] at run
  | succ n ih =>
    intro power s e s' run
    exact reads_expressionWith ih run

/-! Reading goes forward over tokens that a sentence can hold. Statements may bring names into
scope; expressions leave the scopes as they are. -/

/-- What lies between two states of which the second is not further back. -/
structure Forward (s s' : Session) : Prop where
  place : s'.place = s.place
  file : s'.file = s.file
  grammar : s'.grammar = s.grammar
  closing : s'.cursor.closing = s.cursor.closing
  passed : ∃ tokens, s.ahead = tokens ++ s'.ahead ∧ ∀ token ∈ tokens, token.kind ≠ .eof ∧
    token.kind ≠ .dot

namespace Forward
variable {s s₁ s' : Session}

theorem refl (s : Session) : Forward s s := ⟨rfl, rfl, rfl, rfl, [], rfl, by simp⟩

theorem trans (first : Forward s s₁) (second : Forward s₁ s') : Forward s s' := by
  obtain ⟨tokens, ahead, kinds⟩ := first.passed
  obtain ⟨tokens', ahead', kinds'⟩ := second.passed
  refine ⟨second.place.trans first.place, second.file.trans first.file,
    second.grammar.trans first.grammar, second.closing.trans first.closing,
    tokens ++ tokens', ?_, ?_⟩
  · rw [ahead, ahead', List.append_assoc]
  · intro token member
    rcases List.mem_append.mp member with member | member
    · exact kinds token member
    · exact kinds' token member

theorem withPool (forward : Forward s s') (pool : Ty.Pool) : Forward s (s'.withPool pool) :=
  ⟨forward.place, forward.file, forward.grammar, forward.closing, forward.passed⟩

theorem withScopes (forward : Forward s s') (scopes : ScopeStack) :
    Forward s (s'.withScopes scopes) :=
  ⟨forward.place, forward.file, forward.grammar, forward.closing, forward.passed⟩

/-- What is read in a scope or at a place of its own. -/
theorem enclosed {inner s₂ : Session} (before : Forward s s₁) (inside : Forward inner s₂)
    (enters : inner.cursor = s₁.cursor ∧ inner.file = s₁.file ∧ inner.grammar = s₁.grammar)
    (leaves : s'.cursor = s₂.cursor ∧ s'.file = s₂.file ∧ s'.grammar = s₂.grammar ∧
      s'.place = s₁.place) :
    Forward s s' := by
  have between : Forward s₁ s' := by
    refine ⟨leaves.2.2.2, ?_, ?_, ?_, ?_⟩
    · rw [leaves.2.1, inside.file, enters.2.1]
    · rw [leaves.2.2.1, inside.grammar, enters.2.2]
    · rw [leaves.1, inside.closing, enters.1]
    · obtain ⟨tokens, passed, kinds⟩ := inside.passed
      refine ⟨tokens, ?_, kinds⟩
      show s₁.cursor.ahead = tokens ++ s'.cursor.ahead
      rw [leaves.1, ← enters.1]
      exact passed
  exact before.trans between

theorem length_le (forward : Forward s s') : s'.ahead.length ≤ s.ahead.length := by
  obtain ⟨tokens, ahead, -⟩ := forward.passed
  rw [ahead, List.length_append]
  omega

theorem le (forward : Forward s s') {n : Nat} (before : s.ahead.length ≤ n) : s'.ahead.length ≤ n :=
  Nat.le_trans forward.length_le before

theorem lt (forward : Forward s s') {n : Nat} (before : s.ahead.length < n) : s'.ahead.length < n :=
  Nat.lt_of_le_of_lt forward.length_le before

end Forward

structure Onward (s s' : Session) : Prop extends Forward s s' where
  scopes : s'.scopes = s.scopes

namespace Onward
variable {s s₁ s' : Session}

theorem refl (s : Session) : Onward s s := ⟨.refl s, rfl⟩

theorem trans (first : Onward s s₁) (second : Onward s₁ s') : Onward s s' :=
  ⟨first.toForward.trans second.toForward, second.scopes.trans first.scopes⟩

instance : Trans Onward Onward Onward := ⟨trans⟩

theorem withPool (onward : Onward s s') (pool : Ty.Pool) : Onward s (s'.withPool pool) :=
  ⟨onward.toForward.withPool pool, onward.scopes⟩

theorem joining (onward : Onward s s') (a b : Ty) : Onward s (s'.joining a b) := onward.withPool _

theorem of_withPool {pool : Ty.Pool} (onward : Onward (s.withPool pool) s') : Onward s s' :=
  ((refl s).withPool pool).trans onward

end Onward

theorem ahead_of_kind {s : Session} (kind : s.kind ≠ .eof) :
    s.ahead = s.current :: s.next.ahead := by
  obtain ⟨⟨ahead, closing⟩, file, grammar, scopes, pool, place⟩ := s
  cases ahead with
  | nil => exact absurd rfl kind
  | cons token ahead => rfl

def inSentence : Kind → Bool
  | .eof | .dot => false
  | _ => true

theorem inSentence_iff {kind : Kind} : inSentence kind = true ↔ kind ≠ .eof ∧ kind ≠ .dot := by
  cases kind <;> simp [inSentence]

theorem length_next {s : Session} {kind : Kind} (is : s.kind = kind)
    (holds : inSentence kind = true) :
    s.next.ahead.length < s.ahead.length := by
  subst is
  rw [ahead_of_kind (inSentence_iff.mp holds).1, List.length_cons]
  omega

theorem onward_next {s : Session} {kind : Kind} (is : s.kind = kind)
    (holds : inSentence kind = true) :
    Onward s s.next := by
  subst is
  have passes := inSentence_iff.mp holds
  exact ⟨⟨rfl, rfl, rfl, rfl, [s.current], ahead_of_kind passes.1, by simpa using passes⟩, rfl⟩

theorem onward_two {s : Session} {first second : Kind} (is : s.kind = first)
    (holds : inSentence first = true) (is' : s.next.kind = second)
    (holds' : inSentence second = true) : Onward s s.next.next :=
  (onward_next is holds).trans (onward_next is' holds')

theorem onward_three {s : Session} {first second third : Kind} (is : s.kind = first)
    (holds : inSentence first = true) (is' : s.next.kind = second)
    (holds' : inSentence second = true) (is'' : s.next.next.kind = third)
    (holds'' : inSentence third = true) : Onward s s.next.next.next :=
  (onward_two is holds is' holds').trans (onward_next is'' holds'')

/-- What stands between two tokens of its own. -/
theorem onward_enclosed {s s₁ : Session} {opener closer : Kind} (opens : s.kind = opener)
    (holds : inSentence opener = true) (inside : Onward s.next s₁) (closes : s₁.kind = closer)
    (holds' : inSentence closer = true) : Onward s s₁.next := calc
  Onward s s.next := onward_next opens holds
  Onward _ s₁ := inside
  Onward _ s₁.next := onward_next closes holds'

theorem onward_separated {s s' : Session} {first : Bool}
    (separated : Session.Separated first s s') :
    Onward s s' := by
  cases first with
  | true =>
    obtain rfl : s' = s := separated
    exact .refl _
  | false =>
    obtain ⟨kind, rfl⟩ : s.kind = .comma ∧ s' = s.next := separated
    exact onward_next kind rfl

theorem Literal.kind {token : Token} {make : Ty → Expr} {name : String}
    (literal : Literal token make name) :
    inSentence token.kind = true := by
  cases literal <;> simp_all [inSentence]

theorem kind_of_continues {grammar : Grammar} {kind : Kind} {own : Power}
    {continuation : Continuation}
    (continues : grammar.continuation? kind = some (own, continuation)) :
    inSentence kind = true := by
  rw [inSentence_iff]
  constructor
  all_goals
    rintro rfl
    cases grammar <;> cases continues

theorem Reads.onward {s s' : Session} {phrase : Phrase} (reads : Reads s phrase s') :
    Onward s s' := by
  induction reads with
  | expr _ _ _ operand rest => exact operand.trans rest
  | literal token => exact (onward_next rfl token.kind).withPool _
  | name kind => exact onward_next kind rfl
  | builtinCall kind call _ _ _ closes _ _ arguments
  | call kind call _ _ _ closes _ _ _ arguments =>
    have inside := onward_enclosed call rfl arguments closes rfl
    exact ((onward_next kind rfl).trans inside).withPool _
  | array opens _ closes elements | map opens _ closes elements =>
    exact (onward_enclosed opens rfl elements closes rfl).withPool _
  | group opens _ closes inner => exact onward_enclosed opens rfl inner closes rfl
  | unary kind _ _ _ operand =>
    exact (kind.elim (onward_next · rfl) (onward_next · rfl)).trans operand
  | stop | noElements | noEntries | noArguments => exact .refl _
  | binary operator _ _ _ _ _ _ operand rest =>
    exact ((onward_next rfl (kind_of_continues operator)).trans operand).trans rest.of_withPool
  | step operator _ _ _ _ rest => exact (onward_next rfl (kind_of_continues operator)).trans rest
  | assign operator _ _ _ _ _ _ value rest =>
    exact ((onward_next rfl (kind_of_continues operator)).trans value).trans rest.of_withPool
  | index operator _ _ _ closes _ _ _ _ inner rest =>
    exact (onward_enclosed rfl (kind_of_continues operator) inner closes rfl).trans rest.of_withPool
  | element _ separated _ _ _ _ value rest =>
    exact ((onward_separated separated).trans value).trans rest.of_withPool
  | entry _ separated _ _ colon _ _ _ _ _ _ key value rest =>
    have first := (onward_separated separated).trans key
    have second := (onward_next colon rfl).trans value
    exact (first.trans second).trans rest.of_withPool.of_withPool
  | argument _ separated _ _ value rest =>
    exact ((onward_separated separated).trans value).trans rest

/-- An operand begins with a token of its own, and ends behind it. -/
theorem Reads.begun {s s' : Session} {opening : Opening} {e : Expr}
    (reads : Reads s (.operand opening e) s') :
    inSentence s.kind = true ∧ Onward s.next s' := by
  cases reads with
  | literal token => exact ⟨token.kind, (Onward.refl _).withPool _⟩
  | name kind => exact ⟨kind ▸ rfl, .refl _⟩
  | builtinCall kind call _ _ arguments closes | call kind call _ _ arguments closes =>
    exact ⟨kind ▸ rfl, (onward_enclosed call rfl arguments.onward closes rfl).withPool _⟩
  | array opens inside closes | map opens inside closes =>
    exact ⟨opens ▸ rfl, (inside.onward.trans (onward_next closes rfl)).withPool _⟩
  | group opens inside closes => exact ⟨opens ▸ rfl, inside.onward.trans (onward_next closes rfl)⟩
  | unary kind operand =>
    have holds : inSentence s.kind = true := by rcases kind with kind | kind <;> rw [kind] <;> rfl
    exact ⟨holds, operand.onward⟩

theorem Reads.operand_shorter {s s' : Session} {opening : Opening} {e : Expr}
    (reads : Reads s (.operand opening e) s') : s'.ahead.length < s.ahead.length :=
  Nat.lt_of_le_of_lt reads.begun.2.length_le (length_next rfl reads.begun.1)

theorem Reads.expr_shorter {s s' : Session} {power : Power} {e : Expr}
    (reads : Reads s (.expr power e) s') :
    s'.ahead.length < s.ahead.length := by
  cases reads with
  | expr _ operand rest => exact Nat.lt_of_le_of_lt rest.onward.length_le operand.operand_shorter

/-! And everything in the relation is read, given bounds larger than the number of tokens ahead. -/

def Phrase.Runs (s : Session) (s' : Session) : Phrase → Prop
  | .expr power e => ∀ n, s.ahead.length < n → expressionUpTo n power s = .ok e s'
  | .operand opening e =>
    ∀ n, s.ahead.length ≤ n → Reading.operand (expressionUpTo n) opening s = .ok e s'
  | .rest power left e => ∀ n rounds, s.ahead.length ≤ n → s.ahead.length < rounds →
      extendUpTo (continued? (expressionUpTo n) power) rounds left s = .ok e s'
  | .elements first before es type => ∀ n rounds, s.ahead.length < n → s.ahead.length < rounds →
      ∃ first', collectUpTo (· ≠ .closeBracket) (itemOfList (element (expressionUpTo n))) rounds
      (first, before) s =
        .ok (es, first', type) s'
  | .entries first before pairs types => ∀ n rounds, s.ahead.length < n → s.ahead.length < rounds →
      ∃ first', collectUpTo (· ≠ .closeCurly) (itemOfList (entry (expressionUpTo n))) rounds
      (first, before) s =
        .ok (pairs, first', types) s'
  | .arguments first es => ∀ n rounds, s.ahead.length < n → s.ahead.length < rounds →
      ∃ args first', args.map (·.1) = es ∧
        collectUpTo (· ≠ .closeParen) (itemOfList fun () =>
          return (← placed (expressionUpTo n), ())) rounds
          (first, ()) s = .ok (args, first', ()) s'

theorem extendUpTo_of_continued {expr : Power → Read Expr} {power own : Power}
    {continuation : Continuation} {left more e : Expr} {s s₁ s' : Session} {rounds : Nat}
    (operator : s.grammar.continuation? s.kind = some (own, continuation)) (tight : ¬own ≤ power)
    (grown : continued expr own left continuation s = .ok more s₁)
    (rest : extendUpTo (continued? expr power) rounds more s₁ = .ok e s') :
    extendUpTo (continued? expr power) (rounds + 1) left s = .ok e s' :=
  ok_extendUpTo.mpr (.inl ⟨more, s₁,
    ok_continued?.mpr (.inl ⟨own, continuation, more, operator, tight, grown, rfl⟩), rest⟩)

section
variable {s₁ s₂ s₃ : Session} {left value key : Expr} {es : List Expr} {power own : Power}
    {first : Bool} {n rounds : Nat}

theorem runs_arguments (kind : s.kind = .identifier) (call : s.next.kind = .openParen)
    (list : (Phrase.arguments true es).Runs s.next.next s₁) (closes : s₁.kind = .closeParen)
    (enough : s.ahead.length ≤ n) :
    ∃ args, args.map (·.1) = es ∧ arguments (expressionUpTo n) s.next = .ok args s₁.next := by
  have shorter := length_next kind rfl
  have shorter' := length_next call rfl
  obtain ⟨args, first, same, list⟩ := list n _ (by omega) (Nat.lt_succ_self _)
  exact ⟨args, same, ok_arguments.mpr ⟨call, _, ok_items.mpr ⟨first, list⟩, closes, rfl⟩⟩

/-- One more operator, whatever it is. -/
theorem runs_rest {more : Expr} {continuation : Continuation}
    (operator : s.grammar.continuation? s.kind = some (own, continuation)) (tight : ¬own ≤ power)
    (onward : Onward s.next s₁)
    (grown : ∀ n, s.next.ahead.length < n →
      continued (expressionUpTo n) own left continuation s = .ok more s₁)
    (rest : (Phrase.rest power more e).Runs s₁ s') : (Phrase.rest power left e).Runs s s' := by
  intro n rounds enough bound
  obtain ⟨rounds, rfl⟩ := Nat.exists_eq_add_one_of_ne_zero (Nat.ne_zero_of_lt bound)
  have shorter := length_next rfl (kind_of_continues operator)
  exact extendUpTo_of_continued operator tight (grown n (by omega))
    (rest n rounds (onward.le (by omega)) (onward.lt (by omega)))

theorem collectUpTo_none {α σ : Type} {item : σ → Read (α × σ)} {state : σ} {closer : Kind}
    (closes : s.kind = closer) (bound : s.ahead.length < rounds) :
    collectUpTo (· ≠ closer) (itemOfList item) rounds (first, state) s =
      .ok ([], first, state) s := by
  obtain ⟨rounds, rfl⟩ := Nat.exists_eq_add_one_of_ne_zero (Nat.ne_zero_of_lt bound)
  exact ok_collectUpTo.mpr (.inr ⟨by simpa using closes, rfl, rfl, rfl⟩)

theorem collectUpTo_item {α σ : Type} {item : σ → Read (α × σ)} {state state' : σ} {closer : Kind}
    {a : α} {as : List α} {final : Bool × σ} (more : s.kind ≠ closer)
    (separated : Session.Separated first s s₁)
    (read : item state s₁ = .ok (a, state') s₂)
    (rest : collectUpTo (· ≠ closer) (itemOfList item) n (false, state') s₂ = .ok (as, final) s') :
    collectUpTo (· ≠ closer) (itemOfList item) (n + 1) (first, state) s = .ok (a :: as, final) s' :=
  ok_collectUpTo.mpr
    (.inl ⟨by simpa using more, _, _, _, _, ok_itemOfList.mpr ⟨rfl, _, separated, read⟩, rest, rfl⟩)

theorem runs_element {before elementType both type : Ty} (more : s.kind ≠ .closeBracket)
    (separated : Session.Separated first s s₁) (shorter : s₂.ahead.length < s₁.ahead.length)
    (single : value.types = [elementType])
    (joined : (s₂.pool.join before elementType).1 = some both)
    (read : (Phrase.expr .lowest value).Runs s₁ s₂)
    (rest : (Phrase.elements false both es type).Runs (s₂.joining before elementType) s') :
    (Phrase.elements first before (value :: es) type).Runs s s' := by
  intro n rounds enough bound
  obtain ⟨rounds, rfl⟩ := Nat.exists_eq_add_one_of_ne_zero (Nat.ne_zero_of_lt bound)
  have before := (onward_separated separated).length_le
  obtain ⟨first', list⟩ := rest n rounds (by simp; omega) (by simp; omega)
  exact ⟨first', collectUpTo_item more separated
    (ok_element.mpr ⟨_, _, read n (by omega), single, joined, rfl⟩) list⟩

theorem runs_entry {before types : Ty × Ty} {keyType valueType keys values : Ty}
    {pairs : List (Expr × Expr)}
    (more : s.kind ≠ .closeCurly) (separated : Session.Separated first s s₁)
    (shorter : s₂.ahead.length < s₁.ahead.length) (literal : key.isBaseLiteral = true)
    (colon : s₂.kind = .colon)
    (onward : Onward s₂.next s₃) (keySingle : key.types = [keyType])
    (keyJoined : (s₃.pool.join before.1 keyType).1 = some keys)
    (valueSingle : value.types = [valueType])
    (valueJoined : ((s₃.joining before.1 keyType).pool.join before.2 valueType).1 = some values)
    (keyRead : (Phrase.expr .lowest key).Runs s₁ s₂)
    (valueRead : (Phrase.expr .lowest value).Runs s₂.next s₃)
    (rest : (Phrase.entries false (keys, values) pairs types).Runs
      ((s₃.joining before.1 keyType).joining before.2 valueType) s') :
    (Phrase.entries first before ((key, value) :: pairs) types).Runs s s' := by
  intro n rounds enough bound
  obtain ⟨rounds, rfl⟩ := Nat.exists_eq_add_one_of_ne_zero (Nat.ne_zero_of_lt bound)
  have before := (onward_separated separated).length_le
  have shorter' := onward.length_le
  have colon' := length_next colon rfl
  obtain ⟨first', list⟩ := rest n rounds (by simp; omega) (by simp; omega)
  refine ⟨first', collectUpTo_item more separated ?_ list⟩
  exact ok_entry.mpr ⟨_, _, _, _, keyRead n (by omega), literal, colon, valueRead n (by omega),
    keySingle, keyJoined, valueSingle, valueJoined, rfl⟩

theorem runs_argument (more : s.kind ≠ .closeParen) (separated : Session.Separated first s s₁)
    (shorter : s₂.ahead.length < s₁.ahead.length) (read : (Phrase.expr .lowest value).Runs s₁ s₂)
    (rest : (Phrase.arguments false es).Runs s₂ s') :
    (Phrase.arguments first (value :: es)).Runs s s' := by
  intro n rounds enough bound
  obtain ⟨rounds, rfl⟩ := Nat.exists_eq_add_one_of_ne_zero (Nat.ne_zero_of_lt bound)
  have before := (onward_separated separated).length_le
  obtain ⟨args, first', rfl, list⟩ := rest n rounds (by omega) (by omega)
  have placed := ok_placed.mpr ⟨read n (by omega), rfl⟩
  exact ⟨(value, s₁.here) :: args, first', rfl, collectUpTo_item more separated
    (ok_bind.mpr ⟨_, _, placed, ok_pure.mpr ⟨rfl, rfl⟩⟩) list⟩

end

theorem Reads.runs {s s' : Session} {phrase : Phrase} (reads : Reads s phrase s') :
    phrase.Runs s s' := by
  induction reads with
  | expr opens operandReads _ operand rest =>
    intro n enough
    obtain ⟨n, rfl⟩ := Nat.exists_eq_add_one_of_ne_zero (Nat.ne_zero_of_lt enough)
    have shorter := operandReads.operand_shorter
    exact ok_expressionWith.mpr ⟨_, _, _, opens, operand n (by omega),
      rest n _ (by omega) (by omega)⟩
  | literal token => exact fun n _ => ok_literal.mpr ⟨_, _, token, rfl, rfl⟩
  | name kind noCall bound => exact fun n _ => ok_nameOrCall.mpr (.inr ⟨noCall, _, bound, rfl, rfl⟩)
  | builtinCall kind call known stage _ closes singles typed list =>
    intro n enough
    obtain ⟨args, rfl, given⟩ := runs_arguments kind call list closes enough
    refine ok_nameOrCall.mpr (.inl ⟨call, ok_call.mpr ⟨kind, _, args, _, known, given, ?_⟩⟩)
    exact ok_callOf.mpr ⟨_, singles, .inl ⟨_, _, _, stage, typed, rfl, rfl⟩⟩
  | call kind call known stage _ closes singles count fitted list =>
    intro n enough
    obtain ⟨args, rfl, given⟩ := runs_arguments kind call list closes enough
    refine ok_nameOrCall.mpr (.inl ⟨call, ok_call.mpr ⟨kind, _, args, _, known, given, ?_⟩⟩)
    exact ok_callOf.mpr ⟨_, singles, .inr ⟨_, _, stage, by simpa using count, fitted, rfl, rfl⟩⟩
  | array opens _ closes elements =>
    intro n enough
    obtain ⟨first, list⟩ :=
      elements n _ (Nat.lt_of_lt_of_le (length_next opens rfl) enough) (Nat.lt_succ_self _)
    exact ok_arrayLiteral.mpr ⟨opens, _, _, _, ok_items.mpr ⟨first, list⟩, closes, rfl, rfl⟩
  | map opens _ closes entries =>
    intro n enough
    obtain ⟨first, list⟩ :=
      entries n _ (Nat.lt_of_lt_of_le (length_next opens rfl) enough) (Nat.lt_succ_self _)
    exact ok_mapLiteral.mpr ⟨opens, _, _, _, ok_items.mpr ⟨first, list⟩, closes, rfl, rfl⟩
  | group opens _ closes inner =>
    intro n enough
    exact ok_group.mpr ⟨opens, _, inner n (Nat.lt_of_lt_of_le (length_next opens rfl) enough),
      closes, rfl⟩
  | unary kind _ single typed operand =>
    intro n enough
    have shorter := kind.elim (length_next · rfl) (length_next · rfl)
    exact ok_unary.mpr ⟨_, _, _, operand n (Nat.lt_of_lt_of_le shorter enough), single, typed, rfl⟩
  | stop loose =>
    intro n rounds _ bound
    obtain ⟨rounds, rfl⟩ := Nat.exists_eq_add_one_of_ne_zero (Nat.ne_zero_of_lt bound)
    exact ok_extendUpTo.mpr (.inr ⟨ok_continued?.mpr (.inr ⟨loose, rfl, rfl⟩), rfl⟩)
  | binary operator tight reads leftSingle rightSingle typed _ operand rest =>
    exact runs_rest operator tight (reads.onward.withPool _) (fun n enough =>
      ok_binary.mpr ⟨_, _, _, _, _, _, operand n enough, leftSingle, rightSingle, typed, rfl, rfl⟩)
        rest
  | step operator tight single typed _ rest =>
    exact runs_rest operator tight (.refl _)
      (fun n _ => ok_step.mpr ⟨_, _, single, typed, rfl, rfl⟩) rest
  | assign operator tight mutable reads single typed _ value rest =>
    exact runs_rest operator tight (reads.onward.withPool _) (fun n enough =>
      ok_assignment.mpr ⟨_, _, _, _, _, _, _, rfl, mutable, value n enough, single, typed,
        rfl, rfl⟩) rest
  | index operator tight opens reads closes leftSingle keySingle typed _ inner rest =>
    have closed := reads.onward.trans (onward_next closes rfl)
    exact runs_rest operator tight (closed.withPool _) (fun n enough =>
      ok_index.mpr ⟨opens, _, _, _, _, _, _, inner n enough, closes, leftSingle, keySingle, typed,
        rfl, rfl⟩) rest
  | noElements closes | noEntries closes =>
    exact fun n rounds _ bound => ⟨_, collectUpTo_none closes bound⟩
  | element more separated reads single joined _ value rest =>
    exact runs_element more separated reads.expr_shorter single joined value rest
  | entry more separated keyReads literal colon valueReads keySingle keyJoined valueSingle
      valueJoined _ key value rest =>
    exact runs_entry more separated keyReads.expr_shorter literal colon valueReads.onward keySingle
      keyJoined valueSingle valueJoined key value rest
  | noArguments closes => exact fun n rounds _ bound => ⟨[], _, rfl, collectUpTo_none closes bound⟩
  | argument more separated reads _ value rest =>
    exact runs_argument more separated reads.expr_shorter value rest

/-- An expression is read exactly where the relation leads. -/
theorem ok_expression {s s' : Session} {power : Power} {e : Expr} :
    expression power s = .ok e s' ↔ Reads s (.expr power e) s' := by
  simp only [expression, run_bound_bind]
  exact ⟨fun run => reads_expressionUpTo _ run, fun reads => reads.runs _ (Nat.lt_succ_self _)⟩

end ColonScript.Reading
