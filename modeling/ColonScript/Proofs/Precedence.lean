import ColonScript.Proofs.Reading.Phrase

/-! The grammar of expressions by levels, given on its own, and that reading follows it: the tree
that is read is derived from exactly the tokens that were passed, and nothing that binds tighter is
left ahead. No derivation looks at a type, so settling a tree does not change what it is derived
from. -/

namespace ColonScript.Reading
open Token (Kind)

/-- How tightly a tree holds together, loosest first. A primary tree cannot be parted. -/
inductive Level
  | assignment | logicalOr | logicalAnd | equality | bitwise | relational | additive
  | multiplicative | unary | step
  | call | index | primary
  deriving DecidableEq, Repr

namespace Level

def rank : Level → Nat
  | assignment => 1
  | logicalOr => 2
  | logicalAnd => 3
  | equality => 4
  | bitwise => 5
  | relational => 6
  | additive => 7
  | multiplicative => 8
  | unary => 9
  | step => 10
  | call => 11
  | index => 12
  | primary => 13

instance : LE Level := ⟨fun a b => a.rank ≤ b.rank⟩

instance : LT Level := ⟨fun a b => a.rank < b.rank⟩

instance (a b : Level) : Decidable (a ≤ b) := inferInstanceAs (Decidable (a.rank ≤ b.rank))

instance (a b : Level) : Decidable (a < b) := inferInstanceAs (Decidable (a.rank < b.rank))

def Above (level : Level) (power : Power) : Prop := power.rank < level.rank

instance (level : Level) (power : Power) : Decidable (level.Above power) :=
  inferInstanceAs (Decidable (power.rank < level.rank))

def ofBinary? : Kind → Option Level
  | .orOr => some logicalOr
  | .andAnd => some logicalAnd
  | .equal | .notEqual => some equality
  | .and | .or => some bitwise
  | .less | .lessEqual | .greater | .greaterEqual => some relational
  | .plus | .minus => some additive
  | .star | .slash | .percent => some multiplicative
  | _ => none

end Level

def assignmentKinds : List Kind :=
  [.assign, .plusAssign, .minusAssign, .starAssign, .slashAssign, .percentAssign]

inductive Derived where
  | tree (level : Level) (e : Expr)
  | list (first : Bool) (es : List Expr)
  | pairs (first : Bool) (pairs : List (Expr × Expr))

inductive Separator : Bool → List Token → Prop where
  | none : Separator true []
  | comma {token : Token} (kind : token.kind = .comma) : Separator false [token]

/-- The grammar by levels. Operators of one level associate to the left, assignment to the right,
and brackets of any kind open the lowest level again. -/
inductive Derives : List Token → Derived → Prop where
  | literal {token : Token} {make : Ty → Expr} {name : String} {type : Ty}
      (literal : Literal token make name) :
      Derives [token] (.tree .primary (make type))
  | name {token : Token} {type : Ty} (kind : token.kind = .identifier) :
      Derives [token] (.tree .primary (.name token.value type))
  | array {opener closer : Token} {tokens : List Token} {es : List Expr} {type : Ty}
      (opens : opener.kind = .openBracket) (elements : Derives tokens (.list true es))
      (closes : closer.kind = .closeBracket) :
      Derives (opener :: (tokens ++ [closer])) (.tree .primary (.array es type))
  | map {opener closer : Token} {tokens : List Token} {pairs : List (Expr × Expr)} {type : Ty}
      (opens : opener.kind = .openCurly) (entries : Derives tokens (.pairs true pairs))
      (closes : closer.kind = .closeCurly) :
      Derives (opener :: (tokens ++ [closer])) (.tree .primary (.map pairs type))
  | group {opener closer : Token} {tokens : List Token} {level : Level} {e : Expr}
      (opens : opener.kind = .openParen) (inner : Derives tokens (.tree level e))
      (closes : closer.kind = .closeParen) : Derives (opener :: (tokens ++ [closer]))
      (.tree .primary e)
  | call {callee opener closer : Token} {tokens : List Token} {args : List Expr} {results : List Ty}
      (named : callee.kind = .identifier) (opens : opener.kind = .openParen)
      (arguments : Derives tokens (.list true args)) (closes : closer.kind = .closeParen) :
      Derives (callee :: opener :: (tokens ++ [closer]))
        (.tree .call (.call callee.value args results))
  | index {opener closer : Token} {before inside : List Token} {level inner : Level}
      {target key : Expr} {type : Ty}
      (targetDerived : Derives before (.tree level target)) (tight : Level.call ≤ level)
      (opens : opener.kind = .openBracket) (keyDerived : Derives inside (.tree inner key))
      (closes : closer.kind = .closeBracket) :
      Derives (before ++ opener :: (inside ++ [closer])) (.tree .index (.index target key type))
  | step {operator : Token} {before : List Token} {level : Level} {operand : Expr} {type : Ty}
      (operandDerived : Derives before (.tree level operand)) (tight : Level.step ≤ level)
      (kind : operator.kind = .plusPlus ∨ operator.kind = .minusMinus) :
      Derives (before ++ [operator]) (.tree .step (.step operand operator.value type))
  | unary {operator : Token} {after : List Token} {level : Level} {operand : Expr} {type : Ty}
      (kind : operator.kind = .minus ∨ operator.kind = .not)
      (operandDerived : Derives after (.tree level operand))
      (tight : Level.unary ≤ level) :
      Derives (operator :: after) (.tree .unary (.unary operator.value operand type))
  | binary {operator : Token} {before after : List Token} {own leftLevel rightLevel : Level}
      {left right : Expr} {type : Ty} (kind : Level.ofBinary? operator.kind = some own)
      (leftDerived : Derives before (.tree leftLevel left)) (leftTight : own ≤ leftLevel)
      (rightDerived : Derives after (.tree rightLevel right)) (rightTight : own < rightLevel) :
      Derives (before ++ operator :: after) (.tree own (.binary left operator.value right type))
  | assign {operator : Token} {before after : List Token} {level : Level}
      {target : String} {value : Expr} {type own : Ty} (kind : operator.kind ∈ assignmentKinds)
      (targetDerived : Derives before (.tree .primary (.name target type)))
      (valueDerived : Derives after (.tree level value)) :
      Derives (before ++ operator :: after)
        (.tree .assignment (.assign target operator.value value own))
  | noItems {first : Bool} : Derives [] (.list first [])
  | item {first : Bool} {separator tokens rest : List Token} {level : Level} {e : Expr}
      {es : List Expr}
      (separated : Separator first separator) (value : Derives tokens (.tree level e))
      (others : Derives rest (.list false es)) : Derives (separator ++ tokens ++ rest)
      (.list first (e :: es))
  | noPairs {first : Bool} : Derives [] (.pairs first [])
  | pair {first : Bool} {separator keyTokens valueTokens rest : List Token} {colon : Token}
      {keyLevel valueLevel : Level} {key value : Expr} {pairs : List (Expr × Expr)}
      (separated : Separator first separator) (keyDerived : Derives keyTokens (.tree keyLevel key))
      (kind : colon.kind = .colon) (valueDerived : Derives valueTokens (.tree valueLevel value))
      (others : Derives rest (.pairs false pairs)) :
      Derives (separator ++ keyTokens ++ colon :: valueTokens ++ rest)
        (.pairs first ((key, value) :: pairs))

def Derived.settle (type : Ty) : Derived → Derived
  | .tree level e => .tree level (e.settle type)
  | .list first es => .list first (Expr.settleAll type es)
  | .pairs first entries => .pairs first (Expr.settleValues type entries)

theorem settle_of_literal {token : Token} {make : Ty → Expr} {name : String}
    (literal : Literal token make name) (own type : Ty) : (make own).settle type = make own := by
  cases literal <;> simp only [Expr.settle]

theorem Derives.settle {tokens : List Token} {derived : Derived} (derives : Derives tokens derived)
    (type : Ty) :
    Derives tokens (derived.settle type) := by
  induction derives generalizing type with
  | literal token =>
    rw [Derived.settle, settle_of_literal token]
    exact .literal token
  | name kind => exact .name kind
  | array opens elements closes ih =>
    simp only [Derived.settle, Expr.settle]
    split
    · exact .array opens elements closes
    · split
      · exact .array opens elements closes
      · exact .array opens (ih _) closes
      · exact .array opens elements closes
  | map opens entries closes ih =>
    simp only [Derived.settle, Expr.settle]
    split
    · exact .map opens entries closes
    · split
      · exact .map opens entries closes
      · exact .map opens (ih _) closes
      · exact .map opens entries closes
  | group opens _ closes ih => exact .group opens (ih type) closes
  | call named opens arguments closes => exact .call named opens arguments closes
  | index target tight opens key closes => exact .index target tight opens key closes
  | step operand tight kind => exact .step operand tight kind
  | unary kind operand tight => exact .unary kind operand tight
  | binary kind left leftTight right rightTight leftIh rightIh =>
    simp only [Derived.settle, Expr.settle]
    split
    · exact .binary kind left leftTight right rightTight
    · exact .binary kind (leftIh type) leftTight (rightIh type) rightTight
  | assign kind target value => exact .assign kind target value
  | noItems => exact .noItems
  | item separated _ _ value others => exact .item separated (value type) (others type)
  | noPairs => exact .noPairs
  | pair separated key kind _ _ _ value others =>
    exact .pair separated key kind (value type) (others type)

/-! Reading keeps to the grammar. Between two rounds of an expression the tree on the left is
derived at a level at which the operator that comes next can take it over; of the operators that
bind tighter than a step, only an index could follow one, and that is stopped by the type of the
step. -/

def Loose (s : Session) (power : Power) : Prop :=
  ∀ own continuation, s.grammar.continuation? s.kind = some (own, continuation) → own ≤ power

def Reached (power : Power) (level : Level) : Prop :=
  level.Above power ∨ level = .unary ∨ level = .call

/-- Whatever comes next and can be read at all takes the tree on its left as a whole. -/
def Fits (s : Session) (level : Level) (left : Expr) : Prop :=
  ∀ own continuation, s.grammar.continuation? s.kind = some (own, continuation) →
    own.rank ≤ level.rank ∨ Level.call ≤ level ∨ continuation = .call ∨
      continuation = .index ∧ ∀ type, left.types = [type] → type.isNumeric = true

def Phrase.Derived (s s' : Session) : Phrase → Prop
  | .expr power e => ∃ tokens level, s.ahead = tokens ++ s'.ahead ∧ Derives tokens (.tree level e) ∧
      Reached power level ∧ Loose s' power
  | .operand _ e => ∃ tokens level, s.ahead = tokens ++ s'.ahead ∧ Derives tokens (.tree level e) ∧
      Reached .index level ∧ Fits s' level e
  | .rest power left e => ∀ before level, Derives before (.tree level left) → Reached power level →
      Fits s level left → ∃ tokens level', s.ahead = tokens ++ s'.ahead ∧
        Derives (before ++ tokens) (.tree level' e) ∧ Reached power level' ∧ Loose s' power
  | .elements first _ es _ =>
    ∃ tokens, s.ahead = tokens ++ s'.ahead ∧ Derives tokens (.list first es)
  | .entries first _ pairs _ =>
    ∃ tokens, s.ahead = tokens ++ s'.ahead ∧ Derives tokens (.pairs first pairs)
  | .arguments first es => ∃ tokens, s.ahead = tokens ++ s'.ahead ∧ Derives tokens (.list first es)

theorem separator_of_separated {s s' : Session} {first : Bool}
    (separated : Session.Separated first s s') :
    ∃ tokens, Separator first tokens ∧ s.ahead = tokens ++ s'.ahead := by
  cases first with
  | true =>
    obtain rfl : s' = s := separated
    exact ⟨[], .none, rfl⟩
  | false =>
    obtain ⟨kind, rfl⟩ : s.kind = .comma ∧ s' = s.next := separated
    exact ⟨[s.current], .comma kind, ahead_of_kind (by simp [kind])⟩

theorem level_of_binary {grammar : Grammar} {kind : Kind} {own : Power}
    (continues : grammar.continuation? kind = some (own, .binary)) :
    ∃ level, Level.ofBinary? kind = some level ∧ level.rank = own.rank ∧
      own.rank < Level.unary.rank := by
  cases grammar with
  | bare => cases continues
  | standard =>
    cases kind <;> cases continues
    all_goals exact ⟨_, rfl, rfl, by decide⟩

theorem kind_of_step {grammar : Grammar} {kind : Kind} {own : Power}
    (continues : grammar.continuation? kind = some (own, .step)) :
    own = .step ∧ (kind = .plusPlus ∨ kind = .minusMinus) := by
  cases grammar with
  | bare => cases continues
  | standard =>
    cases kind <;> cases continues
    · exact ⟨rfl, .inl rfl⟩
    · exact ⟨rfl, .inr rfl⟩

theorem kind_of_assignment {grammar : Grammar} {kind : Kind} {own : Power}
    (continues : grammar.continuation? kind = some (own, .assignment)) :
    own = .assignment ∧ kind ∈ assignmentKinds := by
  cases grammar with
  | bare => cases continues
  | standard =>
    cases kind <;> cases continues
    all_goals exact ⟨rfl, by decide⟩

theorem power_of_index {grammar : Grammar} {kind : Kind} {own : Power}
    (continues : grammar.continuation? kind = some (own, .index)) : own = .index := by
  cases grammar with
  | bare => cases continues
  | standard =>
    cases kind <;> cases continues
    rfl

theorem rank_of_continues {grammar : Grammar} {kind : Kind} {own : Power}
    {continuation : Continuation}
    (continues : grammar.continuation? kind = some (own, continuation)) :
    own.rank ≤ Level.step.rank ∨ continuation = .call ∨ continuation = .index := by
  cases grammar with
  | bare => cases continues
  | standard =>
    cases kind <;> cases continues
    all_goals first | exact .inl (by decide) | exact .inr (.inl rfl) | exact .inr (.inr rfl)

/-- Nothing can be looked up in a number. -/
theorem not_numeric_of_index {target key type : Ty} {pool pool' : Ty.Pool}
    (typed : Typing.index target key pool = .ok type pool') : target.isNumeric = false := by
  cases target with
  | unknown | array | map => rfl
  | base gen name =>
    by_cases string : name = "string"
    · subst string
      rfl
    · simp only [Typing.index, if_neg string] at typed
      cases typed

theorem numeric_of_step {operator : String} {operand type : Ty}
    (typed : Typing.step operator operand = .ok type) :
    type.isNumeric = true := by
  simp only [Typing.step] at typed
  split at typed
  next numeric => exact Except.ok.inj typed ▸ numeric
  next => cases typed

theorem Reached.of_index {level : Level} (reached : Reached .index level) (power : Power) :
    Reached power level := by
  have most : power.rank ≤ Power.index.rank := by cases power <;> decide
  exact reached.imp_left (Nat.lt_of_le_of_lt most)

theorem Loose.fits {s : Session} {power : Power} {level : Level} {left : Expr}
    (loose : Loose s power) (tight : power.rank ≤ level.rank) : Fits s level left := by
  intro own continuation continues
  exact .inl (Nat.le_trans (loose own continuation continues) tight)

/-- An operator that does not need an operand of its own level finds one on its left. -/
theorem Fits.takes {s : Session} {level : Level} {left : Expr} {own : Power}
    {continuation : Continuation} (fits : Fits s level left)
    (continues : s.grammar.continuation? s.kind = some (own, continuation))
    (noCall : continuation ≠ .call) (noIndex : continuation ≠ .index)
    (low : own.rank ≤ Level.call.rank) :
    own.rank ≤ level.rank := by
  rcases fits own continuation continues with tight | tight | called | ⟨indexed, _⟩
  · exact tight
  · exact Nat.le_trans low tight
  · exact absurd called noCall
  · exact absurd indexed noIndex

theorem fits_of_call_le {s : Session} {level : Level} {left : Expr} (tight : Level.call ≤ level) :
    Fits s level left := by
  intro own continuation continues
  exact .inr (.inl tight)

theorem fits_of_step {s : Session} {operand : Expr} {operator : String} {type : Ty}
    (numeric : type.isNumeric = true) :
    Fits s .step (.step operand operator type) := by
  intro own continuation continues
  rcases rank_of_continues continues with low | called | indexed
  · exact .inl low
  · exact .inr (.inr (.inl called))
  · refine .inr (.inr (.inr ⟨indexed, ?_⟩))
    intro single same
    obtain rfl := List.singleton_inj.mp same
    exact numeric

/-- Arguments are derived from the same tokens after they were settled. -/
theorem Derives.fitted {pool pool' : Ty.Pool} {wanted : List Ty} {values : List (Expr × Ty)}
    {settled : List Expr} (fitted : Fitted pool wanted values settled pool') {tokens : List Token}
    {first : Bool}
    (derives : Derives tokens (.list first (values.map (·.1)))) :
    Derives tokens (.list first settled) := by
  induction fitted generalizing tokens first with
  | nil => exact derives
  | cons joined _ ih =>
    cases derives with
    | item separated value others => exact .item separated (value.settle _) (ih others)

theorem derives_combined {before after : List Token} {operator : Token}
    {own leftLevel rightLevel : Level} {left right : Expr} (type : Ty)
    (kind : Level.ofBinary? operator.kind = some own)
    (leftDerived : Derives before (.tree leftLevel left)) (leftTight : own ≤ leftLevel)
    (rightDerived : Derives after (.tree rightLevel right)) (rightTight : own < rightLevel) :
    Derives (before ++ operator :: after)
      (.tree own (combined left operator.value right type)) := by
  unfold combined
  split
  · exact .binary kind (leftDerived.settle type) leftTight (rightDerived.settle type) rightTight
  · exact .binary kind leftDerived leftTight rightDerived rightTight

theorem primary_of_derives_name {tokens : List Token} {level : Level} {name : String} {type : Ty}
    (derives : Derives tokens (.tree level (.name name type))) : level = .primary := by
  generalize same : Derived.tree level (.name name type) = derived at derives
  cases derives <;> simp only [Derived.tree.injEq, reduceCtorEq, and_false] at same
  all_goals exact same.1

theorem passed_trans {s s₁ s' : Session} {tokens tokens' : List Token}
    (passed : s.ahead = tokens ++ s₁.ahead) (passed' : s₁.ahead = tokens' ++ s'.ahead) :
    s.ahead = (tokens ++ tokens') ++ s'.ahead := by
  rw [passed, passed', List.append_assoc]

theorem passed_next {s s' : Session} {kind : Kind} {tokens : List Token} (is : s.kind = kind)
    (holds : inSentence kind = true) (passed : s.next.ahead = tokens ++ s'.ahead) :
    s.ahead = (s.current :: tokens) ++ s'.ahead := by
  rw [ahead_of_kind (is ▸ (inSentence_iff.mp holds).1), passed, List.cons_append]

theorem passed_closed {s s₁ : Session} {kind : Kind} {tokens : List Token}
    (passed : s.ahead = tokens ++ s₁.ahead) (is : s₁.kind = kind) (holds : inSentence kind = true) :
    s.ahead = (tokens ++ [s₁.current]) ++ s₁.next.ahead :=
  passed_trans passed (ahead_of_kind (is ▸ (inSentence_iff.mp holds).1))

section
variable {s s₁ s' : Session} {e left right key value : Expr} {es : List Expr} {power own : Power}
    {type : Ty}

/-! Operands. -/

theorem derived_primary {opening : Opening} {tokens : List Token}
    (passed : s.ahead = tokens ++ s'.ahead) (derives : Derives tokens (.tree .primary e)) :
    (Phrase.operand opening e).Derived s s' :=
  ⟨tokens, .primary, passed, derives, .inl (by decide), fits_of_call_le (by decide)⟩

theorem derived_call {results : List Ty} {tokens : List Token} (kind : s.kind = .identifier)
    (call : s.next.kind = .openParen) (closes : s₁.kind = .closeParen)
    (passed : s.next.next.ahead = tokens ++ s₁.ahead) (derives : Derives tokens (.list true es)) :
    (Phrase.operand .name (.call s.current.value es results)).Derived s s₁.next := by
  have closed := passed_next kind rfl (passed_next call rfl (passed_closed passed closes rfl))
  exact ⟨_, .call, closed, .call kind call derives closes, .inr (.inr rfl),
    fits_of_call_le (by decide)⟩

theorem derived_unary (kind : s.kind = .minus ∨ s.kind = .not)
    (operand : (Phrase.expr .unary e).Derived s.next s') :
    (Phrase.operand .unary (.unary s.current.value e type)).Derived s s' := by
  obtain ⟨tokens, level, passed, derives, reached, loose⟩ := operand
  have tight : Level.unary ≤ level := by
    rcases reached with above | rfl | rfl
    · exact Nat.le_of_lt above
    · decide
    · decide
  have passed' := kind.elim (passed_next · rfl passed) (passed_next · rfl passed)
  exact ⟨_, .unary, passed', .unary kind derives tight, .inr (.inl rfl), loose.fits (by decide)⟩

/-! What goes on behind an operand: what has been derived up to the next operator is taken over by
it. -/

theorem derived_rest {more : Expr} {before tokens : List Token} {own : Level}
    (passed : s.ahead = tokens ++ s₁.ahead) (derives : Derives (before ++ tokens) (.tree own more))
    (above : own.Above power) (fits : Fits s₁ own more)
    (rest : (Phrase.rest power more e).Derived s₁ s') :
    ∃ tokens level, s.ahead = tokens ++ s'.ahead ∧ Derives (before ++ tokens) (.tree level e) ∧
      Reached power level ∧ Loose s' power := by
  obtain ⟨others, level, passed', derives', reached, loose⟩ := rest _ own derives (.inl above) fits
  exact ⟨tokens ++ others, level, passed_trans passed passed', by
    rwa [← List.append_assoc], reached, loose⟩

theorem derived_binary (operator : s.grammar.continuation? s.kind = some (own, .binary))
    (tight : ¬own ≤ power) (operand : (Phrase.expr own right).Derived s.next s₁)
    (rest : (Phrase.rest power (combined left s.current.value right type) e).Derived s₁ s') :
    (Phrase.rest power left e).Derived s s' := by
  intro before level derives reached fits
  obtain ⟨operatorLevel, ofKind, same, low⟩ := level_of_binary operator
  obtain ⟨after, rightLevel, passed, rightDerives, rightReached, loose⟩ := operand
  have leftTight : operatorLevel.rank ≤ level.rank := by
    rw [same]
    exact fits.takes operator (by decide) (by decide) (Nat.le_of_lt (Nat.lt_trans low (by decide)))
  have rightTight : operatorLevel.rank < rightLevel.rank := by
    rw [same]
    rcases rightReached with above | rfl | rfl
    · exact above
    · exact low
    · exact Nat.lt_trans low (by decide)
  have above : power.rank < operatorLevel.rank := by
    rw [same]
    exact Nat.lt_of_not_le tight
  exact derived_rest (passed_next rfl (kind_of_continues operator) passed)
    (derives_combined type ofKind derives leftTight rightDerives rightTight) above
    (loose.fits (Nat.le_of_eq same.symm)) rest

theorem derived_step {leftType : Ty} (operator : s.grammar.continuation? s.kind = some (own, .step))
    (tight : ¬own ≤ power) (typed : Typing.step s.current.value leftType = .ok type)
    (rest : (Phrase.rest power (.step left s.current.value type) e).Derived s.next s') :
    (Phrase.rest power left e).Derived s s' := by
  intro before level derives reached fits
  have passed : s.ahead = [s.current] ++ s.next.ahead :=
    passed_next rfl (kind_of_continues operator) rfl
  obtain ⟨rfl, kind⟩ := kind_of_step operator
  have leftTight := fits.takes operator (by decide) (by decide) (by decide)
  exact derived_rest passed (.step derives leftTight kind) (Nat.lt_of_not_le tight)
    (fits_of_step (numeric_of_step typed)) rest

theorem derived_assign {target : String} {both : Ty}
    (operator : s.grammar.continuation? s.kind = some (own, .assignment)) (tight : ¬own ≤ power)
    (given : (Phrase.expr .lowest value).Derived s.next s₁)
    (rest : (Phrase.rest power
      (.assign target s.current.value (value.settle both) type) e).Derived s₁ s') :
    (Phrase.rest power (.name target type) e).Derived s s' := by
  intro before level derives reached fits
  obtain ⟨after, valueLevel, passed, valueDerives, _, loose⟩ := given
  have passed' := passed_next rfl (kind_of_continues operator) passed
  obtain ⟨rfl, kind⟩ := kind_of_assignment operator
  obtain rfl := primary_of_derives_name derives
  exact derived_rest passed' (.assign kind derives (valueDerives.settle both))
    (Nat.lt_of_not_le tight)
    (loose.fits (by decide)) rest

theorem derived_index {leftType keyType : Ty} {pool pool' : Ty.Pool}
    (operator : s.grammar.continuation? s.kind = some (own, .index)) (tight : ¬own ≤ power)
    (opens : s.kind = .openBracket) (closes : s₁.kind = .closeBracket)
    (leftSingle : left.types = [leftType])
    (typed : Typing.index leftType keyType pool = .ok type pool')
    (inner : (Phrase.expr .lowest key).Derived s.next s₁)
    (rest : (Phrase.rest power (.index left key type) e).Derived s₁.next s') :
    (Phrase.rest power left e).Derived s s' := by
  intro before level derives reached fits
  obtain rfl := power_of_index operator
  obtain ⟨inside, keyLevel, passed, keyDerives, _, _⟩ := inner
  have callTight : Level.call ≤ level := by
    rcases fits _ _ operator with tight | tight | called | ⟨_, numeric⟩
    · exact Nat.le_of_succ_le tight
    · exact tight
    · cases called
    · exact absurd (numeric _ leftSingle) (by simp [not_numeric_of_index typed])
  exact derived_rest (passed_next opens rfl (passed_closed passed closes rfl))
    (.index derives callTight opens keyDerives closes) (Nat.lt_of_not_le tight)
    (fits_of_call_le (by decide)) rest

/-! Lists. -/

theorem derived_item {s₂ : Session} {first : Bool} (separated : Session.Separated first s s₁)
    (value : (Phrase.expr .lowest e).Derived s₁ s₂)
    (rest : ∃ tokens, s₂.ahead = tokens ++ s'.ahead ∧ Derives tokens (.list false es)) :
    ∃ tokens, s.ahead = tokens ++ s'.ahead ∧ Derives tokens (.list first (e :: es)) := by
  obtain ⟨separator, between, passed⟩ := separator_of_separated separated
  obtain ⟨tokens, level, passed', derives, _, _⟩ := value
  obtain ⟨others, passed'', derives'⟩ := rest
  exact ⟨_, passed_trans (passed_trans passed passed') passed'', .item between derives derives'⟩

theorem derived_entry {s₂ s₃ : Session} {first : Bool} {pairs : List (Expr × Expr)}
    (separated : Session.Separated first s s₁) (colon : s₂.kind = .colon)
    (keyDerived : (Phrase.expr .lowest key).Derived s₁ s₂)
    (valueDerived : (Phrase.expr .lowest value).Derived s₂.next s₃)
    (rest : ∃ tokens, s₃.ahead = tokens ++ s'.ahead ∧ Derives tokens (.pairs false pairs)) :
    ∃ tokens, s.ahead = tokens ++ s'.ahead ∧
      Derives tokens (.pairs first ((key, value) :: pairs)) := by
  obtain ⟨separator, between, passed⟩ := separator_of_separated separated
  obtain ⟨keyTokens, keyLevel, keyPassed, keyDerives, _, _⟩ := keyDerived
  obtain ⟨valueTokens, valueLevel, valuePassed, valueDerives, _, _⟩ := valueDerived
  obtain ⟨others, passed', derives'⟩ := rest
  have pair := passed_trans (passed_trans passed keyPassed) (passed_next colon rfl valuePassed)
  exact ⟨_, passed_trans pair passed', .pair between keyDerives colon valueDerives derives'⟩

end

theorem reads_derived {s s' : Session} {phrase : Phrase} (reads : Reads s phrase s') :
    phrase.Derived s s' := by
  induction reads with
  | expr opens _ _ operand rest =>
    -- What goes on takes the operand for its left one, whatever tokens that was derived from.
    obtain ⟨tokens, level, passed, derives, reached, fits⟩ := operand
    obtain ⟨tokens', level', passed', derives', reached', loose⟩ :=
      rest tokens level derives (reached.of_index _) fits
    exact ⟨_, level', passed_trans passed passed', derives', reached', loose⟩
  | literal token => exact derived_primary (passed_next rfl token.kind rfl) (.literal token)
  | name kind => exact derived_primary (passed_next kind rfl rfl) (.name kind)
  | builtinCall kind call _ _ _ closes _ _ arguments =>
    obtain ⟨tokens, passed, derives⟩ := arguments
    exact derived_call kind call closes passed derives
  | call kind call _ _ _ closes singles _ fitted arguments =>
    obtain ⟨tokens, passed, derives⟩ := arguments
    rw [← List.map_fst_zip (Nat.le_of_eq singles.length_eq)] at derives
    exact derived_call kind call closes passed (derives.fitted fitted)
  | array opens _ closes elements =>
    obtain ⟨tokens, passed, derives⟩ := elements
    exact derived_primary (passed_next opens rfl (passed_closed passed closes rfl))
      (.array opens (derives.settle _) closes)
  | map opens _ closes entries =>
    obtain ⟨tokens, passed, derives⟩ := entries
    exact derived_primary (passed_next opens rfl (passed_closed passed closes rfl))
      (.map opens (derives.settle _) closes)
  | group opens _ closes inner =>
    obtain ⟨tokens, level, passed, derives, _, _⟩ := inner
    exact derived_primary (passed_next opens rfl (passed_closed passed closes rfl))
      (.group opens derives closes)
  | unary kind _ _ _ operand => exact derived_unary kind operand
  | stop loose =>
    intro before level derives reached fits
    exact ⟨[], level, rfl, by simpa using derives, reached, loose⟩
  | binary operator tight _ _ _ _ _ operand rest => exact derived_binary operator tight operand rest
  | step operator tight _ typed _ rest => exact derived_step operator tight typed rest
  | assign operator tight _ _ _ _ _ given rest => exact derived_assign operator tight given rest
  | index operator tight opens _ closes leftSingle _ typed _ inner rest =>
    exact derived_index operator tight opens closes leftSingle typed inner rest
  | noElements | noEntries | noArguments => exact ⟨[], rfl, by constructor⟩
  | element _ separated _ _ _ _ value rest => exact derived_item separated value rest
  | entry _ separated _ _ colon _ _ _ _ _ _ key value rest =>
    exact derived_entry separated colon key value rest
  | argument _ separated _ _ value rest => exact derived_item separated value rest

/-- Reading at a power gives a tree derived from exactly the tokens that were passed, at a level
above the power or as an operand by its own right, and stops only before what binds no tighter. -/
theorem derives_of_expression {s s' : Session} {power : Power} {e : Expr}
    (run : expression power s = .ok e s') :
    ∃ tokens level, s.ahead = tokens ++ s'.ahead ∧ Derives tokens (.tree level e) ∧
      (level.Above power ∨ level = .unary ∨ level = .call) ∧
      (s'.kind = .semicolon ∨ s'.grammar.continuation? s'.kind = none ∨
        ∃ own continuation, s'.grammar.continuation? s'.kind = some (own, continuation) ∧
        own ≤ power) := by
  obtain ⟨tokens, level, passed, derives, reached, loose⟩ := reads_derived (ok_expression.mp run)
  refine ⟨tokens, level, passed, derives, reached, .inr ?_⟩
  cases continues : s'.grammar.continuation? s'.kind with
  | none => exact .inl rfl
  | some pair => exact .inr ⟨pair.1, pair.2, rfl, loose _ _ continues⟩

def beforeText (source : String) : Session :=
  .ofTokens ((Token.ofSource source "").toOption.getD []) "" true .standard

/-- Operators of six levels, a group and a negation. -/
theorem derives_of_expression_chain :
    let s := beforeText "1 + 2 * -3 - (4 | 5) % 6 < 7 == true && false || 8 >= 9;"
    ∃ e s', expression .lowest s = .ok e s' ∧ s'.kind = .semicolon ∧
      ∃ tokens level, s.ahead = tokens ++ s'.ahead ∧ Derives tokens (.tree level e) ∧
        (level.Above .lowest ∨ level = .unary ∨ level = .call) ∧
        (s'.kind = .semicolon ∨ s'.grammar.continuation? s'.kind = none ∨
          ∃ own continuation, s'.grammar.continuation? s'.kind = some (own, continuation) ∧
          own ≤ .lowest) := by
  intro s
  have reads : (match expression .lowest s with
      | .ok _ s' => s'.kind = .semicolon
      | .error .. => false) = true := by decide +kernel
  split at reads
  next e s' run => exact ⟨e, s', run, by simpa using reads, derives_of_expression run⟩
  next => cases reads

theorem eq_current_of_head {s : Session} {tokens rest : List Token}
    (passed : s.ahead = tokens ++ rest) {token : Token} (head : token ∈ tokens.head?) :
    token = s.current := by
  cases tokens with
  | nil => cases head
  | cons first tokens =>
    obtain rfl : first = token := Option.some.inj head
    show first = s.ahead.headD s.cursor.closing.token
    rw [passed]
    rfl

theorem level_of_derives_unary {tokens : List Token} {level : Level} {operator : String}
    {operand : Expr} {type : Ty} (bare : ∀ token ∈ tokens.head?, token.kind ≠ .openParen)
    (derives : Derives tokens (.tree level (.unary operator operand type))) : level = .unary := by
  generalize same : Derived.tree level (.unary operator operand type) = derived at derives
  cases derives <;> simp only [Derived.tree.injEq, reduceCtorEq, and_false] at same
  case literal literal => cases literal <;> cases same.2
  case group opens _ _ => exact absurd opens (bare _ rfl)
  case unary => exact same.1

theorem level_of_derives_call {tokens : List Token} {level : Level} {callee : String}
    {args : List Expr} {results : List Ty} (bare : ∀ token ∈ tokens.head?, token.kind ≠ .openParen)
    (derives : Derives tokens (.tree level (.call callee args results))) : level = .call := by
  generalize same : Derived.tree level (.call callee args results) = derived at derives
  cases derives <;> simp only [Derived.tree.injEq, reduceCtorEq, and_false] at same
  case literal literal => cases literal <;> cases same.2
  case group opens _ _ => exact absurd opens (bare _ rfl)
  case call => exact same.1

/-- Operands stay below the power at which they are read: a negation at the power of negations, and
a call at that of calls. -/
theorem operand_not_above_power :
    (∃ e s', expression .unary (beforeText "-1;") = .ok e s' ∧ ¬∃ tokens level,
      (beforeText "-1;").ahead = tokens ++ s'.ahead ∧ Derives tokens (.tree level e) ∧
      level.Above .unary) ∧
    ∃ e s', expression .call (beforeText "scan();") = .ok e s' ∧ ¬∃ tokens level,
      (beforeText "scan();").ahead = tokens ++ s'.ahead ∧ Derives tokens (.tree level e) ∧
      level.Above .call := by
  refine ⟨⟨.unary "-" (.integer 1 (.base 0 "int")) (.base 0 "int"), _, rfl, ?_⟩,
    ⟨.call "scan" [] [.base 0 "string"], _, rfl, ?_⟩⟩
  · rintro ⟨tokens, level, passed, derives, above⟩
    have bare : ∀ token ∈ tokens.head?, token.kind ≠ .openParen := by
      intro token head
      rw [eq_current_of_head passed head]
      decide
    obtain rfl := level_of_derives_unary bare derives
    exact absurd above (by decide)
  · rintro ⟨tokens, level, passed, derives, above⟩
    have bare : ∀ token ∈ tokens.head?, token.kind ≠ .openParen := by
      intro token head
      rw [eq_current_of_head passed head]
      decide
    obtain rfl := level_of_derives_call bare derives
    exact absurd above (by decide)

end ColonScript.Reading
