import ColonScript.Proofs.Printing.Chunks
import ColonScript.Proofs.Reading.Facing

/-! The tokens of an expression that has been read are read as that expression. What is read again
is an expression as an operand, in front of anything but the parenthesis of a call, and an
expression as a whole, in front of anything that goes on with no expression; from the two for its
parts they follow for the whole. -/

namespace ColonScript.Reading
open Token (Kind)
open Ty Typing
open ColonScript.Expr (operandTokens tokensOf tokensOfPairs)
open Spelling (parens brackets curlies listed)

variable {scopes : ScopeStack} {s s' t t' : Session} {phrase : Phrase} {more tokens : List Spelling}

/-- The tokens are ahead, and the names in scope are these. -/
structure Ready (scopes : ScopeStack) (ahead : List Spelling) (t : Session) : Prop where
  standard : t.grammar = .standard
  scopes : t.scopes = scopes
  faithful : t.pool.Faithful
  facing : t.facing = ahead

namespace Ready
variable {first : Spelling}

theorem kind_eq (ready : Ready scopes more t) : t.kind = leadKind more :=
  kind_of_facing ready.facing

theorem kind (ready : Ready scopes (first :: more) t) : t.kind = first.1 :=
  (Session.faces ready.facing).kind

theorem value (ready : Ready scopes (first :: more) t) : t.current.value = first.2 :=
  (Session.faces ready.facing).value

theorem next (ready : Ready scopes (first :: more) t) : Ready scopes more t.next :=
  ⟨ready.standard, ready.scopes, ready.faithful, (Session.faces ready.facing).next⟩

theorem withPool {pool : Pool} (ready : Ready scopes more t) (faithful : pool.Faithful) :
    Ready scopes more (t.withPool pool) := ⟨ready.standard, ready.scopes, faithful, ready.facing⟩

theorem opening (ready : Ready scopes (first :: more) t) :
    t.grammar.opening? t.kind = Grammar.standard.opening? first.1 := by
  rw [ready.standard, ready.kind]

theorem continuation (ready : Ready scopes (first :: more) t) :
    t.grammar.continuation? t.kind = Grammar.standard.continuation? first.1 := by
  rw [ready.standard, ready.kind]

end Ready

def Stops (more : List Spelling) : Prop := Grammar.standard.continuation? (leadKind more) = none

theorem Stops.no_call (stops : Stops more) : leadKind more ≠ .openParen := by
  intro called
  rw [Stops, called] at stops
  cases stops

theorem stops_of_lead {kind : Kind} (lead : leadKind more = kind)
    (loose : Grammar.standard.continuation? kind = none) : Stops more := by
  rw [Stops, lead, loose]

theorem Ready.stop {power : Power} {e : Expr} (ready : Ready scopes more t) (stops : Stops more) :
    Reads t (.rest power e e) t := by
  refine .stop fun own continuation continues => ?_
  rw [ready.standard, ready.kind_eq, stops] at continues
  cases continues

/-- Wherever the tokens stand in front of what ends the phrase, the phrase is read from them. -/
def ReadFrom (scopes : ScopeStack) (tokens : List Spelling) (ends : List Spelling → Prop)
    (phrase : Phrase) : Prop :=
  ∀ ⦃more t⦄, Ready scopes (tokens ++ more) t → ends more → ∃ t', Ready scopes more t' ∧
    Reads t phrase t'

/-- What is read as an operand is an expression where nothing goes on with it. -/
theorem ReadFrom.expr {first : Spelling} {opening : Opening} {e : Expr}
    (reads : ReadFrom scopes (first :: tokens) Stops (.operand opening e))
    (opens : Grammar.standard.opening? first.1 = some opening) (power : Power) :
    ReadFrom scopes (first :: tokens) Stops (.expr power e) := by
  intro more t ready stops
  obtain ⟨t', after, read⟩ := reads ready stops
  exact ⟨t', after, .expr (ready.opening.trans opens) read (after.stop stops)⟩

def Operand (scopes : ScopeStack) (e : Expr) : Prop :=
  ∀ ⦃more t⦄, Ready scopes (operandTokens e e.tokens ++ more) t → leadKind more ≠ .openParen →
    ∃ t', Ready scopes more t' ∧ ∀ ⦃power final t''⦄, power < .index →
    Reads t' (.rest power e final) t'' →
      Reads t (.expr power final) t''

/-- The expression is read from its tokens, and an operation from the parentheses around it. -/
structure Rereads (scopes : ScopeStack) (e : Expr) : Prop where
  operand : Operand scopes e
  whole : ReadFrom scopes e.tokens Stops (.expr .lowest e)
  group : e.isOperation = true → ReadFrom scopes e.tokens (fun _ => True) (.operand .group e)

/-! From the operand to the whole. -/

theorem Operand.whole {e : Expr} (operand : Operand scopes e)
    (plain : operandTokens e e.tokens = e.tokens) :
    ReadFrom scopes e.tokens Stops (.expr .lowest e) := by
  intro more t ready stops
  rw [← plain] at ready
  obtain ⟨t', after, goes⟩ := operand ready stops.no_call
  exact ⟨t', after, goes (by decide) (after.stop stops)⟩

theorem Operand.rereads {e : Expr} (operand : Operand scopes e)
    (plain : operandTokens e e.tokens = e.tokens) (other : e.isOperation = false) :
    Rereads scopes e := by
  refine ⟨operand, operand.whole plain, fun operation => ?_⟩
  rw [other] at operation
  cases operation

theorem Operand.of_opening {e : Expr} {opening : Opening} {first : Spelling} {rest : List Spelling}
    (written : operandTokens e e.tokens = first :: rest)
    (opens : Grammar.standard.opening? first.1 = some opening)
    (reads : ReadFrom scopes (first :: rest) (leadKind · ≠ .openParen) (.operand opening e)) :
    Operand scopes e := by
  intro more t ready noCall
  rw [written] at ready
  obtain ⟨t', after, read⟩ := reads ready noCall
  exact ⟨t', after, fun _ _ _ _ rest => .expr (ready.opening.trans opens) read rest⟩

theorem ReadFrom.group {e : Expr} {ends : List Spelling → Prop}
    (reads : ReadFrom scopes tokens (leadKind · = .closeParen) (.expr .lowest e)) :
    ReadFrom scopes (parens tokens) ends (.operand .group e) := by
  intro more t ready _
  have inside : Ready scopes (tokens ++ (.closeParen, ")") :: more) t.next := by
    simpa using ready.next
  obtain ⟨t', after, read⟩ := reads inside rfl
  exact ⟨t'.next, after.next, .group ready.kind read after.kind⟩

/-- An expression in parentheses is an operand. -/
theorem Operand.of_parens {e : Expr} {inner : List Spelling}
    (written : operandTokens e e.tokens = parens inner)
    (reads : ReadFrom scopes inner (leadKind · = .closeParen) (.expr .lowest e)) :
    Operand scopes e :=
  .of_opening written rfl reads.group

theorem Rereads.of_parens {e : Expr} {inner : List Spelling} (written : e.tokens = parens inner)
    (plain : operandTokens e e.tokens = e.tokens)
    (reads : ReadFrom scopes inner (leadKind · = .closeParen) (.expr .lowest e)) :
    Rereads scopes e := by
  have operand : Operand scopes e := .of_parens (plain.trans written) reads
  exact ⟨operand, operand.whole plain, fun _ => written ▸ reads.group⟩

/-! Operators. -/

theorem tight_of_continues {kind : Kind} {own : Power} {continuation : Continuation}
    (continues : Grammar.standard.continuation? kind = some (own, continuation)) :
    ¬own ≤ .lowest := by
  cases kind <;> cases continues <;> decide

theorem below_of_binary {kind : Kind} {own : Power}
    (continues : Grammar.standard.continuation? kind = some (own, .binary)) : own < .index := by
  cases kind <;> cases continues <;> decide

theorem no_call_of_continues {kind : Kind} {own : Power} {continuation : Continuation}
    (continues : Grammar.standard.continuation? kind = some (own, continuation))
    (other : continuation ≠ .call) :
    kind ≠ .openParen := by
  rintro rfl
  cases continues
  exact other rfl

section Operators
variable {left right e : Expr} {operator : String} {kind : Kind} {own : Power}
    {leftType rightType type : Ty}

theorem tokens_combined_plain : operandTokens (combined left operator right type)
    (combined left operator right type).tokens = (combined left operator right type).tokens := by
  unfold combined
  split
  · rfl
  · rfl

theorem tokens_combined : (combined left operator right type).tokens =
    parens (operandTokens left left.tokens ++
      Spelling.mark operator :: operandTokens right right.tokens) := by
  unfold combined
  split
  · simp only [Expr.tokens, Expr.operandTokens_settle, Expr.tokens_settle]
  · rfl

theorem Rereads.binary (first : Rereads scopes left) (second : Rereads scopes right)
    (mark : Spelling.mark operator = (kind, operator))
    (continues : Grammar.standard.continuation? kind = some (own, .binary))
    (leftSingle : left.types = [leftType])
    (rightSingle : right.types = [rightType])
    (typed : Anywhere (Typing.binary operator leftType rightType) type) :
    Rereads scopes (combined left operator right type) := by
  have tight := tight_of_continues continues
  have noCall := no_call_of_continues continues nofun
  refine .of_parens tokens_combined tokens_combined_plain fun more t ready closes => ?_
  have stops := stops_of_lead closes rfl
  rw [mark, List.append_assoc, List.cons_append] at ready
  obtain ⟨t₁, ready₁, goes⟩ := first.operand ready noCall
  obtain ⟨t₂, ready₂, goes'⟩ := second.operand ready₁.next stops.no_call
  obtain ⟨pool, typed', faithful⟩ := typed ready₂.faithful
  have after := ready₂.withPool faithful
  refine ⟨t₂.withPool pool, after, goes (by decide) ?_⟩
  have value : t₁.current.value = operator := ready₁.value
  rw [← value] at typed' ⊢
  have operand := goes' (below_of_binary continues) (ready₂.stop stops)
  exact .binary (ready₁.continuation.trans continues) tight operand leftSingle rightSingle typed'
    (after.stop stops)

theorem Rereads.step (inner : Rereads scopes e) (mark : Spelling.mark operator = (kind, operator))
    (continues : Grammar.standard.continuation? kind = some (own, .step))
    (single : e.types = [leftType])
    (typed : Typing.step operator leftType = .ok type) :
    Rereads scopes (.step e operator type) := by
  have tight := tight_of_continues continues
  have noCall := no_call_of_continues continues nofun
  refine .of_parens rfl rfl fun more t ready closes => ?_
  have stops := stops_of_lead closes rfl
  rw [mark, List.append_assoc, List.singleton_append] at ready
  obtain ⟨t₁, ready₁, goes⟩ := inner.operand ready noCall
  refine ⟨t₁.next, ready₁.next, goes (by decide) ?_⟩
  have value : t₁.current.value = operator := ready₁.value
  rw [← value] at typed ⊢
  exact .step (ready₁.continuation.trans continues) tight single typed (ready₁.next.stop stops)

theorem Rereads.unary (inner : Rereads scopes e) (mark : Spelling.mark operator = (kind, operator))
    (is : kind = .minus ∨ kind = .not) (single : e.types = [leftType])
    (typed : Typing.unary operator leftType = .ok type) :
    Rereads scopes (.unary operator e type) := by
  refine .of_parens rfl rfl fun more t ready closes => ?_
  have stops := stops_of_lead closes rfl
  rw [mark, List.cons_append] at ready
  obtain ⟨t', after, goes⟩ := inner.operand ready.next stops.no_call
  have opens : Grammar.standard.opening? kind = some .unary := by rcases is with rfl | rfl <;> rfl
  refine ⟨t', after, ?_⟩
  have value : t.current.value = operator := ready.value
  have operand : Reads t.next (.expr .unary e) t' := goes (by decide) (after.stop stops)
  rw [← value] at typed ⊢
  refine .expr (ready.opening.trans opens) (.unary ?_ operand single typed) (after.stop stops)
  exact is.imp ready.kind.trans ready.kind.trans

theorem Rereads.assign {target : String} {both valueType : Ty} {value : Expr}
    (left : Rereads scopes (.name target type)) (inner : Rereads scopes value)
    (mark : Spelling.mark operator = (kind, operator))
    (continues : Grammar.standard.continuation? kind = some (own, .assignment))
    (mutable : scopes.isConstant target = false) (single : value.types = [valueType])
    (typed : Anywhere (Typing.assignment target operator type valueType) both) :
    Rereads scopes (.assign target operator (value.settle both) type) := by
  have tight := tight_of_continues continues
  have noCall := no_call_of_continues continues nofun
  have whole : ReadFrom scopes (Expr.assign target operator (value.settle both) type).tokens Stops
      (.expr .lowest (.assign target operator (value.settle both) type)) := by
    intro more t ready stops
    rw [Expr.tokens, Expr.tokens_settle, mark] at ready
    obtain ⟨t₁, ready₁, goes⟩ := left.operand ready noCall
    obtain ⟨t₂, ready₂, given⟩ := inner.whole ready₁.next stops
    obtain ⟨pool, typed', faithful⟩ := typed ready₂.faithful
    have after := ready₂.withPool faithful
    refine ⟨t₂.withPool pool, after, goes (by decide) ?_⟩
    have value : t₁.current.value = operator := ready₁.value
    rw [← value] at typed' ⊢
    have free : t₁.scopes.isConstant target = false := by rwa [ready₁.scopes]
    exact .assign (ready₁.continuation.trans continues) tight free given single typed'
      (after.stop stops)
  exact ⟨.of_parens rfl fun more t ready closes => whole ready (stops_of_lead closes rfl), whole,
    fun operation => absurd operation Bool.false_ne_true⟩

theorem Rereads.index {key : Expr} (first : Rereads scopes left) (second : Rereads scopes key)
    (leftSingle : left.types = [leftType]) (keySingle : key.types = [rightType])
    (typed : Anywhere (Typing.index leftType rightType) type) :
    Rereads scopes (.index left key type) := by
  refine Operand.rereads (fun more t ready noCall => ?_) rfl rfl
  have opened : Ready scopes (operandTokens left left.tokens ++
      (.openBracket, "[") :: (key.tokens ++ (.closeBracket, "]") :: more)) t := by
    simpa [operandTokens, Expr.tokens, brackets] using ready
  obtain ⟨t₁, ready₁, goes⟩ := first.operand opened (by simp [leadKind])
  obtain ⟨t₂, ready₂, inner⟩ := second.whole ready₁.next rfl
  obtain ⟨pool, typed', faithful⟩ := typed ready₂.faithful
  refine ⟨t₂.next.withPool pool, ready₂.next.withPool faithful,
    fun power final t'' below rest => ?_⟩
  refine goes below (.index ready₁.continuation ?_ ready₁.kind inner ready₂.kind leftSingle
    keySingle typed' rest)
  exact Nat.not_le_of_lt below

end Operators

/-! Names and literals. -/

theorem rereads_name {own : String} {binding : Binding}
    (bound : scopes.binding? own = some binding) :
    Rereads scopes (.name own binding.type) := by
  refine (Operand.of_opening rfl rfl fun more t ready noCall => ?_).rereads rfl rfl
  have value : t.current.value = own := ready.value
  refine ⟨t.next, ready.next, ?_⟩
  rw [← value] at bound ⊢
  rw [← ready.scopes] at bound
  exact .name ready.kind (by rw [ready.next.kind_eq]; exact noCall) bound

/-- A literal is one token, which stands for that literal. -/
theorem exists_spelling {token : Token} {make : Ty → Expr} {name : String} {type : Ty}
    (literal : Literal token make name) (carries : Token.Carries token.value token.kind)
    (finite : (make type).Finite) :
    ∃ spelling : Spelling, operandTokens (make type) (make type).tokens = [spelling] ∧
      (make type).tokens = [spelling] ∧ Grammar.standard.opening? spelling.1 = some .literal ∧
      ∀ token' : Token, token'.kind = spelling.1 → token'.value = spelling.2 →
      Literal token' make name := by
  cases literal with
  | @integer value kind read =>
    rw [kind] at carries
    have again := Decimal.integer?_toString (Decimal.isLiteral_of_integer? carries read)
    refine ⟨(.integer, toString value), rfl, rfl, rfl, fun token' kind' same => .integer kind' ?_⟩
    rw [same]
    exact again
  | @float value kind read =>
    rw [kind] at carries
    rcases Decimal.Binary64.read?_cases carries read with rfl | ⟨m, k, rfl, canonical⟩
    · cases Expr.Finite.float.mp finite
    · have again := (Decimal.Binary64.writes_text canonical).2
      refine ⟨(.float, _), rfl, rfl, rfl, fun token' kind' same => .float kind' ?_⟩
      rw [same, String.toList_ofList]
      exact again
  | bool kind =>
    refine ⟨(.bool, if decide (token.value = "true") then "true" else "false"), rfl, rfl, rfl, ?_⟩
    intro token' kind' same
    have again : decide (token.value = "true") = decide (token'.value = "true") := by
      rw [same]
      by_cases is : token.value = "true" <;> simp [is]
    rw [again]
    exact .bool kind'
  | string kind =>
    refine ⟨(.string, token.value), rfl, rfl, rfl, fun token' kind' same => ?_⟩
    have same : token'.value = token.value := same
    rw [← same]
    exact .string kind'
  | char kind =>
    refine ⟨(.char, token.value), rfl, rfl, rfl, fun token' kind' same => ?_⟩
    have same : token'.value = token.value := same
    rw [← same]
    exact .char kind'

theorem rereads_literal {token : Token} {make : Ty → Expr} {name : String}
    (literal : Literal token make name) (member : name ∈ baseNames)
    (carries : Token.Carries token.value token.kind) (finite : (make (named name)).Finite) :
    Rereads scopes (make (named name)) := by
  obtain ⟨spelling, written, plain, opens, again⟩ := exists_spelling literal carries finite
  have other : (make (named name)).isOperation = false := by cases literal <;> rfl
  refine (Operand.of_opening written opens fun more t ready _ => ?_).rereads
    (written.trans plain.symm) other
  obtain ⟨result, faithful⟩ := Pool.base_eq ready.faithful member
  refine ⟨t.next.withPool (t.pool.base name).2, ready.next.withPool faithful, ?_⟩
  rw [← result]
  exact .literal (again t.current ready.kind ready.value)

/-! Lists. -/

def itemized : Bool → List (List Spelling) → List Spelling
  | true, parts => listed parts
  | false, parts => Spelling.afterCommas parts

section Lists
variable {first : Bool} {part : List Spelling} {parts : List (List Spelling)} {e : Expr}
    {own both type : Ty}

theorem stops_afterCommas (stops : Stops more) (parts : List (List Spelling)) :
    Stops (Spelling.afterCommas parts ++ more) := by
  cases parts with
  | nil => exact stops
  | cons => rfl

theorem Ready.item (ready : Ready scopes (itemized first (part :: parts) ++ more) t) :
    ∃ t₁, Session.Separated first t t₁ ∧ Ready scopes
      (part ++ (Spelling.afterCommas parts ++ more)) t₁ := by
  cases first with
  | true =>
    refine ⟨t, rfl, ?_⟩
    simpa [itemized, listed] using ready
  | false =>
    have comma :
        Ready scopes ((.comma, ",") :: (part ++ (Spelling.afterCommas parts ++ more))) t := by
      simpa [itemized, Spelling.afterCommas] using ready
    exact ⟨t.next, ⟨comma.kind, rfl⟩, comma.next⟩

/-- An item does not begin like the end of its list. -/
theorem kind_ne_of_item {closing : Kind} {power : Power} {t₁ : Session}
    (separated : Session.Separated first t t₁) (reads : Reads t₁ (.expr power e) t')
    (standard : t₁.grammar = .standard)
    (ends : Grammar.standard.opening? closing = none ∧ closing ≠ .comma) : t.kind ≠ closing := by
  rintro rfl
  cases first with
  | true =>
    obtain rfl : t₁ = t := separated
    cases reads with
    | expr opens =>
      rw [standard, ends.1] at opens
      cases opens
  | false => exact ends.2 separated.1

theorem readFrom_element {before : Ty} {es : List Expr}
    (value : ReadFrom scopes part Stops (.expr .lowest e))
    (single : e.types = [own]) (joined : JoinsTo before own both)
    (rest : ReadFrom scopes (itemized false parts) (leadKind · = .closeBracket)
      (.elements false both es type)) :
    ReadFrom scopes (itemized first (part :: parts)) (leadKind · = .closeBracket)
      (.elements first before (e :: es) type) := by
  intro more t ready closes
  have stops := stops_of_lead closes rfl
  obtain ⟨t₁, separated, ready₁⟩ := ready.item
  obtain ⟨t₂, ready₂, read⟩ := value ready₁ (stops_afterCommas stops _)
  obtain ⟨joins, faithful⟩ := joined ready₂.faithful
  obtain ⟨t', after, others⟩ := rest (ready₂.withPool faithful) closes
  have more : t.kind ≠ .closeBracket := kind_ne_of_item separated read ready₁.standard (by decide)
  exact ⟨t', after, .element more separated read single joins others⟩

theorem readFrom_entry {before types : Ty × Ty} {key value : Expr}
    {keyType valueType keys values : Ty} {pairs : List (Expr × Expr)}
    {keyPart valuePart : List Spelling}
    (keyReads : ReadFrom scopes keyPart Stops (.expr .lowest key))
    (valueReads : ReadFrom scopes valuePart Stops (.expr .lowest value))
    (literal : key.isBaseLiteral = true) (keySingle : key.types = [keyType])
    (valueSingle : value.types = [valueType])
    (keyJoined : JoinsTo before.1 keyType keys) (valueJoined : JoinsTo before.2 valueType values)
    (rest : ReadFrom scopes (itemized false parts) (leadKind · = .closeCurly)
      (.entries false (keys, values) pairs types)) :
    ReadFrom scopes (itemized first ((keyPart ++ (.colon, ":") :: valuePart) :: parts))
      (leadKind · = .closeCurly)
      (.entries first before ((key, value) :: pairs) types) := by
  intro more t ready closes
  have stops := stops_of_lead closes rfl
  obtain ⟨t₁, separated, ready₁⟩ := ready.item
  rw [List.append_assoc, List.cons_append] at ready₁
  obtain ⟨t₂, ready₂, keyRead⟩ := keyReads ready₁ rfl
  obtain ⟨t₃, ready₃, valueRead⟩ := valueReads ready₂.next (stops_afterCommas stops _)
  obtain ⟨keyJoins, faithful⟩ := keyJoined ready₃.faithful
  have between := ready₃.withPool faithful
  obtain ⟨valueJoins, faithful'⟩ := valueJoined between.faithful
  obtain ⟨t', after, others⟩ := rest (between.withPool faithful') closes
  have more : t.kind ≠ .closeCurly := kind_ne_of_item separated keyRead ready₁.standard (by decide)
  exact ⟨t', after, .entry more separated keyRead literal ready₂.kind valueRead keySingle
    keyJoins valueSingle valueJoins others⟩

theorem readFrom_argument {es : List Expr} (value : Rereads scopes e)
    (rest : ReadFrom scopes (itemized false (tokensOf es)) (leadKind · = .closeParen)
      (.arguments false es)) :
    ReadFrom scopes (itemized first (tokensOf (e :: es))) (leadKind · = .closeParen)
      (.arguments first (e :: es)) := by
  intro more t ready closes
  have stops := stops_of_lead closes rfl
  obtain ⟨t₁, separated, ready₁⟩ := ready.item
  obtain ⟨t₂, ready₂, read⟩ := value.whole ready₁ (stops_afterCommas stops _)
  obtain ⟨t', after, others⟩ := rest ready₂ closes
  have more : t.kind ≠ .closeParen := kind_ne_of_item separated read ready₁.standard (by decide)
  exact ⟨t', after, .argument more separated read others⟩

theorem readFrom_array {es : List Expr} {ends : List Spelling → Prop} (proper : type.Proper)
    (elements : ReadFrom scopes (listed parts) (leadKind · = .closeBracket)
      (.elements true .unknown es type)) :
    ReadFrom scopes (brackets (listed parts)) ends
      (.operand .array (.array (Expr.settleAll type es) (.array 0 type))) := by
  intro more t ready _
  have inside : Ready scopes (listed parts ++ (.closeBracket, "]") :: more) t.next := by
    simpa using ready.next
  obtain ⟨t', after, read⟩ := elements inside rfl
  obtain ⟨result, faithful⟩ := Pool.array_eq after.faithful proper
  refine ⟨t'.next.withPool (t'.pool.array type).2, after.next.withPool faithful, ?_⟩
  rw [← result]
  exact .array ready.kind read after.kind

theorem rereads_array {es : List Expr} (proper : type.Proper)
    (elements : ReadFrom scopes (listed (tokensOf es)) (leadKind · = .closeBracket)
      (.elements true .unknown es type)) :
    Rereads scopes (.array (Expr.settleAll type es) (.array 0 type)) := by
  have written : operandTokens (.array (Expr.settleAll type es) (.array 0 type))
      (Expr.array (Expr.settleAll type es) (.array 0 type)).tokens =
        brackets (listed (tokensOf es)) := by
    rw [operandTokens, Expr.tokens_settleAll, Expr.tokens]
    simp
  exact (Operand.of_opening written rfl (readFrom_array proper elements)).rereads rfl rfl

theorem readFrom_map {pairs : List (Expr × Expr)} {key value : Ty} {ends : List Spelling → Prop}
    (keyProper : key.Proper) (valueProper : value.Proper)
    (entries : ReadFrom scopes (listed parts) (leadKind · = .closeCurly)
      (.entries true (.unknown, .unknown) pairs (key, value))) :
    ReadFrom scopes (curlies (listed parts)) ends
      (.operand .map (.map (Expr.settleValues value pairs) (.map 0 key value))) := by
  intro more t ready _
  have inside : Ready scopes (listed parts ++ (.closeCurly, "\x7d") :: more) t.next := by
    simpa using ready.next
  obtain ⟨t', after, read⟩ := entries inside rfl
  obtain ⟨result, faithful⟩ := Pool.map_eq after.faithful keyProper valueProper
  refine ⟨t'.next.withPool (t'.pool.map key value).2, after.next.withPool faithful, ?_⟩
  rw [← result]
  exact .map ready.kind read after.kind

theorem rereads_map {pairs : List (Expr × Expr)} {key value : Ty} (keyProper : key.Proper)
    (valueProper : value.Proper)
    (entries : ReadFrom scopes (listed (tokensOfPairs pairs)) (leadKind · = .closeCurly)
      (.entries true (.unknown, .unknown) pairs (key, value))) :
    Rereads scopes (.map (Expr.settleValues value pairs) (.map 0 key value)) := by
  have written : operandTokens (.map (Expr.settleValues value pairs) (.map 0 key value))
      (Expr.map (Expr.settleValues value pairs) (.map 0 key value)).tokens =
      curlies (listed (tokensOfPairs pairs)) := by
    rw [operandTokens, Expr.tokens_settleValues, Expr.tokens]
    simp
  exact (Operand.of_opening written rfl (readFrom_map keyProper valueProper entries)).rereads rfl
    rfl

end Lists

/-! Calls. -/

section Calls
variable {callee : String} {function : Function} {args : List Expr} {types : List Ty}

/-- Up to the parenthesis that closes it a call is read alike. -/
theorem Ready.arguments
    (ready : Ready scopes ((.identifier, callee) :: parens (listed (tokensOf args)) ++ more) t)
    (arguments : ReadFrom scopes (listed (tokensOf args)) (leadKind · = .closeParen)
      (.arguments true args)) :
    t.next.kind = .openParen ∧ ∃ t', Reads t.next.next (.arguments true args) t' ∧
      t'.kind = .closeParen ∧ Ready scopes more t'.next := by
  have opened : Ready scopes
    ((.openParen, "(") :: (listed (tokensOf args) ++ (.closeParen, ")") :: more)) t.next := by
    simpa [parens] using ready.next
  obtain ⟨t', after, read⟩ := arguments opened.next rfl
  exact ⟨opened.kind, t', read, after.kind, after.next⟩

theorem rereads_builtinCall {builtin : Builtin} {results : List Ty}
    (known : scopes.function? callee = some function) (stage : function.builtin? = some builtin)
    (singles : Singles args types)
    (typed : Anywhere (builtin.results types) results)
    (arguments : ReadFrom scopes (listed (tokensOf args)) (leadKind · = .closeParen)
      (.arguments true args)) :
    Rereads scopes (.call callee args results) := by
  refine (Operand.of_opening rfl rfl fun more t ready _ => ?_).rereads rfl rfl
  obtain ⟨called, t', read, closes, after⟩ := ready.arguments arguments
  obtain ⟨pool, typed', faithful⟩ := typed after.faithful
  refine ⟨t'.next.withPool pool, after.withPool faithful, ?_⟩
  have value : t.current.value = callee := ready.value
  rw [← value] at known ⊢
  rw [← ready.scopes] at known
  exact .builtinCall ready.kind called known stage read closes singles typed'

theorem rereads_call {settled : List Expr} (known : scopes.function? callee = some function)
    (stage : function.builtin? = none) (singles : Singles args types)
    (count : function.signature.parameters.length = args.length)
    (same : Expr.AllSettled args settled)
    (fits : FitsTo (function.signature.parameters.map (·.type)) (args.zip types) settled)
    (arguments : ReadFrom scopes (listed (tokensOf args)) (leadKind · = .closeParen)
      (.arguments true args)) :
    Rereads scopes (.call callee settled function.signature.results) := by
  refine (Operand.of_opening rfl rfl fun more t ready _ => ?_).rereads rfl rfl
  rw [same.tokensOf_eq] at ready
  obtain ⟨called, t', read, closes, after⟩ := ready.arguments arguments
  obtain ⟨pool, fitted', faithful⟩ := fits after.faithful
  refine ⟨t'.next.withPool pool, after.withPool faithful, ?_⟩
  have value : t.current.value = callee := ready.value
  rw [← value] at known ⊢
  rw [← ready.scopes] at known
  exact .call ready.kind called known stage read closes singles count fitted'

end Calls

end ColonScript.Reading
