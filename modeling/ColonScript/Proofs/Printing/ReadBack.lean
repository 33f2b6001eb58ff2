import ColonScript.Proofs.Printing.Rereading
import ColonScript.Proofs.Returning

/-! Reading undoes writing. Every expression that is read from the tokens of a source is read again
from its own text, with all the types that it recorded: along the reading, each phrase is read again
from what its parts are written as. -/

namespace ColonScript.Reading
open Token (Kind)
open Ty Typing
open ColonScript.Expr (tokensOf tokensOfPairs)

variable {scopes : ScopeStack} {s s' : Session} {phrase : Phrase}

/-! All that is read. -/

def Phrase.Rereads (scopes : ScopeStack) : Phrase → Prop
  | .expr _ e | .operand _ e => e.Finite → Reading.Rereads scopes e
  | .rest _ left e =>
    (left.Finite → Reading.Rereads scopes left) → e.Finite → Reading.Rereads scopes e
  | .elements first before es type => (∀ e ∈ es, e.Finite) →
      ReadFrom scopes (itemized first (tokensOf es)) (leadKind · = .closeBracket)
      (.elements first before es type)
  | .entries first before pairs types => (∀ pair ∈ pairs, pair.1.Finite ∧ pair.2.Finite) →
      ReadFrom scopes (itemized first (tokensOfPairs pairs)) (leadKind · = .closeCurly)
        (.entries first before pairs types)
  | .arguments first es => (∀ e ∈ es, e.Finite) →
      ReadFrom scopes (itemized first (tokensOf es)) (leadKind · = .closeParen)
      (.arguments first es)

theorem itemized_nil (first : Bool) : itemized first [] = [] := by cases first <;> rfl

theorem readFrom_none {first : Bool} {closer : Kind}
    (reads : ∀ t : Session, t.kind = closer → Reads t phrase t) :
    ReadFrom scopes (itemized first []) (leadKind · = closer) phrase := by
  intro more t ready closes
  rw [itemized_nil] at ready
  exact ⟨t, ready, reads t (ready.kind_eq.trans closes)⟩

theorem finite_combined {left right : Expr} {operator : String} {type : Ty} :
    (combined left operator right type).Finite ↔ left.Finite ∧ right.Finite := by
  unfold combined
  split
  · rw [Expr.Finite.binary, Expr.finite_settle, Expr.finite_settle]
  · rw [Expr.Finite.binary]

theorem rereads_index {left key : Expr} {l k type : Ty} (first : left.Finite → Rereads scopes left)
    (second : key.Finite → Rereads scopes key) (leftSingle : left.types = [l])
    (keySingle : key.types = [k])
    (typed : Anywhere (Typing.index l k) type) (finite : (Expr.index left key type).Finite) :
    Rereads scopes (.index left key type) := by
  obtain ⟨leftFinite, keyFinite⟩ := Expr.Finite.index.mp finite
  exact (first leftFinite).index (second keyFinite) leftSingle keySingle typed

theorem standard_of_continues {grammar : Grammar} {kind : Kind} {own : Power}
    {continuation : Continuation}
    (continues : grammar.continuation? kind = some (own, continuation)) :
    Grammar.standard.continuation? kind = some (own, continuation) := by
  cases grammar with
  | bare => cases continues
  | standard => exact continues

theorem mark_of_continues {own : Power} {continuation : Continuation} (scanned : Scanned s)
    (continues : s.grammar.continuation? s.kind = some (own, continuation)) :
    Spelling.mark s.current.value = (s.kind, s.current.value) :=
  Spelling.mark_eq (scanned.mark rfl (isOfMark_of_continues continues))

/-- A state along the reading: its tokens come from lexemes, its types are those of the first pool,
and the names in scope are these. -/
structure Underway (scopes : ScopeStack) (s : Session) : Prop where
  grounded : Grounded s
  scanned : Scanned s
  scopes : s.scopes = scopes

namespace Underway
variable {e : Expr}

theorem pool (underway : Underway scopes s) : s.pool.Faithful := underway.grounded.pool

theorem onward (underway : Underway scopes s) (onward : Onward s s') (grounded : Grounded s') :
    Underway scopes s' :=
  ⟨grounded, underway.scanned.onward onward, onward.scopes.trans underway.scopes⟩

theorem next (underway : Underway scopes s) : Underway scopes s.next :=
  ⟨underway.grounded.next, underway.scanned.next, underway.scopes⟩

theorem separated {first : Bool} (underway : Underway scopes s)
    (separated : Session.Separated first s s') :
    Underway scopes s' :=
  underway.onward (onward_separated separated) (underway.grounded.separated separated)

theorem withPool {pool : Pool} (underway : Underway scopes s) (faithful : pool.Faithful) :
    Underway scopes (s.withPool pool) :=
  ⟨underway.grounded.withPool faithful, underway.scanned, underway.scopes⟩

theorem operand {opening : Opening} (underway : Underway scopes s)
    (reads : Reads s (.operand opening e) s') :
    AllProper e.types ∧ Underway scopes s' :=
  (grounded_of_operand underway.grounded reads).imp_right (underway.onward reads.onward)

theorem expr {power : Power} (underway : Underway scopes s) (reads : Reads s (.expr power e) s') :
    AllProper e.types ∧ Underway scopes s' :=
  (grounded_of_expr underway.grounded reads).imp_right (underway.onward reads.onward)

/-! What is made of parts that are read again is read again. -/

section
variable {s₁ : Session} {left right key value : Expr} {es : List Expr} {types : List Ty}
    {own : Power}
  {l r type both : Ty}

theorem literal {make : Ty → Expr} {name : String} (underway : Underway scopes s)
    (token : Literal s.current make name) (finite : (make (s.pool.base name).1).Finite) :
    Rereads scopes (make (s.pool.base name).1) := by
  have member := (@typed_literal s.env _ _ _ token).1
  rw [(Pool.base_eq underway.pool member).1] at finite ⊢
  exact rereads_literal token member (underway.scanned.carries rfl token.kind) finite

theorem builtinCall {name : String} {function : Function} {builtin : Builtin} {results : List Ty}
    {pool : Pool} (underway : Underway scopes s) (known : s.scopes.function? name = some function)
    (stage : function.builtin? = some builtin) (read : Reads s.next.next (.arguments true es) s₁)
    (singles : Singles es types) (typed : builtin.results types s₁.pool = .ok results pool)
    (again : (Phrase.arguments true es).Rereads scopes)
    (finite : (Expr.call name es results).Finite) :
    Rereads scopes (.call name es results) := by
  obtain ⟨proper, between⟩ := grounded_of_arguments underway.next.next.grounded singles read
  rw [underway.scopes] at known
  exact rereads_builtinCall known stage singles (between.builtin proper typed)
    (again (Expr.Finite.call.mp finite))

theorem call {name : String} {function : Function} {settled : List Expr} {pool : Pool}
    (underway : Underway scopes s) (known : s.scopes.function? name = some function)
    (stage : function.builtin? = none)
    (read : Reads s.next.next (.arguments true es) s₁) (singles : Singles es types)
    (count : function.signature.parameters.length = es.length)
    (fitted : Fitted s₁.pool (function.signature.parameters.map (·.type))
      (es.zip types) settled pool)
    (again : (Phrase.arguments true es).Rereads scopes)
    (finite : (Expr.call name settled function.signature.results).Finite) :
    Rereads scopes (.call name settled function.signature.results) := by
  obtain ⟨proper, between⟩ := grounded_of_arguments underway.next.next.grounded singles read
  have fits := between.fitted (underway.grounded.scopes.function known) proper singles fitted
  have settles := settled_of_fitted fitted singles
  rw [underway.scopes] at known
  exact rereads_call known stage singles count settles fits
    (again ((Expr.Finite.settled_call settles).mp finite))

theorem array (underway : Underway scopes s)
    (read : Reads s.next (.elements true .unknown es type) s₁)
    (again : (Phrase.elements true .unknown es type).Rereads scopes)
    (finite : (Expr.array (Expr.settleAll type es) (s₁.pool.array type).1).Finite) :
    Rereads scopes (.array (Expr.settleAll type es) (s₁.pool.array type).1) := by
  obtain ⟨proper, between⟩ := grounded_of_elements underway.next.grounded proper_unknown read
  rw [(Pool.array_eq between.pool proper).1] at finite ⊢
  exact rereads_array proper (again (Expr.Finite.settled_array.mp finite))

theorem map {pairs : List (Expr × Expr)} {types : Ty × Ty} (underway : Underway scopes s)
    (read : Reads s.next (.entries true (.unknown, .unknown) pairs types) s₁)
    (again : (Phrase.entries true (.unknown, .unknown) pairs types).Rereads scopes)
    (finite : (Expr.map (Expr.settleValues types.2 pairs) (s₁.pool.map types.1 types.2).1).Finite) :
    Rereads scopes (.map (Expr.settleValues types.2 pairs) (s₁.pool.map types.1 types.2).1) := by
  obtain ⟨keys, values, between⟩ :=
    grounded_of_entries underway.next.grounded proper_unknown proper_unknown read
  rw [(Pool.map_eq between.pool keys values).1] at finite ⊢
  exact rereads_map keys values (again (Expr.Finite.settled_map.mp finite))

theorem unary (underway : Underway scopes s) (again : Rereads scopes e)
    (kind : s.kind = .minus ∨ s.kind = .not) (single : e.types = [r])
    (typed : Typing.unary s.current.value r = .ok type) :
    Rereads scopes (.unary s.current.value e type) := by
  have known : Token.isOfMark s.kind = true := by rcases kind with is | is <;> rw [is] <;> rfl
  exact again.unary (Spelling.mark_eq (underway.scanned.mark rfl known)) kind single typed

theorem binary (underway : Underway scopes s)
    (operator : s.grammar.continuation? s.kind = some (own, .binary))
    (first : left.Finite → Rereads scopes left) (second : right.Finite → Rereads scopes right)
    (leftSingle : left.types = [l]) (rightSingle : right.types = [r])
    (typed : Anywhere (Typing.binary s.current.value l r) type)
    (finite : (combined left s.current.value right type).Finite) :
    Rereads scopes (combined left s.current.value right type) := by
  obtain ⟨leftFinite, rightFinite⟩ := finite_combined.mp finite
  exact (first leftFinite).binary (second rightFinite) (mark_of_continues underway.scanned operator)
    (standard_of_continues operator) leftSingle rightSingle typed

theorem assign {target : String} (underway : Underway scopes s)
    (operator : s.grammar.continuation? s.kind = some (own, .assignment))
    (mutable : s.scopes.isConstant target = false)
    (name : (Expr.name target type).Finite → Rereads scopes (.name target type))
    (again : value.Finite → Rereads scopes value) (single : value.types = [r])
    (typed : Anywhere (Typing.assignment target s.current.value type r) both)
    (finite : (Expr.assign target s.current.value (value.settle both) type).Finite) :
    Rereads scopes (.assign target s.current.value (value.settle both) type) := by
  have left := name (by simp [Expr.Finite, Expr.floats])
  rw [underway.scopes] at mutable
  exact left.assign (again (Expr.finite_settle.mp finite))
    (mark_of_continues underway.scanned operator)
    (standard_of_continues operator) mutable single typed

end

end Underway

theorem rereads_of_reads (reads : Reads s phrase s') (underway : Underway scopes s)
    (begins : phrase.Begins) :
    phrase.Rereads scopes := by
  induction reads with
  | expr _ operandReads _ operand rest =>
    obtain ⟨proper, between⟩ := underway.operand operandReads
    exact rest between proper (operand underway trivial)
  | literal token => exact underway.literal token
  | name _ _ bound =>
    rw [underway.scopes] at bound
    exact fun _ => rereads_name bound
  | builtinCall _ _ known stage read _ singles typed arguments =>
    exact underway.builtinCall known stage read singles typed (arguments underway.next.next trivial)
  | call _ _ known stage read _ singles count fitted arguments =>
    exact underway.call known stage read singles count fitted (arguments underway.next.next trivial)
  | array _ read _ elements => exact underway.array read (elements underway.next trivial)
  | map _ read _ entries => exact underway.map read (entries underway.next ⟨trivial, trivial⟩)
  | group _ _ _ inner => exact inner underway.next trivial
  | unary kind _ single typed operand =>
    exact fun finite => underway.unary (operand underway.next trivial finite) kind single typed
  | stop => exact id
  | binary operator _ operandReads leftSingle rightSingle typed _ operand rest =>
    intro first
    obtain ⟨proper, between⟩ := underway.next.expr operandReads
    obtain ⟨anywhere, both, after⟩ :=
      between.grounded.binary begins proper leftSingle rightSingle typed
    exact rest (between.withPool after.pool) both
      (underway.binary operator first (operand underway.next trivial) leftSingle
        rightSingle anywhere)
  | step operator _ single typed _ rest =>
    intro inner
    exact rest underway.next (proper_step begins single typed) fun finite =>
      (inner finite).step (mark_of_continues underway.scanned operator)
        (standard_of_continues operator) single typed
  | assign operator _ mutable valueReads single typed _ value rest =>
    intro name
    obtain ⟨proper, between⟩ := underway.next.expr valueReads
    obtain ⟨anywhere, after⟩ := between.grounded.assignment begins proper single typed
    exact rest (between.withPool after.pool) begins
      (underway.assign operator mutable name (value underway.next trivial) single anywhere)
  | index _ _ _ innerReads _ leftSingle keySingle typed _ inner rest =>
    intro first
    obtain ⟨proper, between⟩ := underway.next.expr innerReads
    obtain ⟨anywhere, both, after⟩ :=
      between.grounded.index begins proper leftSingle keySingle typed
    exact rest (between.next.withPool after.pool) both
      (rereads_index first (inner underway.next trivial) leftSingle keySingle anywhere)
  | noElements => exact fun _ => readFrom_none fun _ closes => .noElements closes
  | element _ separated valueReads single joined _ value rest =>
    intro finite
    obtain ⟨finiteFirst, finiteRest⟩ := List.forall_mem_cons.mp finite
    have start := underway.separated separated
    obtain ⟨proper, between⟩ := start.expr valueReads
    obtain ⟨joins, both, after⟩ := between.grounded.join begins proper single joined
    exact readFrom_element (value start trivial finiteFirst).whole single joins
      (rest (between.withPool after.pool) both finiteRest)
  | noEntries => exact fun _ => readFrom_none fun _ closes => .noEntries closes
  | entry _ separated keyReads literal colon valueReads keySingle keyJoined valueSingle valueJoined
    _ key value rest =>
    intro finite
    obtain ⟨⟨keyFinite, valueFinite⟩, finiteRest⟩ := List.forall_mem_cons.mp finite
    have start := underway.separated separated
    obtain ⟨keyProper, between⟩ := start.expr keyReads
    obtain ⟨valueProper, behind⟩ := between.next.expr valueReads
    obtain ⟨keyJoins, keys, after⟩ := behind.grounded.join begins.1 keyProper keySingle keyJoined
    obtain ⟨valueJoins, values, after'⟩ := after.join begins.2 valueProper valueSingle valueJoined
    exact readFrom_entry (key start trivial keyFinite).whole
      (value between.next trivial valueFinite).whole literal
      keySingle valueSingle keyJoins valueJoins
      (rest ((behind.withPool after.pool).withPool after'.pool) ⟨keys, values⟩ finiteRest)
  | noArguments => exact fun _ => readFrom_none fun _ closes => .noArguments closes
  | argument _ separated valueReads _ value rest =>
    intro finite
    obtain ⟨finiteFirst, finiteRest⟩ := List.forall_mem_cons.mp finite
    have start := underway.separated separated
    exact readFrom_argument (value start trivial finiteFirst)
      (rest (start.expr valueReads).2 trivial finiteRest)

/-! The texts. -/

theorem ahead_ofTokens_of_ended (others : List Token) {last : Token} (ends : last.kind = .eof) :
    (Cursor.ofTokens (others ++ [last])).ahead = others := by
  simp [Cursor.ofTokens, ends]

/-- The tokens that are not read yet of a text that was cut into tokens. -/
theorem scanned_of_ofSource {source file : String} {tokens : List Token}
    (lexed : Token.ofSource source file = .ok tokens)
    (ahead : s.ahead <:+ (Cursor.ofTokens tokens).ahead) :
    Scanned s := by
  obtain ⟨others, last, rfl, each⟩ := Token.lexed_of_ofSource lexed
  rw [ahead_ofTokens_of_ended others rfl] at ahead
  exact fun token member => each token (ahead.subset member)

theorem meanings_ofTokens {tokens : List Token} {spellings : List Spelling}
    (meanings : tokens.map Token.meaning = spellings ++ [(.eof, "EOF")]) :
    (Cursor.ofTokens tokens).ahead.map Token.meaning = spellings := by
  obtain ⟨others, ended, rfl, rfl, last⟩ := List.map_eq_append_iff.mp meanings
  obtain ⟨token, rfl, same⟩ := List.map_eq_singleton_iff.mp last
  rw [ahead_ofTokens_of_ended others (congrArg Prod.fst same)]

/-- The text of `e` is cut into tokens from which `e` is read, up to the last of them, in the place
of `s` and with any types in the pool. -/
def ReadsBack (s : Session) (e : Expr) : Prop :=
  ∀ file, ∃ tokens, Token.ofSource e.text file = .ok tokens ∧ ∀ ⦃pool⦄, Pool.Faithful pool →
    ∃ t, expression .lowest ((s.withCursor (.ofTokens tokens)).withPool pool) = .ok e t ∧
    t.ahead = []

/-- Whatever expression is read from the tokens of a source, at whatever power, if its numbers are
finite then its text is read as the same expression, in the state before as in the state behind. -/
theorem readsBack_of_expression {source file : String} {tokens : List Token} {power : Power}
    {e : Expr} (lexed : Token.ofSource source file = .ok tokens)
    (ahead : s.ahead <:+ (Cursor.ofTokens tokens).ahead)
    (grounded : Grounded s) (run : expression power s = .ok e s') (finite : e.Finite) :
    ReadsBack s e ∧ ReadsBack s' e ∧ s.pool.Faithful ∧ s'.pool.Faithful := by
  have reads := ok_expression.mp run
  have scanned := scanned_of_ofSource lexed ahead
  have spelled : e.Spelled := spelled_of_reads reads scanned
  have again : Rereads s.scopes e := rereads_of_reads reads ⟨grounded, scanned, rfl⟩ trivial finite
  have standard : s.grammar = .standard := by
    cases reads with
    | expr opens =>
      cases same : s.grammar with
      | standard => rfl
      | bare =>
        rw [same] at opens
        cases opens
  have back : ∀ t : Session, t.grammar = .standard → t.scopes = s.scopes → ReadsBack t e := by
    intro t standard scopes file
    obtain ⟨tokens, lexed, meanings⟩ := spelled.ofSource file
    refine ⟨tokens, lexed, fun pool faithful => ?_⟩
    have ready : Ready s.scopes (e.tokens ++ [])
      ((t.withCursor (.ofTokens tokens)).withPool pool) := by
      rw [List.append_nil]
      exact ⟨standard, scopes, faithful, meanings_ofTokens meanings⟩
    obtain ⟨t', after, read⟩ := again.whole ready rfl
    exact ⟨t', ok_expression.mpr read, List.map_eq_nil_iff.mp after.facing⟩
  have onward := reads.onward
  exact ⟨back s standard rfl, back s' (onward.grammar.trans standard) onward.scopes, grounded.pool,
    (grounded_of_expr grounded reads).2.pool⟩

/-- An assignment of what is indexed in a literal, of which one value is empty. -/
theorem readsBack_of_expression_index :
    let s := (Session.insideOf (named "char")).withCursor
      (.ofText "a = \x7b0.5: [], 1.50: [a + \"c\"]\x7d[1.50][0];")
    ∃ e s', expression .lowest s = .ok e s' ∧ e.Finite ∧
      e.text = "a = \x7b0.5: [], 1.5: [(a + \"c\")]\x7d[1.5][0]" ∧ ReadsBack s e ∧
      ReadsBack s' e := by
  intro s
  have cut : (Token.ofSource "a = \x7b0.5: [], 1.50: [a + \"c\"]\x7d[1.50][0];" "").toBool =
    true := by decide +kernel
  obtain ⟨tokens, lexed⟩ := Program.exists_ok_of_toBool cut
  have run : (match expression .lowest s with
      | .ok e _ => decide ((∀ value ∈ e.floats, value.isFinite = true) ∧
          e.text = "a = \x7b0.5: [], 1.5: [(a + \"c\")]\x7d[1.5][0]")
      | .error _ _ => false) = true := by decide +kernel
  split at run
  next e s' read =>
    obtain ⟨finite, text⟩ := of_decide_eq_true run
    have ahead : s.ahead = (Cursor.ofTokens tokens).ahead := by
      show (Cursor.ofText _).ahead = _
      rw [Cursor.ofText, lexed]
      rfl
    have written : (named "char").Written := written_named (by decide)
    have grounded := Session.grounded_insideOf written
    obtain ⟨before, behind, _⟩ := readsBack_of_expression lexed (ahead ▸ List.suffix_refl _)
      (⟨grounded.pool, grounded.scopes⟩ : Grounded s) read finite
    exact ⟨e, s', read, finite, text, before, behind⟩
  next => cases run

end ColonScript.Reading
