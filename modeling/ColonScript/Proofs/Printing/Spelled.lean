import ColonScript.Proofs.Printing.Cutting
import ColonScript.Proofs.Printing.Numerals
import ColonScript.Proofs.Reading.Pools

/-! What the parts of a tree are that are written as they were read: names, literals and operators.
Each comes from one lexeme of the source, so that its text is a lexeme again. -/

namespace ColonScript

namespace Token

def IsName (name : String) : Prop := IsWord name ∧ wordKind name = .identifier

def IsSingle (text : String) : Prop := text = "" ∨ ∃ c, c ≠ '\'' ∧ text = String.ofList [c]

def Rule.makes (kind : Kind) : Rule → Bool
  | .mark own _ => own = kind
  | _ => false

def isOfMark (kind : Kind) : Bool := Rule.all.any (Rule.makes kind)

theorem isOfMark_of_mem {kind : Kind} {text : String} (member : Rule.mark kind text ∈ Rule.all) :
    isOfMark kind = true :=
  List.any_eq_true.mpr ⟨_, member, decide_eq_true rfl⟩

def Carries (value : String) : Kind → Prop
  | .identifier => IsName value
  | .integer => Decimal.IsDigits value.toList
  | .float => Decimal.IsDecimal value.toList
  | .string => '"' ∉ value.toList
  | .char => IsSingle value
  | kind => isOfMark kind = true → Rule.mark kind value ∈ Rule.all

theorem carries_of_mark {kind : Kind} {text : String} (member : Rule.mark kind text ∈ Rule.all) :
    Carries text kind := by
  have apart : ∀ kind ∈ [Kind.identifier, .integer, .float, .string, .char], isOfMark kind =
    false := by decide
  have mark := isOfMark_of_mem member
  cases kind with
  | identifier | integer | float | string | char =>
    rw [apart _ (by decide)] at mark
    cases mark
  | _ => exact fun _ => member

theorem carries_of_reserved {kind : Kind} (word : String)
    (reserved : kind ∈ reservedWords.map Prod.snd) :
    Carries word kind := by
  have apart : ∀ kind ∈ reservedWords.map Prod.snd,
      isOfMark kind = false ∧ kind ∉ [Kind.identifier, .integer, .float, .string, .char] := by
        decide
  obtain ⟨noMark, other⟩ := apart kind reserved
  cases kind with
  | identifier | integer | float | string | char => exact absurd (by decide) other
  | _ =>
    intro mark
    rw [noMark] at mark
    cases mark

theorem Lexed.carries {token : Token} (lexed : token.Lexed) : Carries token.value token.kind := by
  obtain ⟨rule, lexeme, rest, found, meaning⟩ := lexed
  obtain ⟨member, split⟩ := split?_of_firstMatch? found
  have shape := (split?_eq_some_iff.mp split).2.1
  cases rule with
  | blanks | comment => cases meaning
  | elseIf =>
    obtain ⟨kind, _⟩ := Prod.mk.inj (Option.some.inj meaning)
    rw [← kind]
    exact fun mark => absurd mark (by decide)
  | word =>
    obtain ⟨kind, value⟩ := Prod.mk.inj (Option.some.inj meaning)
    rw [← kind, ← value]
    rcases wordKind_cases (String.ofList lexeme) with reserved | identifier
    · exact carries_of_reserved _ (List.mem_map_of_mem reserved)
    · rw [identifier]
      exact ⟨by rwa [IsWord, String.toList_ofList], identifier⟩
  | decimal | digits =>
    obtain ⟨kind, value⟩ := Prod.mk.inj (Option.some.inj meaning)
    rw [← kind, ← value, Carries, String.toList_ofList]
    exact shape
  | quotedString =>
    obtain ⟨kind, value⟩ := Prod.mk.inj (Option.some.inj meaning)
    obtain ⟨text, noQuote, rfl⟩ := shape
    rw [← kind, ← value]
    simpa [Carries] using noQuote
  | quotedChar =>
    obtain ⟨kind, value⟩ := Prod.mk.inj (Option.some.inj meaning)
    rw [← kind, ← value]
    rcases shape with rfl | ⟨c, other, rfl⟩
    · exact .inl rfl
    · exact .inr ⟨c, other, rfl⟩
  | mark own spelling =>
    obtain ⟨kind, value⟩ := Prod.mk.inj (Option.some.inj meaning)
    rw [← kind, ← value]
    exact carries_of_mark member

def Rule.agrees : Rule → Rule → Bool
  | .mark kind text, .mark kind' text' => kind ≠ kind' || text = text'
  | _, _ => true

theorem eq_of_mark {kind : Kind} {text text' : String} (first : Rule.mark kind text ∈ Rule.all)
    (second : Rule.mark kind text' ∈ Rule.all) : text = text' := by
  have agree : ∀ rule ∈ Rule.all, ∀ rule' ∈ Rule.all, rule.agrees rule' = true := by decide
  simpa [Rule.agrees] using agree _ first _ second

theorem Lexed.mark {token : Token} (lexed : token.Lexed) (mark : isOfMark token.kind = true) :
    Rule.mark token.kind token.value ∈ Rule.all := by
  have carries := lexed.carries
  generalize token.kind = kind at mark carries
  cases kind with
  | identifier | integer | float | string | char => exact absurd mark (by decide)
  | _ => exact carries mark

end Token

open Token (Rule IsName IsSingle)

def IsInfix (operator : String) : Prop := ∃ kind, Rule.mark kind operator ∈ Rule.all

/-- Made of names, literals and operators that a script can write. -/
inductive Expr.Spelled : Expr → Prop where
  | name {own : String} {type : Ty} (isName : IsName own) : Spelled (.name own type)
  | integer {value : Int} {type : Ty} (literal : Decimal.IsLiteral value) :
      Spelled (.integer value type)
  | float {value : Decimal.Binary64} {type : Ty} {text : List Char}
      (decimal : Decimal.IsDecimal text)
      (read : Decimal.Binary64.read? text = some value) : Spelled (.float value type)
  | bool {value : Bool} {type : Ty} : Spelled (.bool value type)
  | string {value : String} {type : Ty} (noQuote : '"' ∉ value.toList) :
      Spelled (.string value type)
  | char {value : String} {type : Ty} (single : IsSingle value) : Spelled (.char value type)
  | array {elements : List Expr} {type : Ty} (each : ∀ e ∈ elements, Spelled e) :
      Spelled (.array elements type)
  | map {pairs : List (Expr × Expr)} {type : Ty} (keys : ∀ pair ∈ pairs, Spelled pair.1)
      (values : ∀ pair ∈ pairs, Spelled pair.2) : Spelled (.map pairs type)
  | unary {operator : String} {operand : Expr} {type : Ty} (is : operator = "-" ∨ operator = "!")
      (inner : Spelled operand) : Spelled (.unary operator operand type)
  | binary {left right : Expr} {operator : String} {type : Ty} (mark : IsInfix operator)
      (first : Spelled left) (second : Spelled right) : Spelled (.binary left operator right type)
  | step {operand : Expr} {operator : String} {type : Ty} (is : operator = "++" ∨ operator = "--")
      (inner : Spelled operand) : Spelled (.step operand operator type)
  | assign {target operator : String} {value : Expr} {type : Ty} (isName : IsName target)
      (mark : IsInfix operator)
      (inner : Spelled value) : Spelled (.assign target operator value type)
  | call {callee : String} {arguments : List Expr} {results : List Ty} (isName : IsName callee)
      (each : ∀ e ∈ arguments, Spelled e) : Spelled (.call callee arguments results)
  | index {target key : Expr} {type : Ty} (first : Spelled target) (second : Spelled key) :
      Spelled (.index target key type)

theorem Expr.ignoresTypes_spelled : IgnoresTypes fun e e' => e.Spelled → e'.Spelled where
  refl _ := id
  array each spelled := by
    cases spelled with
    | array before => exact .array (forall_mem_of_forall₂ each (fun _ _ same => same) before)
  map each spelled := by
    cases spelled with
    | map keys values =>
      exact .map (forall_mem_of_forall₂ each (fun _ _ same key => same.1 ▸ key) keys)
        (forall_mem_of_forall₂ each (fun _ _ same value => same.2 value) values)
  binary first second spelled := by
    cases spelled with
    | binary mark left right => exact .binary mark (first left) (second right)

theorem Expr.Spelled.settle {e : Expr} (spelled : e.Spelled) (type : Ty) :
    (e.settle type).Spelled :=
  ignoresTypes_spelled.settle type e spelled

namespace Expr.AllSettled
variable {es settled : List Expr}

theorem tokensOf_eq (same : AllSettled es settled) : tokensOf settled = tokensOf es := by
  rw [tokensOf_eq_map, same.map_eq tokens_settle, tokensOf_eq_map]

end Expr.AllSettled

/-! The numbers with a point among the parts. -/

namespace Expr

mutual

def floats : Expr → List Decimal.Binary64
  | float value _ => [value]
  | array elements _ => floatsOf elements
  | map pairs _ => floatsOfPairs pairs
  | unary _ operand _ | step operand _ _ => operand.floats
  | binary left _ right _ | .index left right _ => left.floats ++ right.floats
  | assign _ _ value _ => value.floats
  | call _ arguments _ => floatsOf arguments
  | name .. | integer .. | bool .. | string .. | char .. => []

def floatsOf : List Expr → List Decimal.Binary64
  | [] => []
  | e :: rest => e.floats ++ floatsOf rest

def floatsOfPairs : List (Expr × Expr) → List Decimal.Binary64
  | [] => []
  | (key, value) :: rest => key.floats ++ value.floats ++ floatsOfPairs rest

end

theorem floatsOf_eq (es : List Expr) : floatsOf es = es.flatMap floats :=
  eq_flatMap rfl (fun _ _ => rfl) es

theorem floatsOfPairs_eq (pairs : List (Expr × Expr)) :
    floatsOfPairs pairs = pairs.flatMap fun pair => pair.1.floats ++ pair.2.floats :=
  eq_flatMap rfl (fun _ _ => rfl) pairs

def ownFloats : Expr → List Decimal.Binary64
  | float value _ => [value]
  | _ => []

theorem gathers_floats : Gathers ownFloats floats where
  node e := by
    cases e <;> simp [floats, ownFloats, children, floatsOf_eq, floatsOfPairs_eq,
      List.flatMap_assoc]
  array := rfl
  map := rfl
  binary := rfl

def Finite (e : Expr) : Prop := ∀ value ∈ e.floats, value.isFinite = true

theorem finite_settle {e : Expr} {type : Ty} : (e.settle type).Finite ↔ e.Finite := by
  rw [Finite, Finite, gathers_floats.settle]

namespace Finite
variable {e operand left right target key value : Expr} {operator own : String} {type : Ty}

theorem iff_children : e.Finite ↔ (∀ value ∈ e.ownFloats, value.isFinite = true) ∧
    ∀ child ∈ e.children, child.Finite :=
  gathers_floats.forall_iff

theorem of_plain (plain : e.ownFloats = []) : e.Finite ↔ ∀ child ∈ e.children, child.Finite := by
  rw [iff_children, plain]
  simp

theorem float {value : Decimal.Binary64} : (Expr.float value type).Finite ↔
    value.isFinite = true := by
  rw [Finite, floats, List.forall_mem_singleton]

theorem array {elements : List Expr} : (Expr.array elements type).Finite ↔
    ∀ e ∈ elements, e.Finite := of_plain rfl

theorem map {pairs : List (Expr × Expr)} :
    (Expr.map pairs type).Finite ↔ ∀ pair ∈ pairs, pair.1.Finite ∧ pair.2.Finite := by
  rw [of_plain rfl, children, List.forall_mem_flatMap]
  simp

theorem call {arguments : List Expr} {results : List Ty} :
    (Expr.call own arguments results).Finite ↔ ∀ e ∈ arguments, e.Finite := of_plain rfl

theorem binary : (Expr.binary left operator right type).Finite ↔ left.Finite ∧ right.Finite :=
  List.forall_mem_append

theorem index : (Expr.index target key type).Finite ↔ target.Finite ∧ key.Finite :=
  List.forall_mem_append

/-! Settled parts are finite as they were. -/

theorem settled_array {elements : List Expr} {own : Ty} :
    (Expr.array (settleAll own elements) type).Finite ↔ ∀ e ∈ elements, e.Finite := by
  rw [Finite, gathers_floats.settleAll]
  exact array

theorem settled_map {pairs : List (Expr × Expr)} {own : Ty} :
    (Expr.map (settleValues own pairs) type).Finite ↔ ∀ pair ∈ pairs, pair.1.Finite ∧
      pair.2.Finite := by
  rw [Finite, gathers_floats.settleValues]
  exact map

theorem settled {es settled : List Expr} (same : AllSettled es settled) :
    (∀ e ∈ settled, e.Finite) ↔ ∀ e ∈ es, e.Finite := by
  unfold Finite
  rw [← List.forall_mem_flatMap, gathers_floats.flatMap_eq same, List.forall_mem_flatMap]

theorem settled_call {arguments settled : List Expr} {results : List Ty}
    (same : AllSettled arguments settled) :
    (Expr.call own settled results).Finite ↔ ∀ e ∈ arguments, e.Finite :=
  call.trans (Finite.settled same)

end Finite

end Expr

namespace Reading
open Token (Kind)

variable {s s' : Session}

def Scanned (s : Session) : Prop := ∀ token ∈ s.ahead, token.Lexed

namespace Scanned

theorem forward (scanned : Scanned s) (forward : Forward s s') : Scanned s' := by
  obtain ⟨tokens, ahead, _⟩ := forward.passed
  intro token member
  refine scanned token ?_
  rw [ahead]
  exact List.mem_append_right _ member

theorem onward (scanned : Scanned s) (onward : Onward s s') : Scanned s' :=
  scanned.forward onward.toForward

theorem next (scanned : Scanned s) : Scanned s.next :=
  fun token member => scanned token (List.mem_of_mem_tail member)

theorem current (scanned : Scanned s) (kind : s.kind ≠ .eof) : s.current.Lexed := by
  refine scanned s.current ?_
  rw [ahead_of_kind kind]
  exact List.mem_cons_self

theorem carries {kind : Kind} (scanned : Scanned s) (is : s.kind = kind)
    (holds : inSentence kind = true) :
    Token.Carries s.current.value kind := by
  subst is
  exact (scanned.current (inSentence_iff.mp holds).1).carries

/-- A mark is told by its kind. -/
theorem mark {kind : Kind} (scanned : Scanned s) (is : s.kind = kind)
    (mark : Token.isOfMark kind = true) :
    Rule.mark kind s.current.value ∈ Rule.all := by
  subst is
  refine (scanned.current fun last => ?_).mark mark
  rw [last] at mark
  cases mark

theorem value_of_mark {kind : Kind} {text : String} (scanned : Scanned s) (is : s.kind = kind)
    (member : Rule.mark kind text ∈ Rule.all) : s.current.value = text :=
  Token.eq_of_mark (scanned.mark is (Token.isOfMark_of_mem member)) member

theorem separated {first : Bool} (scanned : Scanned s) (separated : Session.Separated first s s') :
    Scanned s' :=
  scanned.onward (onward_separated separated)

end Scanned

def Phrase.Spelled : Phrase → Prop
  | .expr _ e | .operand _ e => e.Spelled
  | .rest _ left e => left.Spelled → e.Spelled
  | .elements _ _ es _ | .arguments _ es => ∀ e ∈ es, e.Spelled
  | .entries _ _ pairs _ => ∀ pair ∈ pairs, pair.1.Spelled ∧ pair.2.Spelled

theorem isOfMark_of_continues {grammar : Grammar} {kind : Kind} {own : Power}
    {continuation : Continuation}
    (continues : grammar.continuation? kind = some (own, continuation)) :
    Token.isOfMark kind = true := by
  cases grammar with
  | bare => cases continues
  | standard => cases kind <;> first | rfl | cases continues

theorem kind_of_continues_step {grammar : Grammar} {kind : Kind} {own : Power}
    (continues : grammar.continuation? kind = some (own, .step)) :
    kind = .plusPlus ∨ kind = .minusMinus := by
  cases grammar with
  | bare => cases continues
  | standard => cases kind <;> first | exact .inl rfl | exact .inr rfl | cases continues

theorem isInfix_of_continues {own : Power} {continuation : Continuation} (scanned : Scanned s)
    (continues : s.grammar.continuation? s.kind = some (own, continuation)) :
    IsInfix s.current.value :=
  ⟨_, scanned.mark rfl (isOfMark_of_continues continues)⟩

theorem spelled_of_literal {token : Token} {make : Ty → Expr} {name : String}
    (carries : Token.Carries token.value token.kind) (literal : Literal token make name)
    (type : Ty) :
    (make type).Spelled := by
  cases literal with
  | integer kind read =>
    rw [kind] at carries
    exact .integer (Decimal.isLiteral_of_integer? carries read)
  | float kind read =>
    rw [kind] at carries
    exact .float carries read
  | bool => exact .bool
  | string kind =>
    rw [kind] at carries
    exact .string carries
  | char kind =>
    rw [kind] at carries
    exact .char carries

theorem spelled_combined {left right : Expr} {operator : String} (mark : IsInfix operator)
    (first : left.Spelled) (second : right.Spelled) (type : Ty) :
    (combined left operator right type).Spelled := by
  unfold combined
  split
  · exact .binary mark (first.settle type) (second.settle type)
  · exact .binary mark first second

/-- Every expression that is read from lexemes is spelled. -/
theorem spelled_of_reads {phrase : Phrase} (reads : Reads s phrase s') (scanned : Scanned s) :
    phrase.Spelled := by
  induction reads with
  | expr _ operandReads _ operand rest =>
    exact rest (scanned.onward operandReads.onward) (operand scanned)
  | literal token => exact spelled_of_literal (scanned.carries rfl token.kind) token _
  | name kind => exact .name (scanned.carries kind rfl)
  | builtinCall kind _ _ _ _ _ _ _ arguments =>
    exact .call (scanned.carries kind rfl) (arguments scanned.next.next)
  | call kind _ _ _ _ _ singles _ fitted arguments =>
    have settled := settled_of_fitted fitted singles
    exact .call (scanned.carries kind rfl) (settled.each (fun type _ => (·.settle type))
      (arguments scanned.next.next))
  | array _ _ _ elements =>
    rw [Expr.settleAll_eq_map]
    refine .array fun e member => ?_
    obtain ⟨before, inside, rfl⟩ := List.mem_map.mp member
    exact (elements scanned.next before inside).settle _
  | map _ _ _ entries =>
    rw [Expr.settleValues_eq_map]
    refine .map ?_ ?_
    all_goals
      intro pair member
      obtain ⟨before, inside, rfl⟩ := List.mem_map.mp member
    · exact (entries scanned.next before inside).1
    · exact (entries scanned.next before inside).2.settle _
  | group _ _ _ inner => exact inner scanned.next
  | unary kind _ _ _ operand =>
    refine .unary ?_ (operand scanned.next)
    exact kind.imp (scanned.value_of_mark · (by decide)) (scanned.value_of_mark · (by decide))
  | stop => exact id
  | binary operator _ operandReads _ _ _ _ operand rest =>
    intro first
    have mark := isInfix_of_continues scanned operator
    have second := operand scanned.next
    exact rest (scanned.next.onward (operandReads.onward.withPool _))
      (spelled_combined mark first second _)
  | step operator _ _ _ _ rest =>
    intro inner
    refine rest scanned.next (.step ?_ inner)
    have kind := kind_of_continues_step operator
    exact kind.imp (scanned.value_of_mark · (by decide)) (scanned.value_of_mark · (by decide))
  | assign operator _ _ valueReads _ _ _ value rest =>
    intro left
    cases left with
    | name isName =>
      have mark := isInfix_of_continues scanned operator
      have inner := value scanned.next
      exact rest (scanned.next.onward (valueReads.onward.withPool _))
        (.assign isName mark (inner.settle _))
  | index operator _ opens innerReads closes _ _ _ _ inner rest =>
    intro first
    have second := inner scanned.next
    have onward := innerReads.onward.trans (onward_next closes rfl)
    exact rest (scanned.next.onward (onward.withPool _)) (.index first second)
  | noElements | noArguments => simp [Phrase.Spelled]
  | element _ separated valueReads _ _ _ value rest =>
    have before := scanned.separated separated
    exact List.forall_mem_cons.mpr ⟨value before,
      rest (before.onward (valueReads.onward.joining _ _))⟩
  | noEntries => simp [Phrase.Spelled]
  | entry _ separated keyReads _ colon valueReads _ _ _ _ _ key value rest =>
    have before := scanned.separated separated
    have between := before.onward (keyReads.onward.trans (onward_next colon rfl))
    have after := between.onward valueReads.onward
    exact List.forall_mem_cons.mpr ⟨⟨key before, value between⟩, rest after⟩
  | argument _ separated valueReads _ value rest =>
    have before := scanned.separated separated
    exact List.forall_mem_cons.mpr ⟨value before, rest (before.onward valueReads.onward)⟩

end Reading
end ColonScript
