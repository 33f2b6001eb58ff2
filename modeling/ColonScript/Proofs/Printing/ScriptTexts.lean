import ColonScript.Proofs.Printing.ScriptTokens
import ColonScript.Proofs.Printing.Sourced
import ColonScript.Proofs.Printing.TypeTexts

/-! The text of a script that has been read is cut into its tokens. What a statement is made of is
spelled as a script can spell it, so that each lexeme of the text is one token again; statements
stand a blank or a line apart. -/

namespace ColonScript

open Token Text Spelling

/-! Parts of statements. -/

namespace Token

theorem chunk_keyword (constant : Bool) : Chunk (keyword constant).toList [ofKeyword constant] := by
  cases constant with
  | false => exact .reserved "var" (by decide) (by decide)
  | true => exact .reserved "const" (by decide) (by decide)

theorem chunk_annotated {name : String} {type : Ty} (isName : IsName name)
    (written : type.Written) :
    Chunk (name.toList ++ ':' :: ' ' :: type.text.toList) (annotated name type) :=
  (Chunk.name isName).labelled written.chunk

theorem chunk_declared (constant : Bool) {name : String} {type : Ty} (isName : IsName name)
    (written : type.Written) :
    Chunk ((keyword constant).toList ++ ' ' :: (name.toList ++ ':' :: ' ' :: type.text.toList))
      (ofKeyword constant :: annotated name type) :=
  (chunk_keyword constant).spaced (chunk_annotated isName written)

/-- The first of several parts begins them all. -/
theorem chunk_listed {texts : List String} {tokens : List (List Spelling)}
    (chunks : List.Forall₂ (fun text => Chunk text.toList) texts tokens) (filled : texts ≠ []) :
    Chunk (listed texts).toList (Spelling.listed tokens) := by
  refine ⟨?_, cutInto_listed chunks⟩
  cases chunks with
  | nil => exact absurd rfl filled
  | @cons text _ texts _ first _ =>
    cases texts with
    | nil => exact first.begins
    | cons =>
      obtain ⟨c, rest, same, begins⟩ := first.begins_append _
      exact ⟨c, rest, by simpa [Text.listed, joined] using same, begins⟩

theorem chunks_map {α : Type} {text : α → String} {tokens : α → List Spelling} {as : List α}
    (each : ∀ a ∈ as, Chunk (text a).toList (tokens a)) :
    List.Forall₂ (fun text => Chunk text.toList) (as.map text) (as.map tokens) := by
  induction as with
  | nil => exact .nil
  | cons a rest ih =>
    obtain ⟨first, later⟩ := List.forall_mem_cons.mp each
    exact .cons first (ih later)

theorem isInfix_assign : IsInfix "=" := ⟨.assign, by decide⟩

/-- What stands in parentheses between the colons of a statement, with the keyword in front. -/
theorem chunk_headed {word text body : List Char} {first : Spelling} {inner tokens : List Spelling}
    (opens : Chunk word [first]) (inside : CutInto text inner) (block : Chunk body tokens) :
    Chunk (word ++ ':' :: ' ' :: '(' :: (text ++ ')' :: ':' :: ' ' :: body))
      (first :: (headed inner ++ tokens)) := by
  have whole := (opens.labelled inside.parens).labelled block
  simpa [headed] using whole

end Token

theorem Declaration.chunk {declaration : Declaration} (name : IsName declaration.name)
    (type : declaration.type.Written) (value : declaration.value.Spelled) :
    Chunk declaration.text.toList declaration.tokens := by
  have whole := (chunk_declared declaration.constant name type).operated isInfix_assign value.chunk
  have mark : Spelling.mark "=" = (.assign, "=") := rfl
  simpa [text, tokens, headTokens, mark] using whole

theorem Parameter.chunk {parameter : Parameter} (name : IsName parameter.name)
    (type : parameter.type.Written) :
    Chunk (parameter.name ++ ": " ++ parameter.type.text).toList parameter.tokens := by
  simpa [tokens] using chunk_annotated name type

theorem Expr.chunks_spelled {values : List Expr} (spelled : ∀ value ∈ values, value.Spelled) :
    List.Forall₂ (fun text => Chunk text.toList) (texts values) (tokensOf values) :=
  chunks_texts fun value member => (spelled value member).chunk

structure Signature.Spelled (signature : Signature) : Prop where
  name : IsName signature.name
  parameters : ∀ parameter ∈ signature.parameters, IsName parameter.name ∧ parameter.type.Written
  results : ∀ type ∈ signature.results, type.Written

theorem Signature.Spelled.chunk {signature : Signature} (spelled : signature.Spelled) :
    Chunk signature.text.toList signature.tokens := by
  have parameters := (cutInto_listed (chunks_map fun parameter member =>
    Parameter.chunk (spelled.parameters parameter member).1
    (spelled.parameters parameter member).2)).parens
  have results :=
    (cutInto_listed (chunks_map fun type member => (spelled.results type member).chunk)).parens
  have front := (Chunk.name spelled.name).append parameters (Expr.ends_parens _)
  unfold text tokens resultTokens
  split
  next => simpa using front
  next => simpa using front.labelled results

namespace Reading
open Token (Kind)

variable {s s' : Session}

theorem Receiver.Spelled.chunk {found : Receiver} (spelled : found.Spelled) :
    Chunk found.target.text.toList found.target.tokens := by
  cases found with
  | declared found =>
    have head : Chunk _ (ofKeyword found.constant :: annotated found.name found.type) :=
      chunk_declared _ spelled.name spelled.type
    simpa [target, Target.text, Target.tokens] using head
  | existing name type => exact .name spelled.name

/-! Statements that hold no other. -/

theorem chunk_declarationRest {found : Head} {declaration : Declaration}
    (head : (Receiver.declared found).Spelled)
    (run : declarationRest found s = .ok declaration s') (sourced : Sourced s) :
    Chunk declaration.text.toList declaration.tokens := by
  obtain ⟨value, s₁, scopes, given, _, _, rfl, _⟩ := ok_declarationRest.mp run
  refine Declaration.chunk head.name head.type ?_
  obtain ⟨_, default⟩ | ⟨_, given⟩ := given
  · obtain ⟨_, known, _⟩ := ok_defaultValue.mp default
    exact spelled_of_defaultValue head.type known
  · obtain ⟨_, value, _, both, _, reads, _, _, rfl, _⟩ := ok_givenValue.mp given
    exact (sourced.next.expr reads).1.settle both

theorem spelled_of_fitted {pool pool' : Ty.Pool} {wanted types : List Ty}
    {values settled : List Expr} (singles : Singles values types)
    (fitted : Fitted pool wanted (values.zip types) settled pool')
    (spelled : ∀ value ∈ values, value.Spelled) : ∀ value ∈ settled, value.Spelled :=
  (settled_of_fitted fitted singles).each (fun type _ => (·.settle type)) spelled

theorem filled_of_separated {values : List (Expr × Position)}
    (run : separated (placed expression) s = .ok values s') :
    values ≠ [] := by
  obtain ⟨first, rest, _, _, _, rfl⟩ := (ok_separated advances_placed).mp run
  exact List.cons_ne_nil first rest

theorem spelled_of_distributed {receivers : List Receiver} {values settled : List Expr}
    (distributed : Distributed s receivers values settled s') (filled : values ≠ [])
    (spelled : ∀ value ∈ values, value.Spelled) :
    (∀ value ∈ settled, value.Spelled) ∧ settled ≠ [] := by
  cases distributed with
  | each _ singles fitted =>
    refine ⟨spelled_of_fitted singles fitted spelled, ?_⟩
    rintro rfl
    cases settled_of_fitted fitted singles
    exact filled rfl
  | results => exact ⟨spelled, filled⟩

theorem chunk_multipleRest {first : Receiver} {st : Stmt} (spelled : first.Spelled)
    (run : multipleRest first s = .ok st s') (sourced : Sourced s) :
    Chunk st.text.toList st.tokens := by
  obtain ⟨others, values, settled, scopes, s₁, s₂, s₃, receivers, _, given, _,
    distributed, _, rfl, _⟩ :=
    ok_multipleRest.mp run
  obtain ⟨othersSpelled, between⟩ := sourced.receivers receivers
  obtain ⟨valuesSpelled, _⟩ := between.next.values given
  obtain ⟨settledSpelled, filled⟩ :=
    spelled_of_distributed distributed (by simpa using filled_of_separated given)
    valuesSpelled
  have targets : ∀ found ∈ first :: others, Chunk found.target.text.toList found.target.tokens := by
    intro found member
    exact ((List.forall_mem_cons.mpr ⟨spelled, othersSpelled⟩) found member).chunk
  have left := chunk_listed (chunks_map targets) (by simp)
  have right := chunk_listed (Expr.chunks_spelled settledSpelled)
    (by cases settled <;> simp_all [Expr.texts])
  have whole := (left.operated isInfix_assign right).ended
  have mark : Spelling.mark "=" = (.assign, "=") := rfl
  simpa [Stmt.text, Stmt.tokens, mark, Function.comp_def] using whole

theorem chunk_expressionStatement {st : Stmt} (run : expressionStatement s = .ok st s')
    (sourced : Sourced s) :
    Chunk st.text.toList st.tokens := by
  obtain ⟨_, found, s₁, exists', rest⟩ | ⟨_, e, s₁, reads, _, _, rfl, _⟩ :=
    ok_expressionStatement.mp run
  · obtain ⟨spelled, between⟩ := sourced.existing exists'
    exact chunk_multipleRest spelled rest between
  · simpa [Stmt.text, Stmt.tokens] using (sourced.expr reads).1.chunk.ended

theorem chunk_declarationStatement {st : Stmt} (run : declarationStatement s = .ok st s')
    (sourced : Sourced s) :
    Chunk st.text.toList st.tokens := by
  obtain ⟨found, s₁, heads, ⟨_, rest⟩ | ⟨_, declaration, rest, rfl⟩⟩ :=
    ok_declarationStatement.mp run
  · obtain ⟨spelled, between⟩ := sourced.head heads
    exact chunk_multipleRest spelled rest between
  · obtain ⟨spelled, between⟩ := sourced.head heads
    simpa [Stmt.text, Stmt.tokens] using (chunk_declarationRest spelled rest between).ended

theorem chunk_returnStatement {st : Stmt} (run : returnStatement s = .ok st s')
    (sourced : Sourced s) :
    Chunk st.text.toList st.tokens := by
  obtain ⟨function, values, s₁, _, given, _, _, types, settled, pool, singles, fitted, rfl, _⟩ :=
    ok_returnStatement.mp run
  have spelled : ∀ value ∈ values.map (·.1), value.Spelled := by
    rcases given with ⟨_, rfl, _⟩ | ⟨_, given⟩
    · simp
    · obtain ⟨_, ⟨_, s₂, list, _, _⟩ | ⟨_, e, reads, _, rfl⟩⟩ := ok_givenResults.mp given
      · exact (sourced.next.next.next.values list).1
      · simpa using (sourced.next.next.expr reads).1
  have spelled := spelled_of_fitted singles fitted spelled
  have keyword : Chunk "return".toList [(.returnWord, "return")] :=
    .reserved "return" (by decide) (by decide)
  match settled, spelled with
  | [], _ => simpa [Stmt.text, Stmt.tokens, Expr.returnedTokens] using keyword.ended
  | [value], spelled =>
    have value := (spelled value List.mem_cons_self).chunk
    simpa [Stmt.text, Stmt.tokens, Expr.returnedTokens] using (keyword.labelled value).ended
  | first :: second :: rest, spelled =>
    have values := (cutInto_listed (Expr.chunks_spelled spelled)).parens
    simpa [Stmt.text, Stmt.tokens, Expr.returnedTokens] using (keyword.labelled values).ended

theorem chunk_loopControl {st : Stmt} (run : loopControl s = .ok st s') :
    Chunk st.text.toList st.tokens := by
  obtain ⟨_, _, rfl, _⟩ := ok_loopControl.mp run
  split
  next => exact (Chunk.reserved "continue" (by decide) (by decide)).ended
  next => exact (Chunk.reserved "break" (by decide) (by decide)).ended

/-! The heads of the others. -/

theorem spelled_of_heads {signature : Signature} (sourced : Sourced s)
    (heads : Heads s signature s') :
    signature.Spelled := by
  obtain ⟨written, _⟩ := kept_of_heads heads sourced.kept
  obtain ⟨_, _, name, read, _⟩ := heads
  obtain ⟨_, s₁, list, _, rfl⟩ := ok_parameters.mp read
  have step : ∀ ⦃s found s'⦄, parameter s = .ok found s' → Sourced s → IsName found.name ∧
    Sourced s' := by
    intro s found s' run sourced
    obtain ⟨name, _, type, reads, rfl⟩ := ok_parameter.mp run
    exact ⟨sourced.isName name, (sourced.next.next.type reads).2⟩
  obtain ⟨names, _⟩ :=
    list.each (I := Sourced) (fun _ => Sourced.next) step sourced.next.next.next.next
  refine ⟨sourced.next.next.isName name, fun parameter member => ?_, written.results⟩
  exact ⟨names parameter member, written.parameters parameter member⟩

theorem chunk_startOfLoop {start : Start} (run : startOfLoop s = .ok start s')
    (sourced : Sourced s) :
    Chunk start.text.toList start.tokens := by
  obtain ⟨_, found, declaration, s₁, heads, _, rest, rfl⟩ |
    ⟨_, target, value, type, s₁, reads, _, _, rfl, _⟩ :=
    ok_startOfLoop.mp run
  · obtain ⟨spelled, between⟩ := sourced.head heads
    exact chunk_declarationRest spelled rest between
  · exact (sourced.expr reads).1.chunk

theorem chunk_loopHeader {start : Start} {condition update : Expr}
    (run : loopHeader s = .ok (start, condition, update) s') (sourced : Sourced s) :
    Chunk (start.text ++ "; " ++ condition.text ++ "; " ++ update.text).toList
      (start.headerTokens condition update) := by
  obtain ⟨s₁, s₂, begins, conditionReads, _, _, updateReads, _⟩ := ok_loopHeader.mp run
  obtain ⟨conditionSpelled, between⟩ := (sourced.startOfLoop begins).expr conditionReads
  obtain ⟨updateSpelled, _⟩ := between.next.expr updateReads
  have whole := (chunk_startOfLoop begins sourced).sequenced
    (conditionSpelled.chunk.sequenced updateSpelled.chunk)
  simpa [Start.headerTokens] using whole

/-! Blocks. -/

structure Rows (text : List Char) (tokens : List Spelling) : Prop where
  stops : ∀ ⦃cs⦄, ClearOf isBlank cs → ClearOf isBlank (text ++ cs)
  cuts : ∀ ⦃cs more⦄, Cuts cs more → ClearOf isBlank cs → Cuts (text ++ cs) (tokens ++ more)

structure Trails (text : List Char) (tokens : List Spelling) : Prop where
  ends : ∀ ⦃cs⦄, Ends cs → Ends (text ++ cs)
  cuts : CutInto text tokens

section
variable {text other : List Char} {tokens tokens' : List Spelling} {c : Char}

theorem ends_of_isBlank (blank : isBlank c = true) (cs : List Char) : Ends (c :: cs) := by
  refine .cons ?_
  rw [isWordRest_of_isBlank blank, Bool.false_or]
  refine decide_eq_false ?_
  rintro rfl
  cases blank

theorem Rows.nil : Rows [] [] := ⟨fun _ stops => stops, fun _ _ behind _ => behind⟩

theorem Rows.cons (first : Chunk text tokens) (blank : isBlank c = true)
    (rest : Rows other tokens') :
    Rows (text ++ c :: other) (tokens ++ tokens') := by
  refine ⟨fun cs _ => ?_, fun cs more behind stops => ?_⟩
  · simpa using first.stops (c :: (other ++ cs))
  · have later := (rest.cuts behind stops).gap blank (rest.stops stops)
    simpa using first.cuts later (ends_of_isBlank blank _)

theorem Rows.curlies (rows : Rows text tokens) :
    Chunk ('\x7b' :: ' ' :: (text ++ ['\x7d'])) (Spelling.curlies tokens) := by
  refine ⟨⟨'\x7b', _, rfl, by decide⟩, fun cs more behind _ => ?_⟩
  have closed : ClearOf isBlank ('\x7d' :: cs) := .cons (by decide)
  have cut := ((rows.cuts behind.closeCurly closed).blank (rows.stops closed)).openCurly
  simpa [Spelling.curlies] using cut

theorem Trails.nil : Trails [] [] := ⟨fun _ ends => ends, CutInto.nil⟩

theorem Trails.elseIf {condition body : List Char} {inner block : List Spelling}
    (inside : CutInto condition inner) (first : Chunk body block) (rest : Trails other tokens') :
    Trails ([' ', 'e', 'l', 's', 'e', ' ', 'i', 'f', ':', ' ', '('] ++
      (condition ++ ')' :: ':' :: ' ' :: (body ++ other)))
      ((.elseIfWord, "else if") :: (headed inner ++ (block ++ tokens'))) := by
  refine ⟨fun cs _ => ends_of_isBlank rfl _, fun cs more behind ends => ?_⟩
  have clause := inside.parens.labelled first
  have later := (clause.cuts (rest.cuts behind ends) (rest.ends ends)).blank (clause.stops _)
  simpa [headed, parens] using later.elseIfColon.blank (.cons (by decide))

theorem Trails.else {body : List Char} {block : List Spelling} (first : Chunk body block) :
    Trails ([' ', 'e', 'l', 's', 'e', ':', ' '] ++ body)
      ((.elseWord, "else") :: (.colon, ":") :: block) := by
  refine ⟨fun cs _ => ends_of_isBlank rfl _, fun cs more behind ends => ?_⟩
  have later := (first.cuts behind ends).blank (first.stops cs)
  simpa using later.elseColon.blank (.cons (by decide))

end

theorem blockText_eq (body : List Stmt) :
    Stmt.blockText body = "\x7b " ++ Stmt.statementsText body ++ "\x7d" := by
  cases body with
  | nil => rfl
  | cons st rest => simp [Stmt.blockText, Stmt.statementsText, String.append_assoc]

def otherwiseText : Option Block → String
  | none => ""
  | some body => " else: " ++ Stmt.blockText body

theorem branchText_eq (condition : Expr) (body : Block) (clauses : List (Expr × Block))
    (last : Option Block) :
    (Stmt.branch condition body clauses last).text = "if: (" ++ condition.text ++ "): " ++
      Stmt.blockText body ++ Stmt.elseIfsText clauses ++ otherwiseText last := by
  cases last <;> rfl

/-- What the text of a part of a script is cut into. -/
def Sentence.Cut : Sentence → Prop
  | .stmt st => Chunk st.text.toList st.tokens
  | .block body => Chunk (Stmt.blockText body).toList (curlies (Block.tokens body))
  | .statements body => Rows (Stmt.statementsText body).toList (Block.tokens body)
  | .clauses rest => Trails (Stmt.elseIfsText rest).toList (Block.tokensOf rest)
  | .otherwise last => Trails (otherwiseText last).toList (Block.tokensIn last)
  | .script body => Rows (Stmt.linesText body).toList (Block.tokens body)

theorem cut_of_performs {sentence : Sentence} (performs : Performs s sentence s')
    (sourced : Sourced s) :
    sentence.Cut := by
  have funKeyword : Chunk "fun".toList [(.funWord, "fun")] :=
    .reserved "fun" (by decide) (by decide)
  have ifKeyword : Chunk "if".toList [(.ifWord, "if")] := .reserved "if" (by decide) (by decide)
  have forKeyword : Chunk "for".toList [(.forWord, "for")] :=
    .reserved "for" (by decide) (by decide)
  have whileKeyword : Chunk "while".toList [(.whileWord, "while")] :=
    .reserved "while" (by decide) (by decide)
  induction performs with
  | expression _ _ read => exact chunk_expressionStatement read sourced
  | declaration _ _ read => exact chunk_declarationStatement read sourced
  | returning _ _ read => exact chunk_returnStatement read sourced
  | control _ _ read => exact chunk_loopControl read
  | forward _ form heads =>
    have signature := (spelled_of_heads sourced heads).chunk
    have whole := (funKeyword.labelled signature).ended
    simpa [Sentence.Cut, Stmt.text, Stmt.tokens] using whole
  | define _ form heads _ registered declared _ _ body =>
    have signature := (spelled_of_heads sourced heads).chunk
    have block := body (sourced.body heads (kind_of_function form) registered declared)
    have whole := (funKeyword.labelled signature).spaced block
    simpa [Sentence.Cut, Stmt.text, Stmt.tokens] using whole
  | branch _ _ _ read inside others _ body clauses last =>
    obtain ⟨condition, before⟩ := sourced.next.condition read
    have opened := before.push
    have closed := before.pop (opened.performs inside) (forward_of_performs inside).place
    have block := body opened
    have front := chunk_headed ifKeyword condition.chunk.cuts block
    have middle : Trails _ _ := clauses closed
    have final : Trails _ _ := last (closed.performs others)
    have whole := (front.followed middle.cuts middle.ends).followed final.cuts final.ends
    rw [Sentence.Cut, branchText_eq]
    simpa [Stmt.tokens] using whole
  | forLoop _ _ _ _ _ header _ _ _ body =>
    have before := sourced.next.next.next.push.loopHeader header
    have inner := (chunk_loopHeader header sourced.next.next.next.push).cuts
    have whole := chunk_headed forKeyword inner (body before.next.next.looping)
    simpa [Sentence.Cut, Stmt.text, Stmt.tokens] using whole
  | whileLoop _ _ _ read _ body =>
    obtain ⟨condition, before⟩ := sourced.next.condition read
    have whole := chunk_headed whileKeyword condition.chunk.cuts
      (body before.looping.push)
    simpa [Sentence.Cut, Stmt.text, Stmt.tokens] using whole
  | block _ _ _ inside =>
    have rows : Rows _ _ := inside sourced.next
    simpa [Sentence.Cut, blockText_eq] using rows.curlies
  | noStatements | noScript => exact Rows.nil
  | noClauses | noOtherwise => exact Trails.nil
  | statements _ _ first _ firstCut restCut =>
    have whole := Rows.cons (c := ' ') (firstCut sourced) rfl (restCut (sourced.performs first))
    simpa [Sentence.Cut, Stmt.statementsText, Block.tokens] using whole
  | script _ first _ firstCut restCut =>
    have whole := Rows.cons (c := '\n') (firstCut sourced) rfl (restCut (sourced.performs first))
    simpa [Sentence.Cut, Stmt.linesText, Block.tokens] using whole
  | clauses _ read inside _ body rest =>
    obtain ⟨condition, before⟩ := sourced.next.condition read
    have opened := before.push
    have closed := before.pop (opened.performs inside) (forward_of_performs inside).place
    have whole := Trails.elseIf condition.chunk.cuts (body opened) (rest closed)
    simpa [Sentence.Cut, Stmt.elseIfsText, Block.tokensOf] using whole
  | otherwise _ _ _ body =>
    have whole := Trails.else (body sourced.next.next.push)
    simpa [Sentence.Cut, otherwiseText, Block.tokensIn] using whole

end Reading

end ColonScript
