import ColonScript.Proofs.Printing.Spelled

/-! The text of an expression is cut into its tokens, in front of anything that does not carry on
with its last lexeme. -/

namespace ColonScript

namespace Token
open Text Spelling

def Ends (cs : List Char) : Prop := ClearOf (fun c => isWordRest c || c = '.') cs

namespace Ends
variable {cs : List Char}

theorem cons {c : Char} (other : (isWordRest c || c = '.') = false) : Ends (c :: cs) :=
  ClearOf.cons other

theorem word (ends : Ends cs) : ClearOf isWordRest cs :=
  ends.mono fun c inside => by rw [inside]; rfl

theorem digit (ends : Ends cs) : ClearOf Char.isDigit cs :=
  ends.word.mono fun _ => isWordRest_of_isDigit

theorem point (ends : Ends cs) : ClearOf (· = '.') cs :=
  ends.mono fun c is => by rw [is, Bool.or_true]

end Ends

/-- The text is cut into the tokens, whatever it stands in front of. -/
def CutInto (text : List Char) (tokens : List Spelling) : Prop :=
  ∀ ⦃cs more⦄, Cuts cs more → Ends cs → Cuts (text ++ cs) (tokens ++ more)

structure Chunk (text : List Char) (tokens : List Spelling) : Prop where
  begins : ∃ c rest, text = c :: rest ∧ isBlank c = false ∧ c ≠ '-' ∧ c ≠ '='
  cuts : CutInto text tokens

theorem CutInto.nil : CutInto [] [] := fun _ _ behind _ => behind

/-! Lexemes. -/

namespace Chunk
variable {text other : List Char} {tokens tokens' : List Spelling}

theorem stops (chunk : Chunk text tokens) (cs : List Char) : ClearOf isBlank (text ++ cs) := by
  obtain ⟨c, rest, rfl, noBlank, _⟩ := chunk.begins
  exact .cons noBlank

theorem begins_append (chunk : Chunk text tokens) (more : List Char) :
    ∃ c rest, text ++ more = c :: rest ∧ isBlank c = false ∧ c ≠ '-' ∧ c ≠ '=' := by
  obtain ⟨c, rest, rfl, begins⟩ := chunk.begins
  exact ⟨c, rest ++ more, rfl, begins⟩

/-- What begins like a word or a number. -/
theorem of_wordRest {c : Char} {rest : List Char} (inside : isWordRest c = true)
    (cuts : CutInto (c :: rest) tokens) :
    Chunk (c :: rest) tokens := by
  refine ⟨⟨c, rest, rfl, isBlank_of_isWordRest inside, ?_, ?_⟩, cuts⟩
  all_goals
    rintro rfl
    cases inside

theorem word {word : String} (isWord : IsWord word) (noElse : word ≠ "else") :
    Chunk word.toList [(wordKind word, word)] := by
  have cuts : CutInto word.toList [(wordKind word, word)] :=
    fun _ _ behind ends => behind.word isWord ends.word noElse
  obtain ⟨c, rest, start, _, spelled⟩ := isWord
  rw [spelled] at cuts ⊢
  exact of_wordRest (isWordRest_of_isWordStart start) cuts

theorem name {name : String} (isName : IsName name) : Chunk name.toList [(.identifier, name)] := by
  obtain ⟨isWord, kind⟩ := isName
  rw [← kind]
  refine word isWord ?_
  rintro rfl
  cases kind

theorem digits (is : Decimal.IsDigits text) : Chunk text [(.integer, String.ofList text)] := by
  have cuts : CutInto text [(.integer, String.ofList text)] :=
    fun _ _ behind ends => behind.digits is ends.digit ends.point
  obtain ⟨d, ds, rfl⟩ := List.exists_cons_of_ne_nil is.1
  exact of_wordRest (isWordRest_of_isDigit (is.2 d List.mem_cons_self)) cuts

theorem decimal (is : Decimal.IsDecimal text) : Chunk text [(.float, String.ofList text)] := by
  have cuts : CutInto text [(.float, String.ofList text)] :=
    fun _ _ behind ends => behind.decimal is ends.digit
  obtain ⟨whole, part, ⟨filled, each⟩, _, rfl⟩ := is
  obtain ⟨d, ds, rfl⟩ := List.exists_cons_of_ne_nil filled
  exact of_wordRest (isWordRest_of_isDigit (each d List.mem_cons_self)) cuts

theorem string {text : String} (noQuote : '"' ∉ text.toList) :
    Chunk ('"' :: (text.toList ++ ['"'])) [(.string, text)] := by
  refine ⟨⟨'"', _, rfl, by decide⟩, fun cs more behind _ => ?_⟩
  simpa using behind.string noQuote

theorem char {text : String} (single : IsSingle text) :
    Chunk ('\'' :: (text.toList ++ ['\''])) [(.char, text)] := by
  refine ⟨⟨'\'', _, rfl, by decide⟩, fun cs more behind _ => ?_⟩
  simpa using behind.char single

theorem reserved (word : String) {kind : Kind} (member : (word, kind) ∈ reservedWords)
    (noElse : word ≠ "else") :
    Chunk word.toList [(kind, word)] := by
  have words : ∀ pair ∈ reservedWords, pair.1.toList.head?.any isWordStart = true ∧
      pair.1.toList.tail.all isWordRest = true ∧ wordKind pair.1 = pair.2 := by decide
  obtain ⟨first, later, same⟩ := words _ member
  obtain ⟨c, head, start⟩ := (Option.any_eq_true _ _).mp first
  obtain rfl : wordKind word = kind := same
  exact .word ⟨c, word.toList.tail, start, List.all_eq_true.mp later,
    (List.cons_head?_tail head).symm⟩ noElse

/-! What is put together. -/

/-- The second does not carry on with the last lexeme of the first. -/
theorem followed (first : Chunk text tokens) (second : CutInto other tokens')
    (ends : ∀ ⦃cs⦄, Ends cs → Ends (other ++ cs)) : Chunk (text ++ other) (tokens ++ tokens') := by
  refine ⟨first.begins_append other, fun cs more behind after => ?_⟩
  rw [List.append_assoc, List.append_assoc]
  exact first.cuts (second behind after) (ends after)

theorem append (first : Chunk text tokens) (second : Chunk other tokens')
    (ends : ∀ cs, Ends (other ++ cs)) :
    Chunk (text ++ other) (tokens ++ tokens') := first.followed second.cuts fun cs _ => ends cs

/-- A colon between the two. -/
theorem labelled (first : Chunk text tokens) (second : Chunk other tokens') :
    Chunk (text ++ ':' :: ' ' :: other) (tokens ++ (.colon, ":") :: tokens') := by
  refine ⟨first.begins_append _, fun cs more behind ends => ?_⟩
  have label := ((second.cuts behind ends).blank (second.stops cs)).colon
  simpa using first.cuts label (.cons (by decide))

/-- A blank between the two. -/
theorem spaced (first : Chunk text tokens) (second : Chunk other tokens') :
    Chunk (text ++ ' ' :: other) (tokens ++ tokens') := by
  refine ⟨first.begins_append _, fun cs more behind ends => ?_⟩
  simpa using first.cuts ((second.cuts behind ends).blank (second.stops cs)) (.cons (by decide))

/-- A semicolon between the two. -/
theorem sequenced (first : Chunk text tokens) (second : Chunk other tokens') :
    Chunk (text ++ ';' :: ' ' :: other) (tokens ++ (.semicolon, ";") :: tokens') := by
  refine ⟨first.begins_append _, fun cs more behind ends => ?_⟩
  simpa using first.cuts ((second.cuts behind ends).blank (second.stops cs)).semicolon
    (.cons (by decide))

/-- A semicolon at the end. -/
theorem ended (chunk : Chunk text tokens) :
    Chunk (text ++ [';']) (tokens ++ [(.semicolon, ";")]) := by
  refine ⟨chunk.begins_append _, fun cs more behind _ => ?_⟩
  simpa using chunk.cuts behind.semicolon (.cons (by decide))

end Chunk

namespace CutInto
variable {text : List Char} {tokens : List Spelling}

theorem parens (inner : CutInto text tokens) :
    Chunk ('(' :: (text ++ [')'])) (Spelling.parens tokens) := by
  refine ⟨⟨'(', _, rfl, by decide⟩, fun cs more behind _ => ?_⟩
  simpa [Spelling.parens] using (inner behind.closeParen (.cons (by decide))).openParen

theorem brackets (inner : CutInto text tokens) :
    Chunk ('[' :: (text ++ [']'])) (Spelling.brackets tokens) := by
  refine ⟨⟨'[', _, rfl, by decide⟩, fun cs more behind _ => ?_⟩
  simpa [Spelling.brackets] using (inner behind.closeBracket (.cons (by decide))).openBracket

theorem curlies (inner : CutInto text tokens) :
    Chunk ('\x7b' :: (text ++ ['\x7d'])) (Spelling.curlies tokens) := by
  refine ⟨⟨'\x7b', _, rfl, by decide⟩, fun cs more behind _ => ?_⟩
  simpa [Spelling.curlies] using (inner behind.closeCurly (.cons (by decide))).openCurly

end CutInto

def Rule.visible : Rule → Bool
  | .mark _ text => text.toList.head?.all fun c => !isBlank c
  | _ => true

theorem stops_of_mark {kind : Kind} {text : String} (member : Rule.mark kind text ∈ Rule.all)
    (cs : List Char) :
    ClearOf isBlank (text.toList ++ ' ' :: cs) := by
  have visible : ∀ rule ∈ Rule.all, rule.visible = true := by decide
  have first : text.toList.head?.all (fun c => !isBlank c) = true := visible _ member
  obtain ⟨c, rest, spelled⟩ := List.exists_cons_of_ne_nil (mark_spelled member).2
  rw [spelled] at first ⊢
  exact .cons (by simpa using first)

/-- Two chunks with an operator between them. -/
theorem Chunk.operated {left right : List Char} {operator : String} {tokens tokens' : List Spelling}
    (first : Chunk left tokens) (mark : IsInfix operator) (second : Chunk right tokens') :
    Chunk (left ++ ' ' :: (operator.toList ++ ' ' :: right))
      (tokens ++ Spelling.mark operator :: tokens') := by
  obtain ⟨kind, member⟩ := mark
  refine ⟨first.begins_append _, fun cs more behind ends => ?_⟩
  have operand := (second.cuts behind ends).blank (second.stops cs)
  have sign := (operand.spaced member).blank (stops_of_mark member _)
  rw [Spelling.mark_eq member]
  simpa using first.cuts sign (.cons (by decide))

/-- Chunks with commas between them. -/
theorem cutInto_listed {texts : List String} {tokens : List (List Spelling)}
    (chunks : List.Forall₂ (fun text => Chunk text.toList) texts tokens) :
    CutInto (listed texts).toList (Spelling.listed tokens) := by
  induction chunks with
  | nil => exact CutInto.nil
  | @cons text own texts tokens chunk chunks ih =>
    cases chunks with
    | nil => simpa [Text.listed, joined, Spelling.listed, afterCommas] using chunk.cuts
    | @cons next own' texts tokens chunk' chunks =>
      intro cs more behind ends
      have rest := ih behind ends
      have spelled : (listed (text :: next :: texts)).toList ++ cs =
          text.toList ++ ',' :: ' ' :: ((listed (next :: texts)).toList ++ cs) := by
        simp [Text.listed, joined]
      have noBlank : ClearOf isBlank ((listed (next :: texts)).toList ++ cs) := by
        cases texts with
        | nil => exact chunk'.stops cs
        | cons =>
          simp only [Text.listed, joined, String.toList_append, List.append_assoc]
          exact chunk'.stops _
      have cut := chunk.cuts (rest.blank noBlank).comma (.cons (by decide))
      rw [spelled]
      simpa [Spelling.listed, afterCommas] using cut

end Token

open Token Text

namespace Expr

theorem chunk_asOperand {e : Expr} (chunk : Chunk e.text.toList e.tokens) :
    Chunk (asOperand e e.text).toList (operandTokens e e.tokens) := by
  cases e with
  | assign => simpa [asOperand, operandTokens] using chunk.cuts.parens
  | _ => exact chunk

theorem chunk_float {value : Decimal.Binary64} {source : List Char}
    (decimal : Decimal.IsDecimal source) (read : Decimal.Binary64.read? source = some value) :
    Chunk value.text value.tokens := by
  rcases Decimal.Binary64.read?_cases decimal read with rfl | ⟨m, k, rfl, canonical⟩
  · have isWord : IsWord "inf" := ⟨_, _, rfl, List.all_eq_true.mp rfl, rfl⟩
    refine ⟨⟨'i', _, rfl, by decide⟩, fun cs more behind ends => ?_⟩
    have zero := (Chunk.digits Decimal.Binary64.isDigits_zero).cuts behind ends
    exact zero.dot.word isWord (.cons (by decide)) (by decide)
  · exact .decimal (Decimal.Binary64.writes_text canonical).1

theorem chunk_bool (value : Bool) :
    Chunk (if value then "true" else "false").toList
      [(.bool, if value then "true" else "false")] := by
  have isWord : ∀ value : Bool, IsWord (if value then "true" else "false")
    | true => ⟨_, _, rfl, List.all_eq_true.mp rfl, rfl⟩
    | false => ⟨_, _, rfl, List.all_eq_true.mp rfl, rfl⟩
  have kind : wordKind (if value then "true" else "false") = .bool := by cases value <;> rfl
  rw [← kind]
  exact .word (isWord value) (by cases value <;> decide)

theorem cutInto_unary {operator : String} {text : List Char} {tokens : List Spelling}
    (is : operator = "-" ∨ operator = "!") (operand : Chunk text tokens) :
    CutInto (operator.toList ++ text) (Spelling.mark operator :: tokens) := by
  intro cs more behind ends
  obtain ⟨c, rest, rfl, _, noMinus, noAssign⟩ := operand.begins
  have cut := operand.cuts behind ends
  rcases is with rfl | rfl
  · exact cut.minus noMinus noAssign
  · exact cut.not noAssign

theorem chunk_step {operator : String} {text : List Char} {tokens : List Spelling}
    (is : operator = "++" ∨ operator = "--") (operand : Chunk text tokens) :
    Chunk ('(' :: (text ++ operator.toList ++ [')']))
      (Spelling.parens (tokens ++ [Spelling.mark operator])) := by
  refine ⟨⟨'(', _, rfl, by decide⟩, fun cs more behind _ => ?_⟩
  rcases is with rfl | rfl
  · have mark : Spelling.mark "++" = (.plusPlus, "++") := rfl
    simpa [Spelling.parens, mark] using (operand.cuts behind.closeParen.plusPlus
      (.cons (by decide))).openParen
  · have mark : Spelling.mark "--" = (.minusMinus, "--") := rfl
    simpa [Spelling.parens, mark] using (operand.cuts behind.closeParen.minusMinus
      (.cons (by decide))).openParen

theorem chunks_texts {es : List Expr} (each : ∀ e ∈ es, Chunk e.text.toList e.tokens) :
    List.Forall₂ (fun text => Chunk text.toList) (texts es) (tokensOf es) := by
  induction es with
  | nil => exact .nil
  | cons e rest ih =>
    obtain ⟨first, later⟩ := List.forall_mem_cons.mp each
    exact .cons first (ih later)

theorem chunks_pairTexts {pairs : List (Expr × Expr)}
    (each : ∀ pair ∈ pairs, Chunk (pair.1.text ++ ": " ++ pair.2.text).toList
      (pair.1.tokens ++ (.colon, ":") :: pair.2.tokens)) :
    List.Forall₂ (fun text => Chunk text.toList) (pairTexts pairs) (tokensOfPairs pairs) := by
  induction pairs with
  | nil => exact .nil
  | cons pair rest ih =>
    obtain ⟨first, later⟩ := List.forall_mem_cons.mp each
    exact .cons first (ih later)

theorem ends_brackets (text cs : List Char) : Ends ('[' :: (text ++ [']']) ++ cs) :=
  .cons (by decide)

theorem ends_parens (text cs : List Char) : Ends ('(' :: (text ++ [')']) ++ cs) := .cons (by decide)

/-- What is spelled is written in lexemes. -/
theorem Spelled.chunk {e : Expr} (spelled : e.Spelled) : Chunk e.text.toList e.tokens := by
  induction spelled with
  | name isName => exact .name isName
  | @integer value type literal =>
    have digits := Chunk.digits (Decimal.isDigits_toDigits value.toNat)
    rw [← Decimal.toList_toString literal.nonneg, String.ofList_toList] at digits
    exact digits
  | float decimal read => simpa [text, tokens] using chunk_float decimal read
  | bool => exact chunk_bool _
  | string noQuote => simpa [text, tokens] using Chunk.string noQuote
  | char single => simpa [text, tokens] using Chunk.char single
  | array _ ih => simpa [text, tokens] using (cutInto_listed (chunks_texts ih)).brackets
  | @map pairs _ _ _ keyIh valueIh =>
    have each : ∀ pair ∈ pairs, Chunk (pair.1.text ++ ": " ++ pair.2.text).toList
        (pair.1.tokens ++ (.colon, ":") :: pair.2.tokens) := by
      intro pair member
      simpa using (keyIh pair member).labelled (valueIh pair member)
    simpa [text, tokens] using (cutInto_listed (chunks_pairTexts each)).curlies
  | unary is _ ih => simpa [text, tokens] using (cutInto_unary is (chunk_asOperand ih)).parens
  | binary mark _ _ firstIh secondIh =>
    have inner := (chunk_asOperand firstIh).operated mark (chunk_asOperand secondIh)
    simpa [text, tokens] using inner.cuts.parens
  | step is _ ih => simpa [text, tokens] using chunk_step is (chunk_asOperand ih)
  | assign isName mark _ ih => simpa [text, tokens] using (Chunk.name isName).operated mark ih
  | call isName _ ih =>
    have arguments := (cutInto_listed (chunks_texts ih)).parens
    simpa [text, tokens] using (Chunk.name isName).append arguments (ends_parens _)
  | index _ _ firstIh secondIh =>
    simpa [text, tokens] using (chunk_asOperand firstIh).append secondIh.cuts.brackets
      (ends_brackets _)

/-- The text of an expression is cut into its tokens. -/
theorem Spelled.ofSource {e : Expr} (spelled : e.Spelled) (file : String) :
    ∃ lexed, Token.ofSource e.text file = .ok lexed ∧
      lexed.map meaning = e.tokens ++ [(.eof, "EOF")] := by
  have cuts := spelled.chunk.cuts .nil .nil
  rw [List.append_nil, List.append_nil] at cuts
  exact cuts.ofSource file

end Expr

end ColonScript
