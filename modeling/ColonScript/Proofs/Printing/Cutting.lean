import ColonScript.Proofs.Layout
import ColonScript.Proofs.Printing.Tokens

/-! Texts and the tokens that they are cut into. Each lexeme of a written form is cut off as one
token, whatever comes behind it, as long as that does not begin with a character that the lexeme
goes on with. -/

namespace ColonScript.Token
open Text

/-- The text falls into pieces that leave the tokens. -/
def Cuts (cs : List Char) (tokens : List Spelling) : Prop :=
  ∃ pieces, Pieces [] cs pieces ∧ leaves pieces = tokens

def ClearOf (p : Char → Bool) (cs : List Char) : Prop := ∀ c ∈ cs.head?, p c = false

namespace ClearOf
variable {p q : Char → Bool} {cs : List Char}

theorem nil : ClearOf p [] := by simp [ClearOf]

theorem cons {c : Char} (other : p c = false) : ClearOf p (c :: cs) := by simp [ClearOf, other]

theorem mono (stops : ClearOf p cs) (implies : ∀ c, q c = true → p c = true) : ClearOf q cs := by
  intro c member
  have other := stops c member
  by_contra holds
  rw [implies c (by simpa using holds)] at other
  cases other

end ClearOf

/-! Which rule is the first. -/

section
variable {rule : Rule} {cs lexeme rest : List Char} {c : Char}

theorem plainMatch?_of_first {before after : List Rule}
    (order : Rule.plain = before ++ rule :: after) (none : ∀ other ∈ before, other.split? cs = none)
    (split : rule.split? cs = some (lexeme, rest)) :
    plainMatch? cs = some (rule, lexeme, rest) := by
  have earlier : before.findSome? (fun other => (other.split? cs).map fun split => (other, split)) =
    Option.none :=
    List.findSome?_eq_none_iff.mpr fun other member => by rw [none other member, Option.map_none]
  rw [plainMatch?, order, List.findSome?_append, earlier, Option.none_or,
    List.findSome?_cons, split]
  rfl

theorem isBlank_of_isWordRest (inside : isWordRest c = true) : isBlank c = false := by
  by_contra blank
  rw [isWordRest_of_isBlank (by simpa using blank)] at inside
  cases inside

theorem isWordStart_of_isDigit (digit : c.isDigit = true) : isWordStart c = false := by
  have other := holds_of_isDigit (p := fun c => !isWordStart c) rfl digit
  simpa using other

/-- No rule in front of the ones of numbers takes digits. -/
theorem noWord_of_digits (shape : Rule.digits.Shape lexeme) :
    ∀ other ∈ [Rule.blanks, .comment, .word], other.split? (lexeme ++ cs) = none := by
  obtain ⟨filled, each⟩ := shape
  obtain ⟨d, ds, rfl⟩ := List.exists_cons_of_ne_nil filled
  have digit := each d List.mem_cons_self
  have noSlash : d ≠ '/' := by
    rintro rfl
    cases digit
  intro other member
  simp only [List.mem_cons, List.not_mem_nil, or_false] at member
  rcases member with rfl | rfl | rfl
  · exact noBlanks_of_head (isBlank_of_isWordRest (isWordRest_of_isDigit digit))
  · exact noComment_of_head noSlash
  · simp [Rule.split?, word?, isWordStart_of_isDigit digit]

set_option maxRecDepth 2000 in
theorem plainMatch?_mark_blank {kind : Kind} {text : String}
    (member : Rule.mark kind text ∈ Rule.all) :
    plainMatch? (text.toList ++ ' ' :: cs) = some (.mark kind text, text.toList, ' ' :: cs) := by
  unfold Rule.all at member
  repeat
    rcases List.mem_cons.mp member with same | member
    · cases same <;> rfl
  cases member

theorem noMark_of_second {kind : Kind} {first second : Char} (other : c ≠ second) :
    Rule.split? (.mark kind (String.ofList [first, second])) (first :: c :: cs) = none := by
  simp [Rule.split?, List.isPrefixOf?, other.symm]

end

def IsWord (word : String) : Prop := Rule.word.Shape word.toList

namespace Cuts
variable {c : Char} {cs lexeme : List Char} {tokens : List Spelling} {rule : Rule}

/-- The source of a text is cut into its tokens. -/
theorem ofSource {source : String} (cuts : Cuts source.toList tokens) (file : String) :
    ∃ lexed, Token.ofSource source file = .ok lexed ∧
      lexed.map meaning = tokens ++ [(.eof, "EOF")] := by
  obtain ⟨pieces, cut, rfl⟩ := cuts
  obtain ⟨lexed, run, makes⟩ := ofSource_of_pieces cut file
  exact ⟨lexed, run, makes.meanings⟩

theorem nil : Cuts [] [] := ⟨[], .nil, leaves_nil⟩

/-- One lexeme is taken off at a time. Only an `else` may belong together with what stands behind
it. -/
theorem behind (cuts : Cuts cs tokens)
    (found : plainMatch? (lexeme ++ cs) = some (rule, lexeme, cs))
    (noElse : Piece.mk rule lexeme ≠ .elseWord) :
    Cuts (lexeme ++ cs) ((rule.meaning? lexeme).toList ++ tokens) := by
  obtain ⟨pieces, cut, rfl⟩ := cuts
  refine ⟨⟨rule, lexeme⟩ :: pieces, .cons (by simpa using found) cut, leaves_cons ?_⟩
  by_contra opens
  obtain ⟨gap, others, same⟩ := opensElseIf_iff.mp (by simpa using opens)
  exact noElse (List.cons.inj same).1

theorem behind_of_ne_word (cuts : Cuts cs tokens)
    (found : plainMatch? (lexeme ++ cs) = some (rule, lexeme, cs))
    (other : rule ≠ .word) : Cuts (lexeme ++ cs) ((rule.meaning? lexeme).toList ++ tokens) :=
  cuts.behind found fun same => other (Piece.mk.inj same).1

/-- A mark of one character. -/
theorem mark {kind : Kind} {text : String} (cuts : Cuts cs tokens)
    (found : plainMatch? (c :: cs) = some (.mark kind text, [c], cs)) :
    Cuts (c :: cs) ((kind, text) :: tokens) := by
  have whole : plainMatch? ([c] ++ cs) = some (.mark kind text, [c], cs) := found
  exact cuts.behind_of_ne_word whole (by simp)

theorem openParen (cuts : Cuts cs tokens) : Cuts ('(' :: cs) ((.openParen, "(") :: tokens) :=
  cuts.mark rfl

theorem closeParen (cuts : Cuts cs tokens) : Cuts (')' :: cs) ((.closeParen, ")") :: tokens) :=
  cuts.mark rfl

theorem openBracket (cuts : Cuts cs tokens) : Cuts ('[' :: cs) ((.openBracket, "[") :: tokens) :=
  cuts.mark rfl

theorem closeBracket (cuts : Cuts cs tokens) : Cuts (']' :: cs) ((.closeBracket, "]") :: tokens) :=
  cuts.mark rfl

theorem openCurly (cuts : Cuts cs tokens) : Cuts ('\x7b' :: cs) ((.openCurly, "\x7b") :: tokens) :=
  cuts.mark rfl

theorem closeCurly (cuts : Cuts cs tokens) :
    Cuts ('\x7d' :: cs) ((.closeCurly, "\x7d") :: tokens) := cuts.mark rfl

theorem colon (cuts : Cuts cs tokens) : Cuts (':' :: cs) ((.colon, ":") :: tokens) := cuts.mark rfl

theorem comma (cuts : Cuts cs tokens) : Cuts (',' :: cs) ((.comma, ",") :: tokens) := cuts.mark rfl

theorem semicolon (cuts : Cuts cs tokens) : Cuts (';' :: cs) ((.semicolon, ";") :: tokens) :=
  cuts.mark rfl

theorem dot (cuts : Cuts cs tokens) : Cuts ('.' :: cs) ((.dot, ".") :: tokens) := cuts.mark rfl

/-- A mark in front of a blank. -/
theorem spaced {kind : Kind} {text : String} (cuts : Cuts (' ' :: cs) tokens)
    (member : Rule.mark kind text ∈ Rule.all) :
    Cuts (text.toList ++ ' ' :: cs) ((kind, text) :: tokens) :=
  cuts.behind_of_ne_word (plainMatch?_mark_blank member) (by simp)

/-- A step in front of a closing parenthesis. -/
theorem plusPlus (cuts : Cuts (')' :: cs) tokens) :
    Cuts ('+' :: '+' :: ')' :: cs) ((.plusPlus, "++") :: tokens) := by
  have found : plainMatch? (['+', '+'] ++ ')' :: cs) =
    some (.mark .plusPlus "++", ['+', '+'], ')' :: cs) := rfl
  exact cuts.behind_of_ne_word found (by simp)

theorem minusMinus (cuts : Cuts (')' :: cs) tokens) :
    Cuts ('-' :: '-' :: ')' :: cs) ((.minusMinus, "--") :: tokens) := by
  have found : plainMatch? (['-', '-'] ++ ')' :: cs) =
    some (.mark .minusMinus "--", ['-', '-'], ')' :: cs) := rfl
  exact cuts.behind_of_ne_word found (by simp)

/-- A sign in front of what does not begin with a character of a longer mark. -/
theorem minus (cuts : Cuts (c :: cs) tokens) (noStep : c ≠ '-') (noAssign : c ≠ '=') :
    Cuts ('-' :: c :: cs) ((.minus, "-") :: tokens) := by
  have step : Rule.split? (.mark .minusMinus "--") ('-' :: c :: cs) = none :=
    noMark_of_second noStep
  have assign : Rule.split? (.mark .minusAssign "-=") ('-' :: c :: cs) = none :=
    noMark_of_second noAssign
  refine cuts.mark ?_
  rw [← firstMatch?_of_noElseIf rfl]
  simp only [firstMatch?, Rule.all, List.findSome?_cons, step, assign]
  rfl

theorem not (cuts : Cuts (c :: cs) tokens) (noAssign : c ≠ '=') :
    Cuts ('!' :: c :: cs) ((.not, "!") :: tokens) := by
  have unequal : Rule.split? (.mark .notEqual "!=") ('!' :: c :: cs) = none :=
    noMark_of_second noAssign
  refine cuts.mark ?_
  rw [← firstMatch?_of_noElseIf rfl]
  simp only [firstMatch?, Rule.all, List.findSome?_cons, unequal]
  rfl

theorem gap (cuts : Cuts cs tokens) (blank : isBlank c = true) (stops : ClearOf isBlank cs) :
    Cuts (c :: cs) tokens := by
  have found : plainMatch? ([c] ++ cs) = some (.blanks, [c], cs) :=
    plainMatch?_of_run (by simp) (List.forall_mem_singleton.mpr blank) stops
  exact cuts.behind_of_ne_word found (by simp)

theorem blank (cuts : Cuts cs tokens) (stops : ClearOf isBlank cs) : Cuts (' ' :: cs) tokens :=
  cuts.gap rfl stops

theorem word {word : String} (cuts : Cuts cs tokens) (isWord : IsWord word)
    (stops : ClearOf isWordRest cs) (noElse : word ≠ "else") :
    Cuts (word.toList ++ cs) ((wordKind word, word) :: tokens) := by
  have split := split?_eq_some_iff.mpr ⟨rfl, isWord, stops⟩
  obtain ⟨c, rest, start, _, spelled⟩ := isWord
  have inside := isWordRest_of_isWordStart start
  have noSlash : c ≠ '/' := by
    rintro rfl
    cases start
  have found : plainMatch? (word.toList ++ cs) = some (.word, word.toList, cs) := by
    rw [spelled] at split ⊢
    exact plainMatch?_of_word (noBlanks_of_head (isBlank_of_isWordRest inside))
      (noComment_of_head noSlash) split
  have cut := cuts.behind found fun same => noElse (String.toList_inj.mp (Piece.mk.inj same).2)
  simpa [Rule.meaning?] using cut

/-- An `else` with its colon, which keeps it apart from an `if`. -/
theorem elseColon (cuts : Cuts cs tokens) :
    Cuts (['e', 'l', 's', 'e', ':'] ++ cs) ((.elseWord, "else") :: (.colon, ":") :: tokens) := by
  obtain ⟨pieces, cut, rfl⟩ := cuts
  have colon : plainMatch? ([':'] ++ (cs ++ [])) = some (.mark .colon ":", [':'], cs ++ []) := rfl
  have word : plainMatch? (['e', 'l', 's', 'e'] ++ ([':'] ++ cs ++ [])) =
      some (.word, ['e', 'l', 's', 'e'], [':'] ++ cs ++ []) := rfl
  refine ⟨.elseWord :: ⟨.mark .colon ":", [':']⟩ :: pieces, .cons word (.cons colon cut), ?_⟩
  rw [leaves_cons (by cases pieces <;> rfl),
    leaves_cons (by rcases pieces with _ | ⟨_, _ | _⟩ <;> rfl)]
  rfl

/-- An `else if` with its colon. -/
theorem elseIfColon (cuts : Cuts cs tokens) :
    Cuts (['e', 'l', 's', 'e', ' ', 'i', 'f', ':'] ++ cs)
      ((.elseIfWord, "else if") :: (.colon, ":") :: tokens) := by
  obtain ⟨pieces, cut, behind⟩ := cuts.colon
  have split : Rule.elseIf.split? (['e', 'l', 's', 'e', ' ', 'i', 'f', ':'] ++ cs) =
      some (['e', 'l', 's', 'e', ' ', 'i', 'f'], ':' :: cs) := by
    have noWord : isWordChar ':' = false := by decide +kernel
    refine split?_eq_some_iff.mpr ⟨rfl, ⟨[' '], ⟨by simp, List.forall_mem_singleton.mpr rfl⟩, rfl⟩,
      fun c head => ?_⟩
    obtain rfl : ':' = c := Option.some.inj head
    exact noWord
  obtain ⟨gap, _, cut_iff⟩ := pieces_of_elseIf split
  exact ⟨_, (cut_iff _).mpr ⟨pieces, rfl, cut⟩, by rw [leaves_elseIf, behind]⟩

/-- Digits that no fraction follows. -/
theorem digits (cuts : Cuts cs tokens) (shape : Rule.digits.Shape lexeme)
    (stops : ClearOf Char.isDigit cs) (noPoint : ClearOf (· = '.') cs) :
    Cuts (lexeme ++ cs) ((.integer, String.ofList lexeme) :: tokens) := by
  have split : Rule.digits.split? (lexeme ++ cs) = some (lexeme, cs) :=
    split?_eq_some_iff.mpr ⟨rfl, shape, stops⟩
  have noFraction : Rule.decimal.split? (lexeme ++ cs) = none := by
    have run : run? Char.isDigit (lexeme ++ cs) = some (lexeme, cs) := split
    simp only [Rule.split?, decimal?, run]
    cases cs with
    | nil => rfl
    | cons c cs =>
      have other : c ≠ '.' := by simpa using noPoint c rfl
      simp [other]
  have none : ∀ other ∈ [Rule.blanks, .comment, .word] ++ [.decimal],
    other.split? (lexeme ++ cs) = none :=
    List.forall_mem_append.mpr ⟨noWord_of_digits shape, List.forall_mem_singleton.mpr noFraction⟩
  exact cuts.behind_of_ne_word (plainMatch?_of_first rfl none split) (by simp)

theorem decimal (cuts : Cuts cs tokens) (shape : Rule.decimal.Shape lexeme)
    (stops : ClearOf Char.isDigit cs) :
    Cuts (lexeme ++ cs) ((.float, String.ofList lexeme) :: tokens) := by
  have split : Rule.decimal.split? (lexeme ++ cs) = some (lexeme, cs) :=
    split?_eq_some_iff.mpr ⟨rfl, shape, stops⟩
  have none : ∀ other ∈ [Rule.blanks, .comment, .word], other.split? (lexeme ++ cs) = none := by
    obtain ⟨whole, part, front, _, rfl⟩ := shape
    rw [List.append_assoc]
    exact noWord_of_digits front
  exact cuts.behind_of_ne_word (plainMatch?_of_first rfl none split) (by simp)

theorem string {text : String} (cuts : Cuts cs tokens) (noQuote : '"' ∉ text.toList) :
    Cuts ('"' :: (text.toList ++ '"' :: cs)) ((.string, text) :: tokens) := by
  have split : Rule.quotedString.split? ('"' :: (text.toList ++ ['"']) ++ cs) =
      some ('"' :: (text.toList ++ ['"']), cs) :=
    split?_eq_some_iff.mpr ⟨rfl, ⟨_, noQuote, rfl⟩, fun _ _ => rfl⟩
  have none : ∀ other ∈ [Rule.blanks, .comment, .word, .decimal, .digits],
      other.split? ('"' :: (text.toList ++ ['"']) ++ cs) = none := by
    simp only [List.forall_mem_cons]
    exact ⟨rfl, rfl, rfl, rfl, rfl, by simp⟩
  have cut := cuts.behind_of_ne_word (plainMatch?_of_first rfl none split) (by simp)
  simpa [Rule.meaning?] using cut

theorem char {text : String} (cuts : Cuts cs tokens)
    (single : text = "" ∨ ∃ c, c ≠ '\'' ∧ text = String.ofList [c]) :
    Cuts ('\'' :: (text.toList ++ '\'' :: cs)) ((.char, text) :: tokens) := by
  have shape : Rule.quotedChar.Shape ('\'' :: (text.toList ++ ['\''])) := by
    rcases single with rfl | ⟨c, other, rfl⟩
    · exact .inl rfl
    · exact .inr ⟨c, other, by simp⟩
  have split : Rule.quotedChar.split? ('\'' :: (text.toList ++ ['\'']) ++ cs) =
      some ('\'' :: (text.toList ++ ['\'']), cs) :=
    split?_eq_some_iff.mpr ⟨rfl, shape, fun _ _ => rfl⟩
  have none : ∀ other ∈ [Rule.blanks, .comment, .word, .decimal, .digits, .quotedString],
      other.split? ('\'' :: (text.toList ++ ['\'']) ++ cs) = none := by
    simp only [List.forall_mem_cons]
    exact ⟨rfl, rfl, rfl, rfl, rfl, rfl, by simp⟩
  have cut := cuts.behind_of_ne_word (plainMatch?_of_first rfl none split) (by simp)
  simpa [Rule.meaning?] using cut

end Cuts

end ColonScript.Token
