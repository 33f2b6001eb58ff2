import ColonScript.Proofs.Spans

/-! A text in pieces. The words of an `else if` are one lexeme, and what is one lexeme spans what
separates lexemes. Without that rule a text falls into pieces of which each ends where the next
character decides, and the tokens of the text are what the pieces mean, but for an `else` and an
`if` with nothing but blanks between them. -/

namespace ColonScript.Token
open Text

variable {offset : Nat} {cs gap lexeme text rest : List Char} {rule : Rule}

/-! Word characters that begin a piece are those that go on with a word. -/

theorem isWordRest_of_isWordStart {c : Char} (start : isWordStart c = true) :
    isWordRest c = true := by
  simp only [isWordStart, isWordRest, Char.isAlphanum, Bool.or_eq_true] at start ⊢
  exact start.imp_left .inl

theorem isWordRest_of_isDigit {c : Char} (digit : c.isDigit = true) : isWordRest c = true := by
  simp [isWordRest, Char.isAlphanum, digit]

def wordRests : CharSet := ⟨[(0x30, 0x39), (0x41, 0x5a), (0x5f, 0x5f), (0x61, 0x7a)]⟩

theorem isWordRest_iff {c : Char} : isWordRest c = true ↔ wordRests.contains c = true := by
  have spelled : isWordRest c = (((decide (c.val ≥ 65 ∧ c.val ≤ 90) || c.val ≥ 97 && c.val ≤ 122) ||
      c.val ≥ 48 && c.val ≤ 57) || c = '_') := rfl
  simp only [spelled, wordRests, CharSet.contains, List.any_cons, List.any_nil, Bool.or_eq_true,
    Bool.and_eq_true, decide_eq_true_eq, UInt32.le_iff_toNat_le, ge_iff_le]
  change (((65 ≤ c.toNat ∧ c.toNat ≤ 90) ∨ (97 ≤ c.toNat ∧ c.toNat ≤ 122)) ∨
    (48 ≤ c.toNat ∧ c.toNat ≤ 57)) ∨ c = '_' ↔ _
  have low : c = '_' ↔ c.toNat = 95 := by
    rw [← Char.toNat_inj]
    rfl
  rw [low]
  simp only [Bool.false_eq_true, or_false]
  omega

/-- They are the word characters among the first 128 characters. -/
theorem wordRests_eq :
    wordChars.ranges.filter (fun range => range.1 < 0x80) = wordRests.ranges := by
  decide +kernel

theorem isWordChar_of_isWordRest {c : Char} (word : isWordRest c = true) : isWordChar c = true := by
  obtain ⟨range, member, bounds⟩ := (wordRests.contains_iff c).mp (isWordRest_iff.mp word)
  rw [← wordRests_eq] at member
  exact (wordChars.contains_iff c).mpr ⟨range, (List.mem_filter.mp member).1, bounds⟩

theorem isWordRest_of_isWordChar {c : Char} (ascii : c.toNat < 0x80) (char : isWordChar c = true) :
    isWordRest c = true := by
  obtain ⟨range, member, bounds⟩ := (wordChars.contains_iff c).mp char
  refine isWordRest_iff.mpr ((wordRests.contains_iff c).mpr ⟨range, ?_, bounds⟩)
  rw [← wordRests_eq]
  exact List.mem_filter.mpr ⟨member, decide_eq_true (by omega)⟩

/-- The ranges of blanks and of word characters lie apart. -/
theorem ranges_apart : (blanks.ranges.all fun range => wordChars.ranges.all fun other =>
    Nat.blt range.2 other.1 || Nat.blt other.2 range.1) = true := by
  decide +kernel

theorem isWordChar_of_isBlank {c : Char} (blank : isBlank c = true) : isWordChar c = false := by
  obtain ⟨range, member, bounds⟩ := (blanks.contains_iff c).mp blank
  by_contra word
  obtain ⟨other, member', bounds'⟩ :=
    (wordChars.contains_iff c).mp (by simpa [isWordChar] using word)
  have apart := List.all_eq_true.mp (List.all_eq_true.mp ranges_apart range member) other member'
  simp only [Bool.or_eq_true, Nat.blt_eq] at apart
  omega

theorem isWordRest_of_isBlank {c : Char} (blank : isBlank c = true) : isWordRest c = false := by
  by_contra word
  have char := isWordChar_of_isWordRest (by simpa using word)
  rw [isWordChar_of_isBlank blank] at char
  cases char

def Rule.plain : List Rule := Rule.all.erase .elseIf

def plainMatch? (cs : List Char) : Option (Rule × List Char × List Char) :=
  Rule.plain.findSome? fun rule => (rule.split? cs).map fun split => (rule, split)

theorem mem_all_of_mem_plain (member : rule ∈ Rule.plain) : rule ∈ Rule.all :=
  List.mem_of_mem_erase member

theorem split?_of_plainMatch? (found : plainMatch? cs = some (rule, lexeme, rest)) :
    rule ∈ Rule.plain ∧ rule.split? cs = some (lexeme, rest) := by
  obtain ⟨rule', member, split⟩ := List.exists_of_findSome?_eq_some found
  obtain ⟨pair, split, same⟩ := Option.map_eq_some_iff.mp split
  obtain ⟨rfl, rfl⟩ := Prod.mk.inj same
  exact ⟨member, split⟩

theorem all_eq : Rule.all = .blanks :: .comment :: .elseIf :: Rule.plain.drop 2 := rfl

theorem plain_eq : Rule.plain = .blanks :: .comment :: .word :: Rule.plain.drop 3 := rfl

theorem plainMatch?_of_blanks (split : Rule.blanks.split? cs = some (lexeme, rest)) :
    plainMatch? cs = some (.blanks, lexeme, rest) := by
  rw [plainMatch?, plain_eq]
  simp only [List.findSome?_cons, split, Option.map_some]

theorem plainMatch?_of_comment (noBlanks : Rule.blanks.split? cs = none)
    (split : Rule.comment.split? cs = some (lexeme, rest)) :
    plainMatch? cs = some (.comment, lexeme, rest) := by
  rw [plainMatch?, plain_eq]
  simp only [List.findSome?_cons, noBlanks, split, Option.map_none, Option.map_some]

theorem plainMatch?_of_word (noBlanks : Rule.blanks.split? cs = none)
    (noComment : Rule.comment.split? cs = none)
    (split : Rule.word.split? cs = some (lexeme, rest)) :
    plainMatch? cs = some (.word, lexeme, rest) := by
  rw [plainMatch?, plain_eq]
  simp only [List.findSome?_cons, noBlanks, noComment, split, Option.map_none, Option.map_some]

theorem firstMatch?_of_elseIf (noBlanks : Rule.blanks.split? cs = none)
    (noComment : Rule.comment.split? cs = none)
    (split : Rule.elseIf.split? cs = some (lexeme, rest)) :
    firstMatch? cs = some (.elseIf, lexeme, rest) := by
  rw [firstMatch?, all_eq]
  simp only [List.findSome?_cons, noBlanks, noComment, split, Option.map_none, Option.map_some]

theorem firstMatch?_of_noElseIf (noElseIf : Rule.elseIf.split? cs = none) :
    firstMatch? cs = plainMatch? cs := by
  have plain : Rule.plain = .blanks :: .comment :: Rule.plain.drop 2 := rfl
  rw [firstMatch?, plainMatch?, all_eq, plain]
  simp only [List.findSome?_cons, noElseIf, Option.map_none, List.drop_succ_cons, List.drop_zero]

theorem noBlanks_of_head {c : Char} (head : isBlank c = false) :
    Rule.blanks.split? (c :: cs) = none := by
  simp [Rule.split?, run?, head]

theorem noComment_of_head {c : Char} (head : c ≠ '/') : Rule.comment.split? (c :: cs) = none := by
  cases cs <;> simp [Rule.split?, comment?, head]

theorem noElseIf_of_firstMatch? (found : firstMatch? cs = some (rule, lexeme, rest))
    (other : rule ≠ .elseIf) :
    Rule.elseIf.split? cs = none := by
  by_contra some
  obtain ⟨⟨lexeme', rest'⟩, split⟩ := Option.ne_none_iff_exists'.mp some
  obtain ⟨rfl, ⟨gap, _, rfl⟩, _⟩ := split?_eq_some_iff.mp split
  have first := firstMatch?_of_elseIf (noBlanks_of_head (by decide))
    (noComment_of_head (by decide)) split
  exact other (Prod.mk.inj (Option.some.inj (found.symm.trans first))).1

def Rule.spelling : Rule → List Char
  | .mark _ spelling => spelling.toList
  | _ => []

theorem spelling_ascii :
    ∀ rule ∈ Rule.plain, (rule.spelling.all fun c => decide (c.toNat < 0x80)) = true := by
  decide

/-- A word character begins a piece only where it goes on with a word. -/
theorem isWordRest_of_shape (member : rule ∈ Rule.plain) (shape : rule.Shape lexeme) :
    ∀ c ∈ lexeme.head?, isWordChar c = true → isWordRest c = true := by
  intro c head char
  cases rule with
  | blanks =>
    obtain ⟨cs, rfl⟩ := List.head?_eq_some_iff.mp head
    rw [isWordChar_of_isBlank (shape.2 c List.mem_cons_self)] at char
    cases char
  | digits =>
    obtain ⟨cs, rfl⟩ := List.head?_eq_some_iff.mp head
    exact isWordRest_of_isDigit (shape.2 c List.mem_cons_self)
  | comment =>
    obtain ⟨line, _, rfl⟩ := shape
    obtain rfl : '/' = c := Option.some.inj head
    exact isWordRest_of_isWordChar (by decide) char
  | elseIf => exact absurd member (by decide)
  | word =>
    obtain ⟨first, cs, start, _, rfl⟩ := shape
    obtain rfl : first = c := Option.some.inj head
    exact isWordRest_of_isWordStart start
  | decimal =>
    obtain ⟨whole, part, ⟨some, digits⟩, _, rfl⟩ := shape
    obtain ⟨first, whole, rfl⟩ := List.exists_cons_of_ne_nil some
    obtain rfl : first = c := Option.some.inj head
    exact isWordRest_of_isDigit (digits first List.mem_cons_self)
  | quotedString =>
    obtain ⟨text, _, rfl⟩ := shape
    obtain rfl : '"' = c := Option.some.inj head
    exact isWordRest_of_isWordChar (by decide) char
  | quotedChar =>
    obtain rfl : '\'' = c := by
      obtain rfl | ⟨_, _, rfl⟩ := shape
      · exact Option.some.inj head
      · exact Option.some.inj head
    exact isWordRest_of_isWordChar (by decide) char
  | mark kind spelling =>
    obtain rfl : lexeme = spelling.toList := shape
    have low := List.all_eq_true.mp (spelling_ascii _ member) c (List.mem_of_mem_head? head)
    exact isWordRest_of_isWordChar (of_decide_eq_true low) char

/-! Pieces. -/

structure Piece where
  rule : Rule
  lexeme : List Char
  deriving DecidableEq

namespace Piece

def meaning? (piece : Piece) : Option (Kind × String) := piece.rule.meaning? piece.lexeme

def Silent (piece : Piece) : Prop := piece.meaning? = none

def elseWord : Piece := ⟨.word, ['e', 'l', 's', 'e']⟩

def ifWord : Piece := ⟨.word, ['i', 'f']⟩

theorem silent_iff {piece : Piece} :
    piece.Silent ↔ piece.rule = .blanks ∨ piece.rule = .comment := by
  obtain ⟨rule, lexeme⟩ := piece
  cases rule <;> simp [Silent, meaning?, Rule.meaning?]

end Piece

/-- A text in front of `rest`, cut into pieces. -/
inductive Pieces (rest : List Char) : List Char → List Piece → Prop where
  | nil : Pieces rest [] []
  | cons {rule : Rule} {lexeme text : List Char} {pieces : List Piece}
      (first : plainMatch? (lexeme ++ (text ++ rest)) = some (rule, lexeme, text ++ rest))
      (others : Pieces rest text pieces) : Pieces rest (lexeme ++ text) (⟨rule, lexeme⟩ :: pieces)

namespace Pieces
variable {front back : List Char} {pieces before after : List Piece} {piece : Piece}

theorem eq_nil (cut : Pieces rest text []) : text = [] := by
  cases cut
  rfl

theorem eq_cons (cut : Pieces rest text (piece :: pieces)) :
    ∃ others, text = piece.lexeme ++ others ∧ piece.rule ∈ Rule.plain ∧ piece.lexeme ≠ [] ∧
      piece.rule.split? (piece.lexeme ++ (others ++ rest)) = some (piece.lexeme, others ++ rest) ∧
      Pieces rest others pieces := by
  cases cut with
  | cons first others =>
    obtain ⟨member, split⟩ := split?_of_plainMatch? first
    exact ⟨_, rfl, member, filled_of_split? (mem_all_of_mem_plain member) split, split, others⟩

theorem append (first : Pieces (back ++ rest) front before) (last : Pieces rest back after) :
    Pieces rest (front ++ back) (before ++ after) := by
  induction first with
  | nil => exact last
  | cons first _ ih =>
    rw [List.append_assoc, List.cons_append]
    exact .cons (by simpa only [List.append_assoc] using first) ih

theorem of_append (cut : Pieces rest text (before ++ after)) :
    ∃ front back, text = front ++ back ∧ Pieces (back ++ rest) front before ∧
      Pieces rest back after := by
  induction before generalizing text with
  | nil => exact ⟨[], text, rfl, .nil, cut⟩
  | cons piece before ih =>
    cases cut with
    | cons first others =>
      obtain ⟨front, back, rfl, cut, last⟩ := ih others
      exact ⟨_, back, (List.append_assoc ..).symm,
        .cons (by simpa only [List.append_assoc] using first) cut, last⟩

/-- The first piece of a text is the one that is matched. -/
theorem cons_iff
    (first : plainMatch? (lexeme ++ (text ++ rest)) = some (rule, lexeme, text ++ rest)) :
    Pieces rest (lexeme ++ text) pieces ↔ ∃ others, pieces = ⟨rule, lexeme⟩ :: others ∧
      Pieces rest text others := by
  constructor
  · intro cut
    generalize same : lexeme ++ text = whole at cut
    cases cut with
    | nil =>
      obtain ⟨member, split⟩ := split?_of_plainMatch? first
      exact absurd (List.append_eq_nil_iff.mp same).1
        (filled_of_split? (mem_all_of_mem_plain member) split)
    | cons first' others =>
      rw [← List.append_assoc, ← same, List.append_assoc, first] at first'
      obtain ⟨rfl, split⟩ := Prod.mk.inj (Option.some.inj first')
      obtain ⟨rfl, behind⟩ := Prod.mk.inj split
      obtain rfl := List.append_cancel_right behind
      exact ⟨_, rfl, others⟩
  · rintro ⟨others, rfl, cut⟩
    exact .cons first cut

/-- A text is cut in one way. -/
theorem unique (cut : Pieces rest text pieces) (other : Pieces rest text after) :
    pieces = after := by
  induction cut generalizing after with
  | nil =>
    cases after with
    | nil => rfl
    | cons piece after =>
      obtain ⟨others, same, _, filled, _⟩ := other.eq_cons
      exact absurd (List.append_eq_nil_iff.mp same.symm).1 filled
  | cons first _ ih =>
    obtain ⟨others, rfl, cut⟩ := (cons_iff first).mp other
    rw [ih cut]

end Pieces

/-! What pieces leave. -/

def opensElseIf : List Piece → Bool
  | first :: gap :: second :: _ => first = .elseWord && gap.rule = .blanks && second = .ifWord
  | _ => false

theorem opensElseIf_iff {pieces : List Piece} :
    opensElseIf pieces = true ↔ ∃ gap others, pieces = .elseWord :: ⟨.blanks, gap⟩ ::
      .ifWord :: others := by
  constructor
  · intro opens
    unfold opensElseIf at opens
    split at opens
    next first gap second others =>
      simp only [Bool.and_eq_true, decide_eq_true_eq] at opens
      obtain ⟨⟨rfl, blanks⟩, rfl⟩ := opens
      exact ⟨gap.lexeme, others, by rw [← blanks]⟩
    next => cases opens
  · rintro ⟨gap, others, rfl⟩
    simp [opensElseIf]

def leaves : List Piece → List (Kind × String)
  | [] => []
  | piece :: pieces =>
    if opensElseIf (piece :: pieces) then (.elseIfWord, "else if") :: leaves (pieces.drop 2)
    else piece.meaning?.toList ++ leaves pieces
termination_by pieces => pieces.length
decreasing_by
  · rw [List.length_drop, List.length_cons]
    omega
  · exact Nat.lt_succ_self _

@[simp] theorem leaves_nil : leaves [] = [] := by rw [leaves]

theorem leaves_cons {piece : Piece} {pieces : List Piece}
    (apart : opensElseIf (piece :: pieces) = false) :
    leaves (piece :: pieces) = piece.meaning?.toList ++ leaves pieces := by
  rw [leaves, apart]
  rfl

theorem leaves_elseIf {pieces : List Piece} :
    leaves (.elseWord :: ⟨.blanks, gap⟩ :: .ifWord :: pieces) =
      (.elseIfWord, "else if") :: leaves pieces := by
  rw [leaves, if_pos (opensElseIf_iff.mpr ⟨gap, pieces, rfl⟩)]
  rfl

/-- The words of a text: its tokens, but the two words of an `else if` for themselves. -/
def words (token : Token) : List Token :=
  match token.kind with
  | .elseIfWord =>
    [⟨.elseWord, "else", token.start, token.start + 4⟩, ⟨.ifWord, "if", token.stop - 2, token.stop⟩]
  | _ => [token]

def wordsOf : Nat → List Piece → List Token
  | _, [] => []
  | offset, piece :: pieces =>
    (ofLexeme? piece.rule piece.lexeme offset).toList ++
      wordsOf (offset + byteLength piece.lexeme) pieces

/-- The pieces of the text leave the tokens. -/
structure Makes (offset : Nat) (cs : List Char) (pieces : List Piece) (tokens : List Token) :
    Prop where
  cut : Pieces [] cs pieces
  meanings : tokens.map meaning = leaves pieces ++ [(.eof, "EOF")]
  spelled : tokens.flatMap words = wordsOf offset pieces ++ [endOfInput (offset + byteLength cs)]

theorem kind_of_plain (member : rule ∈ Rule.plain) {kind : Kind} {value : String}
    (meaning : rule.meaning? lexeme = some (kind, value)) : kind ≠ .elseIfWord := by
  cases rule with
  | blanks | comment => cases meaning
  | elseIf => exact absurd member (by decide)
  | word =>
    obtain ⟨rfl, _⟩ := Prod.mk.inj (Option.some.inj meaning)
    exact fun same => wordKind_plain _ (by rw [same]; decide)
  | mark own spelling =>
    obtain ⟨rfl, _⟩ := Prod.mk.inj (Option.some.inj meaning)
    exact fun same => (mark_spelled (mem_all_of_mem_plain member)).1 (by rw [same]; decide)
  | _ =>
    obtain ⟨rfl, _⟩ := Prod.mk.inj (Option.some.inj meaning)
    decide

/-- The first three pieces of a text that begins with an `else if`. -/
theorem pieces_of_elseIf (split : Rule.elseIf.split? cs = some (lexeme, rest)) :
    ∃ gap, lexeme = ['e', 'l', 's', 'e'] ++ gap ++ ['i', 'f'] ∧ ∀ pieces, Pieces [] cs pieces ↔
      ∃ others, pieces = .elseWord :: ⟨.blanks, gap⟩ :: .ifWord :: others ∧
      Pieces [] rest others := by
  obtain ⟨rfl, ⟨gap, blank, rfl⟩, stops⟩ := split?_eq_some_iff.mp split
  refine ⟨gap, rfl, fun pieces => ?_⟩
  have first : plainMatch? (['e', 'l', 's', 'e'] ++ ((gap ++ (['i', 'f'] ++ rest)) ++ [])) =
      some (.word, ['e', 'l', 's', 'e'], (gap ++ (['i', 'f'] ++ rest)) ++ []) := by
    refine plainMatch?_of_word (noBlanks_of_head (by decide)) (noComment_of_head (by decide)) ?_
    have shape : Rule.word.Shape ['e', 'l', 's', 'e'] :=
      ⟨'e', ['l', 's', 'e'], by decide, List.all_eq_true.mp rfl, rfl⟩
    refine split?_eq_some_iff.mpr ⟨rfl, shape, fun c head => ?_⟩
    obtain ⟨b, gap, rfl⟩ := List.exists_cons_of_ne_nil blank.1
    obtain rfl : b = c := Option.some.inj head
    exact isWordRest_of_isBlank (blank.2 b List.mem_cons_self)
  have second : plainMatch? (gap ++ ((['i', 'f'] ++ rest) ++ [])) =
    some (.blanks, gap, (['i', 'f'] ++ rest) ++ []) :=
    plainMatch?_of_blanks
      (split?_eq_some_iff.mpr ⟨rfl, blank, fun c head => Option.some.inj head ▸ by decide⟩)
  have third : plainMatch? (['i', 'f'] ++ (rest ++ [])) = some (.word, ['i', 'f'], rest ++ []) := by
    refine plainMatch?_of_word (noBlanks_of_head (by decide)) (noComment_of_head (by decide)) ?_
    have shape : Rule.word.Shape ['i', 'f'] := ⟨'i', ['f'], by decide, List.all_eq_true.mp rfl, rfl⟩
    refine split?_eq_some_iff.mpr ⟨rfl, shape, fun c head => ?_⟩
    by_contra word
    have char := isWordChar_of_isWordRest (by simpa [Rule.goesOn] using word)
    have stop : isWordChar c = false := stops c (by simpa using head)
    rw [stop] at char
    cases char
  rw [List.append_assoc, List.append_assoc, Pieces.cons_iff first]
  constructor
  · rintro ⟨_, rfl, cut⟩
    obtain ⟨_, rfl, cut'⟩ := (Pieces.cons_iff second).mp cut
    obtain ⟨others, rfl, cut''⟩ := (Pieces.cons_iff third).mp cut'
    exact ⟨others, rfl, cut''⟩
  · rintro ⟨others, rfl, cut⟩
    exact ⟨_, rfl, .cons second (.cons third cut)⟩

/-- And a text of which the pieces begin so begins with an `else if`. -/
theorem elseIf_of_pieces {pieces : List Piece} (cut : Pieces [] cs pieces)
    (opens : opensElseIf pieces = true) :
    ∃ lexeme rest, Rule.elseIf.split? cs = some (lexeme, rest) := by
  obtain ⟨gap, others, rfl⟩ := opensElseIf_iff.mp opens
  obtain ⟨after, rfl, _, _, _, cut⟩ := cut.eq_cons
  obtain ⟨after, rfl, _, _, split, cut⟩ := cut.eq_cons
  obtain ⟨rest, rfl, _, _, split', cut⟩ := cut.eq_cons
  have blank := (split?_eq_some_iff.mp split).2.1
  refine ⟨['e', 'l', 's', 'e'] ++ gap ++ ['i', 'f'], rest,
    split?_eq_some_iff.mpr ⟨?_, ⟨gap, blank, rfl⟩, ?_⟩⟩
  · simp [Piece.elseWord, Piece.ifWord]
  intro c head
  by_contra char
  have char : isWordChar c = true := by simpa [Rule.goesOn] using char
  have noWord : isWordRest c = false := (split?_eq_some_iff.mp split').2.2 c (by simpa using head)
  -- What comes behind the `if` begins a piece, and no piece begins with such a character.
  cases others with
  | nil =>
    obtain rfl := cut.eq_nil
    cases head
  | cons piece others =>
    obtain ⟨after, rfl, member, filled, split, _⟩ := cut.eq_cons
    have head : c ∈ piece.lexeme.head? := by
      obtain ⟨first, lexeme, same⟩ := List.exists_cons_of_ne_nil filled
      simpa [same] using head
    have word := isWordRest_of_shape member (split?_eq_some_iff.mp split).2.1 c head char
    rw [noWord] at word
    cases word

/-- A piece in front leaves its token, where it does not open an `else if`. -/
theorem Makes.behind {pieces : List Piece} {tokens : List Token}
    (first : plainMatch? (lexeme ++ rest) = some (rule, lexeme, rest))
    (noElseIf : Rule.elseIf.split? (lexeme ++ rest) = none)
    (makes : Makes (offset + byteLength lexeme) rest pieces tokens) :
    Makes offset (lexeme ++ rest)
      (⟨rule, lexeme⟩ :: pieces) ((ofLexeme? rule lexeme offset).toList ++ tokens) := by
  have cut : Pieces [] (lexeme ++ rest) (⟨rule, lexeme⟩ :: pieces) :=
    .cons (by simpa using first) makes.cut
  have apart : opensElseIf (⟨rule, lexeme⟩ :: pieces) = false := by
    by_contra opens
    obtain ⟨_, _, split⟩ := elseIf_of_pieces cut (by simpa using opens)
    rw [noElseIf] at split
    cases split
  refine ⟨cut, ?_, ?_⟩
  · rw [leaves_cons apart, List.map_append, makes.meanings, List.append_assoc]
    congr 1
    cases meaning : rule.meaning? lexeme <;>
      simp [ofLexeme?, Piece.meaning?, meaning, Token.meaning]
  · rw [List.flatMap_append, makes.spelled, byteLength_append, wordsOf, ← Nat.add_assoc,
      List.append_assoc]
    congr 1
    cases meaning : rule.meaning? lexeme with
    | none => simp [ofLexeme?, meaning]
    | some pair =>
      obtain ⟨kind, value⟩ := pair
      have plain := kind_of_plain (split?_of_plainMatch? first).1 meaning
      simp only [ofLexeme?, meaning, Option.map_some, Option.toList_some, List.flatMap_cons,
        List.flatMap_nil, List.append_nil]
      unfold Token.words
      split
      next same => exact absurd same plain
      next => rfl

theorem wordsOf_elseIf {pieces : List Piece} :
    wordsOf offset (.elseWord :: ⟨.blanks, gap⟩ :: .ifWord :: pieces) =
      ⟨.elseWord, "else", offset, offset + 4⟩ ::
      ⟨.ifWord, "if", offset + 4 + byteLength gap, offset + 4 + byteLength gap + 2⟩ ::
      wordsOf (offset + 4 + byteLength gap + 2) pieces := rfl

/-- An `else if` in front leaves one token, and two words. -/
theorem Makes.behind_elseIf {pieces others : List Piece} {tokens : List Token}
    (makes : Makes (offset + byteLength (['e', 'l', 's', 'e'] ++ gap ++ ['i', 'f']))
      rest others tokens)
    (cut : Pieces [] (['e', 'l', 's', 'e'] ++ gap ++ ['i', 'f'] ++ rest) pieces)
    (same : pieces = .elseWord :: ⟨.blanks, gap⟩ :: .ifWord :: others) :
    Makes offset (['e', 'l', 's', 'e'] ++ gap ++ ['i', 'f'] ++ rest) pieces
      ((ofLexeme? .elseIf (['e', 'l', 's', 'e'] ++ gap ++ ['i', 'f']) offset).toList ++
        tokens) := by
  subst same
  have length : byteLength (['e', 'l', 's', 'e'] ++ gap ++ ['i', 'f']) =
    4 + byteLength gap + 2 := by
    rw [byteLength_append, byteLength_append]
    rfl
  refine ⟨cut, ?_, ?_⟩
  · rw [leaves_elseIf, List.map_append, makes.meanings]
    rfl
  · have two :
        (ofLexeme? .elseIf (['e', 'l', 's', 'e'] ++ gap ++ ['i', 'f']) offset).toList.flatMap
          words =
        [⟨.elseWord, "else", offset, offset + 4⟩,
          ⟨.ifWord, "if", offset + 4 + byteLength gap, offset + 4 + byteLength gap + 2⟩] := by
      simp only [ofLexeme?, Rule.meaning?, Option.map_some, Option.toList_some,
        List.flatMap_singleton, words, length, ← Nat.add_assoc, Nat.add_sub_cancel]
    rw [List.flatMap_append, makes.spelled, wordsOf_elseIf, two, byteLength_append _ rest, length]
    simp only [List.cons_append, List.nil_append, ← Nat.add_assoc]

/-- The tokens of a text are made of its pieces, and a text that has no tokens has no pieces. -/
theorem makes_of_scan (bound offset : Nat) (cs : List Char) (enough : cs.length ≤ bound) :
    match scan bound offset cs with
    | .ok tokens => ∃ pieces, Makes offset cs pieces tokens
    | .error _ => ∀ pieces, ¬Pieces [] cs pieces := by
  fun_induction scan bound offset cs with
  | case1 bound offset => exact ⟨[], .nil, by simp [meaning, endOfInput], rfl⟩
  | case2 offset c cs => simp at enough
  | case3 bound offset c cs none =>
    intro pieces cut
    have noElseIf : Rule.elseIf.split? (c :: cs) = .none :=
      Option.map_eq_none_iff.mp (List.findSome?_eq_none_iff.mp none .elseIf (by decide))
    rw [firstMatch?_of_noElseIf noElseIf] at none
    generalize same : c :: cs = whole at none cut
    cases cut with
    | nil => cases same
    | cons first =>
      rw [List.append_nil, none] at first
      cases first
  | case4 bound offset c cs rule lexeme rest found ih =>
    obtain ⟨member, here⟩ := split?_of_firstMatch? found
    have whole := append_of_split? here
    have filled := List.length_pos_iff.mpr (filled_of_split? member here)
    rw [← whole, List.length_append] at enough
    have ih := ih (by omega)
    by_cases own : rule = .elseIf
    · subst own
      obtain ⟨gap, rfl, cuts⟩ := pieces_of_elseIf here
      rw [← whole] at cuts ⊢
      cases more : scan bound (offset + byteLength (['e', 'l', 's', 'e'] ++ gap ++ ['i', 'f']))
        rest with
      | ok tokens =>
        rw [more] at ih
        obtain ⟨others, makes⟩ := ih
        exact ⟨_, makes.behind_elseIf ((cuts _).mpr ⟨others, rfl, makes.cut⟩) rfl⟩
      | error fault =>
        rw [more] at ih
        intro pieces cut
        obtain ⟨others, _, cut⟩ := (cuts pieces).mp cut
        exact ih others cut
    · have split := noElseIf_of_firstMatch? found own
      rw [firstMatch?_of_noElseIf split] at found
      rw [← whole] at found split ⊢
      cases more : scan bound (offset + byteLength lexeme) rest with
      | ok tokens =>
        rw [more] at ih
        obtain ⟨pieces, makes⟩ := ih
        exact ⟨_, makes.behind found split⟩
      | error fault =>
        rw [more] at ih
        intro pieces cut
        obtain ⟨others, _, cut⟩ := (Pieces.cons_iff (by simpa using found)).mp cut
        exact ih others cut

end ColonScript.Token
