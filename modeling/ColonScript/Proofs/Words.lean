import ColonScript.Proofs.Pieces

/-! Where the words of a text stand. Between two of them, in front of the first and behind the last
there is nothing but pieces that leave no token. -/

namespace ColonScript.Token
open Text

variable {offset : Nat} {front gap back text rest : List Char} {piece : Piece}
  {pieces before between after : List Piece} {tokens words others : List Token} {next : Token}

def textOf (pieces : List Piece) : List Char := pieces.flatMap (·.lexeme)

theorem Pieces.text_eq (cut : Pieces rest text pieces) : text = textOf pieces := by
  induction cut with
  | nil => rfl
  | cons _ _ ih => rw [textOf, List.flatMap_cons, ← textOf, ← ih]

theorem wordsOf_append (offset : Nat) (before after : List Piece) :
    wordsOf offset (before ++ after) =
      wordsOf offset before ++ wordsOf (offset + byteLength (textOf before)) after := by
  induction before generalizing offset with
  | nil => simp [wordsOf, textOf]
  | cons piece before ih => simp [wordsOf, textOf, ih, Nat.add_assoc]

theorem wordsOf_silent (silent : ∀ piece ∈ between, piece.Silent) :
    wordsOf offset between = [] := by
  induction between generalizing offset with
  | nil => rfl
  | cons piece between ih =>
    rw [List.forall_mem_cons] at silent
    have none : piece.rule.meaning? piece.lexeme = none := silent.1
    simp [wordsOf, ofLexeme?, none, ih silent.2]

theorem wordsOf_cons {kind : Kind} {value : String} (meaning : piece.meaning? = some (kind, value))
    (offset : Nat) (pieces : List Piece) : wordsOf offset (piece :: pieces) =
      ⟨kind, value, offset, offset + byteLength piece.lexeme⟩ :: wordsOf
      (offset + byteLength piece.lexeme) pieces := by
  have own : piece.rule.meaning? piece.lexeme = some (kind, value) := meaning
  simp [wordsOf, ofLexeme?, own]

theorem meaning_of_loud (loud : ¬piece.Silent) :
    ∃ kind value, piece.meaning? = some (kind, value) := by
  obtain ⟨⟨kind, value⟩, meaning⟩ := Option.ne_none_iff_exists'.mp loud
  exact ⟨kind, value, meaning⟩

/-- The pieces up to a word. -/
theorem exists_before (spelled : wordsOf offset pieces = words ++ others) :
    ∃ before after, pieces = before ++ after ∧ wordsOf offset before = words ∧
      ∀ last ∈ before.getLast?, ¬last.Silent := by
  induction pieces generalizing offset words with
  | nil =>
    obtain ⟨rfl, _⟩ := List.append_eq_nil_iff.mp spelled.symm
    exact ⟨[], [], rfl, rfl, by simp⟩
  | cons piece pieces ih =>
    cases words with
    | nil => exact ⟨[], piece :: pieces, rfl, rfl, by simp⟩
    | cons word words =>
      by_cases silent : piece.Silent
      · have none : piece.rule.meaning? piece.lexeme = none := silent
        rw [wordsOf, ofLexeme?, none] at spelled
        obtain ⟨before, after, rfl, inside, loud⟩ := ih spelled
        refine ⟨piece :: before, after, rfl, by rw [wordsOf, ofLexeme?, none]; exact inside, ?_⟩
        cases before with
        | nil => cases inside
        | cons first before => simpa using loud
      · obtain ⟨kind, value, meaning⟩ := meaning_of_loud silent
        rw [wordsOf_cons meaning] at spelled
        obtain ⟨rfl, more⟩ := List.cons.inj spelled
        obtain ⟨before, after, rfl, inside, loud⟩ := ih more
        refine ⟨piece :: before, after, rfl, by rw [wordsOf_cons meaning, inside], ?_⟩
        cases before with
        | nil => simpa using silent
        | cons first before => simpa using loud

/-- The silent pieces in front of a word. -/
theorem exists_silent (pieces : List Piece) :
    ∃ between after, pieces = between ++ after ∧ (∀ piece ∈ between, piece.Silent) ∧
      ∀ first ∈ after.head?, ¬first.Silent := by
  induction pieces with
  | nil => exact ⟨[], [], rfl, by simp, by simp⟩
  | cons piece pieces ih =>
    by_cases silent : piece.Silent
    · obtain ⟨between, after, rfl, all, loud⟩ := ih
      exact ⟨piece :: between, after, rfl, List.forall_mem_cons.mpr ⟨silent, all⟩, loud⟩
    · exact ⟨[], piece :: pieces, rfl, by simp, by simpa using silent⟩

/-- No lexeme but a word has the kind of a reserved word. -/
theorem reserved_apart : ∀ pair ∈ reservedWords, wordKind pair.1 = pair.2 ∧
    pair.2 ∉ [Kind.identifier, .float, .integer, .string, .char] := by
  decide

theorem marks_apart : ∀ rule ∈ Rule.plain, (match rule with
    | .mark own _ => reservedWords.all fun pair => own ≠ pair.2
    | _ => true) = true := by
  decide

/-- What is of the kind of a reserved word that no other word shares is that word. -/
theorem kind_eq_iff {kind own : Kind} {value text : String} (member : piece.rule ∈ Rule.plain)
    (meaning : piece.meaning? = some (kind, value)) (reserved : (text, own) ∈ reservedWords)
    (only : ∀ pair ∈ reservedWords, pair.2 = own → pair.1 = text) :
    kind = own ↔ piece = ⟨.word, text.toList⟩ := by
  obtain ⟨rule, lexeme⟩ := piece
  obtain ⟨reads, apart⟩ : wordKind text = own ∧
    own ∉ [Kind.identifier, .float, .integer, .string, .char] :=
    reserved_apart _ reserved
  cases rule with
  | word =>
    obtain ⟨same, _⟩ := Prod.mk.inj (Option.some.inj meaning)
    have same : wordKind (String.ofList lexeme) = kind := same
    subst same
    constructor
    · intro same
      rcases wordKind_cases (String.ofList lexeme) with listed | identifier
      · have spelled : String.ofList lexeme = text := only _ listed same
        rw [← spelled, String.toList_ofList]
      · rw [← same, identifier] at apart
        exact absurd List.mem_cons_self apart
    · intro same
      obtain rfl : lexeme = text.toList := congrArg Piece.lexeme same
      rw [String.ofList_toList, reads]
  | mark other spelling =>
    obtain ⟨same, _⟩ := Prod.mk.inj (Option.some.inj meaning)
    have same : other = kind := same
    subst same
    have ne := of_decide_eq_true (List.all_eq_true.mp (marks_apart _ member) _ reserved)
    exact ⟨fun same => absurd same ne, fun same => by cases same⟩
  | blanks | comment => cases meaning
  | elseIf => exact absurd (show Rule.elseIf ∈ Rule.plain from member) (by decide)
  | _ =>
    obtain ⟨same, _⟩ := Prod.mk.inj (Option.some.inj meaning)
    refine ⟨fun isOwn => absurd ?_ apart, fun same => by cases same⟩
    rw [← isOwn, ← same]
    simp

theorem Pieces.plain (cut : Pieces rest text pieces) :
    ∀ piece ∈ pieces, piece.rule ∈ Rule.plain := by
  induction cut with
  | nil => simp
  | cons first _ ih => exact List.forall_mem_cons.mpr ⟨(split?_of_plainMatch? first).1, ih⟩

theorem last_word (loud : ∀ last ∈ pieces.getLast?, ¬last.Silent)
    (plain : ∀ piece ∈ pieces, piece.rule ∈ Rule.plain) :
    ((wordsOf 0 pieces).getLast?.map stop).getD 0 = byteLength (textOf pieces) ∧
      ((wordsOf 0 pieces).getLast?.map kind = some .elseWord ↔
        pieces.getLast? = some .elseWord) := by
  rcases List.eq_nil_or_concat pieces with rfl | ⟨pieces, last, rfl⟩
  · exact ⟨rfl, by simp [wordsOf]⟩
  · obtain ⟨kind, value, meaning⟩ := meaning_of_loud (loud last (by simp))
    have isElse : kind = .elseWord ↔ last = .elseWord :=
      kind_eq_iff (plain last (by simp)) meaning (show ("else", Kind.elseWord) ∈ reservedWords by
        decide) (by decide)
    rw [List.concat_eq_append, wordsOf_append, wordsOf_cons meaning]
    exact ⟨by simp [wordsOf, textOf], by simpa [wordsOf] using isElse⟩

/-- Behind the last word comes the end of the input. -/
theorem first_word (loud : ∀ first ∈ pieces.head?, ¬first.Silent)
    (plain : ∀ piece ∈ pieces, piece.rule ∈ Rule.plain)
    (head : wordsOf offset pieces ++ [endOfInput (offset + byteLength (textOf pieces))] =
      next :: others) :
    next.start = offset ∧ (next.kind = .ifWord ↔ pieces.head? = some .ifWord) := by
  cases pieces with
  | nil =>
    obtain ⟨rfl, _⟩ := List.cons.inj head
    exact ⟨rfl, by simp [endOfInput]⟩
  | cons first pieces =>
    obtain ⟨kind, value, meaning⟩ := meaning_of_loud (loud first rfl)
    have isIf : kind = .ifWord ↔ first = .ifWord :=
      kind_eq_iff (plain first (by simp)) meaning (show ("if", Kind.ifWord) ∈ reservedWords by
        decide) (by decide)
    rw [wordsOf_cons meaning, List.cons_append] at head
    obtain ⟨rfl, _⟩ := List.cons.inj head
    exact ⟨rfl, by simpa using isIf⟩

/-! Gaps. -/

/-- Behind the text `front`, the text `gap` is all that stands between the last of the words and the
next. Where there are no words yet it begins the source, and the end of the input comes next behind
all of them. -/
structure Separates (tokens words : List Token) (front gap : List Char) (next : Token) : Prop where
  among : words ++ [next] <+: tokens.flatMap Token.words
  stop : (words.getLast?.map Token.stop).getD 0 = byteLength front
  start : next.start = byteLength (front ++ gap)

/-- The pieces of a text in three parts, of which the second is what leaves no token between the
words of the others. -/
structure Parts (front gap back : List Char) (before between after : List Piece) : Prop where
  front : Pieces (gap ++ back) front before
  gap : Pieces back gap between
  back : Pieces [] back after
  last : ∀ piece ∈ before.getLast?, ¬piece.Silent
  silent : ∀ piece ∈ between, piece.Silent
  first : ∀ piece ∈ after.head?, ¬piece.Silent

theorem Parts.cut (parts : Parts front gap back before between after) :
    Pieces [] (front ++ (gap ++ back)) (before ++ (between ++ after)) := by
  have behind : Pieces [] (gap ++ back) (between ++ after) :=
    .append (by simpa using parts.gap) parts.back
  exact .append (by simpa using parts.front) behind

/-- A gap between words is a part of the pieces. -/
theorem Makes.parts (makes : Makes 0 (front ++ (gap ++ back)) pieces tokens)
    (separates : Separates tokens words front gap next) :
    ∃ before between after, pieces = before ++ (between ++ after) ∧
      Parts front gap back before between after ∧
      (words.getLast?.map kind = some .elseWord ↔ before.getLast? = some .elseWord) ∧
      (next.kind = .ifWord ↔ after.head? = some .ifWord) := by
  obtain ⟨following, among⟩ := separates.among
  rw [makes.spelled, Nat.zero_add, List.append_assoc, List.singleton_append] at among
  -- The next word may be the end of the input.
  obtain ⟨others, inside, head⟩ : ∃ others, wordsOf 0 pieces = words ++ others ∧
      others ++ [endOfInput (byteLength (front ++ (gap ++ back)))] = next :: following := by
    rcases List.append_eq_append_iff.mp among with ⟨others, inside, head⟩ | ⟨others, inside, head⟩
    · exact ⟨others, inside, head.symm⟩
    · have length := congrArg List.length head
      simp only [List.length_append, List.length_cons, List.length_nil] at length
      obtain rfl : others = [] := List.length_eq_zero_iff.mp (by omega)
      exact ⟨[], by simpa using inside.symm, head⟩
  obtain ⟨before, behind, rfl, rfl, last⟩ := exists_before inside
  obtain ⟨between, after, rfl, silent, first⟩ := exists_silent behind
  obtain ⟨front', behind, whole, cut, cut'⟩ := makes.cut.of_append
  obtain ⟨gap', back', rfl, cut', cut''⟩ := cut'.of_append
  rw [List.append_nil] at cut cut'
  obtain ⟨stop, isElse⟩ := last_word last cut.plain
  obtain ⟨rfl, behind⟩ :=
    eq_of_byteLength whole (separates.stop.symm.trans (by rw [stop, ← cut.text_eq]))
  rw [wordsOf_append, wordsOf_append, wordsOf_silent silent, List.nil_append, ← cut.text_eq,
    ← cut'.text_eq, Nat.zero_add] at inside
  obtain rfl := List.append_cancel_left inside
  rw [behind, byteLength_append, byteLength_append, ← Nat.add_assoc, cut''.text_eq] at head
  obtain ⟨start, isIf⟩ := first_word first cut''.plain head
  obtain ⟨rfl, rfl⟩ := eq_of_byteLength behind (by
    have start' := separates.start
    rw [start, byteLength_append] at start'
    omega)
  exact ⟨before, between, after, rfl, ⟨cut, cut', cut'', last, silent, first⟩, isElse, isIf⟩

end ColonScript.Token
