import Mathlib.Data.List.Basic
import Mathlib.Data.List.TakeWhile
import ColonScript.Token.Lexer

/-! What the rules match. A rule splits off a lexeme of its shape, as long as the text allows: a
lexeme and what comes behind it are all that a match depends on. -/

namespace ColonScript.Token
open Text

variable {p : Char → Bool} {c : Char} {cs lexeme rest : List Char} {rule : Rule}

/-! Runs of characters of one class. -/

/-- What a longest run is. -/
theorem span_eq_iff :
    (cs.takeWhile p = lexeme ∧ cs.dropWhile p = rest) ↔
      cs = lexeme ++ rest ∧ (∀ c ∈ lexeme, p c = true) ∧ ∀ c ∈ rest.head?, p c = false := by
  constructor
  · rintro ⟨rfl, rfl⟩
    refine ⟨List.takeWhile_append_dropWhile.symm, fun c => List.mem_takeWhile_imp, fun c head => ?_⟩
    have stopped := List.head?_dropWhile_not p cs
    rwa [Option.mem_def.mp head] at stopped
  · rintro ⟨rfl, inside, stops⟩
    rw [List.takeWhile_append_of_pos inside, List.dropWhile_append_of_pos inside]
    cases rest with
    | nil => simp
    | cons c rest => simp [stops c rfl]

theorem run?_eq_some_iff :
    run? p cs = some (lexeme, rest) ↔
      cs = lexeme ++ rest ∧ (lexeme ≠ [] ∧ ∀ c ∈ lexeme, p c = true) ∧ ∀ c ∈ rest.head?,
      p c = false := by
  have span : (cs.takeWhile p = lexeme ∧ cs.dropWhile p = rest) ↔ _ := span_eq_iff
  unfold run?
  split
  next empty =>
    simp only [reduceCtorEq, false_iff]
    rintro ⟨same, ⟨filled, inside⟩, stops⟩
    exact filled ((span.mpr ⟨same, inside, stops⟩).1 ▸ List.isEmpty_iff.mp empty)
  next filled =>
    simp only [Option.some.injEq, Prod.mk.injEq, span]
    constructor
    · rintro ⟨same, inside, stops⟩
      refine ⟨same, ⟨?_, inside⟩, stops⟩
      rintro rfl
      exact filled (List.isEmpty_iff.mpr (span.mpr ⟨same, inside, stops⟩).1)
    · rintro ⟨same, ⟨_, inside⟩, stops⟩
      exact ⟨same, inside, stops⟩

/-- What holds of each of the ten digits holds of what the class of digits takes. -/
theorem holds_of_isDigit (each : ['0', '1', '2', '3', '4', '5', '6', '7', '8', '9'].all p = true)
    (digit : c.isDigit = true) : p c = true := by
  have bounds : 48 ≤ c.toNat ∧ c.toNat ≤ 57 := by
    simpa [Char.isDigit, UInt32.le_iff_toNat_le] using digit
  have number : c.toNat ∈ List.range' 48 10 := List.mem_range'_1.mpr ⟨bounds.1, by omega⟩
  have chars : (List.range' 48 10).map Char.ofNat =
    ['0', '1', '2', '3', '4', '5', '6', '7', '8', '9'] := rfl
  refine List.all_eq_true.mp each c ?_
  rw [← chars, ← Char.ofNat_toNat c]
  exact List.mem_map_of_mem number

/-! Shapes. -/

namespace Rule

/-- What a lexeme of the rule looks like. -/
def Shape : Rule → List Char → Prop
  | blanks, lexeme => lexeme ≠ [] ∧ ∀ c ∈ lexeme, isBlank c = true
  | comment, lexeme => ∃ line, '\n' ∉ line ∧ lexeme = '/' :: '/' :: line
  | elseIf, lexeme => ∃ gap, (gap ≠ [] ∧ ∀ c ∈ gap, isBlank c = true) ∧
      lexeme = ['e', 'l', 's', 'e'] ++ gap ++ ['i', 'f']
  | word, lexeme =>
    ∃ c cs, isWordStart c = true ∧ (∀ c ∈ cs, isWordRest c = true) ∧ lexeme = c :: cs
  | decimal, lexeme => ∃ whole part, (whole ≠ [] ∧ ∀ c ∈ whole, c.isDigit = true) ∧
      (part ≠ [] ∧ ∀ c ∈ part, c.isDigit = true) ∧ lexeme = whole ++ '.' :: part
  | digits, lexeme => lexeme ≠ [] ∧ ∀ c ∈ lexeme, c.isDigit = true
  | quotedString, lexeme => ∃ text, '"' ∉ text ∧ lexeme = '"' :: (text ++ ['"'])
  | quotedChar, lexeme => lexeme = ['\'', '\''] ∨ ∃ c, c ≠ '\'' ∧ lexeme = ['\'', c, '\'']
  | mark _ spelling, lexeme => lexeme = spelling.toList

def goesOn : Rule → Char → Bool
  | blanks, c => isBlank c
  | comment, c => c ≠ '\n'
  | elseIf, c => isWordChar c
  | word, c => isWordRest c
  | decimal, c | digits, c => c.isDigit
  | quotedString, _ | quotedChar, _ | mark .., _ => false

end Rule

theorem endsWord_iff : endsWord rest = true ↔ ∀ c ∈ rest.head?, isWordChar c = false := by
  cases rest <;> simp [endsWord]

theorem comment?_eq_some_iff :
    comment? cs = some (lexeme, rest) ↔
      cs = lexeme ++ rest ∧ Rule.comment.Shape lexeme ∧ ∀ c ∈ rest.head?,
      Rule.comment.goesOn c = false := by
  simp only [Rule.Shape, Rule.goesOn]
  constructor
  · intro split
    unfold comment? at split
    split at split
    next cs =>
      obtain ⟨rfl, rest⟩ := Prod.mk.inj (Option.some.inj split)
      obtain ⟨same, inside, stops⟩ := span_eq_iff.mp ⟨rfl, rest⟩
      refine ⟨by rw [List.cons_append, List.cons_append, ← same], ⟨_, fun member => ?_, rfl⟩, stops⟩
      simpa using inside _ member
    next => cases split
  · rintro ⟨rfl, ⟨line, single, rfl⟩, stops⟩
    have inside : ∀ c ∈ line, decide (c ≠ '\n') = true := fun c member =>
      decide_eq_true fun same => single (same ▸ member)
    obtain ⟨taken, dropped⟩ := span_eq_iff.mpr ⟨rfl, inside, stops⟩
    simp only [List.cons_append, comment?, taken, dropped]

theorem word?_eq_some_iff :
    word? cs = some (lexeme, rest) ↔
      cs = lexeme ++ rest ∧ Rule.word.Shape lexeme ∧ ∀ c ∈ rest.head?,
      Rule.word.goesOn c = false := by
  simp only [Rule.Shape, Rule.goesOn]
  constructor
  · intro split
    unfold word? at split
    split at split
    next c cs =>
      split at split
      next start =>
        obtain ⟨rfl, rest⟩ := Prod.mk.inj (Option.some.inj split)
        obtain ⟨same, inside, stops⟩ := span_eq_iff.mp ⟨rfl, rest⟩
        exact ⟨by rw [List.cons_append, ← same], ⟨c, _, start, inside, rfl⟩, stops⟩
      next => cases split
    next => cases split
  · rintro ⟨rfl, ⟨c, cs, start, inside, rfl⟩, stops⟩
    obtain ⟨taken, dropped⟩ := span_eq_iff.mpr ⟨rfl, inside, stops⟩
    simp only [List.cons_append, word?, start, if_true, taken, dropped]

theorem elseIf?_eq_some_iff :
    elseIf? cs = some (lexeme, rest) ↔
      cs = lexeme ++ rest ∧ Rule.elseIf.Shape lexeme ∧ ∀ c ∈ rest.head?,
      Rule.elseIf.goesOn c = false := by
  simp only [Rule.Shape, Rule.goesOn]
  constructor
  · intro split
    unfold elseIf? at split
    split at split
    next cs =>
      split at split
      next gap after run =>
        split at split
        next ends =>
          obtain ⟨rfl, rfl⟩ := Prod.mk.inj (Option.some.inj split)
          obtain ⟨rfl, blank, _⟩ := run?_eq_some_iff.mp run
          exact ⟨by simp, ⟨gap, blank, rfl⟩, endsWord_iff.mp ends⟩
        next => cases split
      next => cases split
    next => cases split
  · rintro ⟨rfl, ⟨gap, blank, rfl⟩, stops⟩
    have run : run? isBlank (gap ++ 'i' :: 'f' :: rest) = some (gap, 'i' :: 'f' :: rest) :=
      run?_eq_some_iff.mpr ⟨rfl, blank, by simp; decide⟩
    simp [elseIf?, run, endsWord_iff.mpr stops]

theorem decimal?_eq_some_iff :
    decimal? cs = some (lexeme, rest) ↔
      cs = lexeme ++ rest ∧ Rule.decimal.Shape lexeme ∧ ∀ c ∈ rest.head?,
      Rule.decimal.goesOn c = false := by
  simp only [Rule.Shape, Rule.goesOn]
  constructor
  · intro split
    unfold decimal? at split
    split at split
    next whole after run =>
      obtain ⟨⟨part, rest'⟩, run', same⟩ := Option.map_eq_some_iff.mp split
      obtain ⟨rfl, rfl⟩ := Prod.mk.inj same
      obtain ⟨rfl, wholeDigits, _⟩ := run?_eq_some_iff.mp run
      obtain ⟨rfl, partDigits, stops⟩ := run?_eq_some_iff.mp run'
      exact ⟨by simp, ⟨whole, part, wholeDigits, partDigits, rfl⟩, stops⟩
    next => cases split
  · rintro ⟨rfl, ⟨whole, part, wholeDigits, partDigits, rfl⟩, stops⟩
    have run : run? Char.isDigit (whole ++ '.' :: (part ++ rest)) =
      some (whole, '.' :: (part ++ rest)) :=
      run?_eq_some_iff.mpr ⟨rfl, wholeDigits, by simp⟩
    have run' : run? Char.isDigit (part ++ rest) = some (part, rest) :=
      run?_eq_some_iff.mpr ⟨rfl, partDigits, stops⟩
    simp [decimal?, run, run']

theorem quotedString?_eq_some_iff :
    quotedString? cs = some (lexeme, rest) ↔ cs = lexeme ++ rest ∧
      Rule.quotedString.Shape lexeme := by
  simp only [Rule.Shape]
  constructor
  · intro split
    unfold quotedString? at split
    split at split
    next cs =>
      split at split
      next => cases split
      next quote after dropped =>
        obtain ⟨rfl, rfl⟩ := Prod.mk.inj (Option.some.inj split)
        obtain ⟨same, inside, stops⟩ := span_eq_iff.mp ⟨rfl, dropped⟩
        obtain rfl : quote = '"' := by simpa using stops quote rfl
        refine ⟨?_, cs.takeWhile (· ≠ '"'), fun member => ?_, List.cons_append⟩
        · rw [List.cons_append, List.cons_append, List.append_assoc, List.singleton_append, ← same]
        · simpa using inside _ member
    next => cases split
  · rintro ⟨rfl, text, unquoted, rfl⟩
    have inside : ∀ c ∈ text, decide (c ≠ '"') = true := fun c member =>
      decide_eq_true fun same => unquoted (same ▸ member)
    have stops : ∀ c ∈ ('"' :: rest).head?, decide (c ≠ '"') = false := by simp
    obtain ⟨taken, dropped⟩ := span_eq_iff.mpr ⟨rfl, inside, stops⟩
    simp only [List.cons_append, List.append_assoc, List.nil_append, quotedString?, taken, dropped]

theorem quotedChar?_eq_some_iff :
    quotedChar? cs = some (lexeme, rest) ↔ cs = lexeme ++ rest ∧ Rule.quotedChar.Shape lexeme := by
  simp only [Rule.Shape]
  constructor
  · intro split
    unfold quotedChar? at split
    split at split
    next =>
      obtain ⟨rfl, rfl⟩ := Prod.mk.inj (Option.some.inj split)
      exact ⟨rfl, .inl rfl⟩
    next c after other =>
      obtain ⟨rfl, rfl⟩ := Prod.mk.inj (Option.some.inj split)
      exact ⟨rfl, .inr ⟨c, other, rfl⟩⟩
    next => cases split
  · rintro ⟨rfl, rfl | ⟨c, other, rfl⟩⟩
    · rfl
    · simp [quotedChar?]

/-- A rule matches exactly the lexemes of its shape that end where they cannot go on. -/
theorem split?_eq_some_iff :
    rule.split? cs = some (lexeme, rest) ↔
      cs = lexeme ++ rest ∧ rule.Shape lexeme ∧ ∀ c ∈ rest.head?, rule.goesOn c = false := by
  cases rule with
  | blanks | digits => exact run?_eq_some_iff
  | comment => exact comment?_eq_some_iff
  | elseIf => exact elseIf?_eq_some_iff
  | word => exact word?_eq_some_iff
  | decimal => exact decimal?_eq_some_iff
  | quotedString =>
    simp only [Rule.goesOn, implies_true, and_true]
    exact quotedString?_eq_some_iff
  | quotedChar =>
    simp only [Rule.goesOn, implies_true, and_true]
    exact quotedChar?_eq_some_iff
  | mark kind spelling =>
    simp only [Rule.split?, Rule.Shape, Rule.goesOn, implies_true, and_true,
      Option.map_eq_some_iff, Prod.mk.injEq, List.isPrefixOf?_eq_some_iff_append_eq]
    constructor
    · rintro ⟨rest, rfl, rfl, rfl⟩
      exact ⟨rfl, rfl⟩
    · rintro ⟨rfl, rfl⟩
      exact ⟨rest, rfl, rfl, rfl⟩

end ColonScript.Token
