import ColonScript.Proofs.FaultPlaces
import ColonScript.Proofs.Lines

/-! Under which character the caret of a report stands. A report sets as many characters in front of
its caret as there are bytes between the bar and the fault, so that the caret stands under the fault
just when each of them is a character of its own; behind a wider character it stands too far to the
right. -/

namespace ColonScript
open Text

namespace Text

theorem length_le_byteLength (cs : List Char) : cs.length ≤ byteLength cs := by
  induction cs with
  | nil => exact Nat.le_refl 0
  | cons c cs ih =>
    have positive := c.utf8Size_pos
    rw [List.length_cons, byteLength_cons]
    omega

theorem byteLength_eq_length_iff {cs : List Char} : byteLength cs = cs.length ↔
    ∀ c ∈ cs, c.utf8Size = 1 := by
  induction cs with
  | nil => simp
  | cons c cs ih =>
    have positive := c.utf8Size_pos
    have bound := length_le_byteLength cs
    rw [List.forall_mem_cons, ← ih, List.length_cons, byteLength_cons]
    omega

/-- The body of a text is what is left of it without the white space at its end. -/
structure Trimmed (text body : List Char) : Prop where
  blanks : ∃ blanks, text = body ++ blanks ∧ ∀ c ∈ blanks, isBlank c = true
  last : ∀ c ∈ body.getLast?, isBlank c = false

theorem trimmed_trimEnd (text : List Char) : Trimmed text (trimEnd text) := by
  constructor
  · refine ⟨(text.reverse.takeWhile isBlank).reverse, ?_, ?_⟩
    · rw [trimEnd, ← List.reverse_append, List.takeWhile_append_dropWhile, List.reverse_reverse]
    · intro c member
      exact List.mem_takeWhile_imp (List.mem_reverse.mp member)
  · intro c last
    rw [trimEnd, List.getLast?_reverse] at last
    have stopped := List.head?_dropWhile_not isBlank text.reverse
    rw [last] at stopped
    simpa using stopped

end Text

namespace Fault

variable {source : List Char} {offset : Nat} {line : Line} {passed ahead : List Char}

/-- Where an offset lies in its line: `passed` is the text from the spaces in front of the line up
to the offset, and `ahead` is the rest of the line. -/
structure Sight (source : List Char) (offset : Nat) (line : Line) (passed ahead : List Char) :
    Prop where
  holds : line.Holds 1 source offset
  text : line.text = indentation line.text ++ (passed ++ ahead)
  column : line.column = byteLength (indentation line.text ++ passed)

def label (number : Nat) : List Char := Nat.toDigits 10 number ++ [' ', '|', ' ']

/-- The report has the body of the line under its number, and `front` up to the caret below. -/
structure Shows (fault : Fault) (path source : String) (line : Line) (body front : List Char) :
    Prop where
  lines : fault.reportLines path source = [fault.title, "-> ".toList ++ path.toList,
    margin line.number, label line.number ++ body, front ++ ['^'], fault.cause.message.toList]
  first : '^' ∉ front

theorem byteLength_indentation (text : List Char) :
    byteLength (indentation text) = (indentation text).length := by
  apply byteLength_eq_length_iff.mpr
  intro c member
  have space : c = ' ' := by simpa using List.mem_takeWhile_imp member
  rw [space]
  rfl

/-- An offset between two characters, behind the spaces in front of its line, divides the rest of
the line. -/
theorem exists_sight (boundary : Boundary source offset) (holds : line.Holds 1 source offset)
    (behind : (indentation line.text).length ≤ line.column) :
    ∃ passed ahead, Sight source offset line passed ahead := by
  obtain ⟨front, back, whole, rfl⟩ := boundary
  obtain ⟨before, after, whole', start, _⟩ := holds.spans
  have column := holds.column
  rw [← start] at column
  -- What was reached of the line is a front of its text, and the spaces are a front of that.
  obtain ⟨reached, rfl, split⟩ :=
    append_of_byteLength_le (whole'.symm.trans whole) (Nat.le.intro column)
  have length : byteLength reached = line.column := by
    rw [byteLength_append] at column
    omega
  obtain ⟨ahead, text, _⟩ := append_of_byteLength_le split.symm (length.trans_le holds.column_le)
  have spaces : line.text = indentation line.text ++ line.text.dropWhile (· = ' ') :=
    List.takeWhile_append_dropWhile.symm
  obtain ⟨passed, rfl, rest⟩ := append_of_byteLength_le (spaces.symm.trans text) (by
    rw [byteLength_indentation, length]
    exact behind)
  refine ⟨passed, ahead, holds, ?_, length.symm⟩
  rw [← rest]
  exact spaces

theorem shownLine_of_sight (sight : Sight source offset line passed ahead) :
    shownLine line = label line.number ++ trimEnd (passed ++ ahead) := by
  have rest : line.text.drop (indentation line.text).length = passed ++ ahead :=
    (congrArg (List.drop _) sight.text).trans List.drop_left
  rw [shownLine, rest, label]

/-- The caret stands behind as many characters as the label has, and as many more as bytes were
passed. -/
theorem exists_front_of_sight (sight : Sight source offset line passed ahead) :
    ∃ front, caretLine line = front ++ ['^'] ∧ '^' ∉ front ∧
      front.length = (label line.number).length + byteLength passed := by
  have dashes : line.column - (indentation line.text).length = byteLength passed := by
    rw [sight.column, byteLength_append, byteLength_indentation]
    omega
  refine ⟨_, rfl, ?_, ?_⟩
  · simp [margin, List.mem_replicate]
  · rw [dashes]
    simp only [margin, label, List.length_append, List.length_replicate, List.length_cons,
      List.length_nil]

theorem exists_shows {fault : Fault} {source : String}
    (sight : Sight source.toList fault.position.offset line passed ahead) (path : String) :
    ∃ body front, Trimmed (passed ++ ahead) body ∧ fault.Shows path source line body front ∧
      front.length = (label line.number).length + byteLength passed := by
  have found := lineAt?_eq_some_iff.mpr sight.holds
  obtain ⟨front, caret, first, length⟩ := exists_front_of_sight sight
  refine ⟨_, front, trimmed_trimEnd _, ⟨?_, first⟩, length⟩
  rw [← shownLine_of_sight sight, ← caret]
  simp [reportLines, found]

/-- The report of a fault that lies between two characters and not inside the spaces in front of its
line shows the line without these spaces and the white space at its end. The caret stands under the
fault exactly when each character that was passed takes one byte. -/
theorem caret_under_fault_iff (fault : Fault) (path source : String)
    (boundary : Boundary source.toList fault.position.offset)
    (holds : line.Holds 1 source.toList fault.position.offset)
    (behind : (indentation line.text).length ≤ line.column) :
    ∃ passed ahead body front, Sight source.toList fault.position.offset line passed ahead ∧
      Trimmed (passed ++ ahead) body ∧ fault.Shows path source line body front ∧
      front.length = (label line.number).length + byteLength passed ∧
      (front.length = (label line.number).length + passed.length ↔
        ∀ c ∈ passed, c.utf8Size = 1) := by
  obtain ⟨passed, ahead, sight⟩ := exists_sight boundary holds behind
  obtain ⟨body, front, trimmed, shows, length⟩ := exists_shows sight path
  refine ⟨passed, ahead, body, front, sight, trimmed, shows, length, ?_⟩
  rw [length, Nat.add_left_cancel_iff]
  exact byteLength_eq_length_iff

/-- Wider characters on the lines above do not move the caret. -/
theorem caret_under_fault_iff_second_line :
    ∃ passed ahead body front, Sight "\"é\"\n  x @ \n".toList 9
      ⟨2, "  x @ \n".toList, 4⟩ passed ahead ∧ Trimmed (passed ++ ahead) body ∧
      Shows ⟨.unrecognised '@', ⟨9, "main.kl"⟩⟩ "main.kl" "\"é\"\n  x @ \n"
      ⟨2, "  x @ \n".toList, 4⟩ body front ∧ front.length = (label 2).length + byteLength passed ∧
      (front.length = (label 2).length + passed.length ↔ ∀ c ∈ passed, c.utf8Size = 1) :=
  caret_under_fault_iff ⟨.unrecognised '@', ⟨9, "main.kl"⟩⟩ "main.kl" _
    ⟨"\"é\"\n  x ".toList, "@ \n".toList, by decide, by decide⟩
    (lineAt?_eq_some_iff.mp (by decide)) (by decide)

/-- Behind a character of two bytes the caret stands one place too far to the right. -/
theorem caret_beyond_fault :
    ∃ fault line passed ahead body front, Program.ofSource "\"é\" @" "main.kl" true = .error fault ∧
      Sight "\"é\" @".toList fault.position.offset line passed ahead ∧
      Trimmed (passed ++ ahead) body ∧ fault.Shows "main.kl" "\"é\" @" line body front ∧
      front.length ≠ (label line.number).length + passed.length := by
  have read : Program.rejection? "\"é\" @" "main.kl" true = some ⟨5, "main.kl"⟩ := by decide +kernel
  unfold Program.rejection? at read
  split at read
  next fault rejected =>
    have place : fault.position.offset = 5 := congrArg Position.offset (Option.some.inj read)
    have sight : Sight "\"é\" @".toList fault.position.offset ⟨1, "\"é\" @".toList, 5⟩
      "\"é\" ".toList ['@'] := by
      rw [place]
      exact ⟨lineAt?_eq_some_iff.mp (by decide), by decide, by decide⟩
    obtain ⟨body, front, trimmed, shows, length⟩ := exists_shows sight "main.kl"
    refine ⟨fault, _, _, _, body, front, rejected, sight, trimmed, shows, ?_⟩
    rw [length, Ne, Nat.add_left_cancel_iff]
    decide
  next => cases read

end Fault

end ColonScript
