import ColonScript.Text.Line

/-! The line that holds an offset. Its number counts the newlines in front of the offset; its text
runs from behind the last of these up to and including the next newline, or to the end of the text.
An offset on a newline belongs to the line which that newline closes, and one behind a final newline
to an empty line of its own. -/

namespace ColonScript.Text

variable {text body rest : List Char} {offset first : Nat} {line other : Line}

def newlines : List Char → List Nat
  | [] => []
  | c :: cs => (if c = '\n' then [0] else []) ++ (newlines cs).map (c.utf8Size + ·)

def newlinesBefore (text : List Char) (offset : Nat) : List Nat :=
  (newlines text).filter (· < offset)

def lineStart (text : List Char) (offset : Nat) : Nat :=
  (newlinesBefore text offset).getLast?.elim 0 (· + 1)

def lineStop (text : List Char) (offset : Nat) : Nat :=
  ((newlines text).find? (offset ≤ ·)).elim (byteLength text) (· + 1)

/-- The line is the whole line of the text that holds the offset, where the first line has the
number `first`. -/
structure Line.Holds (line : Line) (first : Nat) (text : List Char) (offset : Nat) : Prop where
  number : line.number = first + (newlinesBefore text offset).length
  spans : ∃ before after, text = before ++ (line.text ++ after) ∧
    byteLength before = lineStart text offset ∧
    byteLength (before ++ line.text) = lineStop text offset
  column : lineStart text offset + line.column = offset
  column_le : line.column ≤ byteLength line.text

/-! Newlines, and the lines between them. -/

@[simp] theorem utf8Size_newline : '\n'.utf8Size = 1 := rfl

theorem byteLength_closed (body : List Char) : byteLength (body ++ ['\n']) = byteLength body + 1 :=
  byteLength_append body ['\n']

theorem mem_newlines :
    offset ∈ newlines text ↔ ∃ before after, text = before ++ '\n' :: after ∧
      byteLength before = offset := by
  induction text generalizing offset with
  | nil => simp [newlines]
  | cons c cs ih =>
    simp only [newlines, List.mem_append, List.mem_map, ih]
    constructor
    · rintro (here | ⟨_, ⟨before, after, rfl, rfl⟩, rfl⟩)
      · by_cases newline : c = '\n'
        · rw [if_pos newline] at here
          obtain rfl := List.mem_singleton.mp here
          exact ⟨[], cs, by rw [newline]; rfl, rfl⟩
        · rw [if_neg newline] at here
          exact absurd here List.not_mem_nil
      · exact ⟨c :: before, after, rfl, rfl⟩
    · rintro ⟨before, after, same, rfl⟩
      cases before with
      | nil =>
        obtain ⟨rfl, rfl⟩ := List.cons.inj same
        exact .inl (by simp)
      | cons _ before =>
        obtain ⟨rfl, rfl⟩ := List.cons.inj same
        exact .inr ⟨byteLength before, ⟨before, after, rfl, rfl⟩, rfl⟩

theorem newlines_append (front back : List Char) :
    newlines (front ++ back) = newlines front ++ (newlines back).map (byteLength front + ·) := by
  induction front with
  | nil => simp [newlines]
  | cons c front ih => simp [newlines, ih, Function.comp_def, Nat.add_assoc]

theorem newlines_of_single (single : '\n' ∉ body) : newlines body = [] := by
  apply List.eq_nil_iff_forall_not_mem.mpr
  intro offset member
  obtain ⟨before, after, rfl, _⟩ := mem_newlines.mp member
  exact single (by simp)

/-- Behind the line that a newline closes come the newlines of the rest. -/
theorem newlines_line (single : '\n' ∉ body) :
    newlines (body ++ '\n' :: rest) = byteLength body :: (newlines rest).map
      (byteLength body + 1 + ·) := by
  rw [newlines_append, newlines_of_single single]
  simp [newlines, Function.comp_def, Nat.add_assoc]

theorem lines_of_single (single : '\n' ∉ body) (filled : body ≠ []) : lines body = [body] := by
  induction body with
  | nil => exact absurd rfl filled
  | cons c body ih =>
    rw [List.mem_cons, not_or] at single
    rw [lines, if_neg (Ne.symm single.1)]
    by_cases more : body = []
    · rw [more]
      rfl
    · rw [ih single.2 more]

theorem lines_line (single : '\n' ∉ body) :
    lines (body ++ '\n' :: rest) = (body ++ ['\n']) :: lines rest := by
  induction body with
  | nil => simp [lines]
  | cons c body ih =>
    rw [List.mem_cons, not_or] at single
    rw [List.cons_append, lines, if_neg (Ne.symm single.1), ih single.2]
    rfl

/-- Induction on the lines of a text, from the last one to the front. -/
theorem lines_induction {motive : List Char → Prop} (last : ∀ body, '\n' ∉ body → motive body)
    (line : ∀ body rest, '\n' ∉ body → motive rest → motive (body ++ '\n' :: rest))
    (text : List Char) : motive text := by
  -- What was passed of the line so far stands in front.
  suffices general : ∀ body, '\n' ∉ body → motive (body ++ text) from general [] List.not_mem_nil
  induction text with
  | nil =>
    intro body single
    rw [List.append_nil]
    exact last body single
  | cons c cs ih =>
    intro body single
    by_cases newline : c = '\n'
    · rw [newline]
      exact line body cs single (ih [] List.not_mem_nil)
    · rw [List.append_cons]
      apply ih
      simp [single, Ne.symm newline]

/-! Where a line begins and ends, from line to line. -/

section First
variable (single : '\n' ∉ body) (inside : offset ≤ byteLength body)
include single inside

theorem newlinesBefore_first : newlinesBefore (body ++ '\n' :: rest) offset = [] := by
  unfold newlinesBefore
  rw [newlines_line single, List.filter_eq_nil_iff]
  intro newline member
  simp only [List.mem_cons, List.mem_map] at member
  simp only [decide_eq_true_eq]
  rcases member with rfl | ⟨_, _, rfl⟩ <;> omega

theorem lineStart_first : lineStart (body ++ '\n' :: rest) offset = 0 := by
  rw [lineStart, newlinesBefore_first single inside]
  rfl

theorem lineStop_first : lineStop (body ++ '\n' :: rest) offset = byteLength body + 1 := by
  rw [lineStop, newlines_line single, List.find?_cons_of_pos (by simpa using inside)]
  rfl

end First

theorem newlinesBefore_behind (single : '\n' ∉ body) :
    newlinesBefore (body ++ '\n' :: rest) (byteLength body + 1 + offset) =
      byteLength body :: (newlinesBefore rest offset).map (byteLength body + 1 + ·) := by
  unfold newlinesBefore
  rw [newlines_line single, List.filter_cons_of_pos (by simp; omega), List.filter_map]
  simp [Function.comp_def]

theorem lineStart_behind (single : '\n' ∉ body) :
    lineStart (body ++ '\n' :: rest) (byteLength body + 1 + offset) =
      byteLength body + 1 + lineStart rest offset := by
  rw [lineStart, newlinesBefore_behind single, lineStart, List.getLast?_cons, List.getLast?_map]
  cases (newlinesBefore rest offset).getLast? with
  | none => rfl
  | some newline => simp [Nat.add_assoc]

theorem lineStop_behind (single : '\n' ∉ body) :
    lineStop (body ++ '\n' :: rest) (byteLength body + 1 + offset) =
      byteLength body + 1 + lineStop rest offset := by
  rw [lineStop, newlines_line single, List.find?_cons_of_neg (by simp; omega),
    List.find?_map, lineStop]
  simp only [Function.comp_def, Nat.add_le_add_iff_left]
  cases (newlines rest).find? (offset ≤ ·) with
  | none => simp [Nat.add_assoc]
  | some newline => simp [Nat.add_assoc]

/-! The line among the lines of a text. -/

theorem lineAmong_of_single (single : '\n' ∉ body) (inside : offset ≤ byteLength body) :
    lineAmong first (lines body) offset = ⟨first, body, offset⟩ := by
  by_cases filled : body = []
  · subst filled
    obtain rfl : offset = 0 := Nat.le_zero.mp inside
    rfl
  · have unclosed : body.getLast? ≠ some '\n' := fun last => single (List.mem_of_getLast? last)
    rw [lines_of_single single filled, lineAmong, if_pos]
    exact (Nat.lt_or_eq_of_le inside).imp_right fun same => ⟨same, unclosed⟩

theorem lineAmong_first (single : '\n' ∉ body) (inside : offset ≤ byteLength body) :
    lineAmong first (lines (body ++ '\n' :: rest)) offset = ⟨first, body ++ ['\n'], offset⟩ := by
  rw [lines_line single, lineAmong, if_pos]
  left
  rw [byteLength_closed]
  omega

theorem lineAmong_behind (single : '\n' ∉ body) :
    lineAmong first (lines (body ++ '\n' :: rest)) (byteLength body + 1 + offset) =
      lineAmong (first + 1) (lines rest) offset := by
  rw [lines_line single, lineAmong, byteLength_closed, if_neg, Nat.add_sub_cancel_left]
  -- A closed line does not hold the offset at its end.
  rintro (inside | ⟨_, unclosed⟩)
  · omega
  · exact unclosed List.getLast?_concat

theorem holds_of_single (single : '\n' ∉ body) (inside : offset ≤ byteLength body) :
    Line.Holds ⟨first, body, offset⟩ first body offset := by
  have before : newlinesBefore body offset = [] := by
    rw [newlinesBefore, newlines_of_single single, List.filter_nil]
  have start : lineStart body offset = 0 := by rw [lineStart, before]; rfl
  have stop : lineStop body offset = byteLength body := by
    rw [lineStop, newlines_of_single single]; rfl
  refine ⟨?_, ⟨[], [], by simp, start.symm, stop.symm⟩, ?_, inside⟩
  · rw [before]
    rfl
  · rw [start, Nat.zero_add]

theorem holds_first (single : '\n' ∉ body) (inside : offset ≤ byteLength body) :
    Line.Holds ⟨first, body ++ ['\n'], offset⟩ first (body ++ '\n' :: rest) offset := by
  have start : lineStart (body ++ '\n' :: rest) offset = 0 := lineStart_first single inside
  refine ⟨?_, ⟨[], rest, by simp, start.symm, ?_⟩, ?_, ?_⟩
  · rw [newlinesBefore_first single inside]
    rfl
  · rw [lineStop_first single inside]
    exact byteLength_closed body
  · rw [start, Nat.zero_add]
  · rw [byteLength_closed]
    exact Nat.le_succ_of_le inside

theorem Line.Holds.behind (holds : line.Holds (first + 1) rest offset) (single : '\n' ∉ body) :
    line.Holds first (body ++ '\n' :: rest) (byteLength body + 1 + offset) := by
  have number := holds.number
  have column := holds.column
  obtain ⟨before, after, whole, start, stop⟩ := holds.spans
  refine ⟨?_, ⟨body ++ ['\n'] ++ before, after, by simp [whole], ?_, ?_⟩, ?_, holds.column_le⟩
  · rw [newlinesBefore_behind single, List.length_cons, List.length_map]
    omega
  · rw [byteLength_append, byteLength_closed, start, lineStart_behind single]
  · rw [List.append_assoc, byteLength_append, byteLength_closed, stop, lineStop_behind single]
  · rw [lineStart_behind single]
    omega

theorem holds_lineAmong (inside : offset ≤ byteLength text) :
    (lineAmong first (lines text) offset).Holds first text offset := by
  induction text using lines_induction generalizing first offset with
  | last body single =>
    rw [lineAmong_of_single single inside]
    exact holds_of_single single inside
  | line body rest single ih =>
    by_cases here : offset ≤ byteLength body
    · rw [lineAmong_first single here]
      exact holds_first single here
    · obtain ⟨behind, rfl⟩ := Nat.exists_eq_add_of_lt (Nat.lt_of_not_le here)
      rw [Nat.add_right_comm] at inside ⊢
      rw [lineAmong_behind single]
      have within : behind ≤ byteLength rest := by
        rw [byteLength_append, byteLength_cons, utf8Size_newline] at inside
        omega
      exact (ih within).behind single

theorem Line.Holds.inside (holds : line.Holds first text offset) : offset ≤ byteLength text := by
  have column := holds.column
  have inner := holds.column_le
  obtain ⟨before, after, whole, start, _⟩ := holds.spans
  rw [whole, byteLength_append, byteLength_append]
  omega

/-- No other line holds the offset. -/
theorem Line.Holds.unique (holds : line.Holds first text offset)
    (holds' : other.Holds first text offset) :
    line = other := by
  have number : line.number = other.number := by rw [holds.number, holds'.number]
  have column : line.column = other.column :=
    Nat.add_left_cancel (holds.column.trans holds'.column.symm)
  obtain ⟨before, after, whole, start, stop⟩ := holds.spans
  obtain ⟨before', after', whole', start', stop'⟩ := holds'.spans
  obtain ⟨rfl, behind⟩ := eq_of_byteLength (whole.symm.trans whole') (start.trans start'.symm)
  have length : byteLength line.text = byteLength other.text := by
    rw [byteLength_append] at stop stop'
    omega
  have same : line.text = other.text := (eq_of_byteLength behind length).1
  cases line
  cases other
  simp_all

theorem lineAt?_eq_none_iff : lineAt? text offset = none ↔ byteLength text < offset := by
  unfold lineAt?
  split
  next outside => exact ⟨fun _ => outside, fun _ => rfl⟩
  next inside => exact ⟨fun none => absurd none (by simp), fun outside => absurd outside inside⟩

theorem lineAt?_eq_some_iff : lineAt? text offset = some line ↔ line.Holds 1 text offset := by
  constructor
  · intro found
    unfold lineAt? at found
    split at found
    next => cases found
    next inside =>
      obtain rfl := Option.some.inj found
      exact holds_lineAmong (Nat.le_of_not_lt inside)
  · intro holds
    have inside := holds.inside
    unfold lineAt?
    rw [if_neg (Nat.not_lt.mpr inside)]
    exact congrArg some ((holds_lineAmong inside).unique holds)

/-- No line is found just for an offset outside of the text, and the line that is found for any
other offset is the one that holds it. -/
theorem line_lookup_exact (text : List Char) (offset : Nat) :
    (lineAt? text offset = none ↔ byteLength text < offset) ∧
      ∀ line, lineAt? text offset = some line ↔ line.Holds 1 text offset :=
  ⟨lineAt?_eq_none_iff, fun _ => lineAt?_eq_some_iff⟩

example : (lineAt? ['a', '\n'] 1, lineAt? ['a', '\n'] 2) =
    (some ⟨1, ['a', '\n'], 1⟩, some ⟨2, [], 0⟩) := by decide

end ColonScript.Text
