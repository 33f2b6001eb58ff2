/-! The line that holds a byte offset. An offset at the very end of a text whose last line is not
closed belongs to that line; after a final newline it opens a new, empty one. -/

namespace ColonScript.Text

def byteLength (cs : List Char) : Nat := cs.foldr (fun c n => c.utf8Size + n) 0

@[simp] theorem byteLength_nil : byteLength [] = 0 := rfl

@[simp] theorem byteLength_cons (c : Char) (cs : List Char) :
    byteLength (c :: cs) = c.utf8Size + byteLength cs := rfl

@[simp] theorem byteLength_append (xs ys : List Char) :
    byteLength (xs ++ ys) = byteLength xs + byteLength ys := by
  induction xs with
  | nil => simp
  | cons x xs ih => simp [ih, Nat.add_assoc]

theorem byteLength_pos {cs : List Char} (filled : cs ≠ []) : 0 < byteLength cs := by
  obtain ⟨c, rest, rfl⟩ := List.exists_cons_of_ne_nil filled
  have positive := c.utf8Size_pos
  rw [byteLength_cons]
  omega

theorem eq_nil_of_byteLength {text rest : List Char}
    (same : byteLength (text ++ rest) = byteLength text) :
    rest = [] := by
  apply Decidable.byContradiction
  intro filled
  have positive := byteLength_pos filled
  rw [byteLength_append] at same
  omega

/-- Of two fronts of one text, the one that takes more bytes goes on where the other stops. -/
theorem append_of_byteLength_le {text rest text' rest' : List Char}
    (same : text ++ rest = text' ++ rest') (le : byteLength text ≤ byteLength text') :
    ∃ more, text' = text ++ more ∧ rest = more ++ rest' := by
  rcases List.append_eq_append_iff.mp same with more | ⟨more, rfl, rfl⟩
  · exact more
  · have same : byteLength (text' ++ more) = byteLength text' := by
      rw [byteLength_append] at le ⊢
      omega
    obtain rfl := eq_nil_of_byteLength same
    exact ⟨[], by simp, by simp⟩

/-- Fronts of one text are told apart by their length in bytes. -/
theorem eq_of_byteLength {text rest text' rest' : List Char} (same : text ++ rest = text' ++ rest')
    (length : byteLength text = byteLength text') : text = text' ∧ rest = rest' := by
  obtain ⟨more, rfl, rfl⟩ := append_of_byteLength_le same (Nat.le_of_eq length)
  obtain rfl := eq_nil_of_byteLength length.symm
  simp

def lines : List Char → List (List Char)
  | [] => []
  | c :: cs =>
    if c = '\n' then [c] :: lines cs
    else match lines cs with
      | [] => [[c]]
      | line :: rest => (c :: line) :: rest

theorem flatten_lines (cs : List Char) : (lines cs).flatten = cs := by
  induction cs with
  | nil => rfl
  | cons c cs ih =>
    unfold lines
    split
    · simp [ih]
    · split
      next none => simp [none] at ih; simp [ih]
      next line rest some => simp [some] at ih; simp [ih]

structure Line where
  number : Nat
  text : List Char
  column : Nat
  deriving DecidableEq, Repr

def lineAmong (number : Nat) : List (List Char) → Nat → Line
  | [], _ => ⟨number, [], 0⟩
  | line :: rest, offset =>
    if offset < byteLength line ∨ offset = byteLength line ∧ line.getLast? ≠ some '\n' then
      ⟨number, line, offset⟩
    else lineAmong (number + 1) rest (offset - byteLength line)

def lineAt? (text : List Char) (offset : Nat) : Option Line :=
  if byteLength text < offset then none else some (lineAmong 1 (lines text) offset)

end ColonScript.Text
