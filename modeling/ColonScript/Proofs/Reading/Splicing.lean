import ColonScript.Proofs.Reading.Mirroring

/-! Other tokens behind a phrase. What is read of a phrase is read alike when other tokens stand
behind it, as long as those do not go on with it. -/

namespace ColonScript.Reading

variable {s s₁ s' : Session} {n : Nat} {tail : Cursor}

/-- The same state, with the tail in place of the last `n` tokens ahead. -/
def Session.splice (n : Nat) (tail : Cursor) (s : Session) : Session :=
  { s with cursor := ⟨s.ahead.take (s.ahead.length - n) ++ tail.ahead, tail.closing⟩ }

def Session.Beyond (n : Nat) (s : Session) : Prop := n < s.ahead.length

theorem Session.Beyond.before (beyond : s'.Beyond n) (length : s'.ahead.length ≤ s.ahead.length) :
    s.Beyond n :=
  Nat.lt_of_lt_of_le beyond length

theorem Session.Beyond.splice (tail : Cursor) (beyond : s.Beyond n) :
    (s.splice n tail).current = s.current ∧ (s.splice n tail).next = s.next.splice n tail := by
  obtain ⟨⟨ahead, closing⟩, file, grammar, scopes, pool, place⟩ := s
  cases ahead with
  | nil => exact absurd beyond (Nat.not_lt_zero n)
  | cons token ahead =>
    have split : (token :: ahead).length - n = (ahead.length - n) + 1 :=
      Nat.sub_add_comm (Nat.le_of_lt_succ beyond)
    rw [Session.splice, split]
    exact ⟨rfl, rfl⟩

def Cursor.Loose (tail : Cursor) : Prop := Grammar.standard.continuation? tail.current.kind = none

/-- Either tokens are left that are not of the last `n`, or the tail goes on with no expression. -/
def Session.EndsAt (n : Nat) (tail : Cursor) (s : Session) : Prop :=
  s.Beyond n ∨ n = s.ahead.length ∧ tail.Loose

namespace Session.EndsAt

theorem beyond (ends : s'.EndsAt n tail) (shorter : s'.ahead.length < s.ahead.length) :
    s.Beyond n := by
  obtain more | ⟨rfl, -⟩ := ends
  · exact Nat.lt_trans more shorter
  · exact shorter

theorem before (ends : s'.EndsAt n tail) (length : s'.ahead.length ≤ s.ahead.length) :
    s.EndsAt n tail := by
  obtain less | same := Nat.lt_or_eq_of_le length
  · exact .inl (ends.beyond less)
  · exact ends.imp (·.before length) fun ⟨last, stops⟩ => ⟨last.trans same, stops⟩

theorem kind (ends : s.EndsAt n tail) :
    (s.splice n tail).kind = s.kind ∨ Grammar.standard.continuation?
      (s.splice n tail).kind = none := by
  obtain more | ⟨rfl, stops⟩ := ends
  · exact .inl (congrArg Token.kind (more.splice tail).1)
  · right
    rw [splice, Nat.sub_self]
    exact stops

end Session.EndsAt

theorem mirror_splice (n : Nat) (tail : Cursor) :
    Mirror (fun s t => t = s.splice n tail) (Session.Beyond n) (Session.EndsAt n tail) where
  scopes := by rintro s _ rfl; rfl
  pool := by rintro s _ rfl; rfl
  grammar := by rintro s _ rfl; rfl
  withPool := by rintro s _ rfl pool; rfl
  kind := by
    rintro s _ rfl beyond
    exact congrArg Token.kind (beyond.splice tail).1
  value := by
    rintro s _ rfl beyond
    exact congrArg Token.value (beyond.splice tail).1
  next := by
    rintro s _ rfl beyond
    exact (beyond.splice tail).2
  stops := by
    rintro s _ rfl ends
    exact ends.kind
  inside_of_onward _ _ onward beyond := beyond.before onward.length_le
  ends_of_onward _ _ onward ends := ends.before onward.length_le
  ends_of_inside _ beyond := .inl beyond
  inside_of_next _ holds ends := ends.beyond (length_next rfl holds)

theorem Reads.splice {phrase : Phrase} (reads : Reads s phrase s') (tail : Cursor)
    (ends : phrase.Within (Session.Beyond n) (Session.EndsAt n tail) s') :
    Reads (s.splice n tail) phrase (s'.splice n tail) := by
  obtain ⟨_, read, rfl⟩ := reads.mirrored (mirror_splice n tail) ends rfl
  exact read

theorem ReadsType.splice {phrase : TypePhrase} (reads : ReadsType s phrase s') (tail : Cursor)
    (beyond : s'.Beyond n) :
    ReadsType (s.splice n tail) phrase (s'.splice n tail) := by
  obtain ⟨_, read, rfl⟩ := reads.mirrored (mirror_splice n tail) beyond rfl
  exact read

end ColonScript.Reading
