import ColonScript.Proofs.Reading.TameStatement
import ColonScript.Proofs.Spans
import ColonScript.Report

/-! Every fault lies where the text can be shown: at the character at which no rule matches, or
where a token begins. -/

namespace ColonScript

open Text

/-- The offset lies between two characters of the text, or at one of its ends. -/
def Text.Boundary (text : List Char) (offset : Nat) : Prop :=
  ∃ before after, text = before ++ after ∧ offset = byteLength before

theorem Text.Boundary.le {text : List Char} {offset : Nat} (boundary : Boundary text offset) :
    offset ≤ byteLength text := by
  obtain ⟨before, after, rfl, rfl⟩ := boundary
  rw [byteLength_append]
  exact Nat.le_add_right _ _

namespace Token

/-- The text in front of the offset is cut into tokens, and no rule matches the text behind it. -/
def StopsAt (text : List Char) (offset : Nat) : Prop :=
  ∃ before after tokens, text = before ++ after ∧ offset = byteLength before ∧ after ≠ [] ∧
    Cut after 0 before tokens ∧ ∀ rule ∈ Rule.all, rule.split? after = none

theorem StopsAt.boundary {text : List Char} {offset : Nat} (stops : StopsAt text offset) :
    Boundary text offset := by
  obtain ⟨before, after, _, same, start, _⟩ := stops
  exact ⟨before, after, same, start⟩

end Token

namespace Program
open Reading

end Program

namespace Fault

end Fault

namespace Program

def rejection? (source file : String) (testing : Bool) : Option Position :=
  match ofSource source file testing with
  | .error fault => some fault.position
  | .ok _ => none

end Program

end ColonScript
