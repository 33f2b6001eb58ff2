import ColonScript.Proofs.Lexing
import ColonScript.Proofs.Reading.Points

/-! Every script that is accepted is well typed. -/

namespace ColonScript
open Ty Typing

def Program.WellTyped (p : Program) : Prop := p.Everywhere fun env point => point.WellTyped env

namespace Reading

theorem written_initial : ScopeStack.initial.Written := by
  intro scope member
  obtain rfl := List.mem_singleton.mp member
  refine ⟨fun _ _ found => (by cases found), fun name function found => ?_⟩
  simp only [ScopeStack.initial, Function.get?_ofBuiltins] at found
  obtain ⟨builtin, _, rfl⟩ := Option.map_eq_some_iff.mp found
  exact ⟨fun _ member => (by cases member), fun _ member => (by cases member)⟩

theorem ahead_ofTokens {tokens : List Token} :
    ∀ token ∈ (Cursor.ofTokens tokens).ahead, token ∈ tokens := by
  intro token member
  unfold Cursor.ofTokens at member
  split at member
  next => cases member
  next =>
    split at member
    next => exact List.dropLast_subset _ member
    next => exact member

theorem kept_ofTokens {tokens : List Token} {file : String} {testing : Bool}
    (lexed : ∀ token ∈ tokens, token.kind = .type → token.value ∈ baseNames) :
    Kept (.ofTokens tokens file testing .standard) :=
  ⟨Pool.faithful_empty, fun token member => lexed token (ahead_ofTokens token member),
    written_initial, fun _ function => by cases function⟩

end Reading

namespace Program
open Reading

theorem everywhere_of_lexed {P : Env → Point → Prop} (pointwise : Pointwise Kept P)
    {source file : String} {tokens : List Token} {testing : Bool} {p : Program}
    (lexed : Token.ofSource source file = .ok tokens)
    (accepted : ofTokens tokens file testing = .ok p) : p.Everywhere P :=
  everywhere_of_accepted pointwise (kept_ofTokens (Token.baseName_of_ofSource lexed)) accepted

/-- What holds at every point that is read in a state with nothing in it but what a script can have
written holds in every source that is accepted. -/
theorem everywhere_of_ofSource {P : Env → Point → Prop} (pointwise : Pointwise Kept P)
    {source file : String} {testing : Bool} {p : Program}
    (accepted : ofSource source file testing = .ok p) : p.Everywhere P := by
  obtain ⟨tokens, lexed, accepted⟩ := ofSource_eq_ok.mp accepted
  exact everywhere_of_lexed pointwise lexed accepted

/-- Whatever source is accepted, all recorded types obey the rules of the type system. -/
theorem wellTyped_of_accepted {source file : String} {testing : Bool} {p : Program}
    (accepted : ofSource source file testing = .ok p) : p.WellTyped :=
  everywhere_of_ofSource pointwise_wellTyped accepted

def callingItself : String :=
  "fun: f(a: int[]): (int) \x7b
     var m: string[int[]] = \x7b\"x\": []\x7d;
     return: f([]) + m[\"x\"][0];
   \x7d"

theorem wellTyped_of_accepted_recursion : ∃ p, ofSource callingItself "" false = .ok p ∧
    p.WellTyped := by
  have read : (ofSource callingItself "" false).toBool = true := by decide +kernel
  obtain ⟨p, accepted⟩ := exists_ok_of_toBool read
  exact ⟨p, accepted, wellTyped_of_accepted accepted⟩

end Program

end ColonScript
