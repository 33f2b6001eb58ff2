import ColonScript.Proofs.Reading.Everywhere

/-! Whatever is opened is closed again. A reading that succeeds ends in as many scopes as it began
in and at the same place; what it did to the scopes around the innermost is at most to define
functions that were declared there. The built-in functions are not among those, so that nothing is
left of a script that is read to its end. -/

namespace ColonScript

/-! Where nothing is only declared, nothing can change. -/

theorem Table.Becomes.eq_of_finished {a b : Table Function} (becomes : a.Becomes b)
    (finished : ∀ entry ∈ a, entry.2.stage ≠ .declared) : b = a := by
  induction becomes with
  | nil => rfl
  | cons becomes _ ih =>
    rw [List.forall_mem_cons] at finished
    rw [ih finished.2]
    cases becomes with
    | same => rfl
    | completed declared => exact absurd declared finished.1

namespace ScopeStack
variable {a b : ScopeStack}

/-- No function of the scopes waits for its definition. -/
def Finished (stack : ScopeStack) : Prop :=
  ∀ scope ∈ stack.toList, ∀ entry ∈ scope.functions, entry.2.stage ≠ .declared

theorem finished_initial : Finished .initial := by
  intro scope root entry builtin
  obtain rfl : scope = initial.root := by simpa [toList, initial] using root
  obtain ⟨builtin, _, rfl⟩ := List.mem_map.mp builtin
  exact Stage.noConfusion

theorem forall₂_alike_eq {xs ys : List Scope} (alike : List.Forall₂ Scope.Alike xs ys)
    (finished : ∀ scope ∈ xs, ∀ entry ∈ scope.functions, entry.2.stage ≠ .declared) : ys = xs := by
  induction alike with
  | nil => rfl
  | @cons x y _ _ alike _ ih =>
    rw [List.forall_mem_cons] at finished
    have same : y = x := by
      obtain ⟨bindings, functions⟩ := x
      obtain ⟨bindings', functions'⟩ := y
      obtain rfl : bindings = bindings' := alike.bindings
      obtain rfl : functions' = functions := alike.functions.eq_of_finished finished.1
      rfl
    rw [same, ih finished.2]

theorem Alike.eq_of_finished (alike : Alike a b) (finished : a.Finished) : b = a := by
  have lists : b.opened ++ [b.root] = a.opened ++ [a.root] := forall₂_alike_eq alike finished
  obtain ⟨opened, root⟩ := List.append_inj' lists rfl
  cases a
  cases b
  cases opened
  cases root
  rfl

end ScopeStack

namespace Reading
variable {s s' : Session}

/-- The scopes are those from before, but that the innermost may have grown and that functions
declared in the others may be defined there; the place is the one from before. -/
structure Balanced (s s' : Session) : Prop where
  scopes : ScopeStack.Grown s.scopes s'.scopes
  place : s'.place = s.place

structure Untouched (s s' : Session) : Prop where
  scopes : s'.scopes = s.scopes
  place : s'.place = s.place

theorem Performs.balanced {sentence : Sentence} (performs : Performs s sentence s') :
    Balanced s s' :=
  ⟨grown_of_performs performs, (forward_of_performs performs).place⟩

theorem Onward.untouched (onward : Onward s s') : Untouched s s' := ⟨onward.scopes, onward.place⟩

theorem performs_of_block {body : Block} (run : block statement s = .ok body s') :
    Performs s (.block body) s' :=
  performs_block (fun _ _ _ read => ok_statement.mp read) run

/-- A script that is read to its end leaves the scopes and the place of the beginning. -/
theorem untouched_of_readTokens {tokens : List Token} {file : String} {testing : Bool} {p : Program}
    (accepted : (readTokens tokens file testing).1 = .ok p) :
    Untouched (.ofTokens tokens file testing .standard) (readTokens tokens file testing).2 := by
  unfold readTokens at accepted ⊢
  cases run : program (.ofTokens tokens file testing .standard) with
  | error fault s₁ =>
    rw [run] at accepted
    cases accepted
  | ok q s₁ =>
    obtain ⟨s₂, performs, rfl⟩ := ok_program.mp run
    have balanced := performs.balanced
    exact ⟨balanced.scopes.alike_pop.eq_of_finished ScopeStack.finished_initial, balanced.place⟩

/-- Statements and blocks are balanced, expressions and written types leave scopes and place
untouched, whatever the state in which they are read; and behind a whole script only the built-in
functions are in scope. -/
theorem balanced_of_success (s : Session) :
    (∀ st s', statement s = .ok st s' → Balanced s s') ∧
      (∀ body s', block statement s = .ok body s' → Balanced s s') ∧
      (∀ power e s', expression power s = .ok e s' → Untouched s s') ∧
      (∀ power type s', writtenType power s = .ok type s' → Untouched s s') ∧
      ∀ tokens file testing p, (readTokens tokens file testing).1 = .ok p →
        (readTokens tokens file testing).2.scopes = .initial ∧
          (readTokens tokens file testing).2.place = .top testing := by
  refine ⟨?statements, ?blocks, ?expressions, ?types, ?scripts⟩
  case statements =>
    intro st s' run
    exact (ok_statement.mp run).balanced
  case blocks =>
    intro body s' run
    exact (performs_of_block run).balanced
  case expressions =>
    intro power e s' run
    exact (ok_expression.mp run).onward.untouched
  case types =>
    intro power type s' run
    exact (ok_writtenType.mp run).onward.untouched
  case scripts =>
    intro tokens file testing p accepted
    have untouched := untouched_of_readTokens accepted
    exact ⟨untouched.scopes, untouched.place⟩

def searching : String :=
  "fun: f(n: int): (int) \x7b
     for: (var i: int = 0; i < n; i++): \x7b if: (i > 3): \x7b break; \x7d \x7d
     return: n;
   \x7d"

def beforeFunction (tokens : List Token) : Session :=
  let int : Ty := .base 0 "int"
  let declared : Function := ⟨⟨"f", [⟨"n", int⟩], [int]⟩, .declared⟩
  let outer : Scope := ⟨[("a", ⟨"a", true, int⟩)], [("f", declared)]⟩
  (Session.ofTokens tokens "" false .standard).withScopes ⟨[.empty, outer], ScopeStack.initial.root⟩

theorem balanced_of_success_function :
    ∃ tokens, Token.ofSource searching "" = .ok tokens ∧
      (∃ st s', statement (beforeFunction tokens) = .ok st s' ∧
        Balanced (beforeFunction tokens) s') ∧ ∃ p, (readTokens tokens "" false).1 = .ok p ∧
          (readTokens tokens "" false).2.scopes = .initial := by
  have reads : (Token.ofSource searching "").toOption.any (fun tokens =>
      (match statement (beforeFunction tokens) with | .ok .. => true | .error .. => false) &&
        (readTokens tokens "" false).1.toBool) = true := by decide +kernel
  obtain ⟨tokens, lexed, reads⟩ := Program.exists_ok_of_any reads
  obtain ⟨inner, whole⟩ := Bool.and_eq_true_iff.mp reads
  refine ⟨tokens, lexed, ?_, ?_⟩
  · split at inner
    next st s' run => exact ⟨st, s', run, (balanced_of_success _).1 _ _ run⟩
    next => cases inner
  · obtain ⟨p, accepted⟩ := Program.exists_ok_of_toBool whole
    exact ⟨p, accepted, ((balanced_of_success (beforeFunction tokens)).2.2.2.2 _ _ _ _ accepted).1⟩

end Reading

end ColonScript
