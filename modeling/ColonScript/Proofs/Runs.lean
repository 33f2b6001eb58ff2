import ColonScript.Proofs.Placement
import ColonScript.Proofs.Reading.Testing

/-! How the body of a function can end when it is run. Nothing is known of conditions, so that each
may go either way, and a loop may be run through any number of times. -/

namespace ColonScript

inductive Ending where
  | finished
  | continued
  | broken
  | returned (values : List Expr)

/-- What is run: a statement, statements in a row, what is left of a branch when its first condition
fails, or the rounds of a loop. -/
inductive Code where
  | stmt (st : Stmt)
  | block (body : Block)
  | clauses (rest : List (Expr × Block)) (last : Option Block)
  | loop (body : Block)

inductive Runs : Code → Ending → Prop where
  | expression (e : Expr) : Runs (.stmt (.expression e)) .finished
  | declaration (declared : Declaration) : Runs (.stmt (.declaration declared)) .finished
  | multiple (targets : List Target) (values : List Expr) :
      Runs (.stmt (.multiple targets values)) .finished
  | function (signature : Signature) (body : Option Block) :
      Runs (.stmt (.function signature body)) .finished
  | returning (values : List Expr) : Runs (.stmt (.returning values)) (.returned values)
  | continuing : Runs (.stmt .continuing) .continued
  | breaking : Runs (.stmt .breaking) .broken
  | taken {condition : Expr} {body : Block} {rest : List (Expr × Block)} {last : Option Block}
      {ending : Ending}
      (inside : Runs (.block body) ending) : Runs (.stmt (.branch condition body rest last)) ending
  | passed {condition : Expr} {body : Block} {rest : List (Expr × Block)} {last : Option Block}
      {ending : Ending} (others : Runs (.clauses rest last) ending) :
      Runs (.stmt (.branch condition body rest last)) ending
  | clauseTaken {condition : Expr} {body : Block} {rest : List (Expr × Block)} {last : Option Block}
      {ending : Ending}
      (inside : Runs (.block body) ending) : Runs (.clauses ((condition, body) :: rest) last) ending
  | clausePassed {condition : Expr} {body : Block} {rest : List (Expr × Block)}
      {last : Option Block} {ending : Ending} (others : Runs (.clauses rest last) ending) :
      Runs (.clauses ((condition, body) :: rest) last) ending
  | otherwise {body : Block} {ending : Ending} (inside : Runs (.block body) ending) :
      Runs (.clauses [] (some body)) ending
  | noOtherwise : Runs (.clauses [] none) .finished
  | forLoop {start : Start} {condition update : Expr} {body : Block} {ending : Ending}
      (rounds : Runs (.loop body) ending) :
      Runs (.stmt (.forLoop start condition update body)) ending
  | whileLoop {condition : Expr} {body : Block} {ending : Ending}
      (rounds : Runs (.loop body) ending) :
      Runs (.stmt (.whileLoop condition body)) ending
  | stop {body : Block} : Runs (.loop body) .finished
  | again {body : Block} {round ending : Ending} (inside : Runs (.block body) round)
      (goes : round = .finished ∨ round = .continued) (rounds : Runs (.loop body) ending) :
      Runs (.loop body) ending
  | leave {body : Block} (inside : Runs (.block body) .broken) : Runs (.loop body) .finished
  | loopReturned {body : Block} {values : List Expr}
      (inside : Runs (.block body) (.returned values)) :
      Runs (.loop body) (.returned values)
  | empty : Runs (.block []) .finished
  | next {st : Stmt} {rest : Block} {ending : Ending} (first : Runs (.stmt st) .finished)
      (others : Runs (.block rest) ending) : Runs (.block (st :: rest)) ending
  | cut {st : Stmt} {rest : Block} {ending : Ending} (first : Runs (.stmt st) ending)
      (jumps : ending ≠ .finished) :
      Runs (.block (st :: rest)) ending

/-! There always is a run. -/

theorem runs_cons {st : Stmt} {rest : Block} (first : ∃ ending, Runs (.stmt st) ending)
    (others : ∃ ending, Runs (.block rest) ending) :
    ∃ ending, Runs (.block (st :: rest)) ending := by
  obtain ⟨ending, first⟩ := first
  obtain ⟨ending', others⟩ := others
  by_cases finished : ending = .finished
  · subst finished
    exact ⟨ending', .next first others⟩
  · exact ⟨ending, .cut first finished⟩

mutual

theorem exists_runs_stmt : ∀ st : Stmt, ∃ ending, Runs (.stmt st) ending
  | .expression e => ⟨_, .expression e⟩
  | .declaration declared => ⟨_, .declaration declared⟩
  | .multiple targets values => ⟨_, .multiple targets values⟩
  | .returning values => ⟨_, .returning values⟩
  | .function signature body => ⟨_, .function signature body⟩
  | .branch _ body _ _ =>
    have ⟨ending, inside⟩ := exists_runs_block body
    ⟨ending, .taken inside⟩
  | .forLoop .. => ⟨_, .forLoop .stop⟩
  | .whileLoop .. => ⟨_, .whileLoop .stop⟩
  | .continuing => ⟨_, .continuing⟩
  | .breaking => ⟨_, .breaking⟩

theorem exists_runs_block : ∀ body : List Stmt, ∃ ending, Runs (.block body) ending
  | [] => ⟨_, .empty⟩
  | st :: rest => runs_cons (exists_runs_stmt st) (exists_runs_block rest)

end

/-! Jumps end where they may. -/

/-- A jump may leave a loop but not a function, and a return answers to the function around it. -/
def Ending.Fits (function : Option Signature) (inLoop : Bool) : Ending → Prop
  | .finished => True
  | .continued | .broken => inLoop = true
  | .returned values => ∃ signature, function = some signature ∧ Answers values signature.results

def Code.Placed (function : Option Signature) (inLoop : Bool) : Code → Prop
  | .stmt st => st.Placed function inLoop
  | .block body => Block.Placed function inLoop body
  | .clauses rest last => Block.PlacedOf function inLoop rest ∧ Block.PlacedIn function inLoop last
  | .loop body => Block.Placed function true body

theorem fits_of_placed {function : Option Signature} {code : Code} {ending : Ending}
    (runs : Runs code ending) :
    ∀ {inLoop}, code.Placed function inLoop → ending.Fits function inLoop := by
  induction runs with
  | expression | declaration | multiple | function | noOtherwise | stop | leave | empty =>
    intro inLoop _
    trivial
  | returning | continuing | breaking =>
    intro inLoop placed
    exact placed
  | taken _ inside =>
    intro inLoop placed
    exact inside placed.1
  | passed _ others =>
    intro inLoop placed
    exact others placed.2
  | clauseTaken _ inside =>
    intro inLoop placed
    exact inside placed.1.1
  | clausePassed _ others =>
    intro inLoop placed
    exact others ⟨placed.1.2, placed.2⟩
  | otherwise _ inside =>
    intro inLoop placed
    exact inside placed.2
  | forLoop _ rounds | whileLoop _ rounds =>
    intro inLoop placed
    exact rounds placed
  | again _ _ _ _ rounds =>
    intro inLoop placed
    exact rounds placed
  | loopReturned _ inside =>
    intro inLoop placed
    have fits : Ending.Fits function true _ := inside placed
    exact fits
  | next _ _ _ others =>
    intro inLoop placed
    exact others placed.2
  | cut _ _ first =>
    intro inLoop placed
    exact first placed.1

/-! Where every way ends in a return, no run comes to the end. -/

def Code.Returns : Code → Prop
  | .stmt st => st.returns = true
  | .block body => Stmt.blockReturns body = true
  | .clauses rest last =>
    Stmt.clausesReturn rest = true ∧ ∃ body, last = some body ∧ Stmt.blockReturns body = true
  | .loop _ => False

theorem returns_branch {condition : Expr} {body : Block} {rest : List (Expr × Block)}
    {last : Option Block} (returns : (Stmt.branch condition body rest last).returns = true) :
    Stmt.blockReturns body = true ∧ (Code.clauses rest last).Returns := by
  cases last with
  | none => cases returns
  | some otherwise =>
    simp only [Stmt.returns, Bool.and_eq_true] at returns
    exact ⟨returns.1.1, returns.1.2, otherwise, rfl, returns.2⟩

theorem not_finished_of_returns {code : Code} {ending : Ending} (runs : Runs code ending) :
    code.Returns → ending ≠ .finished := by
  induction runs with
  | expression | declaration | multiple | continuing | breaking | empty =>
    intro returns
    cases returns
  | function _ body =>
    intro returns
    cases body <;> cases returns
  | returning =>
    intro _
    exact Ending.noConfusion
  | taken _ inside =>
    intro returns
    exact inside (returns_branch returns).1
  | passed _ others =>
    intro returns
    exact others (returns_branch returns).2
  | clauseTaken _ inside =>
    intro returns
    obtain ⟨clauses, _⟩ := returns
    exact inside (Bool.and_eq_true_iff.mp clauses).1
  | clausePassed _ others =>
    intro returns
    obtain ⟨clauses, last⟩ := returns
    exact others ⟨(Bool.and_eq_true_iff.mp clauses).2, last⟩
  | otherwise _ inside =>
    intro returns
    obtain ⟨_, body, same, returns⟩ := returns
    obtain rfl := Option.some.inj same
    exact inside returns
  | noOtherwise =>
    intro returns
    obtain ⟨_, body, same, _⟩ := returns
    cases same
  | forLoop | whileLoop =>
    intro returns
    cases returns
  | stop | again | leave | loopReturned =>
    intro returns
    exact returns.elim
  | @next st rest _ _ _ first others =>
    intro returns
    cases rest with
    | nil => exact absurd rfl (first returns)
    | cons second rest => exact others returns
  | cut _ jumps =>
    intro _
    exact jumps

namespace Program
open Reading

/-- No function that promises results comes to its end without them: outside of testing mode every
run of its body ends, if it ends, in a return of as many values. -/
theorem returned_of_runs {tokens : List Token} {file : String} {p : Program}
    (accepted : ofTokens tokens file false = .ok p) {signature : Signature} {body : Block}
    (mentioned : .function signature (some body) ∈ p.mentions) (results : signature.results ≠ []) :
    (∃ ending, Runs (.block body) ending) ∧
      ∀ ending, Runs (.block body) ending → ∃ values, ending = .returned values ∧
      Answers values signature.results := by
  refine ⟨exists_runs_block body, fun ending runs => ?_⟩
  have returns := not_finished_of_returns runs (returns_of_accepted accepted mentioned results)
  have top := mem_of_mentioned accepted mentioned
  have placed : (Stmt.function signature (some body)).Placed none false :=
    (placed_of_accepted accepted).of_mem top
  have fits : ending.Fits (some signature) false := fits_of_placed runs placed.2
  cases ending with
  | finished => exact absurd rfl returns
  | continued | broken => cases fits
  | returned values =>
    obtain ⟨_, same, answers⟩ := fits
    obtain rfl := Option.some.inj same
    exact ⟨values, rfl, answers⟩

def givesResults : Mention → Bool
  | .function signature (some _) => !signature.results.isEmpty
  | _ => false

theorem exists_of_givesResults {mention : Mention} (gives : givesResults mention = true) :
    ∃ signature body, mention = .function signature (some body) ∧ signature.results ≠ [] := by
  unfold givesResults at gives
  split at gives
  next signature body => exact ⟨signature, body, rfl, by simpa using gives⟩
  next => cases gives

def choosing : String :=
  "fun: f(b: bool): (int) \x7b
     while: (b): \x7b if: (b): \x7b break; \x7d return: 0; \x7d
     if: (b): \x7b return: 1; \x7d else: \x7b return: 2; \x7d
   \x7d"

theorem returned_of_runs_choosing :
    ∃ p signature body, ofSource choosing "" false = .ok p ∧
      .function signature (some body) ∈ p.mentions ∧ signature.results ≠ [] ∧
      ∀ ending, Runs (.block body) ending → ∃ values, ending = .returned values ∧
      Answers values signature.results := by
  have read : (ofSource choosing "" false).toOption.any (·.mentions.any givesResults) = true := by
    decide +kernel
  obtain ⟨p, accepted, found⟩ := exists_ok_of_any read
  obtain ⟨_, mentioned, gives⟩ := List.any_eq_true.mp found
  obtain ⟨signature, body, rfl, results⟩ := exists_of_givesResults gives
  obtain ⟨tokens, _, accepted'⟩ := ofSource_eq_ok.mp accepted
  exact ⟨p, signature, body, accepted, mentioned, results,
    (returned_of_runs accepted' mentioned results).2⟩

end Program

end ColonScript
