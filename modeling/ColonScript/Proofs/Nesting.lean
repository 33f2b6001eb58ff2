import ColonScript.Proofs.Placement
import ColonScript.Proofs.Soundness

/-! Where statements lie in an accepted script, whatever loops, branches and functions are nested in
one another. -/

namespace ColonScript

inductive Surrounding
  | function (signature : Signature)
  | loop
  | branch
  deriving DecidableEq, Repr

/-- The statement lies in the script, in the given surroundings, innermost first. -/
inductive Program.Lies (p : Program) : List Surrounding → Stmt → Prop where
  | top {st : Stmt} (member : st ∈ p.statements) : Lies p [] st
  | function {path : List Surrounding} {signature : Signature} {body : Block} {st : Stmt}
      (lies : Lies p path (.function signature (some body))) (member : st ∈ body) :
      Lies p (.function signature :: path) st
  | forLoop {path : List Surrounding} {start : Start} {condition update : Expr}
      {body : Block} {st : Stmt}
      (lies : Lies p path (.forLoop start condition update body)) (member : st ∈ body) :
      Lies p (.loop :: path) st
  | whileLoop {path : List Surrounding} {condition : Expr} {body : Block} {st : Stmt}
      (lies : Lies p path (.whileLoop condition body)) (member : st ∈ body) :
      Lies p (.loop :: path) st
  | branch {path : List Surrounding} {condition : Expr} {body : Block}
      {clauses : List (Expr × Block)} {otherwise : Option Block} {st : Stmt}
      (lies : Lies p path (.branch condition body clauses otherwise))
      (member : st ∈ body) : Lies p (.branch :: path) st
  | elseIf {path : List Surrounding} {condition : Expr} {body : Block}
      {clauses : List (Expr × Block)} {otherwise : Option Block} {clause : Expr × Block} {st : Stmt}
      (lies : Lies p path (.branch condition body clauses otherwise)) (among : clause ∈ clauses)
      (member : st ∈ clause.2) : Lies p (.branch :: path) st
  | otherwise {path : List Surrounding} {condition : Expr} {body last : Block}
      {clauses : List (Expr × Block)}
      {st : Stmt} (lies : Lies p path (.branch condition body clauses (some last)))
      (member : st ∈ last) :
      Lies p (.branch :: path) st

namespace Surrounding

def nearest? : List Surrounding → Option Signature
  | [] => none
  | .function signature :: _ => some signature
  | _ :: outer => nearest? outer

def inLoop : List Surrounding → Bool
  | [] | .function _ :: _ => false
  | .loop :: _ => true
  | .branch :: outer => inLoop outer

def Outside (path : List Surrounding) : Prop := ∀ signature, .function signature ∉ path

theorem Outside.cons {around : Surrounding} {path : List Surrounding}
    (other : ∀ signature, around ≠ .function signature) (outside : Outside path) :
    Outside (around :: path) := by
  intro signature member
  rcases List.mem_cons.mp member with same | later
  · exact other signature same.symm
  · exact outside signature later

theorem outside_of_nearest? {path : List Surrounding} (none : nearest? path = none) :
    Outside path := by
  induction path with
  | nil => exact fun _ => List.not_mem_nil
  | cons around outer ih =>
    cases around with
    | function signature => cases none
    | loop => exact (ih none).cons (by simp)
    | branch => exact (ih none).cons (by simp)

theorem split_of_nearest? {path : List Surrounding} {signature : Signature}
    (some : nearest? path = some signature) :
    ∃ inner outer, path = inner ++ .function signature :: outer ∧ Outside inner := by
  induction path with
  | nil => cases some
  | cons around outer ih =>
    cases around with
    | function own =>
      obtain rfl := Option.some.inj some
      exact ⟨[], outer, rfl, fun _ => List.not_mem_nil⟩
    | loop =>
      obtain ⟨inner, outer, rfl, outside⟩ := ih some
      exact ⟨.loop :: inner, outer, rfl, outside.cons (by simp)⟩
    | branch =>
      obtain ⟨inner, outer, rfl, outside⟩ := ih some
      exact ⟨.branch :: inner, outer, rfl, outside.cons (by simp)⟩

theorem split_of_inLoop {path : List Surrounding} (loops : inLoop path = true) :
    ∃ inner outer, path = inner ++ .loop :: outer ∧ Outside inner := by
  induction path with
  | nil => cases loops
  | cons around outer ih =>
    cases around with
    | function signature => cases loops
    | loop => exact ⟨[], outer, rfl, fun _ => List.not_mem_nil⟩
    | branch =>
      obtain ⟨inner, outer, rfl, outside⟩ := ih loops
      exact ⟨.branch :: inner, outer, rfl, outside.cons (by simp)⟩

end Surrounding

open Surrounding

/-! What holds of all statements of a body holds of each, with the surroundings that lead to it. -/

theorem Block.PlacedOf.of_mem {function : Option Signature} {inLoop : Bool}
    {clauses : List (Expr × Block)}
    {clause : Expr × Block} (placed : Block.PlacedOf function inLoop clauses)
    (among : clause ∈ clauses) :
    Block.Placed function inLoop clause.2 := by
  induction clauses with
  | nil => cases among
  | cons first rest ih =>
    rcases List.mem_cons.mp among with rfl | later
    · exact placed.1
    · exact ih placed.2 later

theorem Program.Lies.placed {p : Program} {path : List Surrounding} {st : Stmt}
    (lies : p.Lies path st) (placed : Block.Placed none false p.statements) :
    st.Placed (nearest? path) (inLoop path) := by
  induction lies with
  | top member => exact placed.of_mem member
  | function _ member ih => exact ih.2.of_mem member
  | forLoop _ member ih | whileLoop _ member ih => exact Block.Placed.of_mem ih member
  | branch _ member ih => exact ih.1.of_mem member
  | elseIf _ among member ih => exact (ih.2.1.of_mem among).of_mem member
  | otherwise _ member ih => exact Block.Placed.of_mem ih.2.2 member

section
variable {P : Env → Point → Prop} {env : Env}

theorem Block.Everywhere.of_mem {body : Block} {st : Stmt} (holds : Block.Everywhere P env body)
    (member : st ∈ body) :
    ∃ env', env'.function = env.function ∧ st.Everywhere P env' := by
  induction body generalizing env with
  | nil => cases member
  | cons first rest ih =>
    rcases List.mem_cons.mp member with rfl | later
    · exact ⟨env, rfl, holds.1⟩
    · obtain ⟨env', same, found⟩ := ih holds.2 later
      exact ⟨env', same.trans (Env.after_function env first), found⟩

theorem Block.EverywhereOf.of_mem {clauses : List (Expr × Block)} {clause : Expr × Block}
    (holds : Block.EverywhereOf P env clauses) (among : clause ∈ clauses) :
    Block.Everywhere P env clause.2 := by
  induction clauses with
  | nil => cases among
  | cons first rest ih =>
    rcases List.mem_cons.mp among with rfl | later
    · exact holds.2.1
    · exact ih holds.2.2 later

theorem Env.started_function (env : Env) (start : Start) :
    (env.started start).function = env.function := by
  cases start <;> rfl

/-- The function of the environment is the nearest one around. -/
theorem Program.Lies.everywhere {p : Program} {path : List Surrounding} {st : Stmt}
    (lies : p.Lies path st) (holds : p.Everywhere P) :
    ∃ env, env.function = nearest? path ∧ st.Everywhere P env := by
  induction lies with
  | top member => exact Block.Everywhere.of_mem holds member
  | function _ member ih =>
    obtain ⟨env, _, inside⟩ := ih
    exact Block.Everywhere.of_mem inside member
  | @forLoop _ start _ _ _ _ _ member ih =>
    obtain ⟨env, same, _, _, _, inside⟩ := ih
    obtain ⟨env', same', found⟩ := Block.Everywhere.of_mem inside member
    exact ⟨env', (same'.trans (env.started_function start)).trans same, found⟩
  | whileLoop _ member ih =>
    obtain ⟨env, same, _, inside⟩ := ih
    obtain ⟨env', same', found⟩ := Block.Everywhere.of_mem inside member
    exact ⟨env', same'.trans same, found⟩
  | branch _ member ih =>
    obtain ⟨env, same, _, inside, _, _⟩ := ih
    obtain ⟨env', same', found⟩ := Block.Everywhere.of_mem inside member
    exact ⟨env', same'.trans same, found⟩
  | elseIf _ among member ih =>
    obtain ⟨env, same, _, _, inside, _⟩ := ih
    obtain ⟨env', same', found⟩ := (inside.of_mem among).of_mem member
    exact ⟨env', same'.trans same, found⟩
  | otherwise _ member ih =>
    obtain ⟨env, same, _, _, _, inside⟩ := ih
    obtain ⟨env', same', found⟩ := Block.Everywhere.of_mem inside member
    exact ⟨env', same'.trans same, found⟩

end

/-! The values of a `return` and the results of its function. -/

/-- The values have been held against the results: each is a single value, whose type was joined
with the one wanted for it, and it was settled to what both share. -/
def Checked (values : List Expr) (results : List Ty) : Prop :=
  ∃ given types pool pool', Reading.Singles given types ∧
    Reading.Fitted pool results (given.zip types) values pool'

abbrev Fitting (values : List Expr) (results : List Ty) : Prop :=
  List.Forall₂ Expr.Fits values results

variable {fits : List Expr → List Ty → Prop}

def Point.Answers (fits : List Expr → List Ty → Prop) (env : Env) : Point → Prop
  | .simple (.returning values) =>
    ∃ signature, env.function = some signature ∧ fits values signature.results
  | _ => True

/-- What a statement needs of its surroundings. -/
def Stmt.Allowed (fits : List Expr → List Ty → Prop) (path : List Surrounding) : Stmt → Prop
  | .continuing | .breaking => ∃ inner outer, path = inner ++ .loop :: outer ∧ Outside inner
  | .returning values =>
    ∃ inner signature outer, path = inner ++ .function signature :: outer ∧ Outside inner ∧
      fits values signature.results
  | .function _ _ => Outside path
  | _ => True

theorem Program.Lies.allowed {p : Program} {path : List Surrounding} {st : Stmt}
    (lies : p.Lies path st) (placed : Block.Placed none false p.statements)
    (answers : p.Everywhere (Point.Answers fits)) :
    st.Allowed fits path := by
  have stands := lies.placed placed
  cases st with
  | continuing => exact split_of_inLoop stands
  | breaking => exact split_of_inLoop stands
  | returning values =>
    obtain ⟨env, same, signature, around, fit⟩ := lies.everywhere answers
    obtain ⟨inner, outer, split, outside⟩ := split_of_nearest? (same.symm.trans around)
    exact ⟨inner, signature, outer, split, outside, fit⟩
  | function signature body =>
    cases body with
    | none => exact outside_of_nearest? stands
    | some body => exact outside_of_nearest? stands.1
  | _ => trivial

namespace Reading

theorem checked_of_returnStatement {s s' : Session} {env : Env} {st : Stmt} (agrees : Agrees env s)
    (run : returnStatement s = .ok st s') : (Point.simple st).Answers Checked env := by
  obtain ⟨signature, values, _, inside, _, _, _, types, _, _, singles, fitted, rfl, _⟩ :=
    ok_returnStatement.mp run
  exact ⟨signature, agrees.function.symm.trans inside, _, types, _, _, singles, fitted⟩

theorem pointwise_checked : Pointwise (fun _ => True) (Point.Answers Checked) where
  simple := by
    intro env s st s' agrees _ simple
    refine ⟨?_, trivial⟩
    cases simple with
    | expression _ read =>
      obtain ⟨_, found, s₁, _, rest⟩ | ⟨_, e, s₁, _, _, _, rfl, _⟩ := ok_expressionStatement.mp read
      · obtain ⟨_, _, _, _, _, _, _, _, _, _, _, _, _, rfl, _⟩ := ok_multipleRest.mp rest
        trivial
      · trivial
    | declaration _ read =>
      obtain ⟨found, s₁, _, ⟨_, rest⟩ | ⟨_, declaration, _, rfl⟩⟩ := ok_declarationStatement.mp read
      · obtain ⟨_, _, _, _, _, _, _, _, _, _, _, _, _, rfl, _⟩ := ok_multipleRest.mp rest
        trivial
      · trivial
    | returning _ read => exact checked_of_returnStatement agrees read
    | control _ read =>
      obtain ⟨_, _, rfl, _⟩ := ok_loopControl.mp read
      split <;> trivial
  condition _ _ _ := ⟨trivial, trivial⟩
  start _ _ _ := ⟨trivial, trivial⟩
  loopCondition _ _ _ _ := ⟨trivial, trivial⟩
  update _ _ _ _ := ⟨trivial, trivial⟩
  next _ := trivial
  push _ := trivial
  looping _ := trivial
  leave _ _ := trivial
  heads _ _ := ⟨trivial, fun _ => ⟨trivial, fun _ => trivial⟩⟩

end Reading

theorem Point.WellTyped.answers {env : Env} {point : Point} (typed : point.WellTyped env) :
    point.Answers Fitting env := by
  cases typed with
  | returning inside _ fits => exact ⟨_, inside, fits⟩
  | _ => trivial

namespace Program
open Reading

/-- In an accepted script every statement has the surroundings that it needs: a loop inside of the
same function around `continue` and `break`, a function around a `return`, whose values are checked
against its results, and no function around a function. Where the tokens are those of a text, the
values of a `return` fit the results as well. -/
theorem allowed_of_accepted {tokens : List Token} {file : String} {testing : Bool} {p : Program}
    (accepted : ofTokens tokens file testing = .ok p) {path : List Surrounding} {st : Stmt}
    (lies : p.Lies path st) :
    st.Allowed Checked path ∧ ∀ source, Token.ofSource source file = .ok tokens →
      st.Allowed Fitting path := by
  have placed := placed_of_accepted accepted
  refine ⟨lies.allowed placed (everywhere_of_accepted pointwise_checked trivial accepted),
    fun source lexed => ?_⟩
  have typed := everywhere_of_lexed pointwise_wellTyped lexed accepted
  exact lies.allowed placed (Program.everywhere_of (fun _ _ typed _ => typed.answers) typed typed)

def nestedSource : String :=
  "var x: int = 0; while: (x < 3): \x7b fun: f(a: int): (int) \x7b
    while: (true): \x7b if: (a > x): \x7b break; \x7d else: \x7b continue; \x7d \x7d return: a; \x7d \x7d"

def isNested (p : Program) : Bool :=
  match p.statements with
  | [.declaration _, .whileLoop _ [.function _ (some
      [.whileLoop _ [.branch _ [.breaking] _ _], .returning _])]] => true
  | _ => false

theorem allowed_of_accepted_nested :
    ∃ (p : Program) (signature : Signature) (values : List Expr),
      p.Lies [.branch, .loop, .function signature, .loop] .breaking ∧
      p.Lies [.function signature, .loop] (.returning values) ∧
      Stmt.Allowed Fitting [.branch, .loop, .function signature, .loop] .breaking ∧
      Stmt.Allowed Fitting [.function signature, .loop] (.returning values) := by
  have read : ((Token.ofSource nestedSource "").toOption.any fun tokens =>
      (ofTokens tokens "" true).toOption.any isNested) = true := by decide +kernel
  obtain ⟨tokens, lexed, read⟩ := exists_ok_of_any read
  obtain ⟨p, accepted, shape⟩ := exists_ok_of_any read
  unfold isNested at shape
  split at shape
  next declaration outerCondition signature condition inner clauses otherwise values statements =>
    have loop : p.Lies []
      (.whileLoop outerCondition [.function signature (some [.whileLoop condition
        [.branch inner [.breaking] clauses otherwise], .returning values])]) :=
          .top (by simp [statements])
    have function := Lies.whileLoop loop (List.mem_singleton_self _)
    have returns := Lies.function function (List.mem_cons_of_mem _ (List.mem_singleton_self _))
    have inside := Lies.whileLoop (function.function List.mem_cons_self) (List.mem_singleton_self _)
    have breaks := Lies.branch inside (List.mem_singleton_self _)
    exact ⟨p, signature, values, breaks, returns, (allowed_of_accepted accepted breaks).2 _ lexed,
      (allowed_of_accepted accepted returns).2 _ lexed⟩
  next => cases shape

end Program

end ColonScript
