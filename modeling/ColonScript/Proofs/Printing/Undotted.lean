import ColonScript.Proofs.Appending
import ColonScript.Proofs.Printing.Sentences

/-! No script that is accepted holds a dot of its own, and every number that is not finite is
written with one. So a script that can be read from its tokens holds finite numbers only. -/

namespace ColonScript
open Spelling (parens brackets curlies listed)
open ColonScript.Expr (operandTokens tokensOf tokensOfPairs)

/-- Words and marks are no end of the input. -/
theorem Token.Lexed.real {token : Token} (lexed : token.Lexed) : token.kind ≠ .eof := by
  obtain ⟨rule, lexeme, rest, found, meaning⟩ := lexed
  have member := (split?_of_firstMatch? found).1
  intro ended
  rw [ended] at meaning
  cases rule with
  | word =>
    have kinds : ∀ pair ∈ reservedWords, pair.2 ≠ .eof := by decide
    obtain ⟨isEnd, _⟩ := Prod.mk.inj (Option.some.inj meaning)
    rcases wordKind_cases (String.ofList lexeme) with reserved | identifier
    · exact kinds _ reserved isEnd
    · rw [isEnd] at identifier
      cases identifier
  | mark own spelling =>
    obtain ⟨isEnd, _⟩ := Prod.mk.inj (Option.some.inj meaning)
    rw [isEnd] at member
    exact absurd (isOfMark_of_mem member) (by decide)
  | _ => simp [Rule.meaning?] at meaning

def Undotted (tokens : List Spelling) : Prop := ∀ spelling ∈ tokens, spelling.1 ≠ .dot

namespace Undotted
variable {first : Spelling} {tokens others : List Spelling} {parts : List (List Spelling)}

@[simp] theorem nil : Undotted [] := fun _ member => absurd member List.not_mem_nil

@[simp] theorem cons : Undotted (first :: tokens) ↔ first.1 ≠ .dot ∧ Undotted tokens :=
  List.forall_mem_cons

@[simp] theorem append : Undotted (tokens ++ others) ↔ Undotted tokens ∧ Undotted others :=
  List.forall_mem_append

theorem listed (undotted : Undotted (Spelling.listed parts)) : ∀ part ∈ parts, Undotted part := by
  have later : ∀ {parts : List (List Spelling)}, Undotted (Spelling.afterCommas parts) →
      ∀ part ∈ parts, Undotted part := by
    intro parts undotted part member spelling inside
    exact undotted spelling (List.mem_flatMap.mpr ⟨part, member, List.mem_cons_of_mem _ inside⟩)
  cases parts with
  | nil => simp
  | cons part rest =>
    obtain ⟨first, others⟩ := append.mp undotted
    exact List.forall_mem_cons.mpr ⟨first, later others⟩

theorem parens : Undotted (Spelling.parens tokens) ↔ Undotted tokens := by simp [Spelling.parens]

theorem brackets : Undotted (Spelling.brackets tokens) ↔ Undotted tokens := by
  simp [Spelling.brackets]

theorem curlies : Undotted (Spelling.curlies tokens) ↔ Undotted tokens := by simp [Spelling.curlies]

theorem of_operandTokens {e : Expr} (undotted : Undotted (operandTokens e tokens)) :
    Undotted tokens := by
  cases e with
  | assign => exact parens.mp undotted
  | _ => exact undotted

end Undotted

/-! Expressions. -/

mutual

theorem Expr.finite_of_undotted : ∀ e : Expr, Undotted e.tokens → e.Finite
  | .float value _, undotted => by
    rw [Finite.float]
    cases value with
    | finite => rfl
    | infinite | nan => simp [Expr.tokens, Decimal.Binary64.tokens] at undotted
  | .array elements _, undotted =>
    Finite.array.mpr (finite_of_undotted_all elements (Undotted.brackets.mp undotted).listed)
  | .map pairs _, undotted =>
    Finite.map.mpr (finite_of_undotted_pairs pairs (Undotted.curlies.mp undotted).listed)
  | .call _ arguments _, undotted =>
    Finite.call.mpr (finite_of_undotted_all arguments
      (Undotted.parens.mp (Undotted.cons.mp undotted).2).listed)
  | .unary _ operand _, undotted =>
    finite_of_undotted operand (Undotted.cons.mp (Undotted.parens.mp undotted)).2.of_operandTokens
  | .step operand _ _, undotted =>
    finite_of_undotted operand (Undotted.append.mp (Undotted.parens.mp undotted)).1.of_operandTokens
  | .assign _ _ value _, undotted =>
    finite_of_undotted value (Undotted.cons.mp (Undotted.cons.mp undotted).2).2
  | .binary left _ right _, undotted => by
    obtain ⟨first, second⟩ := Undotted.append.mp (Undotted.parens.mp undotted)
    exact Finite.binary.mpr ⟨finite_of_undotted left first.of_operandTokens,
      finite_of_undotted right (Undotted.cons.mp second).2.of_operandTokens⟩
  | .index target key _, undotted => by
    obtain ⟨first, second⟩ := Undotted.append.mp undotted
    exact Finite.index.mpr ⟨finite_of_undotted target first.of_operandTokens,
      finite_of_undotted key (Undotted.brackets.mp second)⟩
  | .name .., _ | .integer .., _ | .bool .., _ | .string .., _ | .char .., _ =>
    fun _ member => by cases member

theorem Expr.finite_of_undotted_all : ∀ es : List Expr, (∀ part ∈ tokensOf es, Undotted part) →
    ∀ e ∈ es, e.Finite
  | [], _ => by simp
  | e :: rest, undotted => by
    obtain ⟨first, others⟩ := List.forall_mem_cons.mp undotted
    exact List.forall_mem_cons.mpr ⟨finite_of_undotted e first, finite_of_undotted_all rest others⟩

theorem Expr.finite_of_undotted_pairs : ∀ pairs : List (Expr × Expr),
    (∀ part ∈ tokensOfPairs pairs, Undotted part) → ∀ pair ∈ pairs, pair.1.Finite ∧ pair.2.Finite
  | [], _ => by simp
  | (key, value) :: rest, undotted => by
    obtain ⟨first, others⟩ := List.forall_mem_cons.mp undotted
    obtain ⟨keyUndotted, valueUndotted⟩ := Undotted.append.mp first
    exact List.forall_mem_cons.mpr ⟨⟨finite_of_undotted key keyUndotted,
      finite_of_undotted value (Undotted.cons.mp valueUndotted).2⟩,
        finite_of_undotted_pairs rest others⟩

end

/-! Statements. -/

theorem finite_of_returnedTokens {values : List Expr}
    (undotted : Undotted (Expr.returnedTokens values)) :
    ∀ value ∈ values, value.Finite := by
  match values with
  | [] => simp
  | [value] =>
    simpa using value.finite_of_undotted (Undotted.cons.mp undotted).2
  | first :: second :: rest =>
    exact Expr.finite_of_undotted_all _ (Undotted.parens.mp (Undotted.cons.mp undotted).2).listed

theorem Declaration.finite_of_undotted {declaration : Declaration}
    (undotted : Undotted declaration.tokens) :
    declaration.value.Finite :=
  declaration.value.finite_of_undotted (Undotted.cons.mp (Undotted.append.mp undotted).2).2

theorem Start.finite_of_undotted {start : Start} (undotted : Undotted start.tokens) :
    start.value.Finite := by
  cases start with
  | declaration declared => exact declared.finite_of_undotted undotted
  | assignment e => exact e.finite_of_undotted undotted

theorem finite_of_headed {condition : Expr} {more : List Spelling}
    (undotted : Undotted (Spelling.headed condition.tokens ++ more)) :
    (Point.condition condition).Finite ∧ Undotted more := by
  obtain ⟨first, behind⟩ := Undotted.append.mp undotted
  obtain ⟨inner, _⟩ := Undotted.append.mp (Undotted.cons.mp first).2
  exact ⟨by simpa [Point.Finite, Point.exprs] using condition.finite_of_undotted (Undotted.parens.mp
    inner), behind⟩

mutual

theorem Stmt.finite_of_undotted :
    ∀ (env : Env) (st : Stmt), Undotted st.tokens → st.Everywhere (fun _ point => point.Finite) env
  | _, .function _ none, _ => trivial
  | _, .function _ (some body), undotted =>
    Block.finite_of_undotted _ body (Undotted.curlies.mp
      (Undotted.append.mp (Undotted.cons.mp (Undotted.cons.mp undotted).2).2).2)
  | env, .branch condition body clauses last, undotted => by
    obtain ⟨finite, behind⟩ := finite_of_headed (Undotted.cons.mp undotted).2
    obtain ⟨bodyUndotted, rest⟩ := Undotted.append.mp behind
    obtain ⟨clausesUndotted, lastUndotted⟩ := Undotted.append.mp rest
    exact ⟨finite, Block.finite_of_undotted env body (Undotted.curlies.mp bodyUndotted),
      Block.finite_of_undotted_clauses env clauses clausesUndotted,
      Block.finite_of_undotted_last env last lastUndotted⟩
  | env, .forLoop start condition update body, undotted => by
    obtain ⟨header, bodyUndotted⟩ := Undotted.append.mp (Undotted.cons.mp undotted).2
    obtain ⟨inner, _⟩ := Undotted.append.mp (Undotted.cons.mp header).2
    obtain ⟨startUndotted, rest⟩ := Undotted.append.mp (Undotted.parens.mp inner)
    obtain ⟨conditionUndotted, updateUndotted⟩ := Undotted.append.mp (Undotted.cons.mp rest).2
    have startFinite := start.finite_of_undotted startUndotted
    have conditionFinite := condition.finite_of_undotted conditionUndotted
    have updateFinite := update.finite_of_undotted (Undotted.cons.mp updateUndotted).2
    refine ⟨?_, ?_, ?_, Block.finite_of_undotted _ body (Undotted.curlies.mp bodyUndotted)⟩
    · exact List.forall_mem_singleton.mpr startFinite
    · exact List.forall_mem_singleton.mpr conditionFinite
    · exact List.forall_mem_singleton.mpr updateFinite
  | env, .whileLoop condition body, undotted => by
    obtain ⟨finite, bodyUndotted⟩ := finite_of_headed (Undotted.cons.mp undotted).2
    exact ⟨finite, Block.finite_of_undotted env body (Undotted.curlies.mp bodyUndotted)⟩
  | _, .expression e, undotted =>
    List.forall_mem_singleton.mpr (e.finite_of_undotted (Undotted.append.mp undotted).1)
  | _, .declaration declared, undotted =>
    List.forall_mem_singleton.mpr (declared.finite_of_undotted (Undotted.append.mp undotted).1)
  | _, .multiple _ values, undotted =>
    Expr.finite_of_undotted_all values
      (Undotted.append.mp (Undotted.cons.mp (Undotted.append.mp undotted).2).2).1.listed
  | _, .returning _, undotted =>
    finite_of_returnedTokens (Undotted.append.mp (Undotted.cons.mp undotted).2).1
  | _, .continuing, _ | _, .breaking, _ => fun _ member => absurd member List.not_mem_nil

theorem Block.finite_of_undotted : ∀ (env : Env) (body : List Stmt),
    Undotted (Block.tokens body) → Block.Everywhere (fun _ point => point.Finite) env body
  | _, [], _ => trivial
  | env, st :: rest, undotted =>
    ⟨Stmt.finite_of_undotted env st (Undotted.append.mp undotted).1,
      Block.finite_of_undotted _ rest (Undotted.append.mp undotted).2⟩

theorem Block.finite_of_undotted_clauses : ∀ (env : Env) (clauses : List (Expr × List Stmt)),
    Undotted (Block.tokensOf clauses) → Block.EverywhereOf (fun _ point => point.Finite) env clauses
  | _, [], _ => trivial
  | env, (condition, body) :: rest, undotted => by
    obtain ⟨finite, behind⟩ := finite_of_headed (Undotted.cons.mp undotted).2
    obtain ⟨bodyUndotted, restUndotted⟩ := Undotted.append.mp behind
    exact ⟨finite, Block.finite_of_undotted env body (Undotted.curlies.mp bodyUndotted),
      Block.finite_of_undotted_clauses env rest restUndotted⟩

theorem Block.finite_of_undotted_last : ∀ (env : Env) (last : Option (List Stmt)),
    Undotted (Block.tokensIn last) → Block.EverywhereIn (fun _ point => point.Finite) env last
  | _, none, _ => trivial
  | env, some body, undotted =>
    Block.finite_of_undotted env body
      (Undotted.curlies.mp (Undotted.cons.mp (Undotted.cons.mp undotted).2).2)

end

namespace Reading
variable {s s' : Session} {body : Block}

/-- A script that is read has no dot ahead of it. -/
theorem undotted_of_script (performs : Performs s (.script body) s') (scanned : Scanned s) :
    Undotted s.facing := by
  obtain ⟨_, ended⟩ := steps_of_script performs
  obtain ⟨passed, ahead, each⟩ := (forward_of_performs performs).passed
  have atEnd : s'.ahead = [] := by
    by_contra more
    exact (scanned.forward (forward_of_performs performs) _ (Session.current_mem more)).real ended
  rw [atEnd, List.append_nil] at ahead
  intro spelling member
  rw [Session.facing, ahead] at member
  obtain ⟨token, inside, rfl⟩ := List.mem_map.mp member
  exact (each token inside).2

end Reading

end ColonScript
