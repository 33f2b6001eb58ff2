import ColonScript.Proofs.Reading.Inside
import ColonScript.Proofs.WellTyped

/-! Where `return`, `continue`, `break` and functions stand in the tree of a script. -/

namespace ColonScript

structure Answers (values : List Expr) (results : List Ty) : Prop where
  count : values.length = results.length
  single : ∀ value ∈ values, value.types.length = 1

mutual

/-- A statement fits where it stands: in the body of a function or outside of all, in a loop of that
body or not. -/
def Stmt.Placed (function : Option Signature) (inLoop : Bool) : Stmt → Prop
  | .returning values => ∃ signature, function = some signature ∧ Answers values signature.results
  | .continuing | .breaking => inLoop = true
  | .function _ none => function = none
  | .function signature (some body) => function = none ∧ Block.Placed (some signature) false body
  | .branch _ body clauses otherwise =>
    Block.Placed function inLoop body ∧ Block.PlacedOf function inLoop clauses ∧
      Block.PlacedIn function inLoop otherwise
  | .forLoop _ _ _ body | .whileLoop _ body => Block.Placed function true body
  | .expression _ | .declaration _ | .multiple _ _ => True

def Block.Placed (function : Option Signature) (inLoop : Bool) : List Stmt → Prop
  | [] => True
  | st :: rest => st.Placed function inLoop ∧ Block.Placed function inLoop rest

def Block.PlacedOf (function : Option Signature) (inLoop : Bool) : List (Expr × List Stmt) → Prop
  | [] => True
  | (_, body) :: rest => Block.Placed function inLoop body ∧ Block.PlacedOf function inLoop rest

def Block.PlacedIn (function : Option Signature) (inLoop : Bool) : Option (List Stmt) → Prop
  | none => True
  | some body => Block.Placed function inLoop body

end

theorem Block.Placed.of_mem {function : Option Signature} {inLoop : Bool} {body : Block} {st : Stmt}
    (placed : Block.Placed function inLoop body) (member : st ∈ body) :
    st.Placed function inLoop := by
  induction body with
  | nil => cases member
  | cons first rest ih =>
    rcases List.mem_cons.mp member with rfl | later
    · exact placed.1
    · exact ih placed.2 later

namespace Reading
variable {s s' : Session}

def Place.Consistent (place : Place) : Prop := place.inFunction = place.function.isSome

def Sentence.Placed (function : Option Signature) (inLoop : Bool) : Sentence → Prop
  | .stmt st => st.Placed function inLoop
  | .block body | .statements body | .script body => Block.Placed function inLoop body
  | .clauses rest => Block.PlacedOf function inLoop rest
  | .otherwise last => Block.PlacedIn function inLoop last

theorem length_types_settle {e : Expr} (type : Ty) (single : e.types.length = 1) :
    (e.settle type).types.length = 1 := by
  rcases Expr.types_settle type e with same | new
  · rw [same, single]
  · rw [new]
    rfl

theorem single_of_fitted {pool pool' : Ty.Pool} {wanted : List Ty} {values : List (Expr × Ty)}
    {settled : List Expr} (fitted : Fitted pool wanted values settled pool')
    (single : ∀ value ∈ values, value.1.types.length = 1) :
    Answers settled wanted := by
  induction fitted with
  | nil => exact ⟨rfl, fun _ member => absurd member List.not_mem_nil⟩
  | cons _ _ ih =>
    rw [List.forall_mem_cons] at single
    have rest := ih single.2
    refine ⟨?_, ?_⟩
    · simp only [List.length_cons, rest.count]
    · rw [List.forall_mem_cons]
      exact ⟨length_types_settle _ single.1, rest.single⟩

theorem answers_of_fitted {pool pool' : Ty.Pool} {wanted types : List Ty}
    {values settled : List Expr} (singles : Singles values types)
    (fitted : Fitted pool wanted (values.zip types) settled pool') :
    Answers settled wanted := by
  refine single_of_fitted fitted fun value member => ?_
  obtain ⟨e, type⟩ := value
  have one : e.types = [type] := List.forall₂_iff_zip.mp singles |>.2 member
  rw [one]
  rfl

theorem Simple.placed {st : Stmt} (simple : Simple s st s') :
    st.Placed s.place.function s.place.inLoop := by
  cases simple with
  | expression _ read =>
    obtain ⟨_, found, s₁, _, rest⟩ | ⟨_, e, s₁, _, _, _, rfl, _⟩ := ok_expressionStatement.mp read
    · obtain ⟨_, _, _, _, _, _, _, _, _, _, _, _, _, rfl, _⟩ := ok_multipleRest.mp rest
      trivial
    · trivial
  | declaration _ read =>
    obtain ⟨found, s₁, _, ⟨_, rest⟩ | ⟨_, declaration, _, rfl⟩⟩ := ok_declarationStatement.mp read
    · obtain ⟨_, _, _, _, _, _, _, _, _, _, _, _, _, rfl, _⟩ := ok_multipleRest.mp rest
      trivial
    · trivial
  | returning _ read =>
    obtain ⟨signature, _, _, inside, _, _, _, _, _, _, singles, fitted, rfl, _⟩ :=
      ok_returnStatement.mp read
    exact ⟨signature, inside, answers_of_fitted singles fitted⟩
  | control _ read =>
    obtain ⟨inLoop, _, rfl, _⟩ := ok_loopControl.mp read
    split <;> exact inLoop

theorem Heads.function_eq {signature : Signature} (heads : Heads s signature s')
    (consistent : s.place.Consistent) :
    s.place.function = none := by
  have outside := consistent.symm.trans heads.outside
  simpa using outside

/-- Whatever is read fits the place at which it is read. -/
theorem placed_of_performs {sentence : Sentence} (performs : Performs s sentence s')
    (consistent : s.place.Consistent) : sentence.Placed s.place.function s.place.inLoop := by
  induction performs with
  | expression _ form read => exact (Simple.expression form read).placed
  | declaration _ form read => exact (Simple.declaration (kind_of_declaration form) read).placed
  | returning _ form read => exact (Simple.returning (kind_of_returning form) read).placed
  | control _ form read => exact (Simple.control (kind_of_control form) read).placed
  | forward _ _ heads => exact heads.function_eq consistent
  | define _ _ heads _ _ _ _ _ inside => exact ⟨heads.function_eq consistent, inside rfl⟩
  | @branch s s₁ s₂ s₃ _ _ _ _ _ _ _ kind read bodyPerforms othersPerform _ body others last =>
    have first : Forward s s₁ := (onward_conditional kind rfl read).toForward
    have second : s₂.place = s.place := (forward_of_performs bodyPerforms).place.trans first.place
    have third : s₃.place = s.place := (forward_of_performs othersPerform).place.trans second
    simp only [Session.push_place, Session.pop_place, first.place, second,
      third] at body others last
    exact ⟨body consistent, others consistent, last consistent⟩
  | @forLoop s s₁ _ _ _ _ _ _ _ _ _ _ header _ _ _ body =>
    have place : s₁.place = s.place := (forward_loopHeader header).place
    rw [Session.withPlace_place, place] at body
    exact body consistent
  | @whileLoop s s₁ _ _ _ _ _ kind read _ body =>
    have place : s₁.place = s.place := (onward_conditional kind rfl read).place
    rw [Session.push_place, Session.withPlace_place, place] at body
    exact body consistent
  | block _ _ _ body => exact body consistent
  | noStatements | noClauses | noOtherwise | noScript => trivial
  | statements _ _ firstPerforms _ first rest | script _ firstPerforms _ first rest =>
    rw [(forward_of_performs firstPerforms).place] at rest
    exact ⟨first consistent, rest consistent⟩
  | @clauses s s₁ s₂ _ _ _ _ kind read bodyPerforms _ body rest =>
    have first : Forward s s₁ := (onward_conditional kind rfl read).toForward
    have second : s₂.place = s.place := (forward_of_performs bodyPerforms).place.trans first.place
    simp only [Session.push_place, Session.pop_place, first.place, second] at body rest
    exact ⟨body consistent, rest consistent⟩
  | otherwise _ _ _ body => exact body consistent

end Reading

namespace Program
open Reading

/-- In an accepted script everything fits where it stands. -/
theorem placed_of_accepted {tokens : List Token} {file : String} {testing : Bool} {p : Program}
    (accepted : ofTokens tokens file testing = .ok p) : Block.Placed none false p.statements := by
  obtain ⟨s', performs⟩ := ofTokens_eq_ok.mp accepted
  exact placed_of_performs performs rfl

end Program

end ColonScript
