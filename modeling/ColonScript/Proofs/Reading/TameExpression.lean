import ColonScript.Proofs.Reading.Tame

/-! Expressions and written types are read tamely, production by production. A production whose
inner reader agrees with `expression` on everything shorter does what it does around
`expression`. -/

namespace ColonScript.Reading
open Token (Kind)

variable {script : Script} {n : Nat} {s : Session} {position : Position} {expr : Power → Read Expr}

/-! Operands. -/

theorem tame_literal (holds : script.Holds n s) (kind : s.kind ≠ .eof) :
    Tame script s literal literal := by
  unfold literal
  refine tame_next_bind kind ?_
  simp only [tame_positionOf_bind]
  have marks : script.Marks ⟨s.current.start, s.next.file⟩ := holds.here
  split
  · split
    · exact tame_pooled_bind tame_pure
    · exact tame_failAt marks
  · split
    · exact tame_pooled_bind tame_pure
    · exact tame_failAt marks
  · exact tame_pooled_bind tame_pure
  · exact tame_pooled_bind tame_pure
  · exact tame_pooled_bind tame_pure
  · exact tame_failAt marks

theorem tame_resolve {name : String} (marks : script.Marks position) :
    Tame script s (resolve name position) (resolve name position) := by
  simp only [resolve, tame_scopes_bind]
  split
  · exact tame_pure
  · exact .ite (fun _ => tame_failAt marks) fun _ => tame_failAt marks

theorem tame_refuseConstant {name : String} (marks : script.Marks position) :
    Tame script s (refuseConstant name position) (refuseConstant name position) := by
  simp only [refuseConstant, tame_scopes_bind]
  exact .ite (fun _ => tame_failAt marks) fun _ => tame_pure

theorem tame_single {e : Expr} {context : Context} (marks : script.Marks position) :
    Tame script s (single position e context) (single position e context) := tame_check marks

theorem tame_element (inner : StandsFor script n expression expr) (holds : script.Holds n s)
    (before : Ty) :
    Tame script s (element expression before) (element expr before) := by
  simp only [element, tame_here_bind]
  refine (inner _ s holds).bind holds fun value s₁ _ holds₁ => ?_
  refine (tame_single holds.here).bind holds₁ fun type s₂ _ holds₂ => ?_
  exact (tame_joinOr holds.here).bind holds₂ fun _ _ _ _ => tame_pure

theorem shorter_element {before : Ty} {found : Expr × Ty} {s' : Session}
    (run : element expression before s = .ok found s') : s'.ahead.length < s.ahead.length := by
  obtain ⟨_, s₁, value, _, _, rfl⟩ := ok_element.mp run
  exact (ok_expression.mp value).expr_shorter

theorem rounds_elements (inner : StandsFor script n expression expr) :
    Rounds script n (· ≠ .closeBracket) (itemOfList (element expression))
      (itemOfList (element expr)) :=
  rounds_itemOfList (fun before _ holds => tame_element inner holds before)
    (fun _ _ _ _ _ run => shorter_element run)
    .closeBracket

theorem tame_arrayLiteral (inner : StandsFor script n expression expr)
    (holds : script.Holds (n + 1) s) :
    Tame script s (arrayLiteral expression) (arrayLiteral expr) := by
  refine tame_skip_bind holds rfl fun opens => ?_
  have holds₁ := holds.next opens rfl
  have items := tame_items (rounds_elements inner) .unknown holds₁
  refine items.bind holds₁ fun found s₂ _ holds₂ => ?_
  exact tame_skip_bind holds₂ rfl fun _ => tame_pooled_bind tame_pure

theorem tame_entry (inner : StandsFor script n expression expr) (holds : script.Holds n s)
    (before : Ty × Ty) :
    Tame script s (entry expression before) (entry expr before) := by
  simp only [entry, tame_here_bind]
  refine (inner _ s holds).bind holds fun key s₁ _ holds₁ => ?_
  refine .ite (fun _ => ?_) fun _ => tame_failAt_bind holds.here
  refine tame_skip_bind holds₁ rfl fun _ => ?_
  rw [tame_here_bind]
  have holds₂ := holds₁.step
  refine (inner _ _ holds₂).bind holds₂ fun value s₃ _ holds₃ => ?_
  refine (tame_single holds.here).bind holds₃ fun _ s₄ _ holds₄ => ?_
  refine (tame_joinOr holds.here).bind holds₄ fun _ s₅ _ holds₅ => ?_
  refine (tame_single holds₂.here).bind holds₅ fun _ s₆ _ holds₆ => ?_
  exact (tame_joinOr holds₂.here).bind holds₆ fun _ _ _ _ => tame_pure

theorem shorter_entry {before : Ty × Ty} {found : (Expr × Expr) × Ty × Ty} {s' : Session}
    (run : entry expression before s = .ok found s') : s'.ahead.length < s.ahead.length := by
  obtain ⟨⟨key, value⟩, both⟩ := found
  obtain ⟨_, _, s₁, s₂, keyRead, _, colon, valueRead, _, _, _, _, rfl⟩ := ok_entry.mp run
  have first := (ok_expression.mp keyRead).expr_shorter
  have second := length_next colon rfl
  have third := (ok_expression.mp valueRead).expr_shorter
  simp only [Session.joining_ahead]
  omega

theorem rounds_entries (inner : StandsFor script n expression expr) :
    Rounds script n (· ≠ .closeCurly) (itemOfList (entry expression)) (itemOfList (entry expr)) :=
  rounds_itemOfList (fun before _ holds => tame_entry inner holds before)
    (fun _ _ _ _ _ run => shorter_entry run)
    .closeCurly

theorem tame_mapLiteral (inner : StandsFor script n expression expr)
    (holds : script.Holds (n + 1) s) :
    Tame script s (mapLiteral expression) (mapLiteral expr) := by
  refine tame_skip_bind holds rfl fun opens => ?_
  have holds₁ := holds.next opens rfl
  refine (tame_items (rounds_entries inner) (.unknown, .unknown) holds₁).bind holds₁
    fun found s₂ _ holds₂ => ?_
  exact tame_skip_bind holds₂ rfl fun _ => tame_pooled_bind tame_pure

theorem tame_group (inner : StandsFor script n expression expr) (holds : script.Holds (n + 1) s) :
    Tame script s (group expression) (group expr) := by
  refine tame_skip_bind holds rfl fun opens => ?_
  have holds₁ := holds.next opens rfl
  refine (inner _ _ holds₁).bind holds₁ fun e s₂ _ holds₂ => ?_
  exact tame_skip_bind holds₂ rfl fun _ => tame_pure

theorem tame_unary (inner : StandsFor script n expression expr) (holds : script.Holds (n + 1) s)
    {kind : Kind} (is : s.kind = kind) (inside : inSentence kind = true) :
    Tame script s (unary expression) (unary expr) := by
  refine tame_next_bind (is ▸ (inSentence_iff.mp inside).1) ?_
  rw [tame_positionOf_bind]
  have holds₁ := holds.next is inside
  refine (inner _ _ holds₁).bind holds₁ fun e s₂ _ holds₂ => ?_
  refine (tame_single holds.here).bind holds₂ fun _ s₃ _ holds₃ => ?_
  exact (tame_check holds.here).bind holds₃ fun _ _ _ _ => tame_pure

theorem tame_placed (inner : StandsFor script n expression expr) (holds : script.Holds n s) :
    Tame script s (placed expression) (placed expr) := by
  rw [placed, placed, tame_here_bind]
  exact (inner _ s holds).bind holds fun _ _ _ _ => tame_pure

def Marked (script : Script) (values : List (Expr × Position)) : Prop :=
  ∀ value ∈ values, script.Marks value.2

theorem marks_of_placed {value : Expr × Position} {s' : Session} (holds : script.Holds n s)
    (run : placed expression s = .ok value s') : script.Marks value.2 ∧ script.Holds n s' := by
  obtain ⟨e, position⟩ := value
  obtain ⟨read, rfl⟩ := ok_placed.mp run
  exact ⟨holds.here, holds.passes (ok_expression.mp read).onward.toForward.passes⟩

theorem rounds_arguments (inner : StandsFor script n expression expr) :
    Rounds script n (· ≠ .closeParen) (itemOfList (alone (placed expression)))
      (itemOfList (alone (placed expr))) :=
  rounds_listed (fun _ holds => tame_placed inner holds) advances_placed .closeParen

theorem tame_arguments (inner : StandsFor script n expression expr)
    (holds : script.Holds (n + 1) s) :
    Tame script s (arguments expression) (arguments expr) := by
  refine tame_skip_bind holds rfl fun opens => ?_
  have holds₁ := holds.next opens rfl
  refine (tame_items (rounds_arguments inner) () holds₁).bind holds₁ fun found s₂ _ holds₂ => ?_
  exact tame_skip_bind holds₂ rfl fun _ => tame_pure

theorem marked_of_arguments {args : List (Expr × Position)} {s' : Session}
    (holds : script.Holds n s) (run : arguments expression s = .ok args s') :
    Marked script args := by
  obtain ⟨_, s₁, list, _⟩ := ok_arguments.mp run
  have listed := (ok_itemsOf advances_placed).mp list
  have each := listed.each (I := script.Holds n) (fun _ holds => holds.step)
    (fun _ _ _ read holds => marks_of_placed holds read) holds.step
  exact each.1

theorem tame_argumentTypes {callee : String} {count : Nat} {args : List (Expr × Position)}
    (holds : script.Holds n s) (marked : Marked script args) :
    Tame script s (argumentTypes callee count args) (argumentTypes callee count args) := by
  induction args generalizing count s with
  | nil => exact tame_pure
  | cons arg args ih =>
    obtain ⟨first, rest⟩ := List.forall_mem_cons.mp marked
    refine (tame_single first).bind holds fun _ s₁ _ holds₁ => ?_
    exact (ih holds₁ rest).bind holds₁ fun _ _ _ _ => tame_pure

theorem tame_fitArguments {callee : String} {count : Nat} {parameters : List Parameter}
    {args : List (Expr × Ty)}
    (holds : script.Holds n s) (marks : script.Marks position) :
    Tame script s (fitArguments position callee count parameters args)
      (fitArguments position callee count parameters args) := by
  induction parameters generalizing count args s with
  | nil => exact tame_pure
  | cons parameter parameters ih =>
    cases args with
    | nil => exact tame_pure
    | cons arg args =>
      refine (tame_joinOr marks).bind holds fun _ s₁ _ holds₁ => ?_
      exact (ih holds₁).bind holds₁ fun _ _ _ _ => tame_pure

theorem tame_callOf {function : Function} {callee : String} {args : List (Expr × Position)}
    (holds : script.Holds n s) (marks : script.Marks position) (marked : Marked script args) :
    Tame script s (callOf function callee position args)
      (callOf function callee position args) := by
  refine (tame_argumentTypes holds marked).bind holds fun types s₁ _ holds₁ => ?_
  split
  · exact (tame_typed marks).bind holds₁ fun _ _ _ _ => tame_pure
  · refine .ite (fun _ => tame_failAt_bind marks) fun _ => ?_
    exact (tame_fitArguments holds₁ marks).bind holds₁ fun _ _ _ _ => tame_pure

theorem tame_call (inner : StandsFor script n expression expr) (holds : script.Holds (n + 1) s) :
    Tame script s (call expression) (call expr) := by
  refine tame_take_bind holds rfl fun named => ?_
  simp only [tame_positionOf_bind, tame_scopes_bind]
  have marks : script.Marks ⟨s.current.start, s.next.file⟩ := holds.here
  have holds₁ := holds.next named rfl
  split
  · exact tame_failAt marks
  · refine (tame_arguments inner (holds₁.mono (Nat.le_succ n))).bind holds₁
      fun args s₂ given holds₂ => ?_
    exact tame_callOf holds₂ marks (marked_of_arguments holds₁ given)

theorem tame_nameOrCall (inner : StandsFor script n expression expr)
    (holds : script.Holds (n + 1) s)
    (kind : s.kind ≠ .eof) : Tame script s (nameOrCall expression) (nameOrCall expr) := by
  simp only [nameOrCall, tame_second_bind]
  refine .ite (fun _ => tame_call inner holds) fun _ => tame_next_bind kind ?_
  rw [tame_positionOf_bind]
  exact (tame_resolve holds.here).bind holds.step fun _ _ _ _ => tame_pure

theorem tame_operand (inner : StandsFor script n expression expr) (holds : script.Holds (n + 1) s)
    {opening : Opening} (opens : s.grammar.opening? s.kind = some opening) :
    Tame script s (operand expression opening) (operand expr opening) := by
  have kind : s.kind ≠ .eof := by
    intro ends
    rw [ends] at opens
    cases grammar : s.grammar <;> rw [grammar] at opens <;> cases opens
  cases opening with
  | literal => exact tame_literal holds kind
  | name => exact tame_nameOrCall inner holds kind
  | array => exact tame_arrayLiteral inner holds
  | map => exact tame_mapLiteral inner holds
  | group => exact tame_group inner holds
  | unary =>
    exact (kind_of_opens_unary opens).elim (tame_unary inner holds · rfl)
      (tame_unary inner holds · rfl)

/-! What follows an operand. -/

theorem tame_binary (inner : StandsFor script n expression expr) (holds : script.Holds (n + 1) s)
    {kind : Kind} (is : s.kind = kind) (inside : inSentence kind = true) (power : Power)
    (left : Expr) :
    Tame script s (binary expression power left) (binary expr power left) := by
  refine tame_next_bind (is ▸ (inSentence_iff.mp inside).1) ?_
  rw [tame_positionOf_bind]
  have holds₁ := holds.next is inside
  refine (inner _ _ holds₁).bind holds₁ fun right s₂ _ holds₂ => ?_
  refine (tame_single holds.here).bind holds₂ fun _ s₃ _ holds₃ => ?_
  refine (tame_single holds.here).bind holds₃ fun _ s₄ _ holds₄ => ?_
  refine (tame_typed holds.here).bind holds₄ fun _ s₅ _ holds₅ => ?_
  exact .ite (fun _ => tame_pure) fun _ => tame_pure

theorem tame_step (holds : script.Holds n s) (kind : s.kind ≠ .eof) (operand : Expr) :
    Tame script s (step operand) (step operand) := by
  refine tame_next_bind kind ?_
  rw [tame_positionOf_bind]
  have holds₁ := holds.step
  refine (tame_single holds.here).bind holds₁ fun _ s₂ _ holds₂ => ?_
  exact (tame_check holds.here).bind holds₂ fun _ _ _ _ => tame_pure

theorem tame_assignment (inner : StandsFor script n expression expr)
    (holds : script.Holds (n + 1) s) {kind : Kind}
    (is : s.kind = kind) (inside : inSentence kind = true) (left : Expr) :
    Tame script s (assignment expression left) (assignment expr left) := by
  refine tame_next_bind (is ▸ (inSentence_iff.mp inside).1) ?_
  rw [tame_positionOf_bind]
  have marks : script.Marks ⟨s.current.start, s.next.file⟩ := holds.here
  have holds₁ := holds.next is inside
  cases left with
  | name target type =>
    refine (tame_refuseConstant marks).bind holds₁ fun _ s₂ _ holds₂ => ?_
    rw [tame_here_bind]
    refine (inner _ _ holds₂).bind holds₂ fun value s₃ _ holds₃ => ?_
    refine (tame_single holds₂.here).bind holds₃ fun _ s₄ _ holds₄ => ?_
    exact (tame_typed marks).bind holds₄ fun _ _ _ _ => tame_pure
  | _ => exact tame_failAt marks

theorem tame_index (inner : StandsFor script n expression expr) (holds : script.Holds (n + 1) s)
    (target : Expr) :
    Tame script s (index expression target) (index expr target) := by
  refine tame_take_bind holds rfl fun opens => ?_
  rw [tame_positionOf_bind]
  have marks : script.Marks ⟨s.current.start, s.next.file⟩ := holds.here
  have holds₁ := holds.next opens rfl
  refine (inner _ _ holds₁).bind holds₁ fun key s₂ _ holds₂ => ?_
  refine tame_skip_bind holds₂ rfl fun _ => ?_
  have holds₃ := holds₂.step
  refine (tame_single marks).bind holds₃ fun _ s₄ _ holds₄ => ?_
  refine (tame_single marks).bind holds₄ fun _ s₅ _ holds₅ => ?_
  exact (tame_typed marks).bind holds₅ fun _ _ _ _ => tame_pure

theorem tame_continued (inner : StandsFor script n expression expr) (holds : script.Holds (n + 1) s)
    {own : Power} {continuation : Continuation}
    (continues : s.grammar.continuation? s.kind = some (own, continuation)) (left : Expr) :
    Tame script s (continued expression own left continuation)
      (continued expr own left continuation) := by
  have inside := kind_of_continues continues
  cases continuation with
  | assignment => exact tame_assignment inner holds rfl inside left
  | binary => exact tame_binary inner holds rfl inside own left
  | step => exact tame_step holds (inSentence_iff.mp inside).1 left
  | call => exact tame_failHere holds
  | index => exact tame_index inner holds left

theorem tame_continued? (inner : StandsFor script n expression expr) (power : Power) (left : Expr)
    (holds : script.Holds (n + 1) s) :
    Tame script s (continued? expression power left) (continued? expr power left) := by
  simp only [continued?, tame_get_bind, tame_currentKind_bind]
  split
  next own continuation continues =>
    refine .ite (fun _ => tame_pure) fun _ => ?_
    exact (tame_continued inner holds continues left).bind holds fun _ _ _ _ => tame_pure
  next => exact tame_pure

theorem onward_continued {own : Power} {continuation : Continuation} {left more : Expr}
    {s' : Session} (run : continued expression own left continuation s = .ok more s') :
    Onward s.next s' := by
  cases continuation with
  | assignment =>
    obtain ⟨_, _, value, _, _, pool, s₁, _, _, given, _, _, _, rfl⟩ := ok_assignment.mp run
    exact (ok_expression.mp given).onward.withPool pool
  | binary =>
    obtain ⟨right, _, _, _, pool, s₁, operand, _, _, _, _, rfl⟩ := ok_binary.mp run
    exact (ok_expression.mp operand).onward.withPool pool
  | step =>
    obtain ⟨_, _, _, _, _, rfl⟩ := ok_step.mp run
    exact .refl _
  | call => exact (ok_failHere.mp run).elim
  | index =>
    obtain ⟨_, key, _, _, _, pool, s₁, inner, closes, _, _, _, _, rfl⟩ := ok_index.mp run
    exact ((ok_expression.mp inner).onward.trans (onward_next closes rfl)).withPool pool

theorem shorter_continued? {power : Power} {left more : Expr} {s' : Session}
    (run : continued? expression power left s = .ok (some more) s') :
    s'.ahead.length < s.ahead.length := by
  obtain ⟨own, continuation, _, continues, _, grown, _⟩ | ⟨_, none, _⟩ := ok_continued?.mp run
  · exact (onward_continued grown).lt (length_next rfl (kind_of_continues continues))
  · cases none

theorem extends_continued? (inner : StandsFor script n expression expr) (power : Power) :
    Extends script (n + 1) (continued? expression power) (continued? expr power) :=
  ⟨fun left _ holds => tame_continued? inner power left holds, fun _ _ _ _ run =>
    shorter_continued? run⟩

theorem tame_expressionWith (inner : StandsFor script n expression expr) (power : Power)
    (holds : script.Holds (n + 1) s) :
    Tame script s (expressionWith expression power) (expressionWith expr power) := by
  simp only [expressionWith, tame_get_bind, tame_currentKind_bind]
  split
  next opening opens =>
    refine (tame_operand inner holds opens).bind holds fun first s₁ _ holds₁ => ?_
    exact (extends_continued? inner power).extend first holds₁
  next => exact tame_failHere holds

theorem expressionUpTo_eq_iterate (n : Nat) :
    expressionUpTo n = expressionWith^[n] fun _ => boundMet :=
  eq_iterate expressionUpTo expressionWith (fun _ => rfl) n

/-- Expressions never meet the bound on their depth, whatever stands for it. -/
theorem standsFor_expression (bottom : Power → Read Expr) {m : Nat} (le : n ≤ m) :
    StandsFor script n expression (expressionWith^[m] bottom) := by
  refine standsFor_iterate (fun power s => ?_)
    (fun inner power _ holds => tame_expressionWith inner power holds) bottom le
  rw [← expressionUpTo_eq_iterate]
  rfl

theorem tame_expression : StandsFor script n expression expression := by
  intro power s holds
  have bounded := standsFor_expression (fun _ => boundMet) (Nat.le_refl n) power s holds
  exact bounded.congr rfl bounded.same.symm

theorem expression_eq (power : Power) (s : Session) :
    expression power s = expressionWith expression power s := by
  have inner : StandsFor (.of s) s.ahead.length expression _ :=
    standsFor_expression (fun _ => boundMet) (Nat.le_refl _)
  have bounded := (tame_expressionWith inner power (.of s)).same
  rw [← bounded, ← expressionUpTo_eq_iterate]
  rfl

/-! Written types. -/

section
variable {inner : Read Ty}

theorem tame_bracketed (stands : ∀ s, script.Holds n s → Tame script s (writtenType .lowest) inner)
    (holds : script.Holds (n + 1) s) (before : Ty) :
    Tame script s (bracketed (writtenType .lowest) before) (bracketed inner before) := by
  refine tame_skip_bind holds rfl fun opens => ?_
  rw [tame_currentKind_bind]
  have holds₁ := holds.next opens rfl
  refine .ite (fun _ => tame_skip_bind holds₁ rfl fun _ => tame_pooled) fun _ => ?_
  refine (stands _ holds₁).bind holds₁ fun value s₂ _ holds₂ => ?_
  exact tame_skip_bind holds₂ rfl fun _ => tame_pooled

theorem tame_typeSuffix?
    (stands : ∀ s, script.Holds n s → Tame script s (writtenType .lowest) inner) (power : Power)
    (before : Ty) (holds : script.Holds (n + 1) s) :
    Tame script s (typeSuffix? (writtenType .lowest) power before)
      (typeSuffix? inner power before) := by
  simp only [typeSuffix?, tame_get_bind, tame_currentKind_bind]
  split
  · refine .ite (fun _ => tame_pure) fun _ => ?_
    exact (tame_bracketed stands holds before).bind holds fun _ _ _ _ => tame_pure
  · exact tame_pure

theorem shorter_typeSuffix? {power : Power} {before more : Ty} {s' : Session}
    (run : typeSuffix? (writtenType .lowest) power before s = .ok (some more) s') :
    s'.ahead.length < s.ahead.length := by
  obtain ⟨own, _, _, _, grown, _⟩ | ⟨_, none, _⟩ := ok_typeSuffix?.mp run
  · obtain ⟨opens, ⟨closes, _, rfl⟩ | ⟨_, value, s₁, read, closes, _, rfl⟩⟩ := ok_bracketed.mp grown
    · exact ((onward_next closes rfl).withPool _).lt (length_next opens rfl)
    · exact (((onward_writtenType read).trans (onward_next closes rfl)).withPool _).lt
        (length_next opens rfl)
  · cases none

theorem extends_typeSuffix?
    (stands : ∀ s, script.Holds n s → Tame script s (writtenType .lowest) inner)
    (power : Power) :
    Extends script (n + 1) (typeSuffix? (writtenType .lowest) power) (typeSuffix? inner power) :=
  ⟨fun before _ holds => tame_typeSuffix? stands power before holds,
    fun _ _ _ _ run => shorter_typeSuffix? run⟩

theorem tame_writtenTypeWith
    (stands : ∀ s, script.Holds n s → Tame script s (writtenType .lowest) inner)
    (power : Power) (holds : script.Holds (n + 1) s) :
    Tame script s (writtenTypeWith (writtenType .lowest) power) (writtenTypeWith inner power) := by
  simp only [writtenTypeWith, tame_get_bind, tame_currentKind_bind]
  refine .ite (fun _ => ?_) fun _ => tame_failHere holds
  have base : Tame script s baseType baseType := tame_take_bind holds rfl fun _ => tame_pooled
  exact base.bind holds fun before s₁ _ holds₁ =>
    (extends_typeSuffix? stands power).extend before holds₁

end

def writtenTypeAround (inner : Power → Read Ty) : Power → Read Ty := writtenTypeWith (inner .lowest)

theorem writtenTypeUpTo_eq_iterate (n : Nat) :
    writtenTypeUpTo n = writtenTypeAround^[n] fun _ => boundMet :=
  eq_iterate writtenTypeUpTo writtenTypeAround (fun _ => rfl) n

/-- Written types never meet the bound on their depth, whatever stands for it. -/
theorem standsFor_writtenType (bottom : Power → Read Ty) {m : Nat} (le : n ≤ m) :
    StandsFor script n writtenType (writtenTypeAround^[m] bottom) := by
  refine standsFor_iterate (fun power s => ?_) (fun inner power _ holds => ?_) bottom le
  · rw [← writtenTypeUpTo_eq_iterate]
    rfl
  · exact tame_writtenTypeWith (inner .lowest) power holds

theorem tame_writtenType : StandsFor script n writtenType writtenType := by
  intro power s holds
  have bounded := standsFor_writtenType (fun _ => boundMet) (Nat.le_refl n) power s holds
  exact bounded.congr rfl bounded.same.symm

theorem writtenType_eq (power : Power) (s : Session) :
    writtenType power s = writtenTypeWith (writtenType .lowest) power s := by
  have inner : StandsFor (.of s) s.ahead.length writtenType _ :=
    standsFor_writtenType (fun _ => boundMet) (Nat.le_refl _)
  have bounded := (tame_writtenTypeWith (inner .lowest) power (.of s)).same
  rw [← bounded, ← writtenTypeUpTo_eq_iterate]
  rfl

end ColonScript.Reading
