import ColonScript.Proofs.Reading.Stems

/-! Every call is of a function that is built in or stands before the call, perhaps around it. -/

namespace ColonScript
open Reading

namespace Reading
variable {s s' : Session} {scopes : ScopeStack}

abbrev Known (scopes : ScopeStack) (name : String) : Prop := (scopes.callee? name).isSome = true

theorem known_of_function {name : String} {function : Function}
    (known : scopes.function? name = some function) :
    Known scopes name := by
  rw [Known, ScopeStack.callee?, known]
  rfl

theorem grants_callees : Grants scopes Expr.ownCallees (Known scopes) where
  call known _ _ := List.forall_mem_singleton.mpr (known_of_function known)
  assign _ _ _ _ _ member := nomatch member
  other {e} noCall _ _ member := by
    cases e with
    | call => exact absurd rfl (noCall _ _ _)
    | _ => cases member

end Reading

def CallsKnown (env : Env) (point : Point) : Prop :=
  ∀ name ∈ Expr.calleesOf point.exprs, (env.callee? name).isSome = true

theorem pointwise_callsKnown : Pointwise (fun _ => True) CallsKnown :=
  pointwise_of_granted fun agrees granted name called => by
    obtain ⟨e, member, callee⟩ := Expr.mem_calleesOf.mp called
    rw [← agrees.sees.callees]
    exact allHold_of_stems Expr.gathers_callees grants_callees (granted.exprs e member) name callee

/-! From points to the order of the text. -/

def Introduced (before : List Mention) (name : String) : Prop :=
  (∃ builtin, Builtin.ofName? name = some builtin) ∨
    ∃ signature body, .function signature body ∈ before ∧ signature.name = name

theorem Introduced.mono {before after : List Mention} {name : String}
    (introduced : Introduced before name) (more : before ⊆ after) : Introduced after name := by
  rcases introduced with known | ⟨signature, body, member, named⟩
  · exact .inl known
  · exact .inr ⟨signature, body, more member, named⟩

/-- Behind the given mentions, each call has its function in front of it. -/
def Ordered (before mentions : List Mention) : Prop :=
  ∀ front name back, mentions = front ++ .call name :: back → Introduced (before ++ front) name

theorem Ordered.nil {before : List Mention} : Ordered before [] := by
  intro front name back split
  simp at split

theorem Ordered.append {before first second : List Mention} (one : Ordered before first)
    (two : Ordered (before ++ first) second) : Ordered before (first ++ second) := by
  intro front name back split
  rcases List.append_eq_append_iff.mp split with ⟨between, rfl, rfl⟩ | ⟨between, rfl, rest⟩
  · have introduced := two between name back rfl
    rwa [List.append_assoc] at introduced
  · cases between with
    | nil =>
      have introduced := two [] name back rest.symm
      rwa [List.append_nil, List.append_nil] at introduced
    | cons call between =>
      obtain ⟨rfl, _⟩ := List.cons.inj rest
      exact one front name between rfl

theorem Ordered.function {before : List Mention} (signature : Signature) (body : Option Block) :
    Ordered before [.function signature body] := by
  intro front name back split
  rcases List.singleton_eq_append_iff.mp split with ⟨_, same⟩ | ⟨_, same⟩
  · cases same
  · cases same

theorem Env.started_callee? (env : Env) (start : Start) :
    (env.started start).callee? = env.callee? := by
  cases start <;> rfl

def Env.Grounded (env : Env) (before : List Mention) : Prop :=
  ∀ name, (env.callee? name).isSome = true → Introduced before name

namespace Env.Grounded
variable {env : Env} {before later : List Mention}

theorem mono (grounded : env.Grounded before) (more : before ⊆ later) : env.Grounded later :=
  fun name known => (grounded name known).mono more

theorem bindAll (grounded : env.Grounded before) (bindings : List Binding) :
    (env.bindAll bindings).Grounded before := by
  induction bindings generalizing env with
  | nil => exact grounded
  | cons binding rest ih => exact ih grounded

theorem register (grounded : env.Grounded before) {signature : Signature} {body : Option Block}
    (mentioned : .function signature body ∈ before) : (env.register signature).Grounded before := by
  intro name known
  by_cases same : signature.name = name
  · exact .inr ⟨signature, body, mentioned, same⟩
  · refine grounded name ?_
    simpa [Env.register, same] using known

theorem enter (grounded : env.Grounded before) {signature : Signature} {body : Option Block}
    (mentioned : .function signature body ∈ before) : (env.enter signature).Grounded before :=
  (grounded.register mentioned).bindAll _

theorem started (grounded : env.Grounded before) (start : Start) :
    (env.started start).Grounded before := by
  intro name known
  rw [Env.started_callee?] at known
  exact grounded name known

theorem after (grounded : env.Grounded before) (st : Stmt) :
    (env.after st).Grounded (before ++ st.mentions) := by
  have still := grounded.mono (List.subset_append_left before st.mentions)
  cases st with
  | declaration => exact still
  | multiple => exact still.bindAll _
  | function signature body =>
    exact still.register (List.mem_append_right _ (Stmt.function_mem_mentions signature body))
  | _ => exact still

theorem initial : Env.initial.Grounded [] := by
  intro name known
  simp only [Env.initial, Option.isSome_map] at known
  exact .inl (Option.isSome_iff_exists.mp known)

end Env.Grounded

theorem ordered_callsIn {env : Env} {before : List Mention} {es : List Expr}
    (grounded : env.Grounded before)
    (known : ∀ name ∈ Expr.calleesOf es, (env.callee? name).isSome = true) :
    Ordered before (callsIn es) := by
  intro front name back split
  have called : Mention.call name ∈ callsIn es := by
    rw [split]
    exact List.mem_append_right _ List.mem_cons_self
  have member : name ∈ Expr.calleesOf es := by simpa [callsIn] using called
  exact (grounded name (known name member)).mono (List.subset_append_left _ _)

mutual

theorem Stmt.ordered :
    ∀ {env : Env} {before : List Mention} (st : Stmt), st.Everywhere CallsKnown env →
    env.Grounded before → Ordered before st.mentions
  | _, _, .function signature none, _, _ => .function signature none
  | _, before, .function signature (some body), known, grounded => by
    have mentioned : Mention.function signature (some body) ∈ before ++
      [Mention.function signature (some body)] :=
      List.mem_append_right _ (List.mem_singleton_self _)
    have inner := (grounded.mono (List.subset_append_left _ _)).enter mentioned
    exact (Ordered.function signature (some body)).append (Block.ordered body known inner)
  | _, _, .branch condition body clauses last, ⟨here, inBody, inClauses, inLast⟩, grounded => by
    have first := ordered_callsIn grounded here
    have second :=
      first.append (Block.ordered body inBody (grounded.mono (List.subset_append_left _ _)))
    have third :=
      second.append (Block.orderedOf clauses inClauses
        (grounded.mono (List.subset_append_left _ _)))
    exact third.append (Block.orderedIn last inLast (grounded.mono (List.subset_append_left _ _)))
  | env, _, .forLoop start condition update body, ⟨begins, here, steps, inBody⟩, grounded => by
    have head : ∀ name ∈ Expr.calleesOf [start.value, condition, update],
      (env.callee? name).isSome = true := by
      intro name called
      rw [← env.started_callee? start]
      obtain ⟨e, member, inside⟩ := Expr.mem_calleesOf.mp called
      simp only [List.mem_cons, List.not_mem_nil, or_false] at member
      rcases member with rfl | rfl | rfl
      · rw [env.started_callee?]
        exact begins name (Expr.mem_calleesOf.mpr ⟨_, List.mem_singleton_self _, inside⟩)
      · exact here name (Expr.mem_calleesOf.mpr ⟨_, List.mem_singleton_self _, inside⟩)
      · exact steps name (Expr.mem_calleesOf.mpr ⟨_, List.mem_singleton_self _, inside⟩)
    have first := ordered_callsIn grounded head
    exact first.append
      (Block.ordered body inBody ((grounded.started start).mono (List.subset_append_left _ _)))
  | _, _, .whileLoop condition body, ⟨here, inBody⟩, grounded => by
    have first := ordered_callsIn grounded here
    exact first.append (Block.ordered body inBody (grounded.mono (List.subset_append_left _ _)))
  | _, _, .expression _, known, grounded | _, _, .declaration _, known, grounded
  | _, _, .multiple _ _, known, grounded
  | _, _, .returning _, known, grounded => ordered_callsIn grounded known
  | _, _, .continuing, _, _ | _, _, .breaking, _, _ => .nil

theorem Block.ordered :
    ∀ {env : Env} {before : List Mention} (body : List Stmt), Block.Everywhere CallsKnown env body →
    env.Grounded before → Ordered before (Block.mentions body)
  | _, _, [], _, _ => .nil
  | _, _, st :: rest, ⟨first, later⟩, grounded =>
    (Stmt.ordered st first grounded).append (Block.ordered rest later (grounded.after st))

theorem Block.orderedOf : ∀ {env : Env} {before : List Mention} (clauses : List (Expr × List Stmt)),
    Block.EverywhereOf CallsKnown env clauses → env.Grounded before →
    Ordered before (Block.mentionsOf clauses)
  | _, _, [], _, _ => .nil
  | _, _, (condition, body) :: rest, ⟨here, inBody, later⟩, grounded => by
    have first := ordered_callsIn grounded here
    have second :=
      first.append (Block.ordered body inBody (grounded.mono (List.subset_append_left _ _)))
    exact second.append (Block.orderedOf rest later (grounded.mono (List.subset_append_left _ _)))

theorem Block.orderedIn : ∀ {env : Env} {before : List Mention} (last : Option (List Stmt)),
    Block.EverywhereIn CallsKnown env last → env.Grounded before →
    Ordered before (Block.mentionsIn last)
  | _, _, none, _, _ => .nil
  | _, _, some body, inBody, grounded => Block.ordered body inBody grounded

end

end ColonScript
