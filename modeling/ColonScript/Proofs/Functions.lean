import ColonScript.Proofs.Calls
import ColonScript.Proofs.Reading.Testing

/-! The functions of one name. Outside of testing mode there is at most one forward declaration and
at most one definition behind it, and what the scopes keep of the name at any time is what its
functions so far amount to. -/

namespace ColonScript
open Reading

def functionsNamed (name : String) (mentions : List Mention) : List (Signature × Option Block) :=
  mentions.filterMap fun
    | .function signature body => if signature.name = name then some (signature, body) else none
    | .call _ => none

theorem functionsNamed_append (name : String) (first second : List Mention) :
    functionsNamed name (first ++ second) =
      functionsNamed name first ++ functionsNamed name second :=
  List.filterMap_append

theorem functionsNamed_function (name : String) (signature : Signature) (body : Option Block) :
    functionsNamed name [.function signature body] = if signature.name =
      name then [(signature, body)] else [] := by
  unfold functionsNamed
  by_cases same : signature.name = name <;> simp [same]

theorem functionsNamed_functionless {name : String} {mentions : List Mention}
    (functionless : Functionless mentions) :
    functionsNamed name mentions = [] := by
  refine List.filterMap_eq_nil_iff.mpr fun mention member => ?_
  cases mention with
  | function signature body => exact absurd member (functionless signature body)
  | call => rfl

/-- What the functions of one name can be, and which of them the name stands for. -/
inductive Forms : List (Signature × Option Block) → Option (Signature × Option Block) → Prop where
  | none : Forms [] none
  | declared (signature : Signature) : Forms [(signature, .none)] (some (signature, .none))
  | defined (signature : Signature) (body : Block) : Forms [(signature, some body)]
    (some (signature, some body))
  | completed {first second : Signature} (body : Block) (same : first.Completes second) :
      Forms [(first, .none), (second, some body)] (some (second, some body))

/-- What the scopes keep of a name, given the functions of that name. -/
inductive Recorded (name : String) : List (Signature × Option Block) → Option Function → Prop where
  | builtin {builtin : Builtin} (known : Builtin.ofName? name = some builtin) :
      Recorded name [] (some (.ofBuiltin builtin))
  | free (own : Builtin.ofName? name = none) : Recorded name [] none
  | declared (own : Builtin.ofName? name = none) (signature : Signature) :
      Recorded name [(signature, none)] (some ⟨signature, .declared⟩)
  | defined (own : Builtin.ofName? name = none) (signature : Signature) (body : Block) :
      Recorded name [(signature, some body)] (some ⟨signature, .defined⟩)
  | completed (own : Builtin.ofName? name = none) {first second : Signature} (body : Block)
      (same : first.Completes second) :
      Recorded name [(first, none), (second, some body)] (some ⟨first, .defined⟩)

namespace Recorded
variable {name : String} {functions : List (Signature × Option Block)} {record : Option Function}

theorem forms (recorded : Recorded name functions record) :
    Forms functions ((functions.find? fun function => function.2.isSome).or functions.head?) := by
  cases recorded with
  | builtin | free => exact .none
  | declared _ signature => exact .declared signature
  | defined _ signature body => exact .defined signature body
  | completed _ body same => exact .completed body same

theorem own (recorded : Recorded name functions record) (some : functions ≠ []) :
    Builtin.ofName? name = none := by
  cases recorded with
  | builtin | free => exact absurd rfl some
  | declared own | defined own | completed own => exact own

end Recorded

def Stage.ofBody : Option Block → Stage
  | none => .declared
  | some _ => .defined

theorem Recorded.first {name : String} {functions : List (Signature × Option Block)}
    (recorded : Recorded name functions none) (signature : Signature) (body : Option Block) :
    Recorded name (functions ++ [(signature, body)]) (some ⟨signature, .ofBody body⟩) := by
  cases recorded with
  | free own =>
    cases body with
    | none => exact .declared own signature
    | some body => exact .defined own signature body

theorem Recorded.complete {name : String} {functions : List (Signature × Option Block)}
    {known : Function} (recorded : Recorded name functions (some known))
    (declared : known.stage = .declared) {signature : Signature}
    (same : known.signature.Completes signature) (body : Block) :
    Recorded name (functions ++ [(signature, some body)])
      (some { known with stage := .defined }) := by
  cases recorded with
  | builtin => cases declared
  | declared own => exact .completed own body same
  | defined | completed => cases declared

def Records (stack : ScopeStack) (before : List Mention) : Prop :=
  ∀ name, Recorded name (functionsNamed name before) (stack.function? name)

namespace Records
variable {stack other : ScopeStack} {before : List Mention}

theorem initial : Records .initial [] := by
  intro name
  have found : ScopeStack.initial.function? name = (Builtin.ofName? name).map .ofBuiltin := by
    simp only [ScopeStack.function?, ScopeStack.initial, ScopeStack.toList, List.nil_append,
      List.findSome?_cons, List.findSome?_nil, Function.get?_ofBuiltins, Builtin.ofName?]
    cases Builtin.all.find? fun builtin => builtin.name = name <;> rfl
  rw [found]
  cases known : Builtin.ofName? name with
  | none => exact .free known
  | some builtin => exact .builtin known

theorem of_tables (records : Records stack before) (same : other.tables = stack.tables) :
    Records other before := by
  intro name
  rw [ScopeStack.function?_eq_tables, same, ← ScopeStack.function?_eq_tables]
  exact records name

theorem functionless (records : Records stack before) {more : List Mention}
    (functionless : Functionless more) :
    Records stack (before ++ more) := by
  intro name
  rw [functionsNamed_append, functionsNamed_functionless functionless, List.append_nil]
  exact records name

theorem register (records : Records stack before) {signature : Signature} (body : Option Block)
    {position : Position}
    (registers : stack.register ⟨signature, .ofBody body⟩ position = .ok other) :
    Records other (before ++ [.function signature body]) := by
  intro name
  rw [functionsNamed_append, functionsNamed_function]
  obtain ⟨unknown, rfl⟩ | ⟨known, found, declared, defined, same, rfl⟩ :=
    ScopeStack.register_cases registers
  · rw [ScopeStack.modifyInnermost_add_function?]
    by_cases own : signature.name = name
    · subst own
      have recorded := records signature.name
      rw [unknown] at recorded
      simpa using recorded.first signature body
    · simpa [own] using records name
  · rw [ScopeStack.function?_complete found]
    by_cases own : signature.name = name
    · subst own
      have recorded := records signature.name
      rw [found] at recorded
      cases body with
      | none => cases defined
      | some body => simpa using recorded.complete declared same body
    · simpa [own] using records name

end Records

namespace Reading
variable {s s' : Session} {before : List Mention}

/-- One statement at the top keeps the account. -/
theorem records_of_performs {st : Stmt} (performs : Performs s (.stmt st) s') (bare : s.Bare)
    (records : Records s.scopes before) : Records s'.scopes (before ++ st.mentions) := by
  cases performs with
  | expression allowed form => cases form.symm.trans (bare.form allowed)
  | declaration allowed form => cases form.symm.trans (bare.form allowed)
  | returning allowed form => cases form.symm.trans (bare.form allowed)
  | control allowed form => cases form.symm.trans (bare.form allowed)
  | branch allowed form => cases form.symm.trans (bare.form allowed)
  | forLoop allowed form => cases form.symm.trans (bare.form allowed)
  | whileLoop allowed form => cases form.symm.trans (bare.form allowed)
  | forward _ form heads _ registered =>
    rw [(onward_heads (kind_of_function form) heads).scopes] at registered
    exact records.register none registered
  | @define _ s₁ s₂ signature scopes inner body _ form heads _ registered declared inside =>
    rw [(onward_heads (kind_of_function form) heads).scopes] at registered
    have opened := records.register (some body) registered
    have functionless := functionless_of_performs inside rfl
    have tables : s₂.scopes.tables = scopes.push.tables :=
      (tables_of_performs inside functionless).trans (tables_declareParameters declared)
    have closed : Records s₂.scopes.pop (before ++ [.function signature (some body)]) :=
      opened.of_tables (ScopeStack.tables_pop_of_push tables)
    have whole := closed.functionless functionless
    rwa [List.append_assoc] at whole

/-- And so does a whole script. -/
theorem records_of_script {body : Block} (performs : Performs s (.script body) s') (bare : s.Bare)
    (records : Records s.scopes before) : Records s'.scopes (before ++ Block.mentions body) := by
  induction body generalizing s before with
  | nil =>
    cases performs with
    | noScript => simpa [Block.mentions] using records
  | cons st rest ih =>
    cases performs with
    | script _ first others =>
      have later := ih others (bare.forward (forward_of_performs first))
        (records_of_performs first bare records)
      rwa [List.append_assoc] at later

end Reading

namespace Program

/-- The functions at the top are all there are. -/
theorem functions_eq {body : Block} (name : String)
    (strict : ∀ st ∈ body, Strict st ∧ Functionless st.mentions.tail) :
    (Program.mk body).functions name = functionsNamed name (Block.mentions body) := by
  induction body with
  | nil => rfl
  | cons st rest ih =>
    rw [List.forall_mem_cons] at strict
    obtain ⟨signature, body, rfl, mentions⟩ := strict.1.1.mentions_eq
    have here : functionsNamed name (Stmt.function signature body).mentions =
        if signature.name = name then [(signature, body)] else [] := by
      rw [mentions, ← List.singleton_append, functionsNamed_append, functionsNamed_function,
        functionsNamed_functionless strict.1.2, List.append_nil]
    rw [Block.mentions, functionsNamed_append, here, ← ih strict.2]
    by_cases own : signature.name = name <;> simp [functions, own]

/-- The functions of each name are none, a declaration, a definition, or a declaration and the
definition that completes it, and the name stands for the definition before it stands for the
declaration; no such name is that of a built-in function; and every call is of a built-in function
or of one that stands before. -/
theorem functions_of_accepted {tokens : List Token} {file : String} {p : Program}
    (accepted : ofTokens tokens file false = .ok p) :
    (∀ name, Forms (functionsNamed name p.mentions) (p.function? name) ∧
        (functionsNamed name p.mentions ≠ [] → Builtin.ofName? name = none)) ∧
      ∀ front name back, p.mentions = front ++ .call name :: back → Builtin.ofName? name = none →
        ∃ signature body, .function signature body ∈ front ∧ signature.name = name := by
  obtain ⟨s', performs⟩ := ofTokens_eq_ok.mp accepted
  have begins : Records (Session.ofTokens tokens file false .standard).push.scopes [] :=
    Records.initial
  have records := records_of_script performs (bare_ofTokens tokens file) begins
  have strict := strict_of_accepted accepted
  refine ⟨fun name => ?_, ?_⟩
  · have recorded : Recorded name (functionsNamed name p.mentions) (s'.scopes.function? name) :=
      records name
    refine ⟨?_, recorded.own⟩
    have forms := recorded.forms
    have top : p.functions name = functionsNamed name p.mentions := functions_eq name strict
    rw [← top] at forms ⊢
    exact forms
  · intro front name back split own
    have known := everywhere_of_accepted pointwise_callsKnown trivial accepted
    have introduced := Block.ordered p.statements known Env.Grounded.initial front name back split
    exact introduced.resolve_left fun ⟨builtin, same⟩ => by simp [own] at same

def callingEachOther : String :=
  "fun: f(a: int): (int);
   fun: g(): (int) \x7b return: f(1); \x7d
   fun: f(a: int): (int) \x7b return: g(); \x7d"

theorem functions_of_accepted_callingEachOther :
    ∃ p, ofSource callingEachOther "" false = .ok p ∧ (p.functions "f").length = 2 ∧
      (∀ name, Forms (functionsNamed name p.mentions) (p.function? name) ∧
        (functionsNamed name p.mentions ≠ [] → Builtin.ofName? name = none)) ∧
      ∀ front name back, p.mentions = front ++ .call name :: back → Builtin.ofName? name = none →
        ∃ signature body, .function signature body ∈ front ∧ signature.name = name := by
  have read : (ofSource callingEachOther "" false).toOption.any
    (fun p => (p.functions "f").length = 2) = true := by
    decide +kernel
  obtain ⟨p, accepted, two⟩ := exists_ok_of_any read
  obtain ⟨tokens, _, accepted'⟩ := ofSource_eq_ok.mp accepted
  exact ⟨p, accepted, of_decide_eq_true two, functions_of_accepted accepted'⟩

end Program

end ColonScript
