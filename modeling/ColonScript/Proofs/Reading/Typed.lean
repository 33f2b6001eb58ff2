import ColonScript.Proofs.Reading.Kept
import ColonScript.Proofs.WellTyped

/-! Every expression that is read is well typed in the environment of its point. -/

namespace ColonScript.Reading
open Token (Kind)
open Ty Typing

variable {s s' : Session} {env : Env}

structure Typed (env : Env) (e : Expr) : Prop where
  wellTyped : e.WellTyped env
  proper : AllProper e.types

namespace Typed
variable {e : Expr} {own type : Ty}

theorem proper_of_types (typed : Typed env e) (single : e.types = [own]) : own.Proper :=
  typed.proper own (by simp [single])

theorem of_types (wellTyped : e.WellTyped env) (single : e.types = [own]) (proper : own.Proper) :
    Typed env e := by
  refine ⟨wellTyped, ?_⟩
  rw [single]
  exact allProper_singleton proper

theorem settle (typed : Typed env e) (fits : e.Fits type) (proper : type.Proper) :
    Typed env (e.settle type) := by
  refine ⟨typed.wellTyped.settle fits, ?_⟩
  rcases Expr.types_settle type e with same | new
  · rw [same]
    exact typed.proper
  · rw [new]
    exact allProper_singleton proper

end Typed

/-- The names that can be used in a state are those of the environment, and all its types are of the
kind that a script can have. -/
structure Situated (env : Env) (s : Session) : Prop where
  grounded : Grounded s
  agrees : Agrees env s

namespace Situated

theorem next (situated : Situated env s) : Situated env s.next :=
  ⟨situated.grounded.next, situated.agrees.next⟩

theorem withPool {pool : Pool} (situated : Situated env s) (faithful : pool.Faithful) :
    Situated env (s.withPool pool) :=
  ⟨situated.grounded.withPool faithful, situated.agrees.onward ((Onward.refl s).withPool pool)⟩

theorem separated {first : Bool} (situated : Situated env s)
    (separated : Session.Separated first s s') :
    Situated env s' :=
  ⟨situated.grounded.separated separated, situated.agrees.onward (onward_separated separated)⟩

theorem callee {name : String} {function : Function} (situated : Situated env s)
    (known : s.scopes.function? name = some function) :
    env.callee? name = some ⟨function.signature, function.builtin?⟩ := by
  rw [← situated.agrees.sees.callees, ScopeStack.callee?, known]
  rfl

end Situated

/-- An expression whose type is known already stays as it is. -/
theorem settle_of_settled {e : Expr} {own : Ty} (single : e.types = [own])
    (settled : own.settled = true) (type : Ty) :
    e.settle type = e := by
  cases e with
  | array elements | map pairs | binary left operator right =>
    obtain rfl := List.cons.inj single |>.1
    unfold Expr.settle
    rw [if_pos settled]
  | _ => rfl

theorem written_parameters {signature : Signature} (written : signature.Written) :
    ∀ type ∈ signature.parameters.map (·.type), type.Written := by
  intro type member
  obtain ⟨parameter, inside, rfl⟩ := List.mem_map.mp member
  exact written.parameters parameter inside

theorem typed_literal {token : Token} {make : Ty → Expr} {name : String}
    (literal : Literal token make name) :
    name ∈ baseNames ∧ (make (named name)).WellTyped env ∧
      (make (named name)).types = [named name] := by
  cases literal with
  | integer => exact ⟨by decide, .integer, rfl⟩
  | float => exact ⟨by decide, .float, rfl⟩
  | bool => exact ⟨by decide, .bool, rfl⟩
  | string => exact ⟨by decide, .string, rfl⟩
  | char => exact ⟨by decide, .char, rfl⟩

theorem type_of_unary {operator : String} {own type : Ty}
    (rule : Typing.unary operator own = .ok type) : type = own := by
  unfold Typing.unary at rule
  split at rule
  · exact (Except.ok.inj rule).symm
  · cases rule

theorem type_of_step {operator : String} {own type : Ty}
    (rule : Typing.step operator own = .ok type) : type = own := by
  unfold Typing.step at rule
  split at rule
  · exact (Except.ok.inj rule).symm
  · cases rule

/-- An operator with operands that are typed is typed, and the pool stays faithful. -/
theorem typed_combined {operator : String} {left right : Expr} {l r type : Ty} {pool pool' : Pool}
    (first : Typed env left) (second : Typed env right) (leftSingle : left.types = [l])
    (rightSingle : right.types = [r])
    (faithful : pool.Faithful) (rule : Typing.binary operator l r pool = .ok type pool') :
    Typed env (combined left operator right type) ∧ pool'.Faithful := by
  have leftProper := first.proper_of_types leftSingle
  have rightProper := second.proper_of_types rightSingle
  obtain ⟨proper, kept, gives⟩ := (steady_binary leftProper rightProper).gives faithful rule
  refine ⟨?_, kept⟩
  unfold combined
  rcases binary_cases faithful leftProper rightProper rule with
    ⟨_, _, _, rfl, rfl, _, rfl⟩ | ⟨array, array', ⟨rfl, common⟩ | ⟨compares, compatible, rfl⟩⟩
  · exact .of_types (.binary first.wellTyped second.wellTyped leftSingle rightSingle gives) rfl
      proper
  · obtain ⟨leftFits, rightFits, _⟩ := common?_refines leftProper rightProper common
    have container : type.isContainer = true := by
      have result := Expr.isArray_of_refined leftFits array
      cases type with
      | array => rfl
      | _ => cases result
    rw [if_pos container]
    have first' := first.settle ⟨l, leftSingle, leftFits⟩ proper
    have second' := second.settle ⟨r, rightSingle, rightFits⟩ proper
    obtain ⟨l', leftSingle', leftGrows, leftFits'⟩ := Expr.between_of_settle leftSingle leftFits
    obtain ⟨r', rightSingle', rightGrows, rightFits'⟩ :=
      Expr.between_of_settle rightSingle rightFits
    have arrays := And.intro (Expr.isArray_of_refined leftGrows array)
      (Expr.isArray_of_refined rightGrows array')
    exact .of_types
      (.concat first'.wellTyped second'.wellTyped leftSingle' rightSingle' arrays leftFits'
        rightFits') rfl proper
  · exact .of_types
      (.compare compares first.wellTyped second.wellTyped leftSingle rightSingle
        ⟨array, array'⟩ compatible) rfl proper

theorem proper_of_singles {es : List Expr} {types : List Ty} (singles : Singles es types)
    (each : ∀ e ∈ es, Typed env e) : AllProper types := by
  induction singles with
  | nil => exact allProper_nil
  | @cons e type _ _ single _ ih =>
    intro other member
    rcases List.mem_cons.mp member with rfl | later
    · exact (each e List.mem_cons_self).proper_of_types single
    · exact ih (fun e member => each e (List.mem_cons_of_mem _ member)) other later

/-- Arguments that are fitted to parameters are settled to something between their own types and the
wanted ones. -/
theorem typed_of_fitted {pool pool' : Pool} {wanted types : List Ty} {args settled : List Expr}
    (fitted : Fitted pool wanted (args.zip types) settled pool') (singles : Singles args types)
    (faithful : pool.Faithful) (written : ∀ type ∈ wanted, type.Written)
    (each : ∀ e ∈ args, Typed env e) :
    pool'.Faithful ∧ (∀ e ∈ settled, Typed env e) ∧ List.Forall₂ Expr.Fits settled wanted := by
  induction wanted generalizing pool args types settled with
  | nil =>
    generalize args.zip types = values at fitted
    cases fitted
    exact ⟨faithful, by simp, .nil⟩
  | cons type rest ih =>
    cases singles with
    | nil => cases fitted
    | @cons e own args types single singles =>
      cases fitted with
      | @cons _ _ _ _ both _ _ _ settled joined fitted =>
        have typed := each e List.mem_cons_self
        have ownProper := typed.proper_of_types single
        have typeWritten := written type List.mem_cons_self
        obtain ⟨common, between⟩ := Pool.join_eq faithful typeWritten.proper ownProper
        rw [joined] at common
        obtain ⟨typeRefined, ownRefined, bothProper⟩ :=
          common?_refines typeWritten.proper ownProper common.symm
        obtain rfl := typeRefined.eq_of_settled typeWritten.settled
        have fits : e.Fits type := ⟨own, single, ownRefined⟩
        obtain ⟨after, laterTyped, laterFit⟩ := ih fitted singles between
          (fun type member => written type (List.mem_cons_of_mem _ member))
          (fun e member => each e (List.mem_cons_of_mem _ member))
        refine ⟨after, ?_, .cons fits.settle laterFit⟩
        intro e member
        rcases List.mem_cons.mp member with rfl | later
        · exact typed.settle fits bothProper
        · exact laterTyped e later

/-- A value that is assigned is typed after it has been settled, and the assignment obeys its
rule. -/
theorem typed_assigned {name operator : String} {binding : Binding} {value : Expr} {own both : Ty}
    {pool pool' : Pool} (bound : env.binding? name = some binding) (written : binding.type.Written)
    (typed : Typed env value)
    (single : value.types = [own]) (faithful : pool.Faithful)
    (rule : Typing.assignment name operator binding.type own pool = .ok both pool') :
    Typed env (.assign name operator (value.settle both) binding.type) ∧ pool'.Faithful := by
  have ownProper := typed.proper_of_types single
  obtain ⟨⟨given, gives, common⟩, kept, _⟩ :=
    (steady_assignment written.proper ownProper).gives faithful rule
  refine ⟨?_, kept⟩
  have givenProper : given.Proper := by
    obtain ⟨_, run⟩ := gives
    exact ((steady_received written.proper ownProper).gives Pool.faithful_empty run).1
  obtain ⟨targetRefined, givenRefined, _⟩ := common?_refines written.proper givenProper common
  obtain rfl := targetRefined.eq_of_settled written.settled
  refine .of_types ?_ rfl written.proper
  rcases named_or_refined_of_received written.proper ownProper gives
    givenRefined with ⟨_, rfl⟩ | refined
  · rw [settle_of_settled single rfl]
    exact .assign bound typed.wellTyped single gives givenRefined
  · have settled := typed.settle ⟨own, single, refined⟩ written.proper
    obtain ⟨own', single', grows, fits⟩ := Expr.between_of_settle single refined
    obtain ⟨given', gives', givenRefined'⟩ :=
      gives_received written ownProper (settled.proper_of_types single') grows fits
        gives givenRefined
    exact .assign bound settled.wellTyped single' gives' givenRefined'

/-- Two values that are joined fit what they share. -/
theorem fits_of_joined {pool : Pool} {before own both : Ty} {e : Expr} (typed : Typed env e)
    (single : e.types = [own])
    (faithful : pool.Faithful) (proper : before.Proper)
    (joined : (pool.join before own).1 = some both) :
    e.Fits both ∧ RefinedBy before both ∧ both.Proper ∧ (pool.join before own).2.Faithful := by
  have ownProper := typed.proper_of_types single
  obtain ⟨common, kept⟩ := Pool.join_eq faithful proper ownProper
  rw [joined] at common
  obtain ⟨grows, fits, bothProper⟩ := common?_refines proper ownProper common.symm
  exact ⟨⟨own, single, fits⟩, grows, bothProper, kept⟩

theorem typed_array {es : List Expr} {element : Ty} (proper : element.Proper)
    (each : ∀ e ∈ es, Typed env e ∧ e.Fits element) :
    Typed env (.array (Expr.settleAll element es) (.array 0 element)) := by
  rw [Expr.settleAll_eq_map]
  have settled := fun e member => (each e member).1.wellTyped.settle (each e member).2
  exact .of_types (.array_settled settled fun e member => (each e member).2) rfl ⟨rfl, proper⟩

theorem typed_map {pairs : List (Expr × Expr)} {key value : Ty} (keyProper : key.Proper)
    (valueProper : value.Proper)
    (each : ∀ pair ∈ pairs, pair.1.isBaseLiteral = true ∧ Typed env pair.1 ∧ Typed env pair.2 ∧
      pair.1.Fits key ∧ pair.2.Fits value) :
    Typed env (.map (Expr.settleValues value pairs) (.map 0 key value)) := by
  rw [Expr.settleValues_eq_map]
  refine .of_types (.map_settled ?_ ?_ ?_ ?_ ?_) rfl ⟨rfl, keyProper, valueProper⟩
  all_goals
    intro pair member
    obtain ⟨literal, keyTyped, valueTyped, keyFits, valueFits⟩ := each pair member
  · exact literal
  · exact keyTyped.wellTyped
  · exact valueTyped.wellTyped.settle valueFits
  · exact keyFits
  · exact valueFits

theorem typed_unary {operator : String} {e : Expr} {own type : Ty} (typed : Typed env e)
    (single : e.types = [own])
    (rule : Typing.unary operator own = .ok type) : Typed env (.unary operator e type) := by
  refine .of_types (.unary typed.wellTyped single rule) rfl ?_
  rw [type_of_unary rule]
  exact typed.proper_of_types single

theorem typed_step {operator : String} {e : Expr} {own type : Ty} (typed : Typed env e)
    (single : e.types = [own])
    (rule : Typing.step operator own = .ok type) : Typed env (.step e operator type) := by
  refine .of_types (.step typed.wellTyped single rule) rfl ?_
  rw [type_of_step rule]
  exact typed.proper_of_types single

/-! What is made of parts that are typed is typed, and the state behind it stays as it should be. -/

namespace Situated
variable {e left right : Expr} {es : List Expr} {types : List Ty} {own type : Ty} {pool : Pool}

theorem literal {make : Ty → Expr} {name : String} (situated : Situated env s)
    (token : Literal s.current make name) :
    Typed env (make (s.pool.base name).1) ∧
      Situated env (s.next.withPool (s.pool.base name).2) := by
  obtain ⟨member, wellTyped, single⟩ := typed_literal token
  obtain ⟨result, faithful⟩ := Pool.base_eq situated.grounded.pool member
  rw [result]
  exact ⟨.of_types wellTyped single (proper_named member), situated.next.withPool faithful⟩

theorem name {name : String} {binding : Binding} (situated : Situated env s)
    (bound : s.scopes.binding? name = some binding) : Typed env (.name name binding.type) := by
  have written := situated.grounded.scopes.binding bound
  rw [situated.agrees.sees.bindings] at bound
  exact .of_types (.name bound) rfl written.proper

theorem builtinCall {callee : String} {signature : Signature} {builtin : Builtin}
    {results : List Ty} (situated : Situated env s)
    (known : env.callee? callee = some ⟨signature, some builtin⟩)
    (each : ∀ e ∈ es, Typed env e) (singles : Singles es types)
    (rule : builtin.results types s.pool = .ok results pool) :
    Typed env (.call callee es results) ∧ Situated env (s.next.withPool pool) := by
  have steady := builtin.steady_results (proper_of_singles singles each)
  obtain ⟨proper, faithful, gives⟩ := steady.gives situated.grounded.pool rule
  exact ⟨⟨.builtinCall known (fun e member => (each e member).wellTyped) singles gives, proper⟩,
    situated.next.withPool faithful⟩

theorem call {callee : String} {signature : Signature} {settled : List Expr}
    (situated : Situated env s) (known : env.callee? callee = some ⟨signature, none⟩)
    (written : signature.Written) (each : ∀ e ∈ es, Typed env e)
    (singles : Singles es types)
    (fitted : Fitted s.pool (signature.parameters.map (·.type)) (es.zip types) settled pool) :
    Typed env (.call callee settled signature.results) ∧ Situated env (s.next.withPool pool) := by
  obtain ⟨faithful, typed, fits⟩ :=
    typed_of_fitted fitted singles situated.grounded.pool (written_parameters written) each
  refine ⟨⟨.call known (fun e member => (typed e member).wellTyped) fits, ?_⟩,
    situated.next.withPool faithful⟩
  exact fun type member => (written.results type member).proper

theorem array (situated : Situated env s) (each : ∀ e ∈ es, Typed env e ∧ e.Fits type)
    (proper : type.Proper) :
    Typed env (.array (Expr.settleAll type es) (s.pool.array type).1) ∧
      Situated env (s.next.withPool (s.pool.array type).2) := by
  obtain ⟨result, faithful⟩ := Pool.array_eq situated.grounded.pool proper
  rw [result]
  exact ⟨typed_array proper each, situated.next.withPool faithful⟩

theorem map {pairs : List (Expr × Expr)} {key value : Ty} (situated : Situated env s)
    (keyProper : key.Proper) (valueProper : value.Proper)
    (each : ∀ pair ∈ pairs, pair.1.isBaseLiteral = true ∧ Typed env pair.1 ∧ Typed env pair.2 ∧
      pair.1.Fits key ∧ pair.2.Fits value) :
    Typed env (.map (Expr.settleValues value pairs) (s.pool.map key value).1) ∧
      Situated env (s.next.withPool (s.pool.map key value).2) := by
  obtain ⟨result, faithful⟩ := Pool.map_eq situated.grounded.pool keyProper valueProper
  rw [result]
  exact ⟨typed_map keyProper valueProper each, situated.next.withPool faithful⟩

theorem combined {operator : String} {l r : Ty} (situated : Situated env s) (first : Typed env left)
    (second : Typed env right) (leftSingle : left.types = [l]) (rightSingle : right.types = [r])
    (rule : Typing.binary operator l r s.pool = .ok type pool) :
    Typed env (combined left operator right type) ∧ Situated env (s.withPool pool) :=
  (typed_combined first second leftSingle rightSingle situated.grounded.pool rule).imp_right
    situated.withPool

theorem assigned {target operator : String} {value : Expr} {both : Ty} (situated : Situated env s)
    (name : Typed env (.name target type)) (typed : Typed env value) (single : value.types = [own])
    (rule : Typing.assignment target operator type own s.pool = .ok both pool) :
    Typed env (.assign target operator (value.settle both) type) ∧
      Situated env (s.withPool pool) := by
  cases name.wellTyped with
  | @name _ binding bound =>
    have known := bound
    rw [← situated.agrees.sees.bindings] at known
    have written := situated.grounded.scopes.binding known
    exact (typed_assigned bound written typed single situated.grounded.pool rule).imp_right
      situated.withPool

theorem index {key : Expr} {l k : Ty} (situated : Situated env s) (target : Typed env left)
    (inner : Typed env key) (leftSingle : left.types = [l]) (keySingle : key.types = [k])
    (rule : Typing.index l k s.pool = .ok type pool) :
    Typed env (.index left key type) ∧ Situated env (s.next.withPool pool) := by
  have steady := steady_index (target.proper_of_types leftSingle) (inner.proper_of_types keySingle)
  obtain ⟨proper, faithful, gives⟩ := steady.gives situated.grounded.pool rule
  exact ⟨.of_types (.index target.wellTyped inner.wellTyped leftSingle keySingle gives) rfl proper,
    situated.next.withPool faithful⟩

theorem joining {before both : Ty} (situated : Situated env s) (typed : Typed env e)
    (single : e.types = [own])
    (proper : before.Proper) (joined : (s.pool.join before own).1 = some both) :
    e.Fits both ∧ RefinedBy before both ∧ both.Proper ∧ Situated env (s.joining before own) := by
  obtain ⟨fits, grows, bothProper, faithful⟩ :=
    fits_of_joined typed single situated.grounded.pool proper joined
  exact ⟨fits, grows, bothProper, situated.withPool faithful⟩

end Situated

def Phrase.Typed (env : Env) (s' : Session) : Phrase → Prop
  | .expr _ e | .operand _ e => Reading.Typed env e ∧ Situated env s'
  | .rest _ left e => Reading.Typed env left → Reading.Typed env e ∧ Situated env s'
  | .elements _ before es type => before.Proper →
      (∀ e ∈ es, Reading.Typed env e ∧ e.Fits type) ∧ RefinedBy before type ∧ type.Proper ∧
      Situated env s'
  | .entries _ before pairs types => before.1.Proper → before.2.Proper →
      (∀ pair ∈ pairs, pair.1.isBaseLiteral = true ∧ Reading.Typed env pair.1 ∧
        Reading.Typed env pair.2 ∧ pair.1.Fits types.1 ∧ pair.2.Fits types.2) ∧
      RefinedBy before.1 types.1 ∧ RefinedBy before.2 types.2 ∧ types.1.Proper ∧ types.2.Proper ∧
        Situated env s'
  | .arguments _ es => (∀ e ∈ es, Reading.Typed env e) ∧ Situated env s'

theorem typed_element {s₂ : Session} {first : Bool} {e : Expr} {es : List Expr}
    {before own both type : Ty} (between : Situated env s₂) (typed : Typed env e)
    (single : e.types = [own])
    (joined : (s₂.pool.join before own).1 = some both)
    (rest : Situated env (s₂.joining before own) →
      (Phrase.elements false both es type).Typed env s') :
    (Phrase.elements first before (e :: es) type).Typed env s' := by
  intro proper
  obtain ⟨fits, grows, bothProper, after⟩ := between.joining typed single proper joined
  obtain ⟨each, grown, typeProper, last⟩ := rest after bothProper
  exact ⟨List.forall_mem_cons.mpr ⟨⟨typed, fits.trans grown⟩, each⟩, grows.trans grown,
    typeProper, last⟩

theorem typed_entry {s₃ : Session} {first : Bool} {before types : Ty × Ty}
    {keyType valueType keys values : Ty} {key value : Expr} {pairs : List (Expr × Expr)}
    (between : Situated env s₃) (keyTyped : Typed env key)
    (valueTyped : Typed env value) (literal : key.isBaseLiteral = true)
    (keySingle : key.types = [keyType])
    (keyJoined : (s₃.pool.join before.1 keyType).1 = some keys)
    (valueSingle : value.types = [valueType])
    (valueJoined : ((s₃.joining before.1 keyType).pool.join before.2 valueType).1 = some values)
    (rest : Situated env ((s₃.joining before.1 keyType).joining before.2 valueType) →
      (Phrase.entries false (keys, values) pairs types).Typed env s') :
    (Phrase.entries first before ((key, value) :: pairs) types).Typed env s' := by
  intro keysProper valuesProper
  obtain ⟨keyFits, keyGrows, keyProper, after⟩ :=
    between.joining keyTyped keySingle keysProper keyJoined
  obtain ⟨valueFits, valueGrows, valueProper, after'⟩ :=
    after.joining valueTyped valueSingle valuesProper valueJoined
  obtain ⟨each, keyGrown, valueGrown, typesProper⟩ := rest after' keyProper valueProper
  refine ⟨List.forall_mem_cons.mpr ⟨?_, each⟩, keyGrows.trans keyGrown,
    valueGrows.trans valueGrown, typesProper⟩
  exact ⟨literal, keyTyped, valueTyped, keyFits.trans keyGrown, valueFits.trans valueGrown⟩

/-- Every expression that is read is typed. -/
theorem typed_of_reads {phrase : Phrase} (reads : Reads s phrase s') (situated : Situated env s) :
    phrase.Typed env s' := by
  induction reads with
  | expr _ _ _ operand rest =>
    obtain ⟨first, between⟩ := operand situated
    exact rest between first
  | literal token => exact situated.literal token
  | name _ _ bound => exact ⟨situated.name bound, situated.next⟩
  | builtinCall _ _ known stage _ _ singles rule arguments =>
    obtain ⟨each, between⟩ := arguments situated.next.next
    exact between.builtinCall (stage ▸ situated.callee known) each singles rule
  | call _ _ known stage _ _ singles _ fitted arguments =>
    obtain ⟨each, between⟩ := arguments situated.next.next
    exact between.call (stage ▸ situated.callee known) (situated.grounded.scopes.function known)
      each singles fitted
  | array _ _ _ elements =>
    obtain ⟨each, _, proper, between⟩ := elements situated.next trivial
    exact between.array each proper
  | map _ _ _ entries =>
    obtain ⟨each, _, _, keyProper, valueProper, between⟩ := entries situated.next trivial trivial
    exact between.map keyProper valueProper each
  | group _ _ _ inner => exact (inner situated.next).imp_right Situated.next
  | unary _ _ single rule operand =>
    exact (operand situated.next).imp_left (typed_unary · single rule)
  | stop => exact fun typed => ⟨typed, situated⟩
  | binary _ _ _ leftSingle rightSingle rule _ operand rest =>
    intro first
    obtain ⟨second, between⟩ := operand situated.next
    obtain ⟨typed, after⟩ := between.combined first second leftSingle rightSingle rule
    exact rest after typed
  | step _ _ single rule _ rest =>
    exact fun first => rest situated.next (typed_step first single rule)
  | assign _ _ _ _ single rule _ value rest =>
    intro first
    obtain ⟨given, between⟩ := value situated.next
    obtain ⟨typed, after⟩ := between.assigned first given single rule
    exact rest after typed
  | index _ _ _ _ _ leftSingle keySingle rule _ inner rest =>
    intro first
    obtain ⟨second, between⟩ := inner situated.next
    obtain ⟨typed, after⟩ := between.index first second leftSingle keySingle rule
    exact rest after typed
  | noElements => exact fun proper => ⟨by simp, .refl _, proper, situated⟩
  | element _ separated _ single joined _ value rest =>
    obtain ⟨typed, between⟩ := value (situated.separated separated)
    exact typed_element between typed single joined rest
  | noEntries =>
    exact fun keyProper valueProper => ⟨by simp, .refl _, .refl _, keyProper, valueProper, situated⟩
  | entry _ separated _ literal _ _ keySingle keyJoined valueSingle valueJoined _ key value rest =>
    obtain ⟨keyTyped, between⟩ := key (situated.separated separated)
    obtain ⟨valueTyped, between'⟩ := value between.next
    exact typed_entry between' keyTyped valueTyped literal keySingle keyJoined valueSingle
      valueJoined rest
  | noArguments => exact ⟨by simp, situated⟩
  | argument _ separated _ _ value rest =>
    obtain ⟨typed, between⟩ := value (situated.separated separated)
    obtain ⟨each, last⟩ := rest between
    exact ⟨List.forall_mem_cons.mpr ⟨typed, each⟩, last⟩

end ColonScript.Reading
