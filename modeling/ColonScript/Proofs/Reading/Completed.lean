import ColonScript.Proofs.Following
import ColonScript.Proofs.Soundness
import ColonScript.Proofs.Reading.Pools

/-! Settling leaves nothing out. An expression that is read follows the type it is found to have,
however often its parts have been settled on the way, and every value that is checked in it suits
the type it is checked against. -/

namespace ColonScript
open Ty Typing

namespace Expr
variable {env : Env} {e : Expr} {type own : Ty}

theorem isContainer_of_composite (typed : WellTyped env e) (single : e.types = [own])
    (composite : e.isComposite = true) :
    own.isContainer = true := by
  cases typed with
  | array | map =>
    obtain rfl := (List.cons.inj single).1
    rfl
  | binary | concat | compare =>
    obtain rfl := (List.cons.inj single).1
    rw [isComposite, Bool.and_eq_true] at composite
    exact composite.2
  | _ => cases composite

/-- An expression that makes no check of its own, and is no literal of a container, is as complete
as its children. -/
theorem complete_of_children (plain : e.isComposite = false)
    (noAssign : ∀ target operator value type, e ≠ .assign target operator value type)
    (noCall : ∀ callee arguments results, e ≠ .call callee arguments results)
    (each : ∀ child ∈ e.children, Complete env child) :
    Complete env e := by
  refine .of_plain plain fun type value checks => ?_
  obtain ⟨child, member, checks⟩ := (checks_of_children noAssign noCall).mp checks
  exact (each child member).inside type value checks

theorem complete_of_isBaseLiteral (literal : e.isBaseLiteral = true) :
    e.isComposite = false ∧ Complete env e := by
  cases e with
  | integer | float | bool | string | char =>
    exact ⟨rfl, complete_of_children rfl (by simp) (by simp) fun _ member => nomatch member⟩
  | _ => cases literal

theorem complete_array {es : List Expr} {element : Ty} (each : ∀ e ∈ es, Complete env e)
    (typed : ∀ e ∈ es, WellTyped env e) (fits : ∀ e ∈ es, e.Fits element) :
    Complete env (.array (settleAll element es) (.array 0 element)) := by
  rw [settleAll_eq_map]
  constructor
  · intro type single
    refine follows_array.mpr ⟨(List.cons.inj single).1, fun e member => ?_⟩
    obtain ⟨before, within, rfl⟩ := List.mem_map.mp member
    obtain rfl := (List.cons.inj single).1
    exact ((each before within).settle (typed before within) (fits before within)).1
  · intro type value checks
    obtain ⟨e, member, checks⟩ := checks_array.mp checks
    obtain ⟨before, within, rfl⟩ := List.mem_map.mp member
    exact (each before within).inside type value ((checks_settle element before).mp checks)

theorem complete_map {pairs : List (Expr × Expr)} {key value : Ty}
    (keys : ∀ pair ∈ pairs, Complete env pair.1) (values : ∀ pair ∈ pairs, Complete env pair.2)
    (typed : ∀ pair ∈ pairs, WellTyped env pair.2)
    (fits : ∀ pair ∈ pairs, pair.2.Fits value) :
    Complete env (.map (settleValues value pairs) (.map 0 key value)) := by
  rw [settleValues_eq_map]
  constructor
  · intro type single
    refine follows_map.mpr ⟨(List.cons.inj single).1, fun pair member => ?_⟩
    obtain ⟨before, within, rfl⟩ := List.mem_map.mp member
    obtain rfl := (List.cons.inj single).1
    exact ((values before within).settle (typed before within) (fits before within)).1
  · intro type checked checks
    obtain ⟨pair, member, checks⟩ := checks_map.mp checks
    obtain ⟨before, within, rfl⟩ := List.mem_map.mp member
    obtain checks | checks := checks
    · exact (keys before within).inside type checked checks
    · exact (values before within).inside type checked ((checks_settle value before.2).mp checks)

def SuitEach (types : List Ty) (values : List Expr) : Prop :=
  ∀ type value, (type, value) ∈ types.zip values → Suits type value

theorem complete_call {callee : String} {signature : Signature} {arguments : List Expr}
    {results : List Ty} (known : env.callee? callee = some ⟨signature, none⟩)
    (each : ∀ e ∈ arguments, Complete env e)
    (suit : SuitEach (signature.parameters.map (·.type)) arguments) :
    Complete env (.call callee arguments results) := by
  refine .of_plain rfl fun type value checks => ?_
  cases checks with
  | argument known' given =>
    rw [known] at known'
    cases known'
    exact suit type value given
  | inside member checks => exact (each _ member).inside type value checks

theorem complete_builtinCall {callee : String} {signature : Signature} {builtin : Builtin}
    {arguments : List Expr} {results : List Ty}
    (known : env.callee? callee = some ⟨signature, some builtin⟩)
    (each : ∀ e ∈ arguments, Complete env e) : Complete env (.call callee arguments results) := by
  refine .of_plain rfl fun type value checks => ?_
  cases checks with
  | argument known' =>
    rw [known] at known'
    cases known'
  | inside member checks => exact (each _ member).inside type value checks

end Expr

namespace Reading
open Token (Kind)

variable {s s' : Session} {env : Env}

/-- An operator on operands that are complete is complete. -/
theorem complete_combined {operator : String} {left right : Expr} {l r type : Ty}
    {pool pool' : Ty.Pool} (first : left.Complete env) (second : right.Complete env)
    (leftTyped : Typed env left) (rightTyped : Typed env right)
    (leftSingle : left.types = [l]) (rightSingle : right.types = [r]) (faithful : pool.Faithful)
    (rule : Typing.binary operator l r pool = .ok type pool') :
    (combined left operator right type).Complete env := by
  have leftProper := leftTyped.proper_of_types leftSingle
  have rightProper := rightTyped.proper_of_types rightSingle
  have plain (noContainer : type.isContainer = false) :
      (combined left operator right type).Complete env := by
    rw [combined, if_neg (by simp [noContainer])]
    refine Expr.complete_of_children ?_ (by simp) (by simp)
      (by simpa [Expr.children] using ⟨first, second⟩)
    rw [Expr.isComposite, noContainer, Bool.and_false]
  rcases binary_cases faithful leftProper rightProper rule with
    ⟨_, _, _, _, _, _, rfl⟩ | ⟨array, _, ⟨rfl, common⟩ | ⟨_, _, rfl⟩⟩
  · exact plain rfl
  · obtain ⟨leftFits, rightFits, _⟩ := common?_refines leftProper rightProper common
    have container := Expr.isContainer_of_isArray (Expr.isArray_of_refined leftFits array)
    rw [combined, if_pos container]
    obtain ⟨inLeft, first'⟩ := first.settle leftTyped.wellTyped ⟨l, leftSingle, leftFits⟩
    obtain ⟨inRight, second'⟩ := second.settle rightTyped.wellTyped ⟨r, rightSingle, rightFits⟩
    constructor
    · intro own single
      obtain rfl := (List.cons.inj single).1
      have joins : (Expr.binary (left.settle type) "+" (right.settle type) type).isComposite =
        true := container
      exact (Expr.follows_join joins).mpr ⟨rfl, inLeft, inRight⟩
    · intro wanted value checks
      obtain checks | checks := Expr.checks_binary.mp checks
      · exact first'.inside wanted value checks
      · exact second'.inside wanted value checks
  · exact plain rfl

/-- A value that is joined with a written type suits it when it is settled. -/
theorem suits_of_wanted {pool : Ty.Pool} {wanted own both : Ty} {e : Expr}
    (complete : e.Complete env) (typed : Typed env e) (single : e.types = [own])
    (faithful : pool.Faithful) (written : wanted.Written)
    (joined : (pool.join wanted own).1 = some both) :
    Expr.Suits wanted (e.settle both) ∧ (e.settle both).Complete env := by
  obtain ⟨fits, grows, _⟩ := fits_of_joined typed single faithful written.proper joined
  obtain rfl := grows.eq_of_settled written.settled
  obtain ⟨follows, complete⟩ := complete.settle typed.wellTyped fits
  exact ⟨.of_fits written.settled follows fits.settle, complete⟩

theorem complete_of_fitted {pool pool' : Ty.Pool} {wanted types : List Ty}
    {args settled : List Expr} (fitted : Fitted pool wanted (args.zip types) settled pool')
    (singles : Singles args types)
    (faithful : pool.Faithful) (written : ∀ type ∈ wanted, type.Written)
    (typed : ∀ e ∈ args, Typed env e)
    (each : ∀ e ∈ args, e.Complete env) :
    (∀ e ∈ settled, e.Complete env) ∧ Expr.SuitEach wanted settled := by
  induction wanted generalizing pool args types settled with
  | nil =>
    generalize args.zip types = values at fitted
    cases fitted
    exact ⟨by simp, by simp [Expr.SuitEach]⟩
  | cons type rest ih =>
    cases singles with
    | nil => cases fitted
    | @cons e own args types single singles =>
      cases fitted with
      | cons joined fitted =>
        have typeWritten := written type List.mem_cons_self
        have own := typed e List.mem_cons_self
        obtain ⟨suits, complete⟩ :=
          suits_of_wanted (each e List.mem_cons_self) own single faithful typeWritten joined
        have between := (Pool.join_eq faithful typeWritten.proper (own.proper_of_types single)).2
        obtain ⟨later, laterSuit⟩ := ih fitted singles between
          (fun type member => written type (List.mem_cons_of_mem _ member))
          (fun e member => typed e (List.mem_cons_of_mem _ member))
          (fun e member => each e (List.mem_cons_of_mem _ member))
        refine ⟨List.forall_mem_cons.mpr ⟨complete, later⟩, fun wanted value member => ?_⟩
        rw [List.zip_cons_cons] at member
        obtain same | member := List.mem_cons.mp member
        · cases same
          exact suits
        · exact laterSuit wanted value member

/-- An assigned value suits the type of the variable. -/
theorem complete_assigned {name operator : String} {binding : Binding} {value : Expr}
    {own both : Ty} {pool pool' : Ty.Pool} (written : binding.type.Written)
    (complete : value.Complete env) (typed : Typed env value) (single : value.types = [own])
    (faithful : pool.Faithful)
    (rule : Typing.assignment name operator binding.type own pool = .ok both pool') :
    (Expr.assign name operator (value.settle both) binding.type).Complete env := by
  have ownProper := typed.proper_of_types single
  obtain ⟨⟨given, gives, common⟩, _⟩ :=
    (steady_assignment written.proper ownProper).gives faithful rule
  have givenProper : given.Proper := by
    obtain ⟨_, run⟩ := gives
    exact ((steady_received written.proper ownProper).gives Pool.faithful_empty run).1
  obtain ⟨targetRefined, givenRefined, _⟩ := common?_refines written.proper givenProper common
  obtain rfl := targetRefined.eq_of_settled written.settled
  obtain ⟨suits, settled⟩ : Expr.Suits binding.type (value.settle binding.type) ∧
      (value.settle binding.type).Complete env := by
    rcases named_or_refined_of_received written.proper ownProper gives
      givenRefined with ⟨_, rfl⟩ | refined
    · rw [settle_of_settled single rfl]
      refine ⟨⟨written.settled, Expr.follows_of_plain (Bool.eq_false_iff.mpr fun composite => ?_),
        ?_⟩, complete⟩
      · cases Expr.isContainer_of_composite typed.wellTyped single composite
      · intro own single' container
        rw [single] at single'
        obtain rfl := (List.cons.inj single').1
        cases container
    · have fits : value.Fits binding.type := ⟨own, single, refined⟩
      obtain ⟨follows, settled⟩ := complete.settle typed.wellTyped fits
      exact ⟨.of_fits written.settled follows fits.settle, settled⟩
  refine .of_plain rfl fun type checked checks => ?_
  cases checks with
  | assigned => exact suits
  | inside member checks =>
    obtain rfl := List.mem_singleton.mp member
    exact settled.inside type checked checks

theorem Literal.isBaseLiteral {token : Token} {make : Ty → Expr} {name : String}
    (literal : Literal token make name) {type : Ty} : (make type).isBaseLiteral = true := by
  cases literal <;> rfl

/-- What is known of a phrase, once its expressions are known to be typed. -/
def Phrase.Complete (env : Env) : Phrase → Prop
  | .expr _ e | .operand _ e => e.Complete env
  | .rest _ left e => Reading.Typed env left → left.Complete env → e.Complete env
  | .elements _ before es _ => before.Proper → ∀ e ∈ es, e.Complete env
  | .entries _ before pairs _ => before.1.Proper → before.2.Proper →
      ∀ pair ∈ pairs, pair.1.Complete env ∧ pair.2.Complete env
  | .arguments _ es => ∀ e ∈ es, e.Complete env

namespace Situated
variable {es : List Expr} {type : Ty}

theorem complete_call {callee : String} {signature : Signature} {settled : List Expr}
    {types : List Ty} {pool : Pool} (situated : Situated env s)
    (known : env.callee? callee = some ⟨signature, none⟩) (written : signature.Written)
    (typed : ∀ e ∈ es, Typed env e) (each : ∀ e ∈ es, e.Complete env) (singles : Singles es types)
    (fitted : Fitted s.pool (signature.parameters.map (·.type)) (es.zip types) settled pool) :
    (Expr.call callee settled signature.results).Complete env := by
  obtain ⟨each, suit⟩ :=
    complete_of_fitted fitted singles situated.grounded.pool (written_parameters written) typed each
  exact Expr.complete_call known each suit

theorem complete_array (situated : Situated env s) (each : ∀ e ∈ es, Typed env e ∧ e.Fits type)
    (proper : type.Proper) (complete : ∀ e ∈ es, e.Complete env) :
    (Expr.array (Expr.settleAll type es) (s.pool.array type).1).Complete env := by
  rw [(Pool.array_eq situated.grounded.pool proper).1]
  exact Expr.complete_array complete (fun e member => (each e member).1.wellTyped) fun e member =>
    (each e member).2

theorem complete_map {pairs : List (Expr × Expr)} {key value : Ty} (situated : Situated env s)
    (keyProper : key.Proper) (valueProper : value.Proper)
    (each : ∀ pair ∈ pairs, pair.1.isBaseLiteral = true ∧ Typed env pair.1 ∧ Typed env pair.2 ∧
      pair.1.Fits key ∧ pair.2.Fits value)
    (complete : ∀ pair ∈ pairs, pair.1.Complete env ∧ pair.2.Complete env) :
    (Expr.map (Expr.settleValues value pairs) (s.pool.map key value).1).Complete env := by
  rw [(Pool.map_eq situated.grounded.pool keyProper valueProper).1]
  exact Expr.complete_map (fun pair member => (complete pair member).1)
    (fun pair member => (complete pair member).2)
    (fun pair member => (each pair member).2.2.1.wellTyped) fun pair member =>
    (each pair member).2.2.2.2

theorem complete_assigned {target operator : String} {value : Expr} {own both : Ty} {pool : Pool}
    (situated : Situated env s) (name : Typed env (.name target type))
    (complete : value.Complete env)
    (typed : Typed env value) (single : value.types = [own])
    (rule : Typing.assignment target operator type own s.pool = .ok both pool) :
    (Expr.assign target operator (value.settle both) type).Complete env := by
  cases name.wellTyped with
  | @name _ binding bound =>
    have known := bound
    rw [← situated.agrees.sees.bindings] at known
    exact Reading.complete_assigned (situated.grounded.scopes.binding known) complete typed single
      situated.grounded.pool rule

end Situated

theorem complete_unary {operator : String} {e : Expr} {type : Ty} (complete : e.Complete env) :
    (Expr.unary operator e type).Complete env :=
  Expr.complete_of_children rfl (by simp) (by simp) (List.forall_mem_singleton.mpr complete)

theorem complete_step {operator : String} {e : Expr} {type : Ty} (complete : e.Complete env) :
    (Expr.step e operator type).Complete env :=
  Expr.complete_of_children rfl (by simp) (by simp) (List.forall_mem_singleton.mpr complete)

theorem complete_index {target key : Expr} {type : Ty} (first : target.Complete env)
    (second : key.Complete env) :
    (Expr.index target key type).Complete env :=
  Expr.complete_of_children rfl (by simp) (by simp) (by simpa [Expr.children] using ⟨first, second⟩)

/-- Every expression that is read is complete. -/
theorem complete_of_reads {phrase : Phrase} (reads : Reads s phrase s')
    (situated : Situated env s) :
    phrase.Complete env := by
  induction reads with
  | expr _ operandReads _ operand rest =>
    obtain ⟨typed, between⟩ := typed_of_reads operandReads situated
    exact rest between typed (operand situated)
  | literal token => exact (Expr.complete_of_isBaseLiteral token.isBaseLiteral).2
  | name => exact Expr.complete_of_children rfl (by simp) (by simp) (fun _ member => nomatch member)
  | builtinCall _ _ known stage _ _ _ _ arguments =>
    exact Expr.complete_builtinCall (stage ▸ situated.callee known) (arguments situated.next.next)
  | call _ _ known stage argumentsRead _ singles _ fitted arguments =>
    obtain ⟨typed, between⟩ := typed_of_reads argumentsRead situated.next.next
    exact between.complete_call (stage ▸ situated.callee known)
      (situated.grounded.scopes.function known) typed
      (arguments situated.next.next) singles fitted
  | array _ elementsRead _ elements =>
    obtain ⟨each, _, proper, between⟩ := typed_of_reads elementsRead situated.next trivial
    exact between.complete_array each proper (elements situated.next trivial)
  | map _ entriesRead _ entries =>
    obtain ⟨each, _, _, keyProper, valueProper, between⟩ :=
      typed_of_reads entriesRead situated.next trivial trivial
    exact between.complete_map keyProper valueProper each (entries situated.next trivial trivial)
  | group _ _ _ inner => exact inner situated.next
  | unary _ _ _ _ operand => exact complete_unary (operand situated.next)
  | stop => exact fun _ complete => complete
  | binary _ _ operandReads leftSingle rightSingle rule _ operand rest =>
    intro typed first
    obtain ⟨rightTyped, between⟩ := typed_of_reads operandReads situated.next
    obtain ⟨bothTyped, after⟩ := between.combined typed rightTyped leftSingle rightSingle rule
    exact rest after bothTyped (complete_combined first (operand situated.next) typed rightTyped
      leftSingle rightSingle between.grounded.pool rule)
  | step _ _ single rule _ rest =>
    exact fun typed first => rest situated.next (typed_step typed single rule) (complete_step first)
  | assign _ _ _ valueReads single rule _ value rest =>
    intro typed _
    obtain ⟨valueTyped, between⟩ := typed_of_reads valueReads situated.next
    obtain ⟨assigned, after⟩ := between.assigned typed valueTyped single rule
    exact rest after assigned (between.complete_assigned typed (value situated.next)
      valueTyped single rule)
  | index _ _ _ innerReads _ leftSingle keySingle rule _ inner rest =>
    intro typed first
    obtain ⟨keyTyped, between⟩ := typed_of_reads innerReads situated.next
    obtain ⟨indexed, after⟩ := between.index typed keyTyped leftSingle keySingle rule
    exact rest after indexed (complete_index first (inner situated.next))
  | noElements | noEntries => simp [Phrase.Complete]
  | noArguments => simp [Phrase.Complete]
  | element _ separated valueReads single joined _ value rest =>
    intro proper
    have start := situated.separated separated
    obtain ⟨typed, between⟩ := typed_of_reads valueReads start
    obtain ⟨_, _, bothProper, after⟩ := between.joining typed single proper joined
    exact List.forall_mem_cons.mpr ⟨value start, rest after bothProper⟩
  | entry _ separated keyReads _ _ valueReads keySingle keyJoined valueSingle valueJoined _
    key value rest =>
    intro keysProper valuesProper
    have start := situated.separated separated
    obtain ⟨keyTyped, between⟩ := typed_of_reads keyReads start
    obtain ⟨valueTyped, between'⟩ := typed_of_reads valueReads between.next
    obtain ⟨_, _, keyProper, after⟩ := between'.joining keyTyped keySingle keysProper keyJoined
    obtain ⟨_, _, valueProper, after'⟩ :=
      after.joining valueTyped valueSingle valuesProper valueJoined
    exact List.forall_mem_cons.mpr ⟨⟨key start, value between.next⟩,
      rest after' keyProper valueProper⟩
  | argument _ separated valueReads _ value rest =>
    have start := situated.separated separated
    obtain ⟨_, between⟩ := typed_of_reads valueReads start
    exact List.forall_mem_cons.mpr ⟨value start, rest between⟩

end Reading

end ColonScript
