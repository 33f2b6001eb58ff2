import ColonScript.Proofs.Completion
import ColonScript.Proofs.Unknowns

/-! Adding to a container. The container comes back with the type it was given: what is not known of
its parts is filled in for the comparison with the added ones only, and stays unknown behind it. So
the result excludes what the added parts exclude exactly as far as the type of the container knows
it already. -/

namespace ColonScript
open Ty Typing

namespace Ty
variable {gen : Nat} {container type : Ty} {parts : List Ty}

def Holds : Ty → List Ty → Prop
  | array _ element, [ty] => element.compatible ty = true
  | map _ key value, [k, v] => key.compatible k = true ∧ value.compatible v = true
  | _, _ => False

def Knows : Ty → List Ty → Prop
  | array _ element, [ty] => RefinedBy ty element
  | map _ key value, [k, v] => RefinedBy k key ∧ RefinedBy v value
  | _, _ => False

/-- Every type that the pool unifies with that of the container can hold such parts. -/
def Fixes (gen : Nat) (pool : Pool) (container : Ty) (parts : List Ty) : Prop :=
  ∀ other, Whole gen other → (pool.join other container).1.isSome = true → other.Holds parts

theorem RefinedBy.of_compatible {a b : Ty} (settled : a.settled = true) (left : a.Legible gen)
    (right : b.Legible gen) (compatible : a.compatible b = true) : RefinedBy b a := by
  obtain ⟨c, _, least⟩ := exists_least left right compatible
  obtain rfl := least.left.eq_of_settled settled
  exact least.right

theorem knows_of_settled (settled : container.settled = true) (legible : container.Legible gen)
    (each : ∀ ty ∈ parts, ty.Legible gen) (holds : container.Holds parts) :
    container.Knows parts := by
  unfold Holds at holds
  split at holds
  next => exact .of_compatible settled legible.2 (each _ List.mem_cons_self) holds
  next =>
    rw [Ty.settled, Bool.and_eq_true] at settled
    exact ⟨.of_compatible settled.1 legible.2.1 (each _ (by simp)) holds.1,
      .of_compatible settled.2 legible.2.2 (each _ (by simp)) holds.2⟩
  next => exact holds.elim

/-- A type that refines what knows the parts can hold them. -/
theorem holds_of_knows (knows : container.Knows parts) (refined : RefinedBy container type) :
    type.Holds parts := by
  unfold Knows at knows
  split at knows
  next =>
    cases refined with
    | array inner => exact (RefinedBy.refl _).compatible (knows.trans inner)
  next =>
    cases refined with
    | map keys values =>
      exact ⟨(RefinedBy.refl _).compatible (knows.1.trans keys),
        (RefinedBy.refl _).compatible (knows.2.trans values)⟩
  next => exact knows.elim

/-- What a part does not know something can be that an added part excludes. -/
theorem exists_excluding {part ty : Ty} (left : part.Legible gen) (right : ty.Legible gen)
    (fits : part.compatible ty = true) (less : ¬ RefinedBy ty part) :
    ∃ other : Ty, other.Legible gen ∧ other.compatible part = true ∧
      other.compatible ty = false := by
  have plain : PlainName "int" := plainName_of_baseNames (by decide)
  induction ty generalizing part with
  | unknown => exact absurd .unknown less
  | base own name =>
    cases part with
    | unknown => exact ⟨.array gen .unknown, ⟨rfl, trivial⟩, rfl, rfl⟩
    | base own' name' =>
      obtain ⟨rfl, _⟩ := left
      obtain ⟨rfl, _⟩ := right
      obtain rfl : name' = name := by simpa [compatible] using fits
      exact absurd .base less
    | _ => cases fits
  | array own inner ih =>
    cases part with
    | unknown => exact ⟨.base gen "int", ⟨rfl, plain⟩, rfl, rfl⟩
    | array own' inner' =>
      obtain ⟨rfl, left⟩ := left
      obtain ⟨rfl, right⟩ := right
      obtain ⟨other, legible, fits', excludes⟩ := ih left right fits fun refined =>
        less (.array refined)
      exact ⟨.array _ other, ⟨rfl, legible⟩, fits', excludes⟩
    | _ => cases fits
  | map own k v keyIh valueIh =>
    cases part with
    | unknown => exact ⟨.base gen "int", ⟨rfl, plain⟩, rfl, rfl⟩
    | map own' key value =>
      obtain ⟨rfl, keyLegible, valueLegible⟩ := left
      obtain ⟨rfl, keyRight, valueRight⟩ := right
      rw [compatible, Bool.and_eq_true] at fits
      by_cases keys : RefinedBy k key
      · obtain ⟨other, legible, fits', excludes⟩ := valueIh valueLegible valueRight fits.2
          fun values => less (.map keys values)
        refine ⟨.map _ key other, ⟨rfl, keyLegible, legible⟩, ?_, ?_⟩
        · rw [compatible, compatible_self, fits', Bool.and_self]
        · rw [compatible, excludes, Bool.and_false]
      · obtain ⟨other, legible, fits', excludes⟩ := keyIh keyLegible keyRight fits.1 keys
        refine ⟨.map _ other value, ⟨rfl, legible, valueLegible⟩, ?_, ?_⟩
        · rw [compatible, compatible_self, fits', Bool.and_self]
        · rw [compatible, excludes, Bool.false_and]
    | _ => cases fits

theorem isSome_join {pool : Pool} {a b : Ty} (legible : pool.Legible gen) (left : a.Legible gen)
    (right : b.Legible gen) :
    (pool.join a b).1.isSome = a.compatible b :=
  (Pool.join_legible legible left right).1.isSome

theorem fixes_iff_knows {pool : Pool} (legible : pool.Legible gen) (own : container.Legible gen)
    (each : ∀ ty ∈ parts, ty.Legible gen) (holds : container.Holds parts) :
    Fixes gen pool container parts ↔ container.Knows parts := by
  constructor
  · intro fixes
    have excluded (other : Ty) (whole : Whole gen other)
      (fits : other.compatible container = true) : other.Holds parts :=
      fixes other whole ((isSome_join legible whole.legible own).trans fits)
    unfold Holds at holds
    split at holds
    next made element ty =>
      obtain ⟨rfl, element⟩ := own
      -- A type that the container admits and what was added excludes shows that it is not fixed.
      by_contra less
      obtain ⟨other, inner, fits, excludes⟩ :=
        exists_excluding element (each _ List.mem_cons_self) holds less
      have held : other.compatible ty = true :=
        excluded (.array made other) ⟨⟨rfl, inner⟩, by simp⟩ fits
      rw [excludes] at held
      cases held
    next made key value k v =>
      obtain ⟨rfl, keyLegible, valueLegible⟩ := own
      obtain ⟨keyFits, valueFits⟩ := holds
      constructor
      · by_contra less
        obtain ⟨other, inner, fits, excludes⟩ :=
          exists_excluding keyLegible (each _ (by simp)) keyFits less
        have held : other.compatible k = true ∧ value.compatible v = true :=
          excluded (.map made other value) ⟨⟨rfl, inner, valueLegible⟩, by simp⟩
            (by rw [compatible, fits, compatible_self, Bool.and_self])
        rw [excludes] at held
        cases held.1
      · by_contra less
        obtain ⟨other, inner, fits, excludes⟩ :=
          exists_excluding valueLegible (each v (by simp)) valueFits less
        have held : key.compatible k = true ∧ other.compatible v = true :=
          excluded (.map made key other) ⟨⟨rfl, keyLegible, inner⟩, by simp⟩
            (by rw [compatible, fits, compatible_self, Bool.and_self])
        rw [excludes] at held
        cases held.2
    next => exact holds.elim
  · intro knows other whole unifies
    rw [isSome_join legible whole.legible own] at unifies
    unfold Knows at knows
    split at knows
    next =>
      cases other with
      | unknown => exact absurd rfl whole.known
      | array => exact compatible_of_refined (.refl _) knows unifies
      | _ => cases unifies
    next =>
      cases other with
      | unknown => exact absurd rfl whole.known
      | map =>
        rw [compatible, Bool.and_eq_true] at unifies
        exact ⟨compatible_of_refined (.refl _) knows.1 unifies.1,
          compatible_of_refined (.refl _) knows.2 unifies.2⟩
      | _ => cases unifies
    next => exact knows.elim

end Ty

/-! The rules. -/

namespace Builtin
variable {gen : Nat} {container : Ty} {parts results : List Ty}

theorem yields_push (yields : Yields gen .push (container :: parts) results) :
    results = [container] ∧ container.Holds parts := by
  cases yields with
  | push fits => exact ⟨rfl, fits⟩
  | pushPair keyFits valueFits => exact ⟨rfl, keyFits, valueFits⟩
  | ofOne listed => cases listed
  | scan reads => simp at reads

theorem yields_insert {index ty : Ty} (yields : Yields gen .insert [container, index, ty] results) :
    results = [container] ∧ container.Holds [ty] := by
  cases yields with
  | insert fits => exact ⟨rfl, fits⟩
  | scan reads => simp at reads

end Builtin

structure Adds (gen : Nat) (pool : Pool) (container : Ty) (parts results : List Ty) : Prop where
  result : results = [container]
  holds : container.Holds parts
  fixes : Fixes gen pool container parts ↔ container.Knows parts
  settled : container.settled = true → container.Knows parts

/-- Elements that are added to containers in the first pool, and types that are unified with the
result in the second. -/
structure AddsElements (gen : Nat) (pool pool' : Pool) : Prop where
  push : ∀ container parts results after, Whole gen container → (∀ ty ∈ parts, Whole gen ty) →
    Builtin.push.results (container :: parts) pool = .ok results after →
    Adds gen pool' container parts results
  insert : ∀ container index element results after, Whole gen container → Whole gen index →
    Whole gen element →
    Builtin.insert.results [container, index, element] pool = .ok results after →
    Adds gen pool' container [element] results

theorem Adds.of_holds {gen : Nat} {pool : Pool} {container : Ty} {parts results : List Ty}
    (legible : pool.Legible gen) (own : Whole gen container) (each : ∀ ty ∈ parts, Whole gen ty)
    (result : results = [container])
    (holds : container.Holds parts) : Adds gen pool container parts results :=
  ⟨result, holds, fixes_iff_knows legible own.legible
    (fun ty member => (each ty member).legible) holds, fun settled =>
    knows_of_settled settled own.legible (fun ty member => (each ty member).legible) holds⟩

theorem addsElements_of_legible {gen : Nat} {pool pool' : Pool} (legible : pool.Legible gen)
    (legible' : pool'.Legible gen) : AddsElements gen pool pool' := by
  constructor
  case push =>
    intro container parts results after own each run
    have args : Builtin.AllLegible gen (container :: parts) :=
      List.forall_mem_cons.mpr ⟨own.legible, fun ty member => (each ty member).legible⟩
    obtain ⟨result, holds⟩ := Builtin.yields_push (Builtin.only_results .push args legible run).1
    exact .of_holds legible' own each result holds
  case insert =>
    intro container index element results after own at' each run
    have args : Builtin.AllLegible gen [container, index, element] := by
      simpa [Builtin.AllLegible] using ⟨own.legible, at'.legible, each.legible⟩
    obtain ⟨result, holds⟩ :=
      Builtin.yields_insert (Builtin.only_results .insert args legible run).1
    exact .of_holds legible' own (List.forall_mem_singleton.mpr each) result holds

/-! Scripts. -/

namespace Expr
variable {env : Env} {e value : Expr} {type : Ty}

theorem WellTyped.of_child (typed : WellTyped env e) {child : Expr} (member : child ∈ e.children) :
    WellTyped env child := by
  cases typed with
  | name | integer | float | bool | string | char => cases member
  | array each => exact each child member
  | map _ keys values =>
    obtain ⟨pair, within, member⟩ := List.mem_flatMap.mp member
    rcases List.mem_cons.mp member with rfl | member
    · exact keys pair within
    · obtain rfl := List.mem_singleton.mp member
      exact values pair within
  | unary inner | step inner | assign _ inner =>
    obtain rfl := List.mem_singleton.mp member
    exact inner
  | binary first second | concat first second | compare _ first second | index first second =>
    rcases List.mem_cons.mp member with rfl | member
    · exact first
    · obtain rfl := List.mem_singleton.mp member
      exact second
  | builtinCall _ each | call _ each => exact each child member

theorem mem_children_of_zip {callee : String} {arguments : List Expr} {results types : List Ty}
    (given : (type, value) ∈ types.zip arguments) :
    value ∈ (Expr.call callee arguments results).children :=
  (List.of_mem_zip given).2

/-- A value that is checked in a well-typed expression is well typed. -/
theorem Checks.wellTyped (checks : Checks env e type value) (typed : WellTyped env e) :
    WellTyped env value := by
  induction checks with
  | assigned => exact typed.of_child (List.mem_singleton.mpr rfl)
  | argument _ given => exact typed.of_child (mem_children_of_zip given)
  | inside member _ ih => exact ih (typed.of_child member)

inductive AddsTo (env : Env) (container : Ty) (parts : List Ty) : Expr → Prop where
  | push {callee : String} {signature : Signature} {arguments : List Expr} {results : List Ty}
      (known : env.callee? callee = some ⟨signature, some .push⟩)
      (singles : List.Forall₂ (fun e type => e.types = [type]) arguments (container :: parts)) :
      AddsTo env container parts (.call callee arguments results)
  | insert {callee : String} {signature : Signature} {arguments : List Expr}
      {results : List Ty} {index : Ty} (known : env.callee? callee = some ⟨signature, some .insert⟩)
      (singles : List.Forall₂ (fun e type => e.types = [type]) arguments
        (container :: index :: parts)) :
      AddsTo env container parts (.call callee arguments results)

theorem singles_unique {arguments : List Expr} {types types' : List Ty}
    (first : List.Forall₂ (fun e type => e.types = [type]) arguments types)
    (second : List.Forall₂ (fun e type => e.types = [type]) arguments types') : types = types' := by
  refine List.right_unique_forall₂' (fun e a b single single' => ?_) first second
  rw [single] at single'
  exact (List.cons.inj single').1

theorem results_of_push {container : Ty} {parts results : List Ty} {pool after : Pool}
    (run : Builtin.push.results (container :: parts) pool = .ok results after) :
    results = [container] := by
  change Builtin.push.pushResults (container :: parts) pool = _ at run
  generalize given : container :: parts = args at run
  unfold Builtin.pushResults at run
  split at run
  next =>
    cases given
    obtain ⟨_, _, _, run⟩ := ok_of_bind run
    cases run
    rfl
  next =>
    cases given
    obtain ⟨_, _, _, run⟩ := ok_of_bind run
    obtain ⟨_, _, _, run⟩ := ok_of_bind run
    cases run
    rfl
  all_goals cases run

theorem results_of_insert {container : Ty} {rest results : List Ty} {pool after : Pool}
    (run : Builtin.insert.results (container :: rest) pool = .ok results after) :
    results = [container] := by
  change Builtin.insert.insertResults (container :: rest) pool = _ at run
  generalize given : container :: rest = args at run
  unfold Builtin.insertResults at run
  split at run
  next =>
    cases given
    obtain ⟨_, _, _, run⟩ := ok_of_bind run
    obtain ⟨_, _, _, run⟩ := ok_of_bind run
    cases run
    rfl
  all_goals cases run

/-- What adds to a container has the type of the container. -/
theorem types_of_addsTo {container : Ty} {parts : List Ty} (adds : AddsTo env container parts e)
    (typed : WellTyped env e) :
    e.types = [container] := by
  cases adds with
  | push known singles =>
    cases typed with
    | builtinCall known' _ singles' rule =>
      rw [known] at known'
      cases known'
      obtain ⟨_, run⟩ := rule
      rw [singles_unique singles' singles] at run
      exact results_of_push run
    | call known' =>
      rw [known] at known'
      cases known'
  | insert known singles =>
    cases typed with
    | builtinCall known' _ singles' rule =>
      rw [known] at known'
      cases known'
      obtain ⟨_, run⟩ := rule
      rw [singles_unique singles' singles] at run
      exact results_of_insert run
    | call known' =>
      rw [known] at known'
      cases known'

end Expr

namespace Point
variable {env : Env} {point : Point} {type : Ty} {value : Expr}

theorem WellTyped.of_expr (typed : point.WellTyped env) {e : Expr} (member : e ∈ point.exprs) :
    e.WellTyped env := by
  cases typed with
  | values _ typed _ | returning _ typed _ => exact typed e member
  | continuing | breaking => cases member
  | expression _ typed | results _ typed | condition typed | startAssignment typed
  | loopCondition typed
  | updateStep typed | updateAssign typed =>
    obtain rfl := List.mem_singleton.mp member
    exact typed
  | declaration typed | startDeclaration typed =>
    obtain rfl := List.mem_singleton.mp member
    exact typed.typed

theorem mem_exprs_of_wants (wants : point.Wants env type value) : value ∈ point.exprs := by
  cases wants with
  | declared | started => exact List.mem_singleton.mpr rfl
  | positional _ given | returned _ given => exact (List.of_mem_zip given).2

theorem Checks.wellTyped (checks : point.Checks env type value) (typed : point.WellTyped env) :
    value.WellTyped env := by
  cases checks with
  | here wants => exact typed.of_expr (mem_exprs_of_wants wants)
  | inside member checks => exact checks.wellTyped (typed.of_expr member)

/-- What parts are added to and then checked against a type has the type of the container, which can
become that type, so that it can hold the parts if the type of the container knew them. -/
def KeepsContainers (env : Env) (point : Point) : Prop :=
  ∀ type value container parts, point.Checks env type value → value.AddsTo env container parts →
    container.Knows parts →
    value.types = [container] ∧ RefinedBy container type ∧ type.Holds parts

theorem isContainer_of_knows {container : Ty} {parts : List Ty} (knows : container.Knows parts) :
    container.isContainer = true := by
  cases container with
  | array | map => rfl
  | _ => exact False.elim knows

theorem Complete.keepsContainers (complete : point.Complete env) (typed : point.WellTyped env) :
    point.KeepsContainers env := by
  intro type value container parts checks adds knows
  have types := Expr.types_of_addsTo adds (checks.wellTyped typed)
  have refined := (complete type value checks).refined container types (isContainer_of_knows knows)
  exact ⟨types, refined, holds_of_knows knows refined⟩

end Point

/-! Both together. -/

/-- The rules in the pools of any two runs, and every point of an accepted script. -/
theorem addsElements_of_run_and_accepted {returned returned' : List Node} {memory memory' : Memory}
    (run : Memory.Run returned memory) (run' : Memory.Run returned' memory') (gen : Nat)
    {source file : String}
    {testing : Bool} {p : Program} (accepted : Program.ofSource source file testing = .ok p) :
    AddsElements gen (memory.pool gen) (memory'.pool gen) ∧ p.Everywhere fun env point =>
      point.KeepsContainers env := by
  refine ⟨addsElements_of_legible (run.canonical.1.legible_pool gen)
    (run'.canonical.1.legible_pool gen), ?_⟩
  have complete := Program.everywhere_of_ofSource Reading.pointwise_complete accepted
  exact Program.everywhere_of (fun _ _ complete typed => complete.keepsContainers typed) complete
    (Program.wellTyped_of_accepted accepted)

/-- An integer that is pushed to an array of integers. -/
theorem addsElements_of_run_and_accepted_integer :
    let start := (Memory.mk 0 []).reset
    let int := start.base "int"
    ∃ p, Program.ofSource "var a: int[] = push([1], 2);" "" true = .ok p ∧
      AddsElements 0 (start.pool 0) (int.2.pool 0) ∧ p.Everywhere fun env point =>
      point.KeepsContainers env := by
  intro start int
  have first : Memory.Run [int.1] int.2 :=
    .step (.reset ⟨0, []⟩) (show Memory.Operation.Allowed [] (.base "int") from
      plainName_of_baseNames (by decide))
  have read : (Program.ofSource "var a: int[] = push([1], 2);" "" true).toBool = true := by
    decide +kernel
  obtain ⟨p, accepted⟩ := Program.exists_ok_of_toBool read
  exact ⟨p, accepted, addsElements_of_run_and_accepted (.reset ⟨0, []⟩) first 0 accepted⟩

/-- The result of pushing an integer to an empty array unifies with arrays of strings, and can be
declared as one. -/
theorem push_empty_unifies_with_strings :
    let strings := Ty.array 0 (named "string")
    let nothing := Ty.array 0 .unknown
    Builtin.push.results [nothing, named "int"] .empty = .ok [nothing] .empty ∧
      (Pool.empty.join strings nothing).1 = some strings ∧ ¬ strings.Holds [named "int"] ∧
      (Program.ofSource "var a: string[] = push([], 1);" "" true).toBool = true := by
  intro strings nothing
  refine ⟨rfl, by decide +kernel, ?_, by decide +kernel⟩
  simp [strings, Ty.Holds, Ty.compatible, named]

end ColonScript
