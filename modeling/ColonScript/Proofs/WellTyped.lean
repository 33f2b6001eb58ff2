import ColonScript.Proofs.Environment
import ColonScript.Proofs.Rules
import ColonScript.Proofs.Settling

/-! The type system of the finished tree, rule by rule, in the environment of a point. It looks at
the recorded types only and knows nothing of the order in which they were found. Settling an
expression to a type that it fits keeps it well typed: this is why the types that are overwritten
after a check still obey the rules. -/

namespace ColonScript
open Ty Typing

namespace Expr

/-- The expression has one type, and the given one is that type with unknown parts filled in. -/
def Fits (e : Expr) (type : Ty) : Prop := ∃ own, e.types = [own] ∧ RefinedBy own type

/-- Every node has the type that its rule gives for the types its children are recorded with. -/
inductive WellTyped (env : Env) : Expr → Prop where
  | name {own : String} {binding : Binding} (bound : env.binding? own = some binding) :
      WellTyped env (.name own binding.type)
  | integer {value : Int} : WellTyped env (.integer value (named "int"))
  | float {value : Decimal.Binary64} : WellTyped env (.float value (named "float"))
  | bool {value : Bool} : WellTyped env (.bool value (named "bool"))
  | string {value : String} : WellTyped env (.string value (named "string"))
  | char {value : String} : WellTyped env (.char value (named "char"))
  | array {elements : List Expr} {element : Ty} (each : ∀ e ∈ elements, WellTyped env e)
      (fits : ∀ e ∈ elements, e.Fits element) : WellTyped env (.array elements (.array 0 element))
  | map {pairs : List (Expr × Expr)} {key value : Ty}
      (literal : ∀ pair ∈ pairs, pair.1.isBaseLiteral = true)
      (keys : ∀ pair ∈ pairs, WellTyped env pair.1) (values : ∀ pair ∈ pairs, WellTyped env pair.2)
      (keysFit : ∀ pair ∈ pairs, pair.1.Fits key) (valuesFit : ∀ pair ∈ pairs, pair.2.Fits value) :
      WellTyped env (.map pairs (.map 0 key value))
  | unary {operator : String} {operand : Expr} {own type : Ty} (inner : WellTyped env operand)
      (single : operand.types = [own]) (rule : Typing.unary operator own = .ok type) :
      WellTyped env (.unary operator operand type)
  | binary {operator l r : String} {left right : Expr} {type : Ty} (first : WellTyped env left)
      (second : WellTyped env right) (leftSingle : left.types = [named l])
      (rightSingle : right.types = [named r])
      (rule : Gives (Typing.binary operator (named l) (named r)) type) :
      WellTyped env (.binary left operator right type)
  | concat {left right : Expr} {l r type : Ty} (first : WellTyped env left)
      (second : WellTyped env right)
      (leftSingle : left.types = [l]) (rightSingle : right.types = [r])
      (arrays : l.isArray = true ∧ r.isArray = true)
      (leftFits : RefinedBy l type) (rightFits : RefinedBy r type) :
      WellTyped env (.binary left "+" right type)
  | compare {operator : String} {left right : Expr} {l r : Ty} (compares : operator ∈ equality)
      (first : WellTyped env left) (second : WellTyped env right) (leftSingle : left.types = [l])
      (rightSingle : right.types = [r]) (arrays : l.isArray = true ∧ r.isArray = true)
      (compatible : l.compatible r = true) :
      WellTyped env (.binary left operator right (named "bool"))
  | step {operator : String} {operand : Expr} {own type : Ty} (inner : WellTyped env operand)
      (single : operand.types = [own]) (rule : Typing.step operator own = .ok type) :
      WellTyped env (.step operand operator type)
  | assign {target operator : String} {binding : Binding} {value : Expr} {own given : Ty}
      (bound : env.binding? target = some binding) (inner : WellTyped env value)
      (single : value.types = [own])
      (rule : Gives (received operator binding.type own) given)
      (fits : RefinedBy given binding.type) :
      WellTyped env (.assign target operator value binding.type)
  | builtinCall {callee : String} {signature : Signature} {builtin : Builtin}
      {arguments : List Expr}
      {types results : List Ty} (known : env.callee? callee = some ⟨signature, some builtin⟩)
      (each : ∀ e ∈ arguments, WellTyped env e)
      (singles : List.Forall₂ (fun e type => e.types = [type]) arguments types)
      (rule : Gives (builtin.results types) results) :
      WellTyped env (.call callee arguments results)
  | call {callee : String} {signature : Signature} {arguments : List Expr}
      (known : env.callee? callee = some ⟨signature, none⟩)
      (each : ∀ e ∈ arguments, WellTyped env e)
      (fits : List.Forall₂ Fits arguments (signature.parameters.map (·.type))) :
      WellTyped env (.call callee arguments signature.results)
  | index {target key : Expr} {own keyType type : Ty} (first : WellTyped env target)
      (second : WellTyped env key)
      (single : target.types = [own]) (keySingle : key.types = [keyType])
      (rule : Gives (Typing.index own keyType) type) : WellTyped env (.index target key type)

/-! Settling. -/

/-- A settled expression keeps its type or takes over the one it is settled to. -/
theorem types_settle (type : Ty) (e : Expr) :
    (e.settle type).types = e.types ∨ (e.settle type).types = [type] := by
  cases e with
  | array elements own =>
    unfold settle
    split
    · exact .inl rfl
    · split <;> exact .inr rfl
  | map pairs own =>
    unfold settle
    split
    · exact .inl rfl
    · split <;> exact .inr rfl
  | binary left operator right own =>
    unfold settle
    split
    · exact .inl rfl
    · exact .inr rfl
  | _ => exact .inl rfl

theorem fits_of_types {e : Expr} {own : Ty} (single : e.types = [own]) : e.Fits own :=
  ⟨own, single, .refl own⟩

theorem Fits.trans {e : Expr} {a b : Ty} (fits : e.Fits a) (refined : RefinedBy a b) :
    e.Fits b := by
  obtain ⟨own, single, first⟩ := fits
  exact ⟨own, single, first.trans refined⟩

/-- The type of a settled expression lies between its own and the one it is settled to. -/
theorem between_of_settle {e : Expr} {own type : Ty} (single : e.types = [own])
    (refined : RefinedBy own type) :
    ∃ own', (e.settle type).types = [own'] ∧ RefinedBy own own' ∧ RefinedBy own' type := by
  rcases types_settle type e with same | new
  · exact ⟨own, same.trans single, .refl own, refined⟩
  · exact ⟨type, new, refined, .refl type⟩

theorem Fits.settle {e : Expr} {type : Ty} (fits : e.Fits type) : (e.settle type).Fits type := by
  obtain ⟨own, single, refined⟩ := fits
  obtain ⟨own', single', _, refined'⟩ := between_of_settle single refined
  exact ⟨own', single', refined'⟩

/-- The result of an operator on bases is a base. -/
theorem exists_named_of_gives_binary {operator l r : String} {type : Ty}
    (rule : Gives (Typing.binary operator (named l) (named r)) type) :
    ∃ name, type = named name := by
  obtain ⟨pool, run⟩ := rule
  cases result : baseBinary? operator l r with
  | none =>
    simp only [Typing.binary, named, result] at run
    cases run
  | some made =>
    simp only [Typing.binary, named, result] at run
    cases run
    exact ⟨made, rfl⟩

theorem isArray_of_refined {a b : Ty} (refined : RefinedBy a b) (array : a.isArray = true) :
    b.isArray = true := by
  cases refined with
  | array => rfl
  | _ => cases array

/-! What a container settles to: itself, where its elements or values are known or stay unknown, or
the same with elements, values or operands settled. -/

theorem settle_array_of_refined (elements : List Expr) {element element' : Ty}
    (inner : RefinedBy element element') :
    element' = element ∧
        (array elements (.array 0 element)).settle (.array 0 element') = array elements
        (.array 0 element) ∨
      (array elements (.array 0 element)).settle (.array 0 element') =
        array (elements.map (settle element')) (.array 0 element') := by
  by_cases unknown : element' = .unknown
  · subst unknown
    cases inner
    rw [settle, ite_self]
    exact .inl ⟨rfl, rfl⟩
  · rw [settle]
    · split
      next settled => exact .inl ⟨(inner.eq_of_settled settled).symm, rfl⟩
      next =>
        rw [settleAll_eq_map]
        exact .inr rfl
    · exact unknown

theorem settle_map_of_refined (pairs : List (Expr × Expr)) {key value key' value' : Ty}
    (keys : RefinedBy key key') (values : RefinedBy value value') :
    value' = value ∧ (map pairs (.map 0 key value)).settle (.map 0 key' value') = map pairs
      (.map 0 key' value) ∨ (map pairs (.map 0 key value)).settle (.map 0 key' value') =
        map (pairs.map fun pair => (pair.1, pair.2.settle value')) (.map 0 key' value') := by
  by_cases unknown : value' = .unknown
  · subst unknown
    cases values
    rw [settle, if_neg (by simp [Ty.settled])]
    exact .inl ⟨rfl, rfl⟩
  · rw [settle]
    · split
      next settled =>
        obtain ⟨_, rfl, rfl⟩ := Ty.map.inj ((RefinedBy.map keys values).eq_of_settled settled)
        exact .inl ⟨rfl, rfl⟩
      next =>
        rw [settleValues_eq_map]
        exact .inr rfl
    · exact unknown

theorem settle_binary_of_refined (left : Expr) (operator : String) (right : Expr) {own type : Ty}
    (refined : RefinedBy own type) :
    type = own ∧ (binary left operator right own).settle type = binary left operator right own ∨
      (binary left operator right own).settle type = binary (left.settle type) operator
      (right.settle type) type := by
  rw [settle]
  split
  next settled => exact .inl ⟨(refined.eq_of_settled settled).symm, rfl⟩
  next => exact .inr rfl

theorem WellTyped.array_settled {env : Env} {elements : List Expr} {element : Ty}
    (each : ∀ e ∈ elements, WellTyped env (e.settle element))
    (fits : ∀ e ∈ elements, e.Fits element) :
    WellTyped env (.array (elements.map (Expr.settle element)) (.array 0 element)) :=
  .array (List.forall_mem_map.mpr each) (List.forall_mem_map.mpr fun e member =>
    (fits e member).settle)

theorem WellTyped.map_settled {env : Env} {pairs : List (Expr × Expr)} {key value : Ty}
    (literal : ∀ pair ∈ pairs, pair.1.isBaseLiteral = true)
    (keys : ∀ pair ∈ pairs, WellTyped env pair.1)
    (values : ∀ pair ∈ pairs, WellTyped env (pair.2.settle value))
    (keysFit : ∀ pair ∈ pairs, pair.1.Fits key)
    (valuesFit : ∀ pair ∈ pairs, pair.2.Fits value) :
    WellTyped env (.map (pairs.map fun pair => (pair.1, pair.2.settle value)) (.map 0 key value)) :=
  .map (List.forall_mem_map.mpr literal) (List.forall_mem_map.mpr keys)
    (List.forall_mem_map.mpr values)
    (List.forall_mem_map.mpr keysFit) (List.forall_mem_map.mpr fun pair member =>
      (valuesFit pair member).settle)

theorem WellTyped.settle {env : Env} {e : Expr} {type : Ty} (typed : WellTyped env e)
    (fits : e.Fits type) :
    WellTyped env (e.settle type) := by
  induction typed generalizing type with
  | @array elements element each fit ih =>
    obtain ⟨_, single, refined⟩ := fits
    obtain rfl := (List.cons.inj single).1
    cases refined with
    | array inner =>
      obtain ⟨rfl, same⟩ | same := settle_array_of_refined elements inner <;> rw [same]
      · exact .array each fit
      · have fit' := fun e member => (fit e member).trans inner
        exact .array_settled (fun e member => ih e member (fit' e member)) fit'
  | @map pairs key value literal keys values keysFit valuesFit _ ih =>
    obtain ⟨_, single, refined⟩ := fits
    obtain rfl := (List.cons.inj single).1
    cases refined with
    | map keyRefined valueRefined =>
      have keysFit' := fun pair member => (keysFit pair member).trans keyRefined
      obtain ⟨rfl, same⟩ | same := settle_map_of_refined pairs keyRefined valueRefined <;> rw [same]
      · exact .map literal keys values keysFit' valuesFit
      · have valuesFit' := fun pair member => (valuesFit pair member).trans valueRefined
        exact .map_settled literal keys (fun pair member => ih pair member (valuesFit' pair member))
          keysFit' valuesFit'
  | @binary operator l r left right own first second leftSingle rightSingle rule leftIh rightIh =>
    obtain ⟨_, rfl⟩ := exists_named_of_gives_binary rule
    unfold Expr.settle
    rw [if_pos (by rfl)]
    exact .binary first second leftSingle rightSingle rule
  | @concat left right l r own first second leftSingle rightSingle arrays leftFits rightFits
    leftIh rightIh =>
    obtain ⟨_, single, refined⟩ := fits
    obtain rfl := (List.cons.inj single).1
    obtain ⟨rfl, same⟩ | same := settle_binary_of_refined left "+" right refined <;> rw [same]
    · exact .concat first second leftSingle rightSingle arrays leftFits rightFits
    · have leftFits' := leftFits.trans refined
      have rightFits' := rightFits.trans refined
      obtain ⟨l', leftSingle', leftGrows, leftBelow⟩ := between_of_settle leftSingle leftFits'
      obtain ⟨r', rightSingle', rightGrows, rightBelow⟩ := between_of_settle rightSingle rightFits'
      have arrays' := And.intro (isArray_of_refined leftGrows arrays.1)
        (isArray_of_refined rightGrows arrays.2)
      exact .concat (leftIh ⟨l, leftSingle, leftFits'⟩) (rightIh ⟨r, rightSingle, rightFits'⟩)
        leftSingle' rightSingle'
        arrays' leftBelow rightBelow
  | compare compares first second leftSingle rightSingle arrays compatible =>
    exact .compare compares first second leftSingle rightSingle arrays compatible
  | name bound => exact .name bound
  | integer => exact .integer
  | float => exact .float
  | bool => exact .bool
  | string => exact .string
  | char => exact .char
  | unary inner single rule => exact .unary inner single rule
  | step inner single rule => exact .step inner single rule
  | assign bound inner single rule given => exact .assign bound inner single rule given
  | builtinCall known each singles rule => exact .builtinCall known each singles rule
  | call known each given => exact .call known each given
  | index first second single keySingle rule => exact .index first second single keySingle rule

end Expr

/-! Statements. -/

structure Declaration.WellTyped (env : Env) (declaration : Declaration) : Prop where
  written : declaration.type.Written
  typed : declaration.value.WellTyped env
  fits : declaration.value.Fits declaration.type

def Target.WellTyped (env : Env) : Target → Prop
  | declared _ _ type => type.Written
  | existing name type => ∃ binding, env.binding? name = some binding ∧ binding.type = type

inductive Point.WellTyped (env : Env) : Point → Prop where
  | expression {e : Expr} (action : e.isAction = true) (typed : e.WellTyped env) :
      WellTyped env (.simple (.expression e))
  | declaration {declaration : Declaration} (typed : declaration.WellTyped env) :
      WellTyped env (.simple (.declaration declaration))
  | values {targets : List Target} {values : List Expr}
      (known : ∀ target ∈ targets, target.WellTyped env) (typed : ∀ e ∈ values, e.WellTyped env)
      (fits : List.Forall₂ Expr.Fits values (targets.map Target.type)) :
      WellTyped env (.simple (.multiple targets values))
  | results {targets : List Target} {callee : String} {arguments : List Expr} {results : List Ty}
      (known : ∀ target ∈ targets, target.WellTyped env)
      (typed : (Expr.call callee arguments results).WellTyped env)
      (fits : List.Forall₂ RefinedBy results (targets.map Target.type)) :
      WellTyped env (.simple (.multiple targets [.call callee arguments results]))
  | returning {signature : Signature} {values : List Expr} (inside : env.function = some signature)
      (typed : ∀ e ∈ values, e.WellTyped env)
      (fits : List.Forall₂ Expr.Fits values signature.results) :
      WellTyped env (.simple (.returning values))
  | continuing : WellTyped env (.simple .continuing)
  | breaking : WellTyped env (.simple .breaking)
  | condition {e : Expr} (typed : e.WellTyped env) (bool : e.types = [named "bool"]) :
      WellTyped env (.condition e)
  | startDeclaration {declaration : Declaration} (typed : declaration.WellTyped env)
      (int : declaration.type = named "int") : WellTyped env (.start (.declaration declaration))
  | startAssignment {target : String} {value : Expr}
      (typed : (Expr.assign target "=" value (named "int")).WellTyped env) :
      WellTyped env (.start (.assignment (.assign target "=" value (named "int"))))
  | loopCondition {operator : String} {left right : Expr}
      (typed : (Expr.binary left operator right (named "bool")).WellTyped env) :
      WellTyped env (.loopCondition (.binary left operator right (named "bool")))
  | updateStep {operator : String} {operand : Expr}
      (typed : (Expr.step operand operator (named "int")).WellTyped env) :
      WellTyped env (.update (.step operand operator (named "int")))
  | updateAssign {target operator : String} {value : Expr}
      (typed : (Expr.assign target operator value (named "int")).WellTyped env) :
      WellTyped env (.update (.assign target operator value (named "int")))

end ColonScript
