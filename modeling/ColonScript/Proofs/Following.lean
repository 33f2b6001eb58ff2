import ColonScript.Proofs.Reading.Stems
import ColonScript.Proofs.WellTyped

/-! Values that are checked against a type. The literals of containers in a value, and the
containers that it joins, are reached through elements, values and operands, and each of them has a
part of the type at its place. A value follows the type when all of them are recorded with that
part. Settling makes a value follow the type it is settled to. -/

namespace ColonScript
open Ty Typing

namespace Expr

def isComposite : Expr → Bool
  | array .. | map .. => true
  | binary _ operator _ type => operator = "+" && type.isContainer
  | _ => false

/-- From a value that is checked against a type, through literals and operators, to a node and the
part of the type at its place. -/
inductive Reaches : Ty → Expr → Ty → Expr → Prop where
  | here {type : Ty} {e : Expr} : Reaches type e type e
  | element {type own part : Ty} {elements : List Expr} {e node : Expr} (member : e ∈ elements)
      (further : Reaches type.content e part node) : Reaches type (.array elements own) part node
  | value {type own part : Ty} {pairs : List (Expr × Expr)} {pair : Expr × Expr} {node : Expr}
      (member : pair ∈ pairs)
      (further : Reaches type.content pair.2 part node) : Reaches type (.map pairs own) part node
  | left {type own part : Ty} {operator : String} {left right node : Expr}
      (joins : (Expr.binary left operator right own).isComposite = true)
      (further : Reaches type left part node) :
      Reaches type (.binary left operator right own) part node
  | right {type own part : Ty} {operator : String} {left right node : Expr}
      (joins : (Expr.binary left operator right own).isComposite = true)
      (further : Reaches type right part node) :
      Reaches type (.binary left operator right own) part node

def Follows (type : Ty) (e : Expr) : Prop :=
  ∀ part node, Reaches type e part node → node.isComposite = true → node.types = [part]

variable {type type' own : Ty} {e : Expr}

theorem follows_of_plain (plain : e.isComposite = false) : Follows type e := by
  intro part node reaches composite
  cases reaches with
  | here =>
    rw [plain] at composite
    cases composite
  | element | value => cases plain
  | left joins | right joins =>
    rw [plain] at joins
    cases joins

theorem Follows.types (follows : Follows type e) (composite : e.isComposite = true) :
    e.types = [type] :=
  follows type e .here composite

/-- A value that follows a type follows its own. -/
theorem Follows.of_types (follows : Follows type e) (single : e.types = [own]) : Follows own e := by
  cases composite : e.isComposite with
  | false => exact follows_of_plain composite
  | true =>
    have types := follows.types composite
    rw [single] at types
    obtain rfl := (List.cons.inj types).1
    exact follows

theorem follows_array {elements : List Expr} :
    Follows type (.array elements own) ↔ own = type ∧ ∀ e ∈ elements, Follows type.content e := by
  constructor
  · intro follows
    refine ⟨(List.cons.inj (follows.types rfl)).1, fun e member part node further => ?_⟩
    exact follows part node (.element member further)
  · rintro ⟨rfl, each⟩ part node reaches composite
    cases reaches with
    | here => rfl
    | element member further => exact each _ member part node further composite

theorem follows_map {pairs : List (Expr × Expr)} :
    Follows type (.map pairs own) ↔ own = type ∧ ∀ pair ∈ pairs, Follows type.content pair.2 := by
  constructor
  · intro follows
    refine ⟨(List.cons.inj (follows.types rfl)).1, fun pair member part node further => ?_⟩
    exact follows part node (.value member further)
  · rintro ⟨rfl, each⟩ part node reaches composite
    cases reaches with
    | here => rfl
    | value member further => exact each _ member part node further composite

theorem follows_join {operator : String} {left right : Expr}
    (joins : (Expr.binary left operator right own).isComposite = true) :
    Follows type (.binary left operator right own) ↔ own = type ∧ Follows type left ∧
      Follows type right := by
  constructor
  · intro follows
    exact ⟨(List.cons.inj (follows.types joins)).1, fun part node further =>
      follows part node (.left joins further), fun part node further =>
      follows part node (.right joins further)⟩
  · rintro ⟨rfl, first, second⟩ part node reaches composite
    cases reaches with
    | here => rfl
    | left _ further => exact first part node further composite
    | right _ further => exact second part node further composite

theorem settled_content (settled : type.settled = true) : type.content.settled = true := by
  cases type with
  | unknown => cases settled
  | base => rfl
  | array => exact settled
  | map =>
    rw [Ty.settled, Bool.and_eq_true] at settled
    exact settled.2

/-- Of a type that is known all parts are. -/
theorem Reaches.settled {part : Ty} {node : Expr} (reaches : Reaches type e part node)
    (settled : type.settled = true) :
    part.settled = true := by
  induction reaches with
  | here => exact settled
  | element _ _ ih | value _ _ ih => exact ih (settled_content settled)
  | left _ _ ih | right _ _ ih => exact ih settled

theorem isContainer_of_isArray {ty : Ty} (array : ty.isArray = true) : ty.isContainer = true := by
  cases ty with
  | array => rfl
  | _ => cases array

/-- What is settled to a type follows it, if it followed one before that the type refines. -/
theorem Follows.settle {env : Env} (follows : Follows type e) (typed : WellTyped env e)
    (refined : RefinedBy type type') :
    Follows type' (e.settle type') := by
  induction typed generalizing type type' with
  | @array elements element each fits ih =>
    obtain ⟨rfl, inside⟩ := follows_array.mp follows
    cases refined with
    | array inner =>
      obtain ⟨rfl, same⟩ | same := settle_array_of_refined elements inner <;> rw [same]
      · exact follows
      · exact follows_array.mpr ⟨rfl, List.forall_mem_map.mpr fun e member =>
          ih e member (inside e member) inner⟩
  | @map pairs key value literal keys values keysFit valuesFit _ ih =>
    obtain ⟨rfl, inside⟩ := follows_map.mp follows
    cases refined with
    | map keyRefined valueRefined =>
      obtain ⟨rfl, same⟩ | same := settle_map_of_refined pairs keyRefined valueRefined <;> rw [same]
      · exact follows_map.mpr ⟨rfl, inside⟩
      · exact follows_map.mpr
          ⟨rfl, List.forall_mem_map.mpr fun pair member =>
            ih pair member (inside pair member) valueRefined⟩
  | @binary operator l r left right own first second leftSingle rightSingle rule =>
    obtain ⟨_, rfl⟩ := exists_named_of_gives_binary rule
    unfold Expr.settle
    rw [if_pos (by rfl)]
    exact follows_of_plain (Bool.and_false _)
  | @concat left right l r own first second _ _ arrays leftFits _ leftIh rightIh =>
    have array := isArray_of_refined leftFits arrays.1
    have joins : (Expr.binary left "+" right own).isComposite = true := isContainer_of_isArray array
    obtain ⟨rfl, inLeft, inRight⟩ := (follows_join joins).mp follows
    obtain ⟨rfl, same⟩ | same := settle_binary_of_refined left "+" right refined <;> rw [same]
    · exact follows
    · have joins' :
          (Expr.binary (left.settle type') "+" (right.settle type') type').isComposite = true :=
        isContainer_of_isArray (isArray_of_refined refined array)
      exact (follows_join joins').mpr ⟨rfl, leftIh inLeft refined, rightIh inRight refined⟩
  | compare =>
    unfold Expr.settle
    rw [if_pos (by rfl)]
    exact follows_of_plain (Bool.and_false _)
  | _ => exact follows_of_plain rfl

/-! Where values are checked. -/

/-- Somewhere in an expression a value is checked against a type: it is assigned to a variable, or
given for a parameter of a function that the script declares. -/
inductive Checks (env : Env) : Expr → Ty → Expr → Prop where
  | assigned {target operator : String} {value : Expr} {type : Ty} :
      Checks env (.assign target operator value type) type value
  | argument {callee : String} {signature : Signature} {arguments : List Expr}
      {results : List Ty} {type : Ty}
      {value : Expr} (known : env.callee? callee = some ⟨signature, none⟩)
      (given : (type, value) ∈ (signature.parameters.map (·.type)).zip arguments) :
      Checks env (.call callee arguments results) type value
  | inside {e child value : Expr} {type : Ty} (member : child ∈ e.children)
      (checks : Checks env child type value) :
      Checks env e type value

variable {env : Env} {value : Expr}

/-- An expression that makes no check of its own checks what its children check. -/
theorem checks_of_children {e : Expr}
    (plain : ∀ target operator value type, e ≠ .assign target operator value type)
    (noCall : ∀ callee arguments results, e ≠ .call callee arguments results) :
    Checks env e type value ↔ ∃ child ∈ e.children, Checks env child type value := by
  constructor
  · intro checks
    cases checks with
    | assigned => exact absurd rfl (plain _ _ _ _)
    | argument => exact absurd rfl (noCall _ _ _)
    | inside member checks => exact ⟨_, member, checks⟩
  · rintro ⟨child, member, checks⟩
    exact .inside member checks

theorem checks_array {elements : List Expr} :
    Checks env (.array elements own) type value ↔ ∃ e ∈ elements, Checks env e type value :=
  checks_of_children (by simp) (by simp)

theorem checks_map {pairs : List (Expr × Expr)} : Checks env (.map pairs own) type value ↔
    ∃ pair ∈ pairs, Checks env pair.1 type value ∨ Checks env pair.2 type value := by
  rw [checks_of_children (by simp) (by simp)]
  simp only [children, List.mem_flatMap, List.mem_cons, List.not_mem_nil, or_false]
  constructor
  · rintro ⟨child, ⟨pair, member, rfl | rfl⟩, checks⟩
    · exact ⟨pair, member, .inl checks⟩
    · exact ⟨pair, member, .inr checks⟩
  · rintro ⟨pair, member, checks | checks⟩
    · exact ⟨_, ⟨pair, member, .inl rfl⟩, checks⟩
    · exact ⟨_, ⟨pair, member, .inr rfl⟩, checks⟩

theorem checks_binary {operator : String} {left right : Expr} :
    Checks env (.binary left operator right own) type value ↔
    Checks env left type value ∨ Checks env right type value := by
  rw [checks_of_children (by simp) (by simp)]
  simp [children]

theorem ignoresTypes_checks (env : Env) (type : Ty) (value : Expr) :
    IgnoresTypes fun e e' => Checks env e' type value ↔ Checks env e type value where
  refl _ := .rfl
  array each := by
    rw [checks_array, checks_array]
    induction each with
    | nil => rfl
    | cons first _ ih => simp only [List.exists_mem_cons_iff, first, ih]
  map each := by
    rw [checks_map, checks_map]
    induction each with
    | nil => rfl
    | cons first _ ih => simp only [List.exists_mem_cons_iff, first.1, first.2, ih]
  binary first second := by rw [checks_binary, checks_binary, first, second]

/-- Settling leaves the values that are checked as they are. -/
theorem checks_settle (wanted : Ty) (e : Expr) :
    Checks env (e.settle wanted) type value ↔ Checks env e type value :=
  (ignoresTypes_checks env type value).settle wanted e

/-- The value follows the type, of which nothing is unknown, and a container that it is found to be
can become that type. -/
structure Suits (type : Ty) (value : Expr) : Prop where
  settled : type.settled = true
  follows : Follows type value
  refined : ∀ own, value.types = [own] → own.isContainer = true → RefinedBy own type

theorem Suits.of_fits (settled : type.settled = true) (follows : Follows type value)
    (fits : value.Fits type) :
    Suits type value := by
  refine ⟨settled, follows, fun own single _ => ?_⟩
  obtain ⟨own', single', refined⟩ := fits
  rw [single] at single'
  obtain rfl := (List.cons.inj single').1
  exact refined

structure Complete (env : Env) (e : Expr) : Prop where
  own : ∀ type, e.types = [type] → Follows type e
  inside : ∀ type value, Checks env e type value → Suits type value

theorem Complete.settle {wanted : Ty} (complete : Complete env e) (typed : WellTyped env e)
    (fits : e.Fits wanted) :
    Follows wanted (e.settle wanted) ∧ Complete env (e.settle wanted) := by
  obtain ⟨own, single, refined⟩ := fits
  have follows : Follows wanted (e.settle wanted) := (complete.own own single).settle typed refined
  exact ⟨follows, fun type types => follows.of_types types,
    fun type value checks => complete.inside type value ((checks_settle wanted e).mp checks)⟩

/-- An expression that is no literal of a container and joins none follows its type as it is. -/
theorem Complete.of_plain (plain : e.isComposite = false)
    (inside : ∀ type value, Checks env e type value → Suits type value) : Complete env e :=
  ⟨fun _ _ => follows_of_plain plain, inside⟩

end Expr

/-! The points of a script. -/

namespace Point
open ColonScript.Expr

inductive Wants (env : Env) : Point → Ty → Expr → Prop where
  | declared {declaration : Declaration} :
      Wants env (.simple (.declaration declaration)) declaration.type declaration.value
  | started {declaration : Declaration} : Wants env (.start (.declaration declaration))
    declaration.type declaration.value
  | positional {targets : List Target} {values : List Expr} {type : Ty} {value : Expr}
      (even : targets.length = values.length)
      (given : (type, value) ∈ (targets.map Target.type).zip values) :
      Wants env (.simple (.multiple targets values)) type value
  | returned {signature : Signature} {values : List Expr} {type : Ty} {value : Expr}
      (within : env.function = some signature)
      (given : (type, value) ∈ signature.results.zip values) :
      Wants env (.simple (.returning values)) type value

/-- At the point a value is checked against a type, by the statement or somewhere in an
expression. -/
inductive Checks (env : Env) (point : Point) (type : Ty) (value : Expr) : Prop where
  | here (wants : point.Wants env type value)
  | inside {e : Expr} (member : e ∈ point.exprs) (checks : e.Checks env type value)

def Complete (env : Env) (point : Point) : Prop :=
  ∀ type value, point.Checks env type value → Suits type value

theorem complete_of_exprs {env : Env} {point : Point} (each : ∀ e ∈ point.exprs, e.Complete env)
    (own : ∀ type value, point.Wants env type value → Suits type value) : point.Complete env := by
  intro type value checks
  cases checks with
  | here wants => exact own type value wants
  | inside member checks => exact (each _ member).inside type value checks

end Point

end ColonScript
