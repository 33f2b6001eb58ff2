import ColonScript.Tree.Settle
import Mathlib.Data.List.Forall2

/-! Settling overwrites the types that are recorded at literals of containers and at operators, and
nothing else. What does not look at these types is the same before and behind it: one induction
shows this for all that is found in an expression, and for all that is put together from what is
found at its nodes. -/

namespace ColonScript.Expr

variable {α : Type}

theorem settleAll_eq_map (type : Ty) (es : List Expr) :
    settleAll type es = es.map (settle type) := by
  induction es with
  | nil => rfl
  | cons e rest ih => rw [settleAll, ih, List.map_cons]

theorem settleValues_eq_map (type : Ty) (pairs : List (Expr × Expr)) :
    settleValues type pairs = pairs.map fun pair => (pair.1, pair.2.settle type) := by
  induction pairs with
  | nil => rfl
  | cons pair rest ih => rw [settleValues, ih, List.map_cons]

/-- A relation that goes on holding whatever types are recorded at literals of containers and at
operators. -/
structure IgnoresTypes (related : Expr → Expr → Prop) : Prop where
  refl (e : Expr) : related e e
  array {es es' : List Expr} {own own' : Ty} (each : List.Forall₂ related es es') :
    related (.array es own) (.array es' own')
  map {pairs pairs' : List (Expr × Expr)} {own own' : Ty}
    (each : List.Forall₂ (fun pair pair' => pair.1 = pair'.1 ∧ related pair.2 pair'.2)
      pairs pairs') :
    related (.map pairs own) (.map pairs' own')
  binary {left left' right right' : Expr} {operator : String} {own own' : Ty}
    (first : related left left') (second : related right right') :
    related (.binary left operator right own) (.binary left' operator right' own')

mutual

theorem IgnoresTypes.settle {related : Expr → Expr → Prop} (ignores : IgnoresTypes related)
    (type : Ty) : ∀ e : Expr, related e (e.settle type)
  | .array elements own => by
    unfold Expr.settle
    split
    · exact ignores.refl _
    · split
      · exact ignores.array (List.forall₂_same.mpr fun e _ => ignores.refl e)
      · exact ignores.array (ignores.settleAll _ elements)
      · exact ignores.array (List.forall₂_same.mpr fun e _ => ignores.refl e)
  | .map pairs own => by
    unfold Expr.settle
    split
    · exact ignores.refl _
    · split
      · exact ignores.map (List.forall₂_same.mpr fun pair _ => ⟨rfl, ignores.refl pair.2⟩)
      · exact ignores.map (ignores.settleValues _ pairs)
      · exact ignores.map (List.forall₂_same.mpr fun pair _ => ⟨rfl, ignores.refl pair.2⟩)
  | .binary left operator right own => by
    unfold Expr.settle
    split
    · exact ignores.refl _
    · exact ignores.binary (ignores.settle type left) (ignores.settle type right)
  | .name .. | .integer .. | .float .. | .bool .. | .string .. | .char .. | .unary .. | .step ..
  | .assign .. | .call .. | .index .. => by
    rw [Expr.settle] <;> simp [ignores.refl]

theorem IgnoresTypes.settleAll {related : Expr → Expr → Prop} (ignores : IgnoresTypes related)
    (type : Ty) : ∀ es : List Expr, List.Forall₂ related es (settleAll type es)
  | [] => .nil
  | e :: rest => .cons (ignores.settle type e) (ignores.settleAll type rest)

theorem IgnoresTypes.settleValues {related : Expr → Expr → Prop} (ignores : IgnoresTypes related)
    (type : Ty) : ∀ pairs : List (Expr × Expr),
      List.Forall₂ (fun pair pair' => pair.1 = pair'.1 ∧ related pair.2 pair'.2) pairs
        (settleValues type pairs)
  | [] => .nil
  | (_, value) :: rest => .cons ⟨rfl, ignores.settle type value⟩ (ignores.settleValues type rest)

end

theorem map_eq_of_forall₂ {β γ : Type} {related : β → β → Prop} {f : β → γ} {bs bs' : List β}
    (each : List.Forall₂ related bs bs') (same : ∀ ⦃b b'⦄, related b b' → f b' = f b) :
    bs'.map f = bs.map f := by
  induction each with
  | nil => rfl
  | cons first _ ih => rw [List.map_cons, List.map_cons, same first, ih]

theorem forall_mem_of_forall₂ {β : Type} {related : β → β → Prop} {P : β → Prop} {bs bs' : List β}
    (each : List.Forall₂ related bs bs') (keeps : ∀ ⦃b b'⦄, related b b' → P b → P b')
    (all : ∀ b ∈ bs, P b) : ∀ b ∈ bs', P b := by
  induction each with
  | nil => exact all
  | cons first _ ih =>
    obtain ⟨here, later⟩ := List.forall_mem_cons.mp all
    exact List.forall_mem_cons.mpr ⟨keeps first here, ih later⟩

/-! Lists of settled expressions. -/

def AllSettled (es settled : List Expr) : Prop :=
  List.Forall₂ (fun e e' => ∃ type, e' = e.settle type) es settled

namespace AllSettled
variable {es settled : List Expr}

theorem each {P : Expr → Prop} (keeps : ∀ type e, P e → P (e.settle type))
    (same : AllSettled es settled) (each : ∀ e ∈ es, P e) : ∀ e ∈ settled, P e :=
  forall_mem_of_forall₂ same (fun e _ ⟨type, is⟩ holds => is ▸ keeps type e holds) each

theorem map_eq {f : Expr → α} (keeps : ∀ type e, f (e.settle type) = f e)
    (same : AllSettled es settled) : settled.map f = es.map f :=
  map_eq_of_forall₂ same fun e _ ⟨type, is⟩ => is ▸ keeps type e

end AllSettled

/-! What is gathered from the nodes of an expression. -/

/-- What is gathered from a list part by part is gathered by `flatMap`. -/
theorem eq_flatMap {β : Type} {all : List β → List α} {one : β → List α} (nil : all [] = [])
    (cons : ∀ b bs, all (b :: bs) = one b ++ all bs) (bs : List β) : all bs = bs.flatMap one := by
  induction bs with
  | nil => rw [nil, List.flatMap_nil]
  | cons b bs ih => rw [cons, ih, List.flatMap_cons]

def children : Expr → List Expr
  | array elements _ => elements
  | map pairs _ => pairs.flatMap fun pair => [pair.1, pair.2]
  | unary _ operand _ | step operand _ _ => [operand]
  | binary left _ right _ => [left, right]
  | assign _ _ value _ => [value]
  | call _ arguments _ => arguments
  | index target key _ => [target, key]
  | _ => []

/-- An expression has what its own node has, and then what its children have. Literals of containers
and operators have nothing of their own. -/
structure Gathers (own gather : Expr → List α) : Prop where
  node (e : Expr) : gather e = own e ++ e.children.flatMap gather
  array {es : List Expr} {type : Ty} : own (.array es type) = []
  map {pairs : List (Expr × Expr)} {type : Ty} : own (.map pairs type) = []
  binary {left right : Expr} {operator : String} {type : Ty} :
    own (.binary left operator right type) = []

namespace Gathers
variable {own gather : Expr → List α}

theorem gather_array (gathers : Gathers own gather) (es : List Expr) (type : Ty) :
    gather (.array es type) = es.flatMap gather := by
  rw [gathers.node, gathers.array, List.nil_append, children]

theorem gather_map (gathers : Gathers own gather) (pairs : List (Expr × Expr)) (type : Ty) :
    gather (.map pairs type) = pairs.flatMap fun pair => gather pair.1 ++ gather pair.2 := by
  rw [gathers.node, gathers.map, List.nil_append, children, List.flatMap_assoc]
  simp

theorem gather_binary (gathers : Gathers own gather) (left right : Expr) (operator : String)
    (type : Ty) :
    gather (.binary left operator right type) = gather left ++ gather right := by
  rw [gathers.node, gathers.binary]
  simp [children]

theorem forall_iff (gathers : Gathers own gather) {P : α → Prop} {e : Expr} :
    (∀ a ∈ gather e, P a) ↔ (∀ a ∈ own e, P a) ∧ ∀ child ∈ e.children, ∀ a ∈ gather child, P a := by
  rw [gathers.node, List.forall_mem_append, List.forall_mem_flatMap]

theorem ignoresTypes (gathers : Gathers own gather) :
    IgnoresTypes fun e e' => gather e' = gather e where
  refl _ := rfl
  array each := by
    rw [gathers.gather_array, gathers.gather_array, List.flatMap_def, List.flatMap_def,
      map_eq_of_forall₂ each fun _ _ same => same]
  map each := by
    rw [gathers.gather_map, gathers.gather_map, List.flatMap_def, List.flatMap_def,
      map_eq_of_forall₂ each fun _ _ same => by rw [same.1, same.2]]
  binary first second := by
    rw [gathers.gather_binary, gathers.gather_binary, first, second]

theorem settle (gathers : Gathers own gather) (type : Ty) (e : Expr) :
    gather (e.settle type) = gather e :=
  gathers.ignoresTypes.settle type e

theorem settleAll (gathers : Gathers own gather) (es : List Expr) (wanted type : Ty) :
    gather (.array (Expr.settleAll wanted es) type) = gather (.array es type) :=
  gathers.ignoresTypes.array (gathers.ignoresTypes.settleAll wanted es)

theorem settleValues (gathers : Gathers own gather) (pairs : List (Expr × Expr))
    (wanted type : Ty) :
    gather (.map (Expr.settleValues wanted pairs) type) = gather (.map pairs type) :=
  gathers.ignoresTypes.map (gathers.ignoresTypes.settleValues wanted pairs)

theorem flatMap_eq (gathers : Gathers own gather) {es settled : List Expr}
    (same : AllSettled es settled) :
    settled.flatMap gather = es.flatMap gather := by
  rw [List.flatMap_def, List.flatMap_def, same.map_eq gathers.settle]

end Gathers

end ColonScript.Expr
