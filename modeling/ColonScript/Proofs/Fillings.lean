import ColonScript.Proofs.Unification

/-! Unknown parts stand for types that are not known yet. A type is filled when all of them are
replaced by known types; two types can be filled to one type exactly when they are compatible. Pools
of every generation join two types to the least that refines both. -/

namespace ColonScript.Ty

variable {gen : Nat} {a b c : Ty}

theorem RefinedBy.compatible (left : RefinedBy a c) (right : RefinedBy b c) :
    a.compatible b = true := by
  induction left generalizing b with
  | unknown => cases b <;> rfl
  | base =>
    cases right with
    | unknown => rfl
    | base => simp [Ty.compatible]
  | array _ ih =>
    cases right with
    | unknown => rfl
    | array inner => exact ih inner
  | map _ _ keys values =>
    cases right with
    | unknown => rfl
    | map keys' values' => rw [Ty.compatible, keys keys', values values', Bool.and_self]

theorem compatible_unknown (a : Ty) : a.compatible unknown = true := by
  cases a <;> rfl

theorem compatible_comm (a b : Ty) : a.compatible b = b.compatible a := by
  induction a generalizing b with
  | unknown => exact (compatible_unknown b).symm
  | base =>
    cases b with
    | base => exact decide_eq_decide.mpr eq_comm
    | _ => rfl
  | array _ _ ih =>
    cases b with
    | array => exact ih _
    | _ => rfl
  | map _ _ _ keys values =>
    cases b with
    | map => rw [compatible, compatible, keys, values]
    | _ => rfl

/-- What is compatible stays so when less is known. -/
theorem RefinedBy.compatible_left (refined : RefinedBy a c) (compatible : c.compatible b = true) :
    a.compatible b = true := by
  induction refined generalizing b with
  | unknown => cases b <;> rfl
  | base => exact compatible
  | array _ ih =>
    cases b with
    | array => exact ih compatible
    | unknown => rfl
    | _ => cases compatible
  | map _ _ keys values =>
    cases b with
    | map =>
      rw [Ty.compatible, Bool.and_eq_true] at compatible
      rw [Ty.compatible, keys compatible.1, values compatible.2, Bool.and_self]
    | unknown => rfl
    | _ => cases compatible

theorem compatible_of_refined {a' b' : Ty} (left : RefinedBy a a') (right : RefinedBy b b')
    (compatible : a'.compatible b' = true) : a.compatible b = true := by
  have less := left.compatible_left compatible
  rw [compatible_comm] at less ⊢
  exact right.compatible_left less

/-! The least type that refines two others. -/

structure Least (a b c : Ty) : Prop where
  left : RefinedBy a c
  right : RefinedBy b c
  least : ∀ d, RefinedBy a d → RefinedBy b d → RefinedBy c d

namespace Least

theorem unique {d : Ty} (first : Least a b c) (second : Least a b d) : c = d :=
  (first.least d second.left second.right).antisymm (second.least c first.left first.right)

theorem self (a : Ty) : Least a a a := ⟨.refl a, .refl a, fun _ refined _ => refined⟩

theorem unknown_left (b : Ty) : Least unknown b b := ⟨.unknown, .refl b, fun _ _ refined => refined⟩

theorem unknown_right (a : Ty) : Least a unknown a :=
  ⟨.refl a, .unknown, fun _ refined _ => refined⟩

theorem array (inner : Least a b c) : Least (.array gen a) (.array gen b) (.array gen c) := by
  refine ⟨.array inner.left, .array inner.right, ?_⟩
  rintro _ (_ | _ | left | _) (_ | _ | right | _)
  exact .array (inner.least _ left right)

theorem map {k k' key : Ty} (keys : Least k k' key) (values : Least a b c) :
    Least (.map gen k a) (.map gen k' b) (.map gen key c) := by
  refine ⟨.map keys.left values.left, .map keys.right values.right, ?_⟩
  rintro _ (_ | _ | _ | ⟨left, left'⟩) (_ | _ | _ | ⟨right, right'⟩)
  exact .map (keys.least _ left right) (values.least _ left' right')

/-- More is known of what two types agree on when more is known of the two. -/
theorem mono {a' b' c' : Ty} (least : Least a b c) (least' : Least a' b' c') (left : RefinedBy a a')
    (right : RefinedBy b b') : RefinedBy c c' :=
  least.least c' (left.trans least'.left) (right.trans least'.right)

end Least

inductive Outcome (gen : Nat) (a b : Ty) : Option Ty → Prop where
  | least {c : Ty} (legible : c.Legible gen) (least : Least a b c) : Outcome gen a b (some c)
  | none (different : a.compatible b = false) : Outcome gen a b none

theorem Outcome.unique {found found' : Option Ty} (first : Outcome gen a b found)
    (second : Outcome gen a b found') :
    found = found' := by
  cases first with
  | least _ least =>
    cases second with
    | least _ least' => rw [least.unique least']
    | none different => rw [least.left.compatible least.right] at different; cases different
  | none different =>
    cases second with
    | least _ least => rw [least.left.compatible least.right] at different; cases different
    | none => rfl

theorem Outcome.isSome {found : Option Ty} (outcome : Outcome gen a b found) :
    found.isSome = a.compatible b := by
  cases outcome with
  | least _ least => exact (least.left.compatible least.right).symm
  | none different => exact different.symm

namespace Pool

/-- A pool of a generation in which every entry is the type of its text. -/
structure Legible (gen : Nat) (pool : Pool) : Prop where
  made : pool.gen = gen
  entries : ∀ name ty, pool.entries.get? name = some ty → ty.text = name ∧ ty.Legible gen

variable {pool : Pool}

theorem legible_empty (gen : Nat) : Legible gen ⟨gen, []⟩ := ⟨rfl, fun _ _ found => nomatch found⟩

theorem canonical_legible (legible : pool.Legible gen) {ty : Ty} (own : ty.Legible gen) :
    (pool.canonical ty).1 = ty ∧ (pool.canonical ty).2.Legible gen := by
  obtain ⟨same, kept, entries⟩ :=
    canonical_keyed (fun _ _ => Ty.Legible.eq_of_text) legible.entries own
  exact ⟨same, kept.trans legible.made, entries⟩

theorem base_legible (legible : pool.Legible gen) {name : String} (plain : PlainName name) :
    (pool.base name).1 = .base gen name ∧ (pool.base name).2.Legible gen := by
  rw [base, legible.made]
  exact canonical_legible legible ⟨rfl, plain⟩

theorem array_legible (legible : pool.Legible gen) {element : Ty} (own : element.Legible gen) :
    (pool.array element).1 = .array gen element ∧ (pool.array element).2.Legible gen := by
  rw [array, legible.made]
  exact canonical_legible legible ⟨rfl, own⟩

theorem map_legible (legible : pool.Legible gen) {key value : Ty} (keys : key.Legible gen)
    (values : value.Legible gen) :
    (pool.map key value).1 = .map gen key value ∧ (pool.map key value).2.Legible gen := by
  rw [map, legible.made]
  exact canonical_legible legible ⟨rfl, keys, values⟩

/-- A pool of any generation finds what two types agree on. -/
theorem join_legible (legible : pool.Legible gen) (left : a.Legible gen) (right : b.Legible gen) :
    Outcome gen a b (pool.join a b).1 ∧ (pool.join a b).2.Legible gen := by
  fun_induction join a b pool with
  | case1 => exact ⟨.least left (.self _), legible⟩
  | case2 => exact ⟨.least right (.unknown_left _), legible⟩
  | case3 => exact ⟨.least left (.unknown_right _), legible⟩
  | case4 =>
    refine ⟨?_, legible⟩
    split
    next same =>
      obtain ⟨rfl, plain⟩ := left
      obtain ⟨rfl, _⟩ := right
      subst same
      exact .least ⟨rfl, plain⟩ (.self _)
    next unlike => exact .none (by simpa [compatible] using unlike)
  | case5 _ _ _ _ _ _ joined _ ih =>
    obtain ⟨outcome, after⟩ := ih legible left.2 right.2
    rw [joined] at outcome after
    cases outcome with
    | none different => exact ⟨.none different, after⟩
  | case6 _ _ _ _ _ _ _ joined _ ih =>
    obtain ⟨rfl, left⟩ := left
    obtain ⟨rfl, right⟩ := right
    obtain ⟨outcome, after⟩ := ih legible left right
    rw [joined] at outcome after
    cases outcome with
    | least inner least =>
      obtain ⟨result, after'⟩ := array_legible after inner
      rw [result]
      exact ⟨.least ⟨rfl, inner⟩ least.array, after'⟩
  | case7 _ _ _ _ _ _ _ _ joined _ ih =>
    obtain ⟨outcome, after⟩ := ih legible left.2.1 right.2.1
    rw [joined] at outcome after
    cases outcome with
    | none different => exact ⟨.none (by rw [compatible, different, Bool.false_and]), after⟩
  | case8 _ _ _ _ _ _ _ _ _ joined _ joined' _ keys values =>
    obtain ⟨_, between⟩ := keys legible left.2.1 right.2.1
    rw [joined] at between
    obtain ⟨outcome, after⟩ := values between left.2.2 right.2.2
    rw [joined'] at outcome after
    cases outcome with
    | none different => exact ⟨.none (by rw [compatible, different, Bool.and_false]), after⟩
  | case9 _ _ _ _ _ _ _ _ _ joined _ _ joined' _ keys values =>
    obtain ⟨rfl, leftKey, leftValue⟩ := left
    obtain ⟨rfl, rightKey, rightValue⟩ := right
    obtain ⟨first, between⟩ := keys legible leftKey rightKey
    rw [joined] at first between
    obtain ⟨second, after⟩ := values between leftValue rightValue
    rw [joined'] at second after
    cases first with
    | least keyLegible keyLeast =>
      cases second with
      | least valueLegible valueLeast =>
        obtain ⟨result, after'⟩ := map_legible after keyLegible valueLegible
        rw [result]
        exact ⟨.least ⟨rfl, keyLegible, valueLegible⟩ (keyLeast.map valueLeast), after'⟩
  | case10 a b _ _ noLeft noRight noBases noArrays noMaps =>
    refine ⟨.none ?_, legible⟩
    cases a <;> cases b
    case base.base => exact (noBases _ _ _ _ rfl rfl).elim
    case array.array => exact (noArrays _ _ _ _ rfl rfl).elim
    case map.map => exact (noMaps _ _ _ _ _ _ rfl rfl).elim
    all_goals first | rfl | exact (noLeft rfl).elim | exact (noRight rfl).elim

end Pool

theorem exists_least (left : a.Legible gen) (right : b.Legible gen)
    (compatible : a.compatible b = true) :
    ∃ c, c.Legible gen ∧ Least a b c := by
  obtain ⟨outcome, _⟩ := Pool.join_legible (Pool.legible_empty gen) left right
  generalize (Pool.join a b ⟨gen, []⟩).1 = found at outcome
  cases outcome with
  | least legible least => exact ⟨_, legible, least⟩
  | none different =>
    rw [compatible] at different
    cases different

/-! The pools of a run. -/

namespace Memory

theorem Canonical.legible_pool {memory : Memory} (canonical : memory.Canonical) (gen : Nat) :
    (memory.pool gen).Legible gen := by
  refine ⟨rfl, fun name ty found => ?_⟩
  rw [get?_pool] at found
  obtain ⟨node, held, rfl⟩ := Option.map_eq_some_iff.mp found
  refine ⟨?_, (canonical.plain held).legible gen⟩
  rw [Node.text_type, canonical.keyed held]

end Memory

/-! Filling. -/

/-- The second type is the first with every unknown part replaced by a known type. -/
structure Fills (gen : Nat) (ty filled : Ty) : Prop where
  refined : RefinedBy ty filled
  settled : filled.settled = true
  legible : filled.Legible gen

def filled (gen : Nat) : Ty → Ty
  | unknown => base gen "int"
  | base own name => base own name
  | array own element => array own (element.filled gen)
  | map own key value => map own (key.filled gen) (value.filled gen)

theorem fills_filled (legible : a.Legible gen) : Fills gen a (a.filled gen) := by
  induction a with
  | unknown => exact ⟨.unknown, rfl, rfl, plainName_of_baseNames (by decide)⟩
  | base => exact ⟨.base, rfl, legible⟩
  | array _ _ ih =>
    obtain ⟨refined, settled, inner⟩ := ih legible.2
    exact ⟨.array refined, settled, legible.1, inner⟩
  | map _ _ _ keys values =>
    obtain ⟨keyRefined, keySettled, keyLegible⟩ := keys legible.2.1
    obtain ⟨valueRefined, valueSettled, valueLegible⟩ := values legible.2.2
    refine ⟨.map keyRefined valueRefined, ?_, legible.1, keyLegible, valueLegible⟩
    rw [filled, settled, keySettled, valueSettled, Bool.and_self]

theorem Fills.known {filled : Ty} (fills : Fills gen a filled) : filled ≠ unknown := by
  rintro rfl
  cases fills.settled

theorem Fills.of_refined {filled : Ty} (refined : RefinedBy a b) (fills : Fills gen b filled) :
    Fills gen a filled :=
  ⟨refined.trans fills.refined, fills.settled, fills.legible⟩

theorem Fills.of_base {name : String} (plain : PlainName name) :
    Fills gen (base gen name) (base gen name) :=
  ⟨.base, rfl, rfl, plain⟩

theorem Fills.array {element : Ty} (fills : Fills gen a element) :
    Fills gen (.array gen a) (.array gen element) :=
  ⟨.array fills.refined, fills.settled, rfl, fills.legible⟩

theorem Fills.map {key value : Ty} (keys : Fills gen a key) (values : Fills gen b value) :
    Fills gen (.map gen a b) (.map gen key value) := by
  refine ⟨.map keys.refined values.refined, ?_, rfl, keys.legible, values.legible⟩
  rw [Ty.settled, keys.settled, values.settled, Bool.and_self]

/-- Compatible types are those that can be filled to one. -/
theorem exists_fills_of_compatible (left : a.Legible gen) (right : b.Legible gen)
    (compatible : a.compatible b = true) :
    ∃ both, Fills gen a both ∧ Fills gen b both := by
  obtain ⟨c, legible, least⟩ := exists_least left right compatible
  have fills := fills_filled legible
  exact ⟨c.filled gen, .of_refined least.left fills, .of_refined least.right fills⟩

end ColonScript.Ty
