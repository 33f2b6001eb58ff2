import ColonScript.Proofs.Types

/-! What two types agree on. It depends on the two types alone, whatever the pool has been asked
before, and it is the least type that refines both. -/

namespace ColonScript.Ty

/-- The second type is the first with some of its unknown parts filled in. -/
inductive RefinedBy : Ty → Ty → Prop where
  | unknown {ty : Ty} : RefinedBy unknown ty
  | base {gen : Nat} {name : String} : RefinedBy (base gen name) (base gen name)
  | array {gen : Nat} {element element' : Ty} (inner : RefinedBy element element') :
      RefinedBy (array gen element) (array gen element')
  | map {gen : Nat} {key value key' value' : Ty} (keys : RefinedBy key key')
      (values : RefinedBy value value') :
      RefinedBy (map gen key value) (map gen key' value')

namespace RefinedBy
variable {a b c : Ty}

theorem refl (ty : Ty) : RefinedBy ty ty := by
  induction ty with
  | unknown => exact .unknown
  | base => exact .base
  | array _ _ ih => exact .array ih
  | map _ _ _ keys values => exact .map keys values

theorem trans (first : RefinedBy a b) (second : RefinedBy b c) : RefinedBy a c := by
  induction first generalizing c with
  | unknown => exact .unknown
  | base => exact second
  | array _ ih =>
    cases second with
    | array inner => exact .array (ih inner)
  | map _ _ keys values =>
    cases second with
    | map keys' values' => exact .map (keys keys') (values values')

theorem antisymm (first : RefinedBy a b) (second : RefinedBy b a) : a = b := by
  induction first with
  | unknown =>
    cases second
    rfl
  | base => rfl
  | array _ ih =>
    cases second with
    | array inner => rw [ih inner]
  | map _ _ keys values =>
    cases second with
    | map keys' values' => rw [keys keys', values values']

/-- Where nothing is unknown nothing can be filled in. -/
theorem eq_of_settled (refined : RefinedBy a b) (settled : a.settled = true) : a = b := by
  induction refined with
  | unknown => cases settled
  | base => rfl
  | array _ ih => rw [ih settled]
  | map _ _ keys values =>
    rw [Ty.settled, Bool.and_eq_true] at settled
    rw [keys settled.1, values settled.2]

end RefinedBy

def content : Ty → Ty
  | array _ element => element
  | map _ _ value => value
  | ty => ty

def common? : Ty → Ty → Option Ty
  | unknown, b => some b
  | a, unknown => some a
  | base gen x, base _ y => if x = y then some (base gen x) else none
  | array _ x, array _ y => (common? x y).map (array 0)
  | map _ k v, map _ k' v' =>
    match common? k k', common? v v' with
    | some key, some value => some (map 0 key value)
    | _, _ => none
  | _, _ => none

variable {a b c : Ty}

/-! Types that the first pool makes are their own plain forms. -/

theorem plain_array {gen : Nat} {element : Ty}
    (plain : (array gen element).plain = array gen element) :
    gen = 0 ∧ element.plain = element := by
  obtain ⟨first, inner⟩ := Ty.array.inj plain
  exact ⟨first.symm, inner⟩

theorem plain_map {gen : Nat} {key value : Ty}
    (plain : (map gen key value).plain = map gen key value) :
    gen = 0 ∧ key.plain = key ∧ value.plain = value := by
  obtain ⟨first, inner⟩ := Ty.map.inj plain
  exact ⟨first.symm, inner⟩

theorem Proper.plain_eq {ty : Ty} (proper : ty.Proper) : ty.plain = ty := by
  induction ty with
  | unknown => rfl
  | base => rw [plain, proper.1]
  | array _ _ ih => rw [plain, proper.1, ih proper.2]
  | map _ _ _ keys values => rw [plain, proper.1, keys proper.2.1, values proper.2.2]

theorem common?_self {ty : Ty} (plain : ty.plain = ty) : common? ty ty = some ty := by
  induction ty with
  | unknown => rfl
  | base => simp [common?]
  | array gen element ih =>
    obtain ⟨rfl, inner⟩ := plain_array plain
    simp [common?, ih inner]
  | map gen key value keys values =>
    obtain ⟨rfl, keyPlain, valuePlain⟩ := plain_map plain
    simp [common?, keys keyPlain, values valuePlain]

theorem common?_unknown_right (ty : Ty) : common? ty unknown = some ty := by
  cases ty <;> rfl

/-- How two types agree: part by part, down to where one of them is unknown. -/
inductive Agreed : Ty → Ty → Ty → Prop where
  | left {ty : Ty} : Agreed unknown ty ty
  | right {ty : Ty} : Agreed ty unknown ty
  | base {gen gen' : Nat} {name : String} : Agreed (base gen name) (base gen' name) (base gen name)
  | array {gen gen' : Nat} {x y element : Ty} (inner : Agreed x y element) :
      Agreed (array gen x) (array gen' y) (array 0 element)
  | map {gen gen' : Nat} {k v k' v' key value : Ty} (keys : Agreed k k' key)
      (values : Agreed v v' value) :
      Agreed (map gen k v) (map gen' k' v') (map 0 key value)

theorem agreed_of_common? (common : common? a b = some c) : Agreed a b c := by
  fun_induction common? a b generalizing c with
  | case1 =>
    obtain rfl := Option.some.inj common
    exact .left
  | case2 =>
    obtain rfl := Option.some.inj common
    exact .right
  | case3 =>
    obtain rfl := Option.some.inj common
    exact .base
  | case4 => cases common
  | case5 _ _ _ _ ih =>
    obtain ⟨element, inner, rfl⟩ := Option.map_eq_some_iff.mp common
    exact .array (ih inner)
  | case6 _ _ _ _ _ _ _ _ valueCommon keyCommon keys values =>
    obtain rfl := Option.some.inj common
    exact .map (keys keyCommon) (values valueCommon)
  | case7 => cases common
  | case8 => cases common

/-- What two types agree on refines both. -/
theorem common?_bounds (left : a.plain = a) (right : b.plain = b) (common : common? a b = some c) :
    RefinedBy a c ∧ RefinedBy b c ∧ c.plain = c := by
  have agreed := agreed_of_common? common
  clear common
  induction agreed with
  | left => exact ⟨.unknown, .refl _, right⟩
  | right => exact ⟨.refl _, .unknown, left⟩
  | base =>
    obtain ⟨rfl, _⟩ := Ty.base.inj left
    obtain ⟨rfl, _⟩ := Ty.base.inj right
    exact ⟨.refl _, .refl _, rfl⟩
  | array inner ih =>
    obtain ⟨rfl, inner⟩ := plain_array left
    obtain ⟨rfl, inner'⟩ := plain_array right
    obtain ⟨first, second, plain⟩ := ih inner inner'
    exact ⟨.array first, .array second, by rw [Ty.plain, plain]⟩
  | map _ _ keys values =>
    obtain ⟨rfl, keyPlain, valuePlain⟩ := plain_map left
    obtain ⟨rfl, keyPlain', valuePlain'⟩ := plain_map right
    obtain ⟨first, second, plain⟩ := keys keyPlain keyPlain'
    obtain ⟨first', second', plain'⟩ := values valuePlain valuePlain'
    exact ⟨.map first first', .map second second', by rw [Ty.plain, plain, plain']⟩

theorem common?_proper (left : a.Proper) (right : b.Proper) (common : common? a b = some c) :
    c.Proper := by
  have agreed := agreed_of_common? common
  clear common
  induction agreed with
  | left => exact right
  | right => exact left
  | base => exact left
  | array _ ih => exact ⟨rfl, ih left.2 right.2⟩
  | map _ _ keys values => exact ⟨rfl, keys left.2.1 right.2.1, values left.2.2 right.2.2⟩

/-- What two types agree on refines both, and is proper if they are. -/
theorem common?_refines (left : a.Proper) (right : b.Proper) (common : common? a b = some c) :
    RefinedBy a c ∧ RefinedBy b c ∧ c.Proper := by
  obtain ⟨first, second, _⟩ := common?_bounds left.plain_eq right.plain_eq common
  exact ⟨first, second, common?_proper left right common⟩

/-- And it is the least type that does. -/
theorem common?_least (plain : a.plain = a) (first : RefinedBy a c) (second : RefinedBy b c) :
    ∃ common, common? a b = some common ∧ RefinedBy common c := by
  induction first generalizing b with
  | unknown => exact ⟨b, rfl, second⟩
  | base =>
    cases second with
    | unknown => exact ⟨_, rfl, .refl _⟩
    | base => exact ⟨_, by simp [common?], .refl _⟩
  | array inner ih =>
    obtain ⟨rfl, inside⟩ := plain_array plain
    cases second with
    | unknown => exact ⟨_, rfl, .array inner⟩
    | array inner' =>
      obtain ⟨element, common, refined⟩ := ih inside inner'
      exact ⟨_, by simp [common?, common], .array refined⟩
  | map keys values keyIh valueIh =>
    obtain ⟨rfl, keyPlain, valuePlain⟩ := plain_map plain
    cases second with
    | unknown => exact ⟨_, rfl, .map keys values⟩
    | map keys' values' =>
      obtain ⟨key, keyCommon, keyRefined⟩ := keyIh keyPlain keys'
      obtain ⟨value, valueCommon, valueRefined⟩ := valueIh valuePlain values'
      exact ⟨_, by simp [common?, keyCommon, valueCommon], .map keyRefined valueRefined⟩

/-! So the types that refine both are those that refine what they agree on, and agreeing is
symmetric and associative, though being compatible is not transitive. -/

theorem common?_eq_some_iff (left : a.plain = a) (right : b.plain = b) : common? a b = some c ↔
    RefinedBy a c ∧ RefinedBy b c ∧ ∀ d, RefinedBy a d → RefinedBy b d → RefinedBy c d := by
  constructor
  · intro common
    obtain ⟨first, second, _⟩ := common?_bounds left right common
    refine ⟨first, second, fun d above above' => ?_⟩
    obtain ⟨least, common', refined⟩ := common?_least left above above'
    obtain rfl : c = least := Option.some.inj (common.symm.trans common')
    exact refined
  · rintro ⟨first, second, least⟩
    obtain ⟨own, common, refined⟩ := common?_least left first second
    obtain ⟨above, above', _⟩ := common?_bounds left right common
    rw [common, refined.antisymm (least own above above')]

theorem common?_comm (left : a.plain = a) (right : b.plain = b) : common? a b = common? b a := by
  ext c
  rw [common?_eq_some_iff left right, common?_eq_some_iff right left]
  constructor
  · rintro ⟨first, second, least⟩
    exact ⟨second, first, fun d above above' => least d above' above⟩
  · rintro ⟨first, second, least⟩
    exact ⟨second, first, fun d above above' => least d above' above⟩

theorem common?_bind_eq_some_iff {d : Ty} (first : a.plain = a) (second : b.plain = b)
    (third : c.plain = c) :
    (common? a b).bind (common? · c) = some d ↔
      RefinedBy a d ∧ RefinedBy b d ∧ RefinedBy c d ∧
        ∀ e, RefinedBy a e → RefinedBy b e → RefinedBy c e → RefinedBy d e := by
  rw [Option.bind_eq_some_iff]
  constructor
  · rintro ⟨two, common, common'⟩
    obtain ⟨fst, snd, plain⟩ := common?_bounds first second common
    have least := ((common?_eq_some_iff first second).mp common).2.2
    obtain ⟨both, last, least'⟩ := (common?_eq_some_iff plain third).mp common'
    exact ⟨fst.trans both, snd.trans both, last, fun e above above' above'' =>
      least' e (least e above above') above''⟩
  · rintro ⟨fst, snd, last, least⟩
    obtain ⟨two, common, refined⟩ := common?_least first fst snd
    obtain ⟨above, above', plain⟩ := common?_bounds first second common
    refine ⟨two, common, (common?_eq_some_iff plain third).mpr ⟨refined, last, fun e both => ?_⟩⟩
    exact least e (above.trans both) (above'.trans both)

theorem common?_assoc (first : a.plain = a) (second : b.plain = b) (third : c.plain = c) :
    (common? a b).bind (common? · c) = (common? b c).bind (common? a ·) := by
  have flipped : (common? b c).bind (common? a ·) = (common? b c).bind (common? · a) := by
    refine Option.bind_congr fun two common => ?_
    exact common?_comm first (common?_bounds second third common).2.2
  rw [flipped]
  ext d
  rw [common?_bind_eq_some_iff first second third, common?_bind_eq_some_iff second third first]
  constructor
  · rintro ⟨fst, snd, last, least⟩
    exact ⟨snd, last, fst, fun e above above' above'' => least e above'' above above'⟩
  · rintro ⟨fst, snd, last, least⟩
    exact ⟨last, fst, snd, fun e above above' above'' => least e above' above'' above⟩

theorem isSome_common? (a b : Ty) : (common? a b).isSome = a.compatible b := by
  induction a generalizing b with
  | unknown => cases b <;> rfl
  | base gen x =>
    cases b with
    | base gen' y =>
      by_cases same : x = y
      · simp [common?, compatible, same]
      · simp [common?, compatible, same]
    | _ => rfl
  | array gen x ih =>
    cases b with
    | array gen' y => simp [common?, compatible, ih]
    | _ => rfl
  | map gen k v keys values =>
    cases b with
    | map gen' k' v' =>
      rw [compatible, ← keys, ← values, common?]
      cases common? k k' <;> cases common? v v' <;> rfl
    | _ => rfl

/-! Pools that answer with the type they are asked for. -/

namespace Pool

/-- A pool of the first generation in which every entry is the type of its text. -/
structure Faithful (pool : Pool) : Prop where
  first : pool.gen = 0
  entries : ∀ name ty, pool.entries.get? name = some ty → ty.text = name ∧ ty.Proper

variable {pool : Pool}

theorem faithful_empty : empty.Faithful := ⟨rfl, fun _ _ found => by cases found⟩

/-- Where texts tell types apart, a pool that finds each type by its text answers with the type it
is asked for. -/
theorem canonical_keyed {good : Ty → Prop}
    (tells : ∀ a b, good a → good b → a.text = b.text → a = b)
    (entries : ∀ name ty, pool.entries.get? name = some ty → ty.text = name ∧ good ty) {ty : Ty}
    (holds : good ty) :
    (pool.canonical ty).1 = ty ∧ (pool.canonical ty).2.gen = pool.gen ∧
      ∀ name other, (pool.canonical ty).2.entries.get? name = some other → other.text = name ∧
      good other := by
  unfold canonical
  cases found : pool.entries.get? ty.text with
  | some known =>
    obtain ⟨text, knownGood⟩ := entries _ _ found
    exact ⟨tells _ _ knownGood holds text, rfl, entries⟩
  | none =>
    refine ⟨rfl, rfl, ?_⟩
    intro name other found'
    simp only [Table.get?] at found'
    split at found'
    next same =>
      obtain rfl := Option.some.inj found'
      exact ⟨same, holds⟩
    next => exact entries _ _ found'

theorem canonical_eq (faithful : pool.Faithful) {ty : Ty} (proper : ty.Proper) :
    (pool.canonical ty).1 = ty ∧ (pool.canonical ty).2.Faithful := by
  obtain ⟨same, gen, entries⟩ := canonical_keyed (fun _ _ => eq_of_text) faithful.entries proper
  exact ⟨same, gen.trans faithful.first, entries⟩

theorem base_eq (faithful : pool.Faithful) {name : String} (member : name ∈ baseNames) :
    (pool.base name).1 = named name ∧ (pool.base name).2.Faithful := by
  unfold base
  rw [faithful.first]
  exact canonical_eq faithful (proper_named member)

theorem array_eq (faithful : pool.Faithful) {element : Ty} (proper : element.Proper) :
    (pool.array element).1 = .array 0 element ∧ (pool.array element).2.Faithful := by
  unfold array
  rw [faithful.first]
  exact canonical_eq faithful ⟨rfl, proper⟩

theorem map_eq (faithful : pool.Faithful) {key value : Ty} (keyProper : key.Proper)
    (valueProper : value.Proper) :
    (pool.map key value).1 = .map 0 key value ∧ (pool.map key value).2.Faithful := by
  unfold map
  rw [faithful.first]
  exact canonical_eq faithful ⟨rfl, keyProper, valueProper⟩

/-- Joining in a pool finds what the two types agree on. -/
theorem join_eq (faithful : pool.Faithful) {a b : Ty} (left : a.Proper) (right : b.Proper) :
    (pool.join a b).1 = common? a b ∧ (pool.join a b).2.Faithful := by
  fun_induction join a b pool with
  | case1 => exact ⟨(common?_self left.plain_eq).symm, faithful⟩
  | case2 => exact ⟨rfl, faithful⟩
  | case3 => exact ⟨(common?_unknown_right _).symm, faithful⟩
  | case4 => exact ⟨rfl, faithful⟩
  | case5 pool _ _ _ _ _ joined _ ih =>
    obtain ⟨none, after⟩ := ih faithful left.2 right.2
    rw [joined] at none after
    exact ⟨by simp [common?, ← none], after⟩
  | case6 pool _ _ _ _ element _ joined _ ih =>
    obtain ⟨some, after⟩ := ih faithful left.2 right.2
    rw [joined] at some after
    obtain ⟨_, _, proper⟩ := common?_refines left.2 right.2 some.symm
    obtain ⟨result, faithful'⟩ := array_eq after proper
    exact ⟨by simp [common?, ← some, result], faithful'⟩
  | case7 pool _ _ _ _ _ _ _ joined _ ih =>
    obtain ⟨none, after⟩ := ih faithful left.2.1 right.2.1
    rw [joined] at none after
    exact ⟨by simp [common?, ← none], after⟩
  | case8 pool _ _ _ _ _ _ key _ joined _ joined' _ keys values =>
    obtain ⟨some, between⟩ := keys faithful left.2.1 right.2.1
    rw [joined] at some between
    obtain ⟨none, after⟩ := values between left.2.2 right.2.2
    rw [joined'] at none after
    exact ⟨by simp [common?, ← some, ← none], after⟩
  | case9 pool _ _ _ _ _ _ key _ joined value _ joined' _ keys values =>
    obtain ⟨first, between⟩ := keys faithful left.2.1 right.2.1
    rw [joined] at first between
    obtain ⟨second, after⟩ := values between left.2.2 right.2.2
    rw [joined'] at second after
    obtain ⟨_, _, keyProper⟩ := common?_refines left.2.1 right.2.1 first.symm
    obtain ⟨_, _, valueProper⟩ := common?_refines left.2.2 right.2.2 second.symm
    obtain ⟨result, faithful'⟩ := map_eq after keyProper valueProper
    exact ⟨by simp [common?, ← first, ← second, result], faithful'⟩
  | case10 a b pool different noLeft noRight noBases noArrays noMaps =>
    refine ⟨?_, faithful⟩
    cases a <;> cases b
    case base.base => exact (noBases _ _ _ _ rfl rfl).elim
    case array.array => exact (noArrays _ _ _ _ rfl rfl).elim
    case map.map => exact (noMaps _ _ _ _ _ _ rfl rfl).elim
    all_goals first | rfl | exact (noLeft rfl).elim | exact (noRight rfl).elim

end Pool

end ColonScript.Ty
