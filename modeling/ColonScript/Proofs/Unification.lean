import ColonScript.Proofs.Agreement
import ColonScript.Proofs.Instances

/-! Unifying in memory finds the least type that refines both, if any type does. The pool decides
nothing but which instance stands for that type, so that neither the order nor the grouping of what
is unified matters, nor when it is done; nor does it matter that types at one address are not looked
into. -/

namespace ColonScript.Ty

theorem compatible_self (ty : Ty) : ty.compatible ty = true := by
  induction ty with
  | unknown => rfl
  | base => simp [compatible]
  | array _ _ ih => exact ih
  | map _ _ _ keys values => rw [compatible, keys, values, Bool.and_self]

namespace Node

def adopt (part offered : Node) : Option Node :=
  if part = .unknown then some offered
  else if (part.type 0).compatible (offered.type 0) then some part
  else none

theorem adopt_self (part : Node) : part.adopt part = some part := by
  rw [adopt, compatible_self, if_pos rfl, ite_self]

end Node

namespace Memory

/-- Unifying when every pair of types is looked into, those at one address too. A part that is not
known takes over the other one. -/
def rebuild (a b : Node) (memory : Memory) : Option Node × Memory :=
  match a, b with
  | .unknown, .unknown => (some .unknown, memory)
  | .unknown, known => (Node.adopt .unknown known, memory)
  | known, .unknown => (known.adopt known, memory)
  | .base address x, .base _ y => (if x = y then some (.base address x) else none, memory)
  | .array _ x, .array _ y =>
    match rebuild x y memory with
    | (none, memory) => (none, memory)
    | (some element, memory) => (some (memory.array element).1, (memory.array element).2)
  | .map _ k v, .map _ k' v' =>
    match rebuild k k' memory with
    | (none, memory) => (none, memory)
    | (some key, memory) =>
      match rebuild v v' memory with
      | (none, memory) => (none, memory)
      | (some value, memory) => (some (memory.map key value).1, (memory.map key value).2)
  | _, _ => (none, memory)

def goOn (answer : Option Node × Memory) (next : Node → Memory → Option Node × Memory) :
    Option Node × Memory :=
  match answer with
  | (none, memory) => (none, memory)
  | (some node, memory) => next node memory

def unifyLeft (a b c : Node) (memory : Memory) : Option Node × Memory :=
  goOn (memory.unify a b) fun both memory => memory.unify both c

def unifyRight (a b c : Node) (memory : Memory) : Option Node × Memory :=
  goOn (memory.unify b c) fun both memory => memory.unify a both

variable {memory : Memory} {node a b c : Node}

theorem intern_pooled {make : Nat → Node} (pooled : memory.Pooled node)
    (text : (make memory.next).text = node.text) :
    memory.intern make = (node, memory) := by
  rw [intern, text, pooled]

theorem rebuild_self (canonical : memory.Canonical) (known : memory.Known node) :
    memory.rebuild node node = (some node, memory) := by
  induction node with
  | unknown => rfl
  | base => simp only [rebuild, if_true]
  | array address element ih =>
    have pooled := known.resolve_left nofun
    rw [rebuild, ih (canonical.known_of_part known List.mem_cons_self)]
    dsimp only
    rw [Memory.array, intern_pooled pooled rfl]
  | map address key value keys values =>
    have pooled := known.resolve_left nofun
    rw [rebuild, keys (canonical.known_of_part known List.mem_cons_self)]
    dsimp only
    rw [values (canonical.known_of_part known (List.mem_cons_of_mem _ List.mem_cons_self))]
    dsimp only
    rw [Memory.map, intern_pooled pooled rfl]

/-- When the keys of two maps have been unified, the values can be. -/
theorem values_known {address address' : Nat} {k v k' v' : Node} (canonical : memory.Canonical)
    (first : memory.Known (.map address k v)) (second : memory.Known (.map address' k' v')) :
    Joins 0 memory k k' (memory.unify k k') ∧ (memory.unify k k').2.Known v ∧
      (memory.unify k k').2.Known v' := by
  have keeps := keeps_unify k k' memory
  refine ⟨unify_joins 0 canonical (canonical.known_of_part first List.mem_cons_self)
    (canonical.known_of_part second List.mem_cons_self), ?_, ?_⟩
  · exact keeps.known (canonical.known_of_part first (List.mem_cons_of_mem _ List.mem_cons_self))
  · exact keeps.known (canonical.known_of_part second (List.mem_cons_of_mem _ List.mem_cons_self))

/-- Nothing is gained but time by not looking into types at one address. -/
theorem rebuild_eq_unify (canonical : memory.Canonical) (first : memory.Known a)
    (second : memory.Known b) :
    memory.rebuild a b = memory.unify a b := by
  fun_induction unify a b memory with
  | case1 a b memory same =>
    obtain rfl := (canonical.address?_inj first second).mp same
    exact rebuild_self canonical first
  | case2 memory b => cases b <;> rfl
  | case3 memory a =>
    cases a with
    | unknown => rfl
    | base | array | map =>
      rw [rebuild, Node.adopt_self]
      simp
  | case4 => rfl
  | case5 memory address x address' y after unified different ih =>
    rw [rebuild, ih canonical (canonical.known_of_part first List.mem_cons_self)
      (canonical.known_of_part second List.mem_cons_self), unified]
  | case6 memory address x address' y element after unified different ih =>
    rw [rebuild, ih canonical (canonical.known_of_part first List.mem_cons_self)
      (canonical.known_of_part second List.mem_cons_self), unified]
  | case7 memory address k v address' k' v' after unified different ih =>
    rw [rebuild, ih canonical (canonical.known_of_part first List.mem_cons_self)
      (canonical.known_of_part second List.mem_cons_self), unified]
  | case8 memory address k v address' k' v' key middle unified after unified'
    different keys values =>
    obtain ⟨joins, known, known'⟩ := values_known canonical first second
    rw [rebuild, keys canonical (canonical.known_of_part first List.mem_cons_self)
      (canonical.known_of_part second List.mem_cons_self), unified]
    rw [unified] at joins known known'
    dsimp only
    rw [values joins.canonical known known', unified']
  | case9 memory address k v address' k' v' key middle unified value after unified'
    different keys values =>
    obtain ⟨joins, known, known'⟩ := values_known canonical first second
    rw [rebuild, keys canonical (canonical.known_of_part first List.mem_cons_self)
      (canonical.known_of_part second List.mem_cons_self), unified]
    rw [unified] at joins known known'
    dsimp only
    rw [values joins.canonical known known', unified']
  | case10 a b memory different noLeft noRight noBases noArrays noMaps =>
    cases a <;> cases b
    case base.base => exact (noBases _ _ _ _ rfl rfl).elim
    case array.array => exact (noArrays _ _ _ _ rfl rfl).elim
    case map.map => exact (noMaps _ _ _ _ _ _ rfl rfl).elim
    all_goals first | rfl | exact (noLeft rfl).elim | exact (noRight rfl).elim

/-- The answer is the type on which the two agree. -/
theorem type_unify (canonical : memory.Canonical) (first : memory.Known a)
    (second : memory.Known b) :
    (memory.unify a b).1.map (Node.type 0) = common? (a.type 0) (b.type 0) := by
  fun_induction unify a b memory with
  | case1 a b memory same =>
    -- Nodes at one address are not looked into, but they are one node.
    obtain rfl := (canonical.address?_inj first second).mp same
    exact (common?_self (Node.plain_type 0 a)).symm
  | case2 => rfl
  | case3 => exact (common?_unknown_right _).symm
  | case4 memory address x address' y =>
    simp only [Node.type, common?]
    split <;> rfl
  | case5 memory address x address' y after unified different ih =>
    have inner := ih canonical (canonical.known_of_part first List.mem_cons_self)
      (canonical.known_of_part second List.mem_cons_self)
    rw [unified] at inner
    rw [Node.type, Node.type, common?, ← inner]
    rfl
  | case6 memory address x address' y element after unified different ih =>
    have known := canonical.known_of_part first List.mem_cons_self
    have known' := canonical.known_of_part second List.mem_cons_self
    have inner := ih canonical known known'
    have joins := unify_joins 0 canonical known known'
    rw [unified] at inner joins
    have array := (array_gives joins.canonical (joins.known element rfl).1).type 0
    rw [Node.type, Node.type, common?, ← inner, Option.map_some, array]
    rfl
  | case7 memory address k v address' k' v' after unified different ih =>
    have inner := ih canonical (canonical.known_of_part first List.mem_cons_self)
      (canonical.known_of_part second List.mem_cons_self)
    rw [unified] at inner
    rw [Node.type, Node.type, common?, ← inner]
    rfl
  | case8 memory address k v address' k' v' key middle unified after unified'
    different keys values =>
    have first' := keys canonical (canonical.known_of_part first List.mem_cons_self)
      (canonical.known_of_part second List.mem_cons_self)
    obtain ⟨joins, known, known'⟩ := values_known canonical first second
    rw [unified] at first' joins known known'
    have second' := values joins.canonical known known'
    rw [unified'] at second'
    rw [Node.type, Node.type, common?, ← first', ← second']
    rfl
  | case9 memory address k v address' k' v' key middle unified value after unified'
    different keys values =>
    have first' := keys canonical (canonical.known_of_part first List.mem_cons_self)
      (canonical.known_of_part second List.mem_cons_self)
    obtain ⟨joins, known, known'⟩ := values_known canonical first second
    rw [unified] at first' joins known known'
    have second' := values joins.canonical known known'
    have joins' := unify_joins 0 joins.canonical known known'
    have keeps := keeps_unify v v' middle
    rw [unified'] at second' joins' keeps
    have map :=
      (map_gives joins'.canonical (keeps.known (joins.known key rfl).1)
        (joins'.known value rfl).1).type 0
    rw [Node.type, Node.type, common?, ← first', ← second', Option.map_some, map]
    rfl
  | case10 a b memory different noLeft noRight noBases noArrays noMaps =>
    cases a <;> cases b
    case base.base => exact (noBases _ _ _ _ rfl rfl).elim
    case array.array => exact (noArrays _ _ _ _ rfl rfl).elim
    case map.map => exact (noMaps _ _ _ _ _ _ rfl rfl).elim
    all_goals first | rfl | exact (noLeft rfl).elim | exact (noRight rfl).elim

structure Finds (expected : Option Ty) (memory : Memory) (answer : Option Node × Memory) :
    Prop where
  canonical : answer.2.Canonical
  keeps : Keeps memory answer.2
  known : ∀ node, answer.1 = some node → answer.2.Known node
  type : answer.1.map (Node.type 0) = expected

theorem finds_unify (canonical : memory.Canonical) (first : memory.Known a)
    (second : memory.Known b) :
    Finds (common? (a.type 0) (b.type 0)) memory (memory.unify a b) := by
  have joins := unify_joins 0 canonical first second
  exact ⟨joins.canonical, keeps_unify a b memory, fun node unified => (joins.known node unified).1,
    type_unify canonical first second⟩

/-- What is found later is the same instance. -/
theorem Finds.eq_of_keeps {before after : Memory} {expected : Option Ty}
    {answer answer' : Option Node × Memory} (finds : Finds expected before answer)
    (finds' : Finds expected after answer') (keeps : Keeps answer.2 after) :
    answer'.1 = answer.1 := by
  have same := finds'.type.trans finds.type.symm
  cases given : answer.1 with
  | none =>
    rw [given] at same
    exact Option.map_eq_none_iff.mp same
  | some node =>
    rw [given] at same
    obtain ⟨node', given', type⟩ := Option.map_eq_some_iff.mp same
    have known := (keeps.trans finds'.keeps).known (finds.known node given)
    rw [given', (Canonical.type_inj (finds'.known node' given') known 0).mp type]

theorem Finds.goOn {expected : Option Ty} {answer : Option Node × Memory}
    (finds : Finds expected memory answer) {further : Ty → Option Ty}
    {next : Node → Memory → Option Node × Memory}
    (goes : ∀ node, answer.2.Known node → Finds (further (node.type 0)) answer.2
      (next node answer.2)) :
    Finds (expected.bind further) memory (goOn answer next) := by
  obtain ⟨canonical, keeps, known, rfl⟩ := finds
  obtain ⟨given | node, after⟩ := answer
  · exact ⟨canonical, keeps, nofun, rfl⟩
  · have found := goes node (known node rfl)
    exact ⟨found.canonical, keeps.trans found.keeps, found.known, found.type⟩

theorem finds_unifyLeft (canonical : memory.Canonical) (first : memory.Known a)
    (second : memory.Known b) (third : memory.Known c) :
    Finds ((common? (a.type 0) (b.type 0)).bind (common? · (c.type 0))) memory
      (memory.unifyLeft a b c) := by
  have finds := finds_unify canonical first second
  exact finds.goOn fun both known => finds_unify finds.canonical known (finds.keeps.known third)

theorem finds_unifyRight (canonical : memory.Canonical) (first : memory.Known a)
    (second : memory.Known b) (third : memory.Known c) :
    Finds ((common? (b.type 0) (c.type 0)).bind (common? (a.type 0) ·)) memory
      (memory.unifyRight a b c) := by
  have finds := finds_unify canonical second third
  exact finds.goOn fun both known => finds_unify finds.canonical (finds.keeps.known first) known

structure Later (memory after : Memory) : Prop where
  run : ∃ returned, Run returned after
  keeps : Keeps memory after

/-- Any two of the types are unified to the least type that refines both. -/
structure UnifiesToLeast (returned : List Node) (memory : Memory) : Prop where
  answers : ∀ a ∈ returned, ∀ b ∈ returned, List.TFAE [(memory.unify a b).1.isSome = true,
    (a.type 0).compatible (b.type 0) = true, ∃ c, RefinedBy (a.type 0) c ∧ RefinedBy (b.type 0) c]
  least : ∀ a ∈ returned, ∀ b ∈ returned, ∀ node, (memory.unify a b).1 = some node →
    RefinedBy (a.type 0) (node.type 0) ∧ RefinedBy (b.type 0) (node.type 0) ∧
      ∀ c, RefinedBy (a.type 0) c → RefinedBy (b.type 0) c → RefinedBy (node.type 0) c
  symmetric : ∀ a ∈ returned, ∀ b ∈ returned, ∀ after, Later (memory.unify a b).2 after →
    (after.unify b a).1 = (memory.unify a b).1
  associative : ∀ a ∈ returned, ∀ b ∈ returned, ∀ c ∈ returned, ∀ after,
    (Later (memory.unifyLeft a b c).2 after →
      (after.unifyRight a b c).1 = (memory.unifyLeft a b c).1) ∧
        (Later (memory.unifyRight a b c).2 after →
          (after.unifyLeft a b c).1 = (memory.unifyRight a b c).1)
  shortcut : ∀ a ∈ returned, ∀ b ∈ returned, memory.rebuild a b = memory.unify a b
  /-- The pool without addresses joins the types alike. -/
  pool : ∀ a ∈ returned, ∀ b ∈ returned, ∀ gen, (memory.pool gen).join (a.type gen) (b.type gen) =
    ((memory.unify a b).1.map (Node.type gen), (memory.unify a b).2.pool gen)

theorem unifiesToLeast_of_run {returned : List Node} (run : Run returned memory) :
    UnifiesToLeast returned memory := by
  obtain ⟨canonical, pooled⟩ := run.canonical
  have known (node : Node) (member : node ∈ returned) : memory.Known node :=
    .inr (pooled node member)
  constructor
  case answers =>
    intro a first b second
    have type := type_unify canonical (known a first) (known b second)
    have agree : (memory.unify a b).1.isSome = (a.type 0).compatible (b.type 0) := by
      rw [← isSome_common?, ← type, Option.isSome_map]
    tfae_have 1 ↔ 2 := by rw [agree]
    tfae_have 1 → 3 := by
      intro unified
      obtain ⟨node, given⟩ := Option.isSome_iff_exists.mp unified
      rw [given] at type
      obtain ⟨above, above', _⟩ :=
        common?_bounds (Node.plain_type 0 a) (Node.plain_type 0 b) type.symm
      exact ⟨node.type 0, above, above'⟩
    tfae_have 3 → 2 := by
      rintro ⟨c, above, above'⟩
      obtain ⟨both, common, _⟩ := common?_least (Node.plain_type 0 a) above above'
      rw [← isSome_common?, common]
      rfl
    tfae_finish
  case least =>
    intro a first b second node unified
    have type := type_unify canonical (known a first) (known b second)
    rw [unified] at type
    exact (common?_eq_some_iff (Node.plain_type 0 a) (Node.plain_type 0 b)).mp type.symm
  case symmetric =>
    rintro a first b second after ⟨⟨_, run'⟩, keeps⟩
    have finds := finds_unify canonical (known a first) (known b second)
    have keeps' := finds.keeps.trans keeps
    have finds' := finds_unify run'.canonical.1 (keeps'.known (known b second))
      (keeps'.known (known a first))
    rw [common?_comm (Node.plain_type 0 b) (Node.plain_type 0 a)] at finds'
    exact finds.eq_of_keeps finds' keeps
  case associative =>
    intro a first b second c third after
    have assoc := common?_assoc (Node.plain_type 0 a) (Node.plain_type 0 b) (Node.plain_type 0 c)
    have left := finds_unifyLeft canonical (known a first) (known b second) (known c third)
    have right := finds_unifyRight canonical (known a first) (known b second) (known c third)
    constructor
    · rintro ⟨⟨_, run'⟩, keeps⟩
      have keeps' := left.keeps.trans keeps
      have finds := finds_unifyRight run'.canonical.1 (keeps'.known (known a first))
        (keeps'.known (known b second))
        (keeps'.known (known c third))
      rw [← assoc] at finds
      exact left.eq_of_keeps finds keeps
    · rintro ⟨⟨_, run'⟩, keeps⟩
      have keeps' := right.keeps.trans keeps
      have finds := finds_unifyLeft run'.canonical.1 (keeps'.known (known a first))
        (keeps'.known (known b second))
        (keeps'.known (known c third))
      rw [assoc] at finds
      exact right.eq_of_keeps finds keeps
  case shortcut =>
    exact fun a first b second => rebuild_eq_unify canonical (known a first) (known b second)
  case pool =>
    exact fun a first b second gen =>
      (unify_joins gen canonical (known a first) (known b second)).pool

/-- A map with known keys and one with known values. -/
theorem unifiesToLeast_of_run_halves :
    let int := (Memory.mk 0 []).reset.base "int"
    let bool := int.2.base "bool"
    let keys := bool.2.map int.1 .unknown
    let values := keys.2.map .unknown bool.1
    UnifiesToLeast [values.1, keys.1, bool.1, int.1] values.2 := by
  intro int bool keys values
  have first : Run [int.1] int.2 :=
    .step (.reset ⟨0, []⟩) (show Operation.Allowed [] (.base "int") from
      plainName_of_baseNames (by decide))
  have second : Run [bool.1, int.1] bool.2 :=
    .step first (show Operation.Allowed _ (.base "bool") from plainName_of_baseNames (by decide))
  have third : Run [keys.1, bool.1, int.1] keys.2 :=
    .step second (show Operation.Allowed [bool.1, int.1] (.map int.1 .unknown) from
      ⟨.inr (List.mem_cons_of_mem _ List.mem_cons_self), .inl rfl⟩)
  have fourth : Run [values.1, keys.1, bool.1, int.1] values.2 :=
    .step third (show Operation.Allowed [keys.1, bool.1, int.1] (.map .unknown bool.1) from
      ⟨.inl rfl, .inr (List.mem_cons_of_mem _ List.mem_cons_self)⟩)
  exact unifiesToLeast_of_run fourth

/-- A base that has the text of a map is taken for that map: then the answer refines neither of the
two types. -/
theorem unify_base_with_text_of_map :
    let taken := (Memory.mk 0 []).reset.base "int[bool]"
    let int := taken.2.base "int"
    let bool := int.2.base "bool"
    let keys := bool.2.map int.1 .unknown
    let values := keys.2.map .unknown bool.1
    keys.1.type 0 = .map 0 (.named "int") .unknown ∧
      values.1.type 0 = .map 0 .unknown (.named "bool") ∧
      ∃ node, (values.2.unify keys.1 values.1).1 = some node ∧
        ¬ RefinedBy (keys.1.type 0) (node.type 0) ∧
        ¬ RefinedBy (values.1.type 0) (node.type 0) := by
  intro taken int bool keys values
  have withKey : keys.1.type 0 = .map 0 (.named "int") .unknown := by decide +kernel
  have withValue : values.1.type 0 = .map 0 .unknown (.named "bool") := by decide +kernel
  have unified : (values.2.unify keys.1 values.1).1 = some taken.1 := by decide +kernel
  refine ⟨withKey, withValue, taken.1, unified, ?_, ?_⟩
  · rw [withKey]
    exact nofun
  · rw [withValue]
    exact nofun

end Memory

end ColonScript.Ty
