import Mathlib.Tactic.TFAE
import ColonScript.Proofs.Memory

/-! Instances of types. Without addresses, types are one instance when they are equal: what is done
to the pool in memory is done to the pool without addresses alike, and finds the same types to be
one. -/

namespace ColonScript.Ty

namespace Pool
variable (pool : Pool) (gen gen' : Nat)

theorem join_self (ty : Ty) : pool.join ty ty = (some ty, pool) := by
  rw [join.eq_def, if_pos rfl]

theorem join_unknown_left (ty : Ty) : pool.join .unknown ty = (some ty, pool) := by
  rw [join.eq_def]
  split
  next same => rw [same]
  next => rfl

theorem join_unknown_right (ty : Ty) : pool.join ty .unknown = (some ty, pool) := by
  rw [join.eq_def]
  split
  next => rfl
  next => cases ty <;> rfl

theorem join_base (x y : String) :
    pool.join (.base gen x) (.base gen' y) =
      (if x = y then some (.base gen x) else none, pool) := by
  rw [join.eq_def]
  split
  next same =>
    obtain ⟨_, rfl⟩ := Ty.base.inj same
    rw [if_pos rfl]
  next => rfl

theorem join_array {x y : Ty} (different : Ty.array gen x ≠ .array gen' y) :
    pool.join (.array gen x) (.array gen' y) =
      match pool.join x y with
      | (none, pool) => (none, pool)
      | (some element, pool) => (some (pool.array element).1, (pool.array element).2) :=
  (join.eq_def ..).trans (if_neg different)

theorem join_map {k v k' v' : Ty} (different : Ty.map gen k v ≠ .map gen' k' v') :
    pool.join (.map gen k v) (.map gen' k' v') =
      match pool.join k k' with
      | (none, pool) => (none, pool)
      | (some key, pool) =>
        match pool.join v v' with
        | (none, pool) => (none, pool)
        | (some value, pool) => (some (pool.map key value).1, (pool.map key value).2) :=
  (join.eq_def ..).trans (if_neg different)
end Pool

namespace Memory

variable {memory : Memory} {gen : Nat} {node a b : Node}

/-! The pool without the addresses. -/

theorem get?_pool (gen : Nat) (memory : Memory) (key : String) :
    (memory.pool gen).entries.get? key = (memory.entries.get? key).map (Node.type gen) := by
  unfold pool
  induction memory.entries with
  | nil => rfl
  | cons entry rest ih =>
    simp only [List.map_cons, Table.get?]
    split
    next => rfl
    next => exact ih

theorem canonical_pool (gen : Nat) (make : Nat → Node) (memory : Memory) :
    (memory.pool gen).canonical ((make memory.next).type gen) =
      ((memory.intern make).1.type gen, (memory.intern make).2.pool gen) := by
  unfold Pool.canonical intern
  rw [Node.text_type, get?_pool]
  cases memory.entries.get? (make memory.next).text with
  | some known => rfl
  | none => rfl

theorem base_pool (gen : Nat) (name : String) (memory : Memory) :
    (memory.pool gen).base name = ((memory.base name).1.type gen, (memory.base name).2.pool gen) :=
  canonical_pool gen (.base · name) memory

theorem array_pool (gen : Nat) (element : Node) (memory : Memory) :
    (memory.pool gen).array (element.type gen) =
      ((memory.array element).1.type gen, (memory.array element).2.pool gen) :=
  canonical_pool gen (.array · element) memory

theorem map_pool (gen : Nat) (key value : Node) (memory : Memory) :
    (memory.pool gen).map (key.type gen) (value.type gen) =
      ((memory.map key value).1.type gen, (memory.map key value).2.pool gen) :=
  canonical_pool gen (.map · key value) memory

/-- Emptying the pool opens the next generation. -/
theorem reset_pool (gen : Nat) (memory : Memory) :
    memory.reset.pool (gen + 1) = (memory.pool gen).reset := rfl

/-! Unification. -/

theorem keeps_unify (a b : Node) (memory : Memory) : Keeps memory (memory.unify a b).2 := by
  fun_induction unify a b memory with
  | case1 => exact .refl _
  | case2 => exact .refl _
  | case3 => exact .refl _
  | case4 => exact .refl _
  | case5 _ _ _ _ _ _ unified _ ih =>
    rw [unified] at ih
    exact ih
  | case6 _ _ _ _ _ element after unified _ ih =>
    rw [unified] at ih
    exact ih.trans (keeps_intern (.array · element) after)
  | case7 _ _ _ _ _ _ _ _ unified _ ih =>
    rw [unified] at ih
    exact ih
  | case8 _ _ _ _ _ _ _ key _ unified after unified' _ keys values =>
    rw [unified] at keys
    rw [unified'] at values
    exact keys.trans values
  | case9 _ _ _ _ _ _ _ key _ unified value after unified' _ keys values =>
    rw [unified] at keys
    rw [unified'] at values
    exact (keys.trans values).trans (keeps_intern (.map · key value) after)
  | case10 => exact .refl _

theorem Canonical.known_of_part (canonical : memory.Canonical) (known : memory.Known node)
    {part : Node} (member : part ∈ node.parts) : memory.Known part := by
  obtain rfl | pooled := known
  · cases member
  · exact canonical.parts pooled part member

theorem Canonical.type_ne (first : memory.Known a) (second : memory.Known b)
    (different : a.address? ≠ b.address?) (gen : Nat) : a.type gen ≠ b.type gen :=
  fun same => different (congrArg Node.address? ((type_inj first second gen).mp same))

structure Joins (gen : Nat) (memory : Memory) (a b : Node) (answer : Option Node × Memory) :
    Prop where
  canonical : answer.2.Canonical
  known : ∀ node, answer.1 = some node → answer.2.Known node ∧ (a ≠ .unknown → node ≠ .unknown)
  pool : (memory.pool gen).join (a.type gen) (b.type gen) =
    (answer.1.map (Node.type gen), answer.2.pool gen)

theorem Joins.pooled {answer : Node × Memory} (gives : Gives node answer)
    (pool : (memory.pool gen).join (a.type gen) (b.type gen) =
      (some (answer.1.type gen), answer.2.pool gen)) :
    Joins gen memory a b (some answer.1, answer.2) where
  canonical := gives.canonical
  known := by
    rintro node ⟨⟩
    exact ⟨.inr gives.pooled, fun _ => gives.canonical.ne_unknown gives.pooled⟩
  pool := pool

/-- One of the two types is the answer, and nothing is put into the pool. -/
theorem Joins.same (canonical : memory.Canonical) (known : memory.Known node)
    (resolved : a ≠ .unknown → node ≠ .unknown)
    (pool : (memory.pool gen).join (a.type gen) (b.type gen) =
      (some (node.type gen), memory.pool gen)) :
    Joins gen memory a b (some node, memory) where
  canonical := canonical
  known := by
    rintro _ ⟨⟩
    exact ⟨known, resolved⟩
  pool := pool

theorem Joins.none {after : Memory} (canonical : after.Canonical)
    (pool : (memory.pool gen).join (a.type gen) (b.type gen) = (Option.none, after.pool gen)) :
    Joins gen memory a b (Option.none, after) where
  canonical := canonical
  known := fun _ given => nomatch given
  pool := pool

/-! Two containers of one kind, whose parts have been unified. -/

section
variable {address address' : Nat} {x y k v k' v' key value element : Node} {middle after : Memory}

theorem Joins.array_none
    (different : (Node.array address x).type gen ≠ (Node.array address' y).type gen)
    (inner : Joins gen memory x y (Option.none, after)) :
    Joins gen memory (.array address x) (.array address' y) (Option.none, after) := by
  refine .none inner.canonical ?_
  rw [Node.type, Node.type, Pool.join_array _ _ _ different, inner.pool]
  rfl

theorem Joins.array_some
    (different : (Node.array address x).type gen ≠ (Node.array address' y).type gen)
    (inner : Joins gen memory x y (some element, after)) :
    Joins gen memory (.array address x) (.array address' y)
      (some (after.array element).1, (after.array element).2) := by
  refine .pooled (array_gives inner.canonical (inner.known element rfl).1) ?_
  rw [Node.type, Node.type, Pool.join_array _ _ _ different, inner.pool]
  simp only [Option.map_some, array_pool]

theorem Joins.map_noKey
    (different : (Node.map address k v).type gen ≠ (Node.map address' k' v').type gen)
    (keys : Joins gen memory k k' (Option.none, after)) :
    Joins gen memory (.map address k v) (.map address' k' v') (Option.none, after) := by
  refine .none keys.canonical ?_
  rw [Node.type, Node.type, Pool.join_map _ _ _ different, keys.pool]
  rfl

theorem Joins.map_noValue
    (different : (Node.map address k v).type gen ≠ (Node.map address' k' v').type gen)
    (keys : Joins gen memory k k' (some key, middle))
    (values : Joins gen middle v v' (Option.none, after)) :
    Joins gen memory (.map address k v) (.map address' k' v') (Option.none, after) := by
  refine .none values.canonical ?_
  rw [Node.type, Node.type, Pool.join_map _ _ _ different, keys.pool]
  simp only [Option.map_some, values.pool, Option.map_none]

theorem Joins.map_some
    (different : (Node.map address k v).type gen ≠ (Node.map address' k' v').type gen)
    (keys : Joins gen memory k k' (some key, middle))
    (values : Joins gen middle v v' (some value, after))
    (keeps : Keeps middle after) :
    Joins gen memory (.map address k v) (.map address' k' v')
      (some (after.map key value).1, (after.map key value).2) := by
  refine .pooled (map_gives values.canonical (keeps.known (keys.known key rfl).1)
    (values.known value rfl).1) ?_
  rw [Node.type, Node.type, Pool.join_map _ _ _ different, keys.pool]
  simp only [Option.map_some, values.pool, map_pool]

end

theorem unify_joins (gen : Nat) (canonical : memory.Canonical) (first : memory.Known a)
    (second : memory.Known b) :
    Joins gen memory a b (memory.unify a b) := by
  fun_induction unify a b memory with
  | case1 a b memory same =>
    obtain rfl := (canonical.address?_inj first second).mp same
    exact .same canonical first id (Pool.join_self _ _)
  | case2 memory b =>
    exact .same canonical second (fun resolved => absurd rfl resolved) (Pool.join_unknown_left _ _)
  | case3 memory a => exact .same canonical first id (Pool.join_unknown_right _ _)
  | case4 memory address x address' y =>
    have joined := Pool.join_base (memory.pool gen) gen gen x y
    split
    next same => exact .same canonical first id (by rwa [if_pos same] at joined)
    next unlike => exact .none canonical (by rwa [if_neg unlike] at joined)
  | case5 memory address x address' y after unified different ih =>
    have inner := ih canonical (canonical.known_of_part first (by simp [Node.parts]))
      (canonical.known_of_part second (by simp [Node.parts]))
    exact .array_none (Canonical.type_ne first second different gen) (unified ▸ inner)
  | case6 memory address x address' y element after unified different ih =>
    have inner := ih canonical (canonical.known_of_part first (by simp [Node.parts]))
      (canonical.known_of_part second (by simp [Node.parts]))
    exact .array_some (Canonical.type_ne first second different gen) (unified ▸ inner)
  | case7 memory address k v address' k' v' after unified different ih =>
    have keys := ih canonical (canonical.known_of_part first (by simp [Node.parts]))
      (canonical.known_of_part second (by simp [Node.parts]))
    exact .map_noKey (Canonical.type_ne first second different gen) (unified ▸ keys)
  | case8 memory address k v address' k' v' key middle unified after unified' different keys values
  | case9 memory address k v address' k' v' key middle unified value after unified'
    different keys values =>
    have keys := keys canonical (canonical.known_of_part first (by simp [Node.parts]))
      (canonical.known_of_part second (by simp [Node.parts]))
    have keeps := keeps_unify k k' memory
    rw [unified] at keys keeps
    have values :=
      values keys.canonical (keeps.known (canonical.known_of_part first (by simp [Node.parts])))
      (keeps.known (canonical.known_of_part second (by simp [Node.parts])))
    have keeps' := keeps_unify v v' middle
    rw [unified'] at values keeps'
    first
      | exact .map_noValue (Canonical.type_ne first second different gen) keys values
      | exact .map_some (Canonical.type_ne first second different gen) keys values keeps'
  | case10 a b memory different noLeft noRight noBases noArrays noMaps =>
    refine .none canonical ?_
    have types := Canonical.type_ne first second different gen
    rw [Pool.join.eq_def, if_neg types]
    cases a <;> cases b
    case base.base => exact (noBases _ _ _ _ rfl rfl).elim
    case array.array => exact (noArrays _ _ _ _ rfl rfl).elim
    case map.map => exact (noMaps _ _ _ _ _ _ rfl rfl).elim
    all_goals first | rfl | exact (noLeft rfl).elim | exact (noRight rfl).elim

/-! Histories. -/

inductive Operation
  | base (name : String)
  | array (element : Node)
  | map (key value : Node)
  | unify (a b : Node)
  | equals (a b : Node)

namespace Operation

def perform (memory : Memory) : Operation → Option Node × Memory
  | base name => (some (memory.base name).1, (memory.base name).2)
  | array element => (some (memory.array element).1, (memory.array element).2)
  | map key value => (some (memory.map key value).1, (memory.map key value).2)
  | unify a b => memory.unify a b
  | equals a b => (none, (memory.equals a b).2)

def performIn (gen : Nat) (pool : Pool) : Operation → Option Ty × Pool
  | base name => (some (pool.base name).1, (pool.base name).2)
  | array element => (some (pool.array (element.type gen)).1, (pool.array (element.type gen)).2)
  | map key value =>
    (some (pool.map (key.type gen) (value.type gen)).1,
      (pool.map (key.type gen) (value.type gen)).2)
  | unify a b => pool.join (a.type gen) (b.type gen)
  | equals a b => (none, (pool.agree (a.type gen) (b.type gen)).2)

def names? (gen : Nat) : Operation → Option Ty
  | base name => some (.base gen name)
  | array element => some (.array gen (element.type gen))
  | map key value => some (.map gen (key.type gen) (value.type gen))
  | _ => none

/-- The operation is about plain names, earlier types and parts that are not known. -/
def Allowed (returned : List Node) : Operation → Prop
  | base name => PlainName name
  | array element => element = .unknown ∨ element ∈ returned
  | map key value => (key = .unknown ∨ key ∈ returned) ∧ (value = .unknown ∨ value ∈ returned)
  | unify a b => a ∈ returned ∧ b ∈ returned
  | equals a b => a ∈ returned ∧ b ∈ returned

end Operation

theorem Operation.keeps (operation : Operation) (memory : Memory) :
    Keeps memory (operation.perform memory).2 := by
  cases operation with
  | base name => exact keeps_intern (.base · name) memory
  | array element => exact keeps_intern (.array · element) memory
  | map key value => exact keeps_intern (.map · key value) memory
  | unify a b => exact keeps_unify a b memory
  | equals a b => exact keeps_unify a b memory

structure Performs (memory : Memory) (operation : Operation) : Prop where
  canonical : (operation.perform memory).2.Canonical
  pooled : ∀ node, (operation.perform memory).1 = some node →
    (operation.perform memory).2.Pooled node
  pool : ∀ gen, operation.performIn gen (memory.pool gen) =
    ((operation.perform memory).1.map (Node.type gen), (operation.perform memory).2.pool gen)
  named : ∀ gen type, operation.names? gen = some type →
    ∃ node, (operation.perform memory).1 = some node ∧ node.type gen = type

theorem Performs.of_gives {operation : Operation} {answer : Node × Memory}
    (gives : Gives node answer) (performs : operation.perform memory = (some answer.1, answer.2))
    (pool : ∀ gen, operation.performIn gen (memory.pool gen) =
      (some (answer.1.type gen), answer.2.pool gen))
    (names : ∀ gen, operation.names? gen = some (node.type gen)) : Performs memory operation := by
  constructor
  case canonical =>
    rw [performs]
    exact gives.canonical
  case pooled =>
    rw [performs]
    rintro _ ⟨⟩
    exact gives.pooled
  case pool =>
    intro gen
    rw [performs]
    exact pool gen
  case named =>
    intro gen type named
    rw [names] at named
    obtain rfl := Option.some.inj named
    exact ⟨answer.1, by rw [performs], gives.type gen⟩

theorem performs_of_allowed (canonical : memory.Canonical) {returned : List Node}
    (pooled : ∀ node ∈ returned, memory.Pooled node) {operation : Operation}
    (allowed : operation.Allowed returned) :
    Performs memory operation := by
  have known (part : Node) (earlier : part = .unknown ∨ part ∈ returned) : memory.Known part :=
    earlier.imp_right (pooled part)
  cases operation with
  | base name =>
    refine .of_gives (base_gives canonical allowed) rfl (fun gen => ?_) fun _ => rfl
    rw [Operation.performIn, base_pool]
  | array element =>
    refine .of_gives (array_gives canonical (known element allowed)) rfl (fun gen => ?_) fun _ =>
      rfl
    rw [Operation.performIn, array_pool]
  | map key value =>
    refine .of_gives (map_gives canonical (known key allowed.1) (known value allowed.2)) rfl
      (fun gen => ?_) fun _ => rfl
    rw [Operation.performIn, map_pool]
  | unify a b =>
    have joins (gen : Nat) :=
      unify_joins gen canonical (.inr (pooled a allowed.1)) (.inr (pooled b allowed.2))
    refine ⟨(joins 0).canonical, fun node given => ?_, fun gen => (joins gen).pool,
      fun _ _ named => nomatch named⟩
    obtain ⟨known, resolved⟩ := (joins 0).known node given
    exact known.resolve_left (resolved (canonical.ne_unknown (pooled a allowed.1)))
  | equals a b =>
    have joins (gen : Nat) :=
      unify_joins gen canonical (.inr (pooled a allowed.1)) (.inr (pooled b allowed.2))
    refine ⟨(joins 0).canonical, fun _ given => (nomatch given), fun gen => ?_,
      fun _ _ named => nomatch named⟩
    rw [Operation.performIn, Pool.agree, (joins gen).pool]
    rfl

/-- The types that operations have returned since the pool was last emptied, and the pool behind
them. -/
inductive Run : List Node → Memory → Prop where
  | reset (memory : Memory) : Run [] memory.reset
  | step {returned : List Node} {memory : Memory} (run : Run returned memory)
      {operation : Operation} (allowed : operation.Allowed returned) :
      Run ((operation.perform memory).1.toList ++ returned) (operation.perform memory).2

theorem Run.canonical {returned : List Node} (run : Run returned memory) :
    memory.Canonical ∧ ∀ node ∈ returned, memory.Pooled node := by
  induction run with
  | reset memory => exact ⟨canonical_reset memory, fun _ member => nomatch member⟩
  | @step returned memory _ operation allowed ih =>
    obtain ⟨canonical, pooled⟩ := ih
    have performs := performs_of_allowed canonical pooled allowed
    refine ⟨performs.canonical, fun node member => ?_⟩
    obtain given | earlier := List.mem_append.mp member
    · exact performs.pooled node (Option.mem_toList.mp given)
    · exact operation.keeps memory _ _ (pooled node earlier)

/-- Types are canonical: what the pool has returned is one instance for one type and one text. -/
structure OneInstance (returned : List Node) (memory : Memory) : Prop where
  same : ∀ a ∈ returned, ∀ b ∈ returned, ∀ gen,
    List.TFAE [a.address? = b.address?, a.type gen = b.type gen,
    (a.type gen).Alike (b.type gen), (a.type gen).text = (b.type gen).text]
  keyed : ∀ key node, memory.entries.get? key = some node → node.text = key
  parts : ∀ key node, memory.entries.get? key = some node → ∀ part ∈ node.parts, part ≠ .unknown →
    memory.entries.get? part.text = some part
  lasting : ∀ (operation : Operation) key node, memory.entries.get? key = some node →
    (operation.perform memory).2.entries.get? key = some node
  /-- The types that are asked for by name are given. -/
  named : ∀ operation : Operation, operation.Allowed returned →
  ∀ gen type, operation.names? gen = some type →
    ∃ node, (operation.perform memory).1 = some node ∧ node.type gen = type
  /-- The pool without addresses goes through the same. -/
  pool : ∀ operation : Operation, operation.Allowed returned →
  ∀ gen, operation.performIn gen (memory.pool gen) =
    ((operation.perform memory).1.map (Node.type gen), (operation.perform memory).2.pool gen)

theorem oneInstance_of_run {returned : List Node} (run : Run returned memory) :
    OneInstance returned memory := by
  obtain ⟨canonical, pooled⟩ := run.canonical
  constructor
  case same =>
    intro a first b second gen
    have addresses := canonical.address?_inj (.inr (pooled a first)) (.inr (pooled b second))
    have types := Canonical.type_inj (.inr (pooled a first)) (.inr (pooled b second)) gen
    tfae_have 1 ↔ 2 := addresses.trans types.symm
    tfae_have 2 → 3 := congrArg Ty.plain
    tfae_have 3 → 4 := fun alike => by rw [← text_plain, alike, text_plain]
    tfae_have 4 → 1 := by
      intro texts
      rw [Node.text_type, Node.text_type] at texts
      exact congrArg _ (Canonical.pooled_of_text (pooled a first) (pooled b second) texts)
    tfae_finish
  case keyed => exact fun _ _ found => canonical.keyed found
  case parts =>
    exact fun _ _ found part member known => (canonical.parts found part member).resolve_left known
  case lasting => exact fun operation key node found => operation.keeps memory key node found
  case named => exact fun _ allowed => (performs_of_allowed canonical pooled allowed).named
  case pool => exact fun _ allowed => (performs_of_allowed canonical pooled allowed).pool

/-- An array of integers and an empty one are unified. -/
theorem oneInstance_of_run_filled :
    let int := (Memory.mk 0 []).reset.base "int"
    let integers := int.2.array int.1
    let nothing := integers.2.array .unknown
    let unified := nothing.2.unify integers.1 nothing.1
    OneInstance (unified.1.toList ++ [nothing.1, integers.1, int.1]) unified.2 := by
  intro int integers nothing unified
  have named : Run [int.1] int.2 :=
    .step (.reset ⟨0, []⟩) (show Operation.Allowed [] (.base "int") from
      plainName_of_baseNames (by decide))
  have filled : Run [integers.1, int.1] integers.2 :=
    .step named (show Operation.Allowed [int.1] (.array int.1) from .inr List.mem_cons_self)
  have empty : Run [nothing.1, integers.1, int.1] nothing.2 :=
    .step filled (show Operation.Allowed _ (.array .unknown) from .inl rfl)
  have earlier : Operation.Allowed [nothing.1, integers.1, int.1] (.unify integers.1 nothing.1) :=
    ⟨List.mem_cons_of_mem _ List.mem_cons_self, List.mem_cons_self⟩
  exact oneInstance_of_run (.step empty earlier)

end Memory

end ColonScript.Ty
