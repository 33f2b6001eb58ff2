import ColonScript.Proofs.Types

/-! Types in memory, each at an address of its own. A pool that looks types up by their text has one
address for one text, and as the texts of types tell them apart, for one type. -/

namespace ColonScript.Ty

/-- A type in memory. Each part is a type of its own, or not known. -/
inductive Node
  | unknown
  | base (address : Nat) (name : String)
  | array (address : Nat) (element : Node)
  | map (address : Nat) (key value : Node)
  deriving DecidableEq, Repr

namespace Node

def address? : Node → Option Nat
  | unknown => none
  | base address _ => some address
  | array address _ => some address
  | map address _ _ => some address

def parts : Node → List Node
  | unknown => []
  | base _ _ => []
  | array _ element => [element]
  | map _ key value => [key, value]

def type (gen : Nat) : Node → Ty
  | unknown => .unknown
  | base _ name => .base gen name
  | array _ element => .array gen (element.type gen)
  | map _ key value => .map gen (key.type gen) (value.type gen)

def text (node : Node) : String := (node.type 0).text

def Plain : Node → Prop
  | unknown => True
  | base _ name => PlainName name
  | array _ element => element.Plain
  | map _ key value => key.Plain ∧ value.Plain

theorem Plain.legible {node : Node} (plain : node.Plain) (gen : Nat) :
    (node.type gen).Legible gen := by
  induction node with
  | unknown => trivial
  | base => exact ⟨rfl, plain⟩
  | array _ _ ih => exact ⟨rfl, ih plain⟩
  | map _ _ _ keys values => exact ⟨rfl, keys plain.1, values plain.2⟩

theorem plain_type (gen : Nat) (node : Node) : (node.type gen).plain = node.type 0 := by
  induction node with
  | unknown => rfl
  | base => rfl
  | array _ _ ih => rw [type, plain, ih, type]
  | map _ _ _ keys values => rw [type, plain, keys, values, type]

theorem text_type (gen : Nat) (node : Node) : (node.type gen).text = node.text := by
  rw [← text_plain, plain_type, text]

end Node

/-- A pool in memory, with the address that comes next. -/
structure Memory where
  next : Nat
  entries : Table Node

namespace Memory

def reset (memory : Memory) : Memory := { memory with entries := [] }

def intern (make : Nat → Node) (memory : Memory) : Node × Memory :=
  match memory.entries.get? (make memory.next).text with
  | some known => (known, memory)
  | none =>
    (make memory.next,
      ⟨memory.next + 1, ((make memory.next).text, make memory.next) :: memory.entries⟩)

def base (name : String) (memory : Memory) : Node × Memory := memory.intern (.base · name)

def array (element : Node) (memory : Memory) : Node × Memory := memory.intern (.array · element)

def map (key value : Node) (memory : Memory) : Node × Memory := memory.intern (.map · key value)

def unify (a b : Node) (memory : Memory) : Option Node × Memory :=
  if a.address? = b.address? then (some a, memory)
  else match a, b with
    | .unknown, b => (some b, memory)
    | a, .unknown => (some a, memory)
    | .base address x, .base _ y => (if x = y then some (.base address x) else none, memory)
    | .array _ x, .array _ y =>
      match unify x y memory with
      | (none, memory) => (none, memory)
      | (some element, memory) => (some (memory.array element).1, (memory.array element).2)
    | .map _ k v, .map _ k' v' =>
      match unify k k' memory with
      | (none, memory) => (none, memory)
      | (some key, memory) =>
        match unify v v' memory with
        | (none, memory) => (none, memory)
        | (some value, memory) => (some (memory.map key value).1, (memory.map key value).2)
    | _, _ => (none, memory)

def equals (a b : Node) (memory : Memory) : Bool × Memory :=
  ((memory.unify a b).1.isSome, (memory.unify a b).2)

def pool (gen : Nat) (memory : Memory) : Pool :=
  ⟨gen, memory.entries.map fun entry => (entry.1, entry.2.type gen)⟩

variable {memory : Memory} {gen : Nat} {node a b : Node}

/-- The node is the one that the pool has for its text. -/
def Pooled (memory : Memory) (node : Node) : Prop := memory.entries.get? node.text = some node

def Known (memory : Memory) (part : Node) : Prop := part = .unknown ∨ memory.Pooled part

def Keeps (before after : Memory) : Prop :=
  ∀ key node, before.entries.get? key = some node → after.entries.get? key = some node

theorem Keeps.refl (memory : Memory) : Keeps memory memory := fun _ _ found => found

theorem Keeps.trans {first second third : Memory} (keeps : Keeps first second)
    (keeps' : Keeps second third) :
    Keeps first third := fun key node found => keeps' key node (keeps key node found)

theorem Keeps.known {after : Memory} (keeps : Keeps memory after) {part : Node}
    (known : memory.Known part) :
    after.Known part :=
  known.imp_right fun pooled => keeps _ _ pooled

theorem keeps_intern (make : Nat → Node) (memory : Memory) :
    Keeps memory (memory.intern make).2 := by
  unfold intern
  cases found : memory.entries.get? (make memory.next).text with
  | some known => exact .refl memory
  | none =>
    intro key node held
    have other : (make memory.next).text ≠ key := by
      rintro rfl
      rw [found] at held
      cases held
    simpa only [Table.get?, other, if_false] using held

structure Canonical (memory : Memory) : Prop where
  keyed : ∀ {key node}, memory.entries.get? key = some node → node.text = key
  parts : ∀ {key node}, memory.entries.get? key = some node → ∀ part ∈ node.parts, memory.Known part
  placed : ∀ {key node}, memory.entries.get? key = some node → ∃ address < memory.next,
    node.address? = some address
  apart : ∀ {key other node node'}, memory.entries.get? key = some node →
    memory.entries.get? other = some node' →
    node.address? = node'.address? → node = node'
  plain : ∀ {key node}, memory.entries.get? key = some node → node.Plain

theorem canonical_reset (memory : Memory) : memory.reset.Canonical where
  keyed := fun found => nomatch found
  parts := fun found => nomatch found
  placed := fun found => nomatch found
  apart := fun found => nomatch found
  plain := fun found => nomatch found

namespace Canonical

theorem pooled_of_get? (canonical : memory.Canonical) {key : String}
    (found : memory.entries.get? key = some node) :
    memory.Pooled node := by
  rw [Pooled, canonical.keyed found, found]

theorem ne_unknown (canonical : memory.Canonical) (pooled : memory.Pooled node) :
    node ≠ .unknown := by
  rintro rfl
  obtain ⟨address, _, placed⟩ := canonical.placed pooled
  cases placed

theorem plain_of_known (canonical : memory.Canonical) (known : memory.Known node) : node.Plain := by
  obtain rfl | pooled := known
  · trivial
  · exact canonical.plain pooled

theorem pooled_of_text (first : memory.Pooled a) (second : memory.Pooled b)
    (same : a.text = b.text) : a = b := by
  rw [Pooled, same] at first
  exact Option.some.inj (first.symm.trans second)

/-- Known parts are one instance, or of one type, only if they are the same. -/
theorem address?_inj (canonical : memory.Canonical) (first : memory.Known a)
    (second : memory.Known b) :
    a.address? = b.address? ↔ a = b := by
  refine ⟨fun same => ?_, congrArg _⟩
  obtain rfl | pooled := first
  · obtain rfl | pooled' := second
    · rfl
    · obtain ⟨address, _, placed⟩ := canonical.placed pooled'
      rw [placed] at same
      cases same
  · obtain rfl | pooled' := second
    · obtain ⟨address, _, placed⟩ := canonical.placed pooled
      rw [placed] at same
      cases same
    · exact canonical.apart pooled pooled' same

theorem type_inj (first : memory.Known a) (second : memory.Known b) (gen : Nat) :
    a.type gen = b.type gen ↔ a = b := by
  refine ⟨fun same => ?_, congrArg _⟩
  have texts : a.text = b.text := by rw [← Node.text_type gen, same, Node.text_type]
  obtain rfl | pooled := first
  · cases b with
    | unknown => rfl
    | _ => cases same
  · obtain rfl | pooled' := second
    · cases a with
      | unknown => rfl
      | _ => cases same
    · exact pooled_of_text pooled pooled' texts

end Canonical

/-! What an operation gives, with the pool behind it. -/

structure Gives (node : Node) (answer : Node × Memory) : Prop where
  canonical : answer.2.Canonical
  pooled : answer.2.Pooled answer.1
  type : ∀ gen, answer.1.type gen = node.type gen

theorem Canonical.push (canonical : memory.Canonical) (free : memory.entries.get? node.text = none)
    (address : node.address? = some memory.next) (parts : ∀ part ∈ node.parts, memory.Known part)
    (plain : node.Plain) :
    (Memory.mk (memory.next + 1) ((node.text, node) :: memory.entries)).Canonical := by
  have entry {key : String} {other : Node}
    (found : Table.get? ((node.text, node) :: memory.entries) key = some other) :
      (node.text = key ∧ node = other) ∨ memory.entries.get? key = some other := by
    simp only [Table.get?] at found
    split at found
    next here => exact .inl ⟨here, Option.some.inj found⟩
    next => exact .inr found
  have keeps : Keeps memory ⟨memory.next + 1, (node.text, node) :: memory.entries⟩ := by
    have keeps := keeps_intern (fun _ => node) memory
    rwa [intern, free] at keeps
  have fresh {key : String} {other : Node} (found : memory.entries.get? key = some other) :
      other.address? ≠ some memory.next := by
    obtain ⟨place, before, placed⟩ := canonical.placed found
    rw [placed]
    intro same
    exact Nat.ne_of_lt before (Option.some.inj same)
  constructor
  case keyed =>
    intro key other found
    obtain ⟨here, rfl⟩ | found := entry found
    · exact here
    · exact canonical.keyed found
  case parts =>
    intro key other found part member
    obtain ⟨_, rfl⟩ | found := entry found
    · exact keeps.known (parts part member)
    · exact keeps.known (canonical.parts found part member)
  case placed =>
    intro key other found
    obtain ⟨_, rfl⟩ | found := entry found
    · exact ⟨memory.next, Nat.lt_succ_self _, address⟩
    · obtain ⟨place, before, placed⟩ := canonical.placed found
      exact ⟨place, Nat.lt_succ_of_lt before, placed⟩
  case apart =>
    intro key key' other other' found found' same
    -- No older entry has the address of the new one.
    obtain ⟨_, rfl⟩ | found := entry found
    · obtain ⟨_, rfl⟩ | found' := entry found'
      · rfl
      · exact absurd (same.symm.trans address) (fresh found')
    · obtain ⟨_, rfl⟩ | found' := entry found'
      · exact absurd (same.trans address) (fresh found)
      · exact canonical.apart found found' same
  case plain =>
    intro key other found
    obtain ⟨_, rfl⟩ | found := entry found
    · exact plain
    · exact canonical.plain found

theorem intern_gives (canonical : memory.Canonical) (make : Nat → Node)
    (address : (make memory.next).address? = some memory.next)
    (parts : ∀ part ∈ (make memory.next).parts, memory.Known part)
    (plain : (make memory.next).Plain) :
    Gives (make memory.next) (memory.intern make) := by
  cases found : memory.entries.get? (make memory.next).text with
  | some known =>
    have answer : memory.intern make = (known, memory) := by rw [intern, found]
    rw [answer]
    refine ⟨canonical, canonical.pooled_of_get? found, fun gen => ?_⟩
    -- The known node is of the type that is asked for, as no other type has its text.
    have texts : (known.type gen).text = ((make memory.next).type gen).text := by
      rw [Node.text_type, Node.text_type, canonical.keyed found]
    exact ((canonical.plain found).legible gen).eq_of_text (plain.legible gen) texts
  | none =>
    have answer : memory.intern make =
        (make memory.next, ⟨memory.next + 1, ((make memory.next).text, make memory.next) ::
          memory.entries⟩) := by
      rw [intern, found]
    rw [answer]
    exact ⟨canonical.push found address parts plain, by simp [Pooled, Table.get?], fun _ => rfl⟩

theorem base_gives (canonical : memory.Canonical) {name : String} (plain : PlainName name) :
    Gives (.base memory.next name) (memory.base name) :=
  intern_gives canonical (.base · name) rfl (fun _ member => nomatch member) plain

theorem array_gives (canonical : memory.Canonical) {element : Node} (known : memory.Known element) :
    Gives (.array memory.next element) (memory.array element) := by
  have plain : element.Plain := canonical.plain_of_known known
  refine intern_gives canonical (.array · element) rfl ?_ plain
  intro part member
  obtain rfl := List.mem_singleton.mp member
  exact known

theorem map_gives (canonical : memory.Canonical) {key value : Node} (keys : memory.Known key)
    (values : memory.Known value) : Gives (.map memory.next key value) (memory.map key value) := by
  have plain : key.Plain ∧ value.Plain :=
    ⟨canonical.plain_of_known keys, canonical.plain_of_known values⟩
  refine intern_gives canonical (.map · key value) rfl ?_ plain
  intro part member
  obtain rfl | member := List.mem_cons.mp member
  · exact keys
  · obtain rfl := List.mem_singleton.mp member
    exact values

end Memory

end ColonScript.Ty
