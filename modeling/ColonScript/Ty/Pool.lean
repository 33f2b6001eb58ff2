import ColonScript.Table
import ColonScript.Ty

/-! The pool of canonical types. An entry is found by the text of its type and never replaced, so
within one generation a text names one instance. Emptying the pool opens the next generation. -/

namespace ColonScript.Ty

structure Pool where
  gen : Nat
  entries : Table Ty
  deriving Repr

namespace Pool

def empty : Pool := ⟨0, []⟩

def size (pool : Pool) : Nat := pool.entries.length

def reset (pool : Pool) : Pool := ⟨pool.gen + 1, []⟩

/-- The entry with the text of `ty`, which is `ty` itself when the text is new. -/
def canonical (ty : Ty) (pool : Pool) : Ty × Pool :=
  match pool.entries.get? ty.text with
  | some known => (known, pool)
  | none => (ty, { pool with entries := (ty.text, ty) :: pool.entries })

def base (name : String) (pool : Pool) : Ty × Pool := pool.canonical (.base pool.gen name)

def array (element : Ty) (pool : Pool) : Ty × Pool := pool.canonical (.array pool.gen element)

def map (key value : Ty) (pool : Pool) : Ty × Pool := pool.canonical (.map pool.gen key value)

/-- The type on which both agree, with every part known that either side knows. One instance agrees
with itself at once; of two bases the left one is the answer; containers are looked up in the pool,
and what the parts left there stays even when the whole disagrees. -/
def join (a b : Ty) (pool : Pool) : Option Ty × Pool :=
  if a = b then (some a, pool)
  else match a, b with
    | .unknown, b => (some b, pool)
    | a, .unknown => (some a, pool)
    | .base gen x, .base _ y => (if x = y then some (.base gen x) else none, pool)
    | .array _ x, .array _ y =>
      match join x y pool with
      | (none, pool) => (none, pool)
      | (some element, pool) => (some (pool.array element).1, (pool.array element).2)
    | .map _ k v, .map _ k' v' =>
      match join k k' pool with
      | (none, pool) => (none, pool)
      | (some key, pool) =>
        match join v v' pool with
        | (none, pool) => (none, pool)
        | (some value, pool) => (some (pool.map key value).1, (pool.map key value).2)
    | _, _ => (none, pool)

def agree (a b : Ty) (pool : Pool) : Bool × Pool :=
  ((pool.join a b).1.isSome, (pool.join a b).2)

end Pool

end ColonScript.Ty
