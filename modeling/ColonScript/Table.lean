/-! Tables from names to values, kept as lists of pairs with one pair a name. -/

namespace ColonScript

abbrev Table (α : Type) := List (String × α)

namespace Table

variable {α : Type}

def get? : Table α → String → Option α
  | [], _ => none
  | (key, value) :: rest, name => if key = name then some value else get? rest name

/-- Replaces the value of a name where it stands, or adds the name at the end. -/
def put : Table α → String → α → Table α
  | [], name, value => [(name, value)]
  | (key, old) :: rest, name, value =>
    if key = name then (key, value) :: rest else (key, old) :: put rest name value

theorem get?_put (table : Table α) (name other : String) (value : α) :
    (table.put name value).get? other = if name = other then some value else table.get? other := by
  induction table with
  | nil => rfl
  | cons pair rest ih =>
    obtain ⟨key, old⟩ := pair
    by_cases same : key = name
    · subst same
      by_cases h : key = other <;> simp [put, get?, h]
    · by_cases h : key = other
      · subst h; simp [put, get?, same, Ne.symm same]
      · simp [put, get?, same, h, ih]

end Table

end ColonScript
