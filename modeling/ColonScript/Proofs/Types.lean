import ColonScript.Ty.Pool

/-! Types as a script can have them. Their texts tell them apart, so that a pool never answers with
another type than the one that is asked for; what two types agree on is then a matter of the types
alone, and is the least type that both can become when unknown parts are filled in. -/

namespace ColonScript.Ty

def baseNames : List String := ["int", "float", "bool", "string", "char"]

def Proper : Ty → Prop
  | unknown => True
  | base gen name => gen = 0 ∧ name ∈ baseNames
  | array gen element => gen = 0 ∧ element.Proper
  | map gen key value => gen = 0 ∧ key.Proper ∧ value.Proper

structure Written (ty : Ty) : Prop where
  proper : ty.Proper
  settled : ty.settled = true

theorem proper_named {name : String} (member : name ∈ baseNames) : (named name).Proper :=
  ⟨rfl, member⟩

theorem written_named {name : String} (member : name ∈ baseNames) : (named name).Written :=
  ⟨proper_named member, rfl⟩

theorem eq_named_of_isBase {ty : Ty} {name : String} (proper : ty.Proper)
    (is : ty.isBase name = true) :
    ty = named name := by
  cases ty with
  | base gen own =>
    obtain ⟨rfl, _⟩ := proper
    obtain rfl : own = name := by simpa [isBase] using is
    rfl
  | _ => cases is

def AllProper (types : List Ty) : Prop := ∀ ty ∈ types, ty.Proper

theorem allProper_nil : AllProper [] := by
  intro ty member
  cases member

theorem allProper_singleton {ty : Ty} (proper : ty.Proper) : AllProper [ty] := by
  intro other member
  obtain rfl := List.mem_singleton.mp member
  exact proper

/-! The text of a type tells which type it is. It is read from its end, where a bracket shows
whether a container comes, and of what sort. -/

/-- A name that cannot be taken for the text of another type. -/
structure PlainName (name : String) : Prop where
  nonempty : name ≠ ""
  known : name ≠ "unknown"
  opening : '[' ∉ name.toList
  closing : ']' ∉ name.toList

/-- Made by the pool of a generation, of bases with plain names. -/
def Legible (gen : Nat) : Ty → Prop
  | unknown => True
  | base own name => own = gen ∧ PlainName name
  | array own element => own = gen ∧ element.Legible gen
  | map own key value => own = gen ∧ key.Legible gen ∧ value.Legible gen

theorem plainName_of_baseNames {name : String} (member : name ∈ baseNames) : PlainName name := by
  have plain : ∀ name ∈ baseNames, name ≠ "" ∧ name ≠ "unknown" ∧ '[' ∉ name.toList ∧
    ']' ∉ name.toList := by decide
  obtain ⟨nonempty, known, opening, closing⟩ := plain name member
  exact ⟨nonempty, known, opening, closing⟩

theorem Proper.legible {ty : Ty} (proper : ty.Proper) : ty.Legible 0 := by
  induction ty with
  | unknown => trivial
  | base => exact ⟨proper.1, plainName_of_baseNames proper.2⟩
  | array _ _ ih => exact ⟨proper.1, ih proper.2⟩
  | map _ _ _ keys values => exact ⟨proper.1, keys proper.2.1, values proper.2.2⟩

variable {gen : Nat}

theorem text_base {name : String} (plain : PlainName name) (gen : Nat) :
    (base gen name).text = name := if_neg plain.nonempty

theorem text_of_leaf {ty : Ty} (legible : ty.Legible gen) (noParts : ty.isContainer = false) :
    ty.text ≠ "" ∧ '[' ∉ ty.text.toList ∧ ']' ∉ ty.text.toList := by
  cases ty with
  | unknown => decide
  | base own name =>
    rw [text_base legible.2]
    exact ⟨legible.2.nonempty, legible.2.opening, legible.2.closing⟩
  | array | map => cases noParts

theorem eq_of_leaf {a b : Ty} (left : a.Legible gen) (right : b.Legible gen)
    (noParts : a.isContainer = false) (noParts' : b.isContainer = false) (same : a.text = b.text) :
    a = b := by
  cases a with
  | unknown =>
    cases b with
    | unknown => rfl
    | base =>
      rw [text_base right.2] at same
      exact absurd same.symm right.2.known
    | array | map => cases noParts'
  | base =>
    rw [text_base left.2] at same
    cases b with
    | unknown => exact absurd same left.2.known
    | base =>
      rw [text_base right.2] at same
      rw [same, left.1, right.1]
    | array | map => cases noParts'
  | array | map => cases noParts

def backward (ty : Ty) : List Char := ty.text.toList.reverse

theorem backward_array (gen : Nat) (element : Ty) :
    (array gen element).backward = ']' :: '[' :: element.backward := by
  simp [backward, text]

theorem backward_map (gen : Nat) (key value : Ty) :
    (map gen key value).backward = ']' :: (value.backward ++ '[' :: key.backward) := by
  simp [backward, text]

/-- The text does not end in an opening bracket, and in a closing one only if it is that of a
container. -/
theorem backward_eq_cons {ty : Ty} (legible : ty.Legible gen) :
    ∃ c rest, ty.backward = c :: rest ∧ c ≠ '[' ∧ (c = ']' ↔ ty.isContainer = true) := by
  cases container : ty.isContainer with
  | true =>
    cases ty with
    | array gen element => exact ⟨_, _, backward_array gen element, by decide, by simp⟩
    | map gen key value => exact ⟨_, _, backward_map gen key value, by decide, by simp⟩
    | _ => cases container
  | false =>
    obtain ⟨nonempty, noOpening, noClosing⟩ := text_of_leaf legible container
    cases reversed : ty.backward with
    | nil =>
      exact absurd (String.toList_eq_nil_iff.mp (List.reverse_eq_nil_iff.mp reversed)) nonempty
    | cons c rest =>
      have inside : c ∈ ty.text.toList := by
        rw [← List.mem_reverse, ← backward, reversed]
        exact List.mem_cons_self
      refine ⟨c, rest, rfl, ?_, ?_⟩
      · rintro rfl
        exact noOpening inside
      · simp only [Bool.false_eq_true, iff_false]
        rintro rfl
        exact noClosing inside

def Opens (cs : List Char) : Prop := cs = [] ∨ ∃ rest, cs = '[' :: rest

theorem eq_of_append {xs ys cs ds : List Char} (left : '[' ∉ xs) (right : '[' ∉ ys)
    (first : Opens cs) (second : Opens ds) (same : xs ++ cs = ys ++ ds) : xs = ys ∧ cs = ds := by
  induction xs generalizing ys with
  | nil =>
    cases ys with
    | nil => exact ⟨rfl, same⟩
    | cons y ys =>
      obtain rfl | ⟨rest, rfl⟩ := first
      · cases same
      · obtain ⟨rfl, _⟩ := List.cons.inj same
        simp at right
  | cons x xs ih =>
    cases ys with
    | nil =>
      obtain rfl | ⟨rest, rfl⟩ := second
      · cases same
      · obtain ⟨rfl, _⟩ := List.cons.inj same
        simp at left
    | cons y ys =>
      obtain ⟨rfl, tails⟩ := List.cons.inj same
      simp only [List.mem_cons, not_or] at left right
      obtain ⟨rfl, rest⟩ := ih left.2 right.2 tails
      exact ⟨rfl, rest⟩

theorem isContainer_eq {a b : Ty} (left : a.Legible gen) (right : b.Legible gen) {cs ds : List Char}
    (same : a.backward ++ cs = b.backward ++ ds) : a.isContainer = b.isContainer := by
  obtain ⟨c, rest, eq, _, container⟩ := backward_eq_cons left
  obtain ⟨c', rest', eq', _, container'⟩ := backward_eq_cons right
  rw [eq, eq'] at same
  obtain ⟨rfl, _⟩ := List.cons.inj same
  rw [Bool.eq_iff_iff, ← container, ← container']

/-- What is between the brackets of a map never begins, from its end, as the brackets of an array
do. -/
theorem backward_append_ne {ty : Ty} (legible : ty.Legible gen) (cs ds : List Char) :
    ty.backward ++ cs ≠ '[' :: ds := by
  obtain ⟨c, rest, eq, opening, _⟩ := backward_eq_cons legible
  rw [eq]
  intro same
  exact opening (List.cons.inj same).1

theorem eq_of_backward {a b : Ty} (left : a.Legible gen) (right : b.Legible gen) {cs ds : List Char}
    (first : Opens cs) (second : Opens ds) (same : a.backward ++ cs = b.backward ++ ds) :
    a = b ∧ cs = ds := by
  have sorts := isContainer_eq left right same
  induction a generalizing b cs ds with
  | unknown | base =>
    have plain := text_of_leaf left rfl
    have plain' := text_of_leaf right sorts.symm
    obtain ⟨texts, rest⟩ := eq_of_append (fun opening => plain.2.1 (List.mem_reverse.mp opening))
      (fun opening => plain'.2.1 (List.mem_reverse.mp opening)) first second same
    exact ⟨eq_of_leaf left right rfl sorts.symm (String.toList_inj.mp (List.reverse_inj.mp texts)),
      rest⟩
  | array own element ih =>
    obtain ⟨rfl, legible⟩ := left
    cases b with
    | array own' element' =>
      obtain ⟨rfl, legible'⟩ := right
      simp only [backward_array, List.cons_append, List.cons.injEq, true_and] at same
      obtain ⟨rfl, rest⟩ :=
        ih legible legible' first second same (isContainer_eq legible legible' same)
      exact ⟨rfl, rest⟩
    | map own' key value =>
      simp only [backward_array, backward_map, List.cons_append, List.append_assoc, List.cons.injEq,
        true_and] at same
      exact absurd same.symm (backward_append_ne right.2.2 _ _)
    | _ => cases sorts
  | map own key value keyIh valueIh =>
    obtain ⟨rfl, keyLegible, valueLegible⟩ := left
    cases b with
    | array own' element' =>
      simp only [backward_array, backward_map, List.cons_append, List.append_assoc, List.cons.injEq,
        true_and] at same
      exact absurd same (backward_append_ne valueLegible _ _)
    | map own' key' value' =>
      obtain ⟨rfl, keyLegible', valueLegible'⟩ := right
      simp only [backward_map, List.cons_append, List.append_assoc, List.cons.injEq,
        true_and] at same
      obtain ⟨rfl, keys⟩ := valueIh valueLegible valueLegible' (.inr ⟨_, rfl⟩) (.inr ⟨_, rfl⟩) same
        (isContainer_eq valueLegible valueLegible' same)
      have keys := (List.cons.inj keys).2
      obtain ⟨rfl, rest⟩ :=
        keyIh keyLegible keyLegible' first second keys (isContainer_eq keyLegible keyLegible' keys)
      exact ⟨rfl, rest⟩
    | _ => cases sorts

theorem Legible.eq_of_text {a b : Ty} (left : a.Legible gen) (right : b.Legible gen)
    (same : a.text = b.text) : a = b := by
  have backward : a.backward ++ [] = b.backward ++ [] := by rw [Ty.backward, Ty.backward, same]
  exact (eq_of_backward left right (.inl rfl) (.inl rfl) backward).1

theorem eq_of_text {a b : Ty} (left : a.Proper) (right : b.Proper) (same : a.text = b.text) :
    a = b :=
  left.legible.eq_of_text right.legible same

end ColonScript.Ty
