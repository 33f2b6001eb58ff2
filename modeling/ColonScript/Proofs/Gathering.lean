import ColonScript.Proofs.Fillings

/-! What several types agree on, when each is compared with what the ones before it have come to.
Being compatible is not transitive, so that the order might matter; it does not, since two types
that agree and are compatible with a third one still are when they have been joined. -/

namespace ColonScript.Ty

variable {a b c d : Ty} {types types' : List Ty}

/-- What two types agree on is compatible with all that both are compatible with. -/
theorem Agreed.compatible (agreed : Agreed a b c) (left : a.compatible d = true)
    (right : b.compatible d = true) :
    c.compatible d = true := by
  induction agreed generalizing d with
  | left => exact right
  | right => exact left
  | base => exact left
  | array _ ih =>
    cases d with
    | array => exact ih left right
    | unknown => rfl
    | _ => cases left
  | map _ _ keys values =>
    cases d with
    | map =>
      obtain ⟨leftKey, leftValue⟩ := Bool.and_eq_true_iff.mp left
      obtain ⟨rightKey, rightValue⟩ := Bool.and_eq_true_iff.mp right
      exact Bool.and_eq_true_iff.mpr ⟨keys leftKey rightKey, values leftValue rightValue⟩
    | unknown => rfl
    | _ => cases left

theorem exists_common? (compatible : a.compatible b = true) : ∃ c, common? a b = some c := by
  rw [← Option.isSome_iff_exists, isSome_common?]
  exact compatible

theorem compatible_of_common? (common : common? a b = some c) : a.compatible b = true := by
  rw [← isSome_common?, common, Option.isSome_some]

/-! One after the other. -/

def gather? (before : Ty) (types : List Ty) : Option Ty := types.foldlM common? before

theorem gather?_cons :
    gather? a (b :: types) = some c ↔ ∃ both, common? a b = some both ∧
      gather? both types = some c := by
  rw [gather?, List.foldlM_cons]
  exact Option.bind_eq_some_iff

def PairwiseCompatible (types : List Ty) : Prop := types.Pairwise fun a b => a.compatible b = true

instance (types : List Ty) : Decidable (PairwiseCompatible types) :=
  inferInstanceAs (Decidable (types.Pairwise fun a b => a.compatible b = true))

theorem pairwiseCompatible_unknown : PairwiseCompatible (unknown :: types) ↔
    PairwiseCompatible types := by
  rw [PairwiseCompatible, List.pairwise_cons]
  exact and_iff_right fun _ _ => rfl

theorem PairwiseCompatible.perm (compatible : PairwiseCompatible types) (perm : types.Perm types') :
    PairwiseCompatible types' :=
  List.Pairwise.perm compatible perm fun fits => (compatible_comm _ _).trans fits

/-- The types are gathered exactly when every two of them are compatible. -/
theorem exists_gather?_iff (first : a.plain = a) (rest : ∀ ty ∈ types, ty.plain = ty) :
    (∃ c, gather? a types = some c) ↔ PairwiseCompatible (a :: types) := by
  induction types generalizing a with
  | nil => exact ⟨fun _ => List.pairwise_singleton _ _, fun _ => ⟨a, rfl⟩⟩
  | cons b types ih =>
    obtain ⟨second, rest⟩ := List.forall_mem_cons.mp rest
    constructor
    · rintro ⟨c, gathered⟩
      obtain ⟨both, common, gathered⟩ := gather?_cons.mp gathered
      obtain ⟨left, right, plain⟩ := common?_bounds first second common
      obtain ⟨each, others⟩ := List.pairwise_cons.mp ((ih plain rest).mp ⟨c, gathered⟩)
      refine .cons (List.forall_mem_cons.mpr ⟨compatible_of_common? common, fun ty member => ?_⟩)
        (.cons ?_ others)
      · exact left.compatible_left (each ty member)
      · exact fun ty member => right.compatible_left (each ty member)
    · intro compatible
      obtain ⟨each, others⟩ := List.pairwise_cons.mp compatible
      obtain ⟨fits, each⟩ := List.forall_mem_cons.mp each
      obtain ⟨each', others⟩ := List.pairwise_cons.mp others
      obtain ⟨both, common⟩ := exists_common? fits
      have joined : PairwiseCompatible (both :: types) :=
        .cons (fun ty member => (agreed_of_common? common).compatible (each ty member)
          (each' ty member)) others
      obtain ⟨c, gathered⟩ := (ih (common?_bounds first second common).2.2 rest).mpr joined
      exact ⟨c, gather?_cons.mpr ⟨both, common, gathered⟩⟩

example : gather? (array 0 (named "int")) [array 0 unknown, array 0 (named "string")] = none := by
  decide

/-- The least type that refines all of several. -/
structure LeastOf (types : List Ty) (c : Ty) : Prop where
  above : ∀ ty ∈ types, RefinedBy ty c
  least : ∀ d, (∀ ty ∈ types, RefinedBy ty d) → RefinedBy c d

theorem LeastOf.unique (first : LeastOf types c) (second : LeastOf types d) : c = d :=
  (first.least d second.above).antisymm (second.least c first.above)

theorem LeastOf.perm (least : LeastOf types c) (perm : types.Perm types') : LeastOf types' c :=
  ⟨fun ty member => least.above ty (perm.mem_iff.mpr member),
    fun d above => least.least d fun ty member => above ty (perm.mem_iff.mp member)⟩

/-- What is gathered is the least type that refines them all. -/
theorem leastOf_of_gather? (first : a.plain = a) (rest : ∀ ty ∈ types, ty.plain = ty)
    (gathered : gather? a types = some c) : LeastOf (a :: types) c := by
  induction types generalizing a with
  | nil =>
    obtain rfl := Option.some.inj gathered
    exact ⟨List.forall_mem_singleton.mpr (.refl _), fun d above => above _ List.mem_cons_self⟩
  | cons b types ih =>
    obtain ⟨second, rest⟩ := List.forall_mem_cons.mp rest
    obtain ⟨both, common, gathered⟩ := gather?_cons.mp gathered
    obtain ⟨left, right, least⟩ := (common?_eq_some_iff first second).mp common
    obtain ⟨above, lowest⟩ := ih (common?_bounds first second common).2.2 rest gathered
    obtain ⟨joined, above⟩ := List.forall_mem_cons.mp above
    constructor
    · exact List.forall_mem_cons.mpr ⟨left.trans joined,
        List.forall_mem_cons.mpr ⟨right.trans joined, above⟩⟩
    · intro d above'
      obtain ⟨left', above'⟩ := List.forall_mem_cons.mp above'
      obtain ⟨right', above'⟩ := List.forall_mem_cons.mp above'
      exact lowest d (List.forall_mem_cons.mpr ⟨least d left' right', above'⟩)

theorem gather?_proper (first : a.Proper) (rest : ∀ ty ∈ types, ty.Proper)
    (gathered : gather? a types = some c) :
    c.Proper := by
  induction types generalizing a with
  | nil =>
    obtain rfl := Option.some.inj gathered
    exact first
  | cons b types ih =>
    obtain ⟨second, rest⟩ := List.forall_mem_cons.mp rest
    obtain ⟨both, common, gathered⟩ := gather?_cons.mp gathered
    exact ih (common?_proper first second common) rest gathered

/-- The order is of no account. -/
theorem gather?_perm (rest : ∀ ty ∈ types, ty.plain = ty) (perm : types.Perm types')
    (gathered : gather? unknown types = some c) : gather? unknown types' = some c := by
  have rest' : ∀ ty ∈ types', ty.plain = ty := fun ty member => rest ty (perm.mem_iff.mpr member)
  have compatible := (exists_gather?_iff rfl rest).mp ⟨c, gathered⟩
  obtain ⟨c', gathered'⟩ := (exists_gather?_iff rfl rest').mpr (compatible.perm (perm.cons unknown))
  have least := (leastOf_of_gather? rfl rest gathered).perm (perm.cons unknown)
  rw [gathered', least.unique (leastOf_of_gather? rfl rest' gathered')]

end ColonScript.Ty
