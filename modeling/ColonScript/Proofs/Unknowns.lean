import Mathlib.Data.List.Forall2
import ColonScript.Proofs.Signatures

/-! Unknown parts behave as some type that is not known yet. A rule succeeds on types with unknown
parts exactly when it succeeds on some filling of them, each type filled on its own, and then some
filling has results that refine the results without it. Only what takes a part out of a container
needs to know that part. -/

namespace ColonScript
open Ty

variable {gen : Nat} {a b : Ty}

namespace Ty

/-- The type of a value: made by the pool of the generation, and not unknown as a whole. -/
structure Whole (gen : Nat) (ty : Ty) : Prop where
  legible : ty.Legible gen
  known : ty ≠ .unknown

theorem eq_base_of_refined {own : Nat} {name : String} (known : a ≠ .unknown)
    (refined : RefinedBy a (.base own name)) :
    a = .base own name := by
  cases refined with
  | unknown => exact absurd rfl known
  | base => rfl

theorem array_of_refined {own : Nat} {element : Ty} (known : a ≠ .unknown)
    (refined : RefinedBy a (.array own element)) :
    ∃ inner, a = .array own inner ∧ RefinedBy inner element := by
  cases refined with
  | unknown => exact absurd rfl known
  | array refined => exact ⟨_, rfl, refined⟩

theorem map_of_refined {own : Nat} {key value : Ty} (known : a ≠ .unknown)
    (refined : RefinedBy a (.map own key value)) :
    ∃ k v, a = .map own k v ∧ RefinedBy k key ∧ RefinedBy v value := by
  cases refined with
  | unknown => exact absurd rfl known
  | map keys values => exact ⟨_, _, rfl, keys, values⟩

/-- Of what sort a type is that is not unknown does not change when its parts become known. -/
theorem sort_of_refined (known : a ≠ .unknown) (refined : RefinedBy a b) :
    b.isContainer = a.isContainer ∧ b.isArray = a.isArray ∧
      ∀ name, b.isBase name = a.isBase name := by
  cases refined with
  | unknown => exact absurd rfl known
  | base => exact ⟨rfl, rfl, fun _ => rfl⟩
  | array => exact ⟨rfl, rfl, fun _ => rfl⟩
  | map => exact ⟨rfl, rfl, fun _ => rfl⟩

end Ty

/-! Operators and assignments. -/

namespace Typing

variable {operator : String} {left right left' right' type' : Ty}

theorem operates_of_refined (first : Whole gen left) (second : Whole gen right)
    (leftRefined : RefinedBy left left') (rightRefined : RefinedBy right right')
    (operates : Operates gen operator left' right' type') :
    ∃ type, Operates gen operator left right type ∧ type.Legible gen ∧ RefinedBy type type' := by
  cases operates with
  | bases listed =>
    obtain rfl := eq_base_of_refined first.known leftRefined
    obtain rfl := eq_base_of_refined second.known rightRefined
    exact ⟨_, .bases listed, ⟨rfl, plainName_of_baseNames (mem_baseNames_of_baseBinary? listed)⟩,
      .refl _⟩
  | concat plus _ least =>
    obtain ⟨x, rfl, _⟩ := array_of_refined first.known leftRefined
    obtain ⟨y, rfl, _⟩ := array_of_refined second.known rightRefined
    have compatible := compatible_of_refined leftRefined rightRefined
      (least.left.compatible least.right)
    obtain ⟨both, legible, least'⟩ := exists_least first.legible second.legible compatible
    exact ⟨both, .concat plus legible least', legible, least'.mono least leftRefined rightRefined⟩
  | compare compares compatible =>
    obtain ⟨x, rfl, inner⟩ := array_of_refined first.known leftRefined
    obtain ⟨y, rfl, inner'⟩ := array_of_refined second.known rightRefined
    exact ⟨_, .compare compares (compatible_of_refined inner inner' compatible),
      ⟨rfl, plainName_of_baseNames (by decide)⟩, .refl _⟩

theorem exists_filled_operates {type : Ty} (first : Whole gen left) (second : Whole gen right)
    (operates : Operates gen operator left right type) :
    ∃ left' right' type', Fills gen left left' ∧ Fills gen right right' ∧
      Operates gen operator left' right' type' ∧ RefinedBy type type' := by
  cases operates with
  | bases listed =>
    exact ⟨_, _, _, .of_base first.legible.2, .of_base second.legible.2, .bases listed, .refl _⟩
  | @concat x y both plus _ least =>
    have compatible : x.compatible y = true := least.left.compatible least.right
    obtain ⟨z, fills, fills'⟩ :=
      exists_fills_of_compatible first.legible.2 second.legible.2 compatible
    have legible : (Ty.array gen z).Legible gen := ⟨rfl, fills.legible⟩
    exact ⟨_, _, _, fills.array, fills'.array, .concat plus legible (.self _),
      least.least _ (.array fills.refined) (.array fills'.refined)⟩
  | compare compares compatible =>
    obtain ⟨z, fills, fills'⟩ :=
      exists_fills_of_compatible first.legible.2 second.legible.2 compatible
    exact ⟨_, _, _, fills.array, fills'.array, .compare compares (compatible_self z), .refl _⟩

variable {target value target' value' both both' : Ty}

theorem assigns_of_refined (first : Whole gen target) (second : Whole gen value)
    (targetRefined : RefinedBy target target') (valueRefined : RefinedBy value value')
    (assigns : Assigns gen operator target' value' both') :
    ∃ both, Assigns gen operator target value both := by
  obtain ⟨given', ⟨receives, _⟩, _, least⟩ := assigns
  obtain ⟨given, receives, legible, refined⟩ :
      ∃ given, Receives gen operator target value given ∧ given.Legible gen ∧
        RefinedBy given given' := by
    cases receives with
    | plain plain => exact ⟨value, .plain plain, second.legible, valueRefined⟩
    | compound compound operates =>
      obtain ⟨given, operates, legible, refined⟩ :=
        operates_of_refined first second targetRefined valueRefined operates
      exact ⟨given, .compound compound operates, legible, refined⟩
  have compatible := compatible_of_refined targetRefined refined (least.left.compatible least.right)
  obtain ⟨both, bothLegible, least⟩ := exists_least first.legible legible compatible
  exact ⟨both, given, ⟨receives, legible⟩, bothLegible, least⟩

theorem exists_filled_assigns (first : Whole gen target) (second : Whole gen value)
    (assigns : Assigns gen operator target value both) :
    ∃ target' value' both', Fills gen target target' ∧ Fills gen value value' ∧
      Assigns gen operator target' value' both' ∧ RefinedBy both both' := by
  obtain ⟨given, ⟨receives, givenLegible⟩, bothLegible, least⟩ := assigns
  cases receives with
  | plain plain =>
    have compatible := least.left.compatible least.right
    obtain ⟨z, fills, fills'⟩ := exists_fills_of_compatible first.legible givenLegible compatible
    exact ⟨z, z, z, fills, fills', ⟨z, ⟨.plain plain, fills.legible⟩, fills.legible, .self z⟩,
      least.least z fills.refined fills'.refined⟩
  | compound compound operates =>
    cases operates with
    | bases listed =>
      exact ⟨_, _, _, .of_base first.legible.2, .of_base second.legible.2,
        ⟨_, ⟨.compound compound (.bases listed), givenLegible⟩, bothLegible, least⟩, .refl _⟩
    | @concat x y _ plus _ joined =>
      -- What is received refines the target already, so that a filling of it is one of the target.
      have compatible : x.compatible y = true := joined.left.compatible joined.right
      obtain ⟨z, fills, fills'⟩ :=
        exists_fills_of_compatible first.legible.2 second.legible.2 compatible
      have legible : (Ty.array gen z).Legible gen := ⟨rfl, fills.legible⟩
      have givenRefined := joined.least _ (.array fills.refined) (.array fills'.refined)
      exact ⟨_, _, _, fills.array, fills'.array,
        ⟨_, ⟨.compound compound (.concat plus legible (.self _)), legible⟩, legible, .self _⟩,
        least.least _ (.array fills.refined) givenRefined⟩
    | compare => cases least.left.compatible least.right

end Typing

/-! Built-in functions. -/

namespace Builtin

variable {builtin : Builtin} {args args' results results' : List Ty}

/-- What is taken out of a container must be known. -/
def PartKnown (builtin : Builtin) (args : List Ty) : Prop :=
  builtin = .pop ∨ builtin = .delete → ∀ container ∈ args.head?, container.content ≠ .unknown

theorem partKnown_of_yields (yields : Yields gen builtin args results)
    (whole : ∀ ty ∈ args, ty ≠ .unknown) :
    PartKnown builtin args := by
  intro takes container first
  cases yields with
  | pop known | delete _ known | deleteKey _ known =>
    cases first
    exact known
  | ofOne listed => rcases takes with rfl | rfl <;> cases listed
  | scan reads => rcases takes with rfl | rfl <;> simp at reads
  | _ => simp at takes

def AllBases (gen : Nat) (types : List Ty) : Prop := ∀ ty ∈ types, ∃ name, ty = .base gen name

theorem allBases_of_options (options : List (List String))
    (listed : args ∈ options.map (List.map (Ty.base gen))) :
    AllBases gen args := by
  obtain ⟨names, _, rfl⟩ := List.mem_map.mp listed
  intro ty member
  obtain ⟨name, _, rfl⟩ := List.mem_map.mp member
  exact ⟨name, rfl⟩

theorem eq_of_refined_bases (refined : List.Forall₂ RefinedBy args args')
    (known : ∀ ty ∈ args, ty ≠ .unknown) (bases : AllBases gen args') : args = args' := by
  induction refined with
  | nil => rfl
  | @cons a b _ _ refined _ ih =>
    obtain ⟨name, rfl⟩ := bases b List.mem_cons_self
    obtain rfl := eq_base_of_refined (known a List.mem_cons_self) refined
    rw [ih (fun ty member => known ty (List.mem_cons_of_mem _ member))
      (fun ty member => bases ty (List.mem_cons_of_mem _ member))]

theorem accepts_of_refined {accepts : Ty → Bool}
    (listed : ofOne? gen builtin = some (accepts, results))
    (known : a ≠ .unknown) (refined : RefinedBy a b) : accepts b = accepts a := by
  obtain ⟨container, _, base⟩ := sort_of_refined known refined
  cases builtin with
  | print | toString | typeOf =>
    cases listed
    rfl
  | len | toInt | toFloat =>
    cases listed
    simp only [container, base]
  | _ => cases listed

/-! Arguments of which the first is a container, by what they are filled to. -/

section
variable {element' ty' key' value' k' : Ty}

theorem element_of_refined (refined : List.Forall₂ RefinedBy args [.array gen element', ty'])
    (known : ∀ ty ∈ args, ty ≠ .unknown) (fits : element'.compatible ty' = true) :
    ∃ element ty, args = [.array gen element, ty] ∧ element.compatible ty = true := by
  obtain _ | ⟨first, _ | ⟨second, _ | _⟩⟩ := refined
  obtain ⟨element, rfl, inner⟩ := array_of_refined (known _ List.mem_cons_self) first
  exact ⟨element, _, rfl, compatible_of_refined inner second fits⟩

theorem key_of_refined (refined : List.Forall₂ RefinedBy args [.map gen key' value', k'])
    (known : ∀ ty ∈ args, ty ≠ .unknown) (fits : key'.compatible k' = true) :
    ∃ key value k, args = [.map gen key value, k] ∧ key.compatible k = true := by
  obtain _ | ⟨first, _ | ⟨second, _ | _⟩⟩ := refined
  obtain ⟨key, value, rfl, keys, _⟩ := map_of_refined (known _ List.mem_cons_self) first
  exact ⟨key, value, _, rfl, compatible_of_refined keys second fits⟩

theorem parts_of_refined (refined : List.Forall₂ RefinedBy args [.map gen key' value'])
    (known : ∀ ty ∈ args, ty ≠ .unknown) : ∃ key value, args = [.map gen key value] := by
  obtain _ | ⟨first, _ | _⟩ := refined
  obtain ⟨key, value, rfl, _, _⟩ := map_of_refined (known _ List.mem_cons_self) first
  exact ⟨key, value, rfl⟩

end

/-- A call that is accepted once its arguments are filled is accepted before, if what it takes out
is known. -/
theorem yields_of_refined (yields : Yields gen builtin args' results')
    (refined : List.Forall₂ RefinedBy args args') (whole : ∀ ty ∈ args, Whole gen ty)
    (part : PartKnown builtin args) :
    ∃ results, Yields gen builtin args results := by
  have known (ty : Ty) (member : ty ∈ args) : ty ≠ .unknown := (whole ty member).known
  cases yields with
  | ofOne listed accepted =>
    obtain _ | ⟨refined, _ | _⟩ := refined
    have same := accepts_of_refined listed (known _ List.mem_cons_self) refined
    exact ⟨_, .ofOne listed (same.symm.trans accepted)⟩
  | copy container =>
    obtain _ | ⟨refined, _ | _⟩ := refined
    exact ⟨_, .copy ((sort_of_refined (known _ List.mem_cons_self) refined).1.symm.trans container)⟩
  | println few => exact ⟨_, .println (refined.length_eq ▸ few)⟩
  | scan reads options =>
    have bases := allBases_of_options [[], ["string"], ["string", "bool"]] options
    obtain rfl := eq_of_refined_bases refined known bases
    exact ⟨_, .scan reads options⟩
  | push fits =>
    obtain ⟨element, ty, rfl, fits⟩ := element_of_refined refined known fits
    exact ⟨_, .push fits⟩
  | pushPair keyFits valueFits =>
    obtain _ | ⟨first, _ | ⟨second, _ | ⟨third, _ | _⟩⟩⟩ := refined
    obtain ⟨key, value, rfl, keys, values⟩ := map_of_refined (known _ List.mem_cons_self) first
    exact ⟨_, .pushPair (compatible_of_refined keys second keyFits)
      (compatible_of_refined values third valueFits)⟩
  | pop _ options =>
    obtain _ | ⟨first, rest⟩ := refined
    obtain ⟨own, rfl, _⟩ := array_of_refined (known _ List.mem_cons_self) first
    have bases := allBases_of_options [[], ["int"]] options
    obtain rfl :=
      eq_of_refined_bases rest (fun ty member => known ty (List.mem_cons_of_mem _ member)) bases
    exact ⟨_, .pop (part (.inl rfl) _ rfl) options⟩
  | insert fits =>
    obtain _ | ⟨first, _ | ⟨second, _ | ⟨third, _ | _⟩⟩⟩ := refined
    obtain ⟨element, rfl, inner⟩ := array_of_refined (known _ List.mem_cons_self) first
    obtain rfl := eq_base_of_refined (known _ (by simp)) second
    exact ⟨_, .insert (compatible_of_refined inner third fits)⟩
  | remove fits =>
    obtain ⟨element, ty, rfl, fits⟩ := element_of_refined refined known fits
    exact ⟨_, .remove fits⟩
  | removeKey fits =>
    obtain ⟨key, value, k, rfl, fits⟩ := key_of_refined refined known fits
    exact ⟨_, .removeKey fits⟩
  | delete fits _ =>
    obtain ⟨element, ty, rfl, fits⟩ := element_of_refined refined known fits
    exact ⟨_, .delete fits (part (.inr rfl) _ rfl)⟩
  | deleteKey fits _ =>
    obtain ⟨key, value, k, rfl, fits⟩ := key_of_refined refined known fits
    exact ⟨_, .deleteKey fits (part (.inr rfl) _ rfl)⟩
  | getIndex fits =>
    obtain ⟨element, ty, rfl, fits⟩ := element_of_refined refined known fits
    exact ⟨_, .getIndex fits⟩
  | keys =>
    obtain ⟨key, value, rfl⟩ := parts_of_refined refined known
    exact ⟨_, .keys⟩
  | values =>
    obtain ⟨key, value, rfl⟩ := parts_of_refined refined known
    exact ⟨_, .values⟩
  | containsKey fits =>
    obtain ⟨key, value, k, rfl, fits⟩ := key_of_refined refined known fits
    exact ⟨_, .containsKey fits⟩
  | slice sliced options =>
    obtain _ | ⟨first, rest⟩ := refined
    obtain ⟨_, array, base⟩ := sort_of_refined (known _ List.mem_cons_self) first
    have bases := allBases_of_options [["int", "int"], ["int", "int", "int"]] options
    obtain rfl :=
      eq_of_refined_bases rest (fun ty member => known ty (List.mem_cons_of_mem _ member)) bases
    rw [array, base] at sliced
    exact ⟨_, .slice sliced options⟩
  | equals compatible =>
    obtain _ | ⟨first, _ | ⟨second, _ | _⟩⟩ := refined
    exact ⟨_, .equals (compatible_of_refined first second compatible)⟩

theorem fills_bases (bases : AllBases gen args) (whole : ∀ ty ∈ args, Whole gen ty) :
    List.Forall₂ (Fills gen) args args := by
  rw [List.forall₂_same]
  intro ty member
  obtain ⟨name, rfl⟩ := bases ty member
  exact .of_base (whole _ member).legible.2

theorem allLegible_of_fills {filled : List Ty} (fills : List.Forall₂ (Fills gen) args filled) :
    AllLegible gen filled := by
  induction fills with
  | nil => exact fun _ member => nomatch member
  | cons fills _ ih =>
    intro ty member
    rcases List.mem_cons.mp member with rfl | later
    · exact fills.legible
    · exact ih ty later

/-- Results of a call on filled arguments, that refine the results on the arguments. -/
def FilledYields (gen : Nat) (builtin : Builtin) (args results : List Ty) : Prop :=
  ∃ filled results', List.Forall₂ (Fills gen) args filled ∧ Yields gen builtin filled results' ∧
    List.Forall₂ RefinedBy results results'

/-! Arguments of which the first is a container, filled. -/

section
variable {element ty key value k : Ty}

theorem fills_element (legible : AllLegible gen [.array gen element, ty])
    (fits : element.compatible ty = true) :
    ∃ z, List.Forall₂ (Fills gen) [.array gen element, ty] [.array gen z, z] ∧
      Fills gen element z := by
  obtain ⟨z, first, second⟩ :=
    exists_fills_of_compatible (legible _ List.mem_cons_self).2 (legible _ (by simp)) fits
  exact ⟨z, .cons first.array (.cons second .nil), first⟩

theorem fills_parts (legible : AllLegible gen [.map gen key value]) :
    Fills gen key (key.filled gen) ∧ Fills gen value (value.filled gen) := by
  obtain ⟨_, keyLegible, valueLegible⟩ := legible _ List.mem_cons_self
  exact ⟨fills_filled keyLegible, fills_filled valueLegible⟩

theorem fills_key (legible : AllLegible gen [.map gen key value, k])
    (fits : key.compatible k = true) :
    ∃ k' v', List.Forall₂ (Fills gen) [.map gen key value, k] [.map gen k' v', k'] ∧
      Fills gen key k' ∧ Fills gen value v' := by
  obtain ⟨_, keyLegible, valueLegible⟩ := legible _ List.mem_cons_self
  obtain ⟨k', first, second⟩ := exists_fills_of_compatible keyLegible (legible _ (by simp)) fits
  have fills := fills_filled valueLegible
  exact ⟨k', _, .cons (first.map fills) (.cons second .nil), first, fills⟩

end

theorem filledYields_of_yields (yields : Yields gen builtin args results)
    (whole : ∀ ty ∈ args, Whole gen ty) :
    FilledYields gen builtin args results := by
  have legible : AllLegible gen args := fun ty member => (whole ty member).legible
  have self (types : List Ty) : List.Forall₂ RefinedBy types types :=
    List.forall₂_same.mpr fun ty _ => .refl ty
  cases yields with
  | ofOne listed accepted =>
    have fills := fills_filled (legible _ List.mem_cons_self)
    have accepted' :=
      (accepts_of_refined listed (whole _ List.mem_cons_self).known fills.refined).trans accepted
    exact ⟨_, _, .cons fills .nil, .ofOne listed accepted', self _⟩
  | copy container =>
    have fills := fills_filled (legible _ List.mem_cons_self)
    have container' := (sort_of_refined (whole _ List.mem_cons_self).known fills.refined).1.trans
      container
    exact ⟨_, _, .cons fills .nil, .copy container', .cons fills.refined .nil⟩
  | println few =>
    have fills : List.Forall₂ (Fills gen) args (args.map (·.filled gen)) := by
      rw [List.forall₂_map_right_iff, List.forall₂_same]
      exact fun ty member => fills_filled (legible ty member)
    exact ⟨_, _, fills, .println (by simpa using few), .nil⟩
  | scan reads options =>
    have bases := allBases_of_options [[], ["string"], ["string", "bool"]] options
    exact ⟨_, _, fills_bases bases whole, .scan reads options, self _⟩
  | push fits =>
    obtain ⟨z, fills, element⟩ := fills_element legible fits
    exact ⟨_, _, fills, .push (compatible_self z), .cons (.array element.refined) .nil⟩
  | pushPair keyFits valueFits =>
    obtain ⟨_, keyLegible, valueLegible⟩ := legible _ List.mem_cons_self
    obtain ⟨k, key, second⟩ := exists_fills_of_compatible keyLegible (legible _ (by simp)) keyFits
    obtain ⟨v, value, third⟩ :=
      exists_fills_of_compatible valueLegible (legible _ (by simp)) valueFits
    exact ⟨_, _, .cons (key.map value) (.cons second (.cons third .nil)),
      .pushPair (compatible_self k) (compatible_self v),
      .cons (.map key.refined value.refined) .nil⟩
  | pop known options =>
    have bases := allBases_of_options [[], ["int"]] options
    have fills := fills_filled (legible _ List.mem_cons_self).2
    exact ⟨_, _, .cons fills.array (fills_bases bases fun ty member =>
      whole ty (List.mem_cons_of_mem _ member)), .pop (fills.known) options,
        .cons fills.refined .nil⟩
  | insert fits =>
    obtain ⟨z, first, third⟩ :=
      exists_fills_of_compatible (legible _ List.mem_cons_self).2 (legible _ (by simp)) fits
    have second : Fills gen (.base gen "int") (.base gen "int") :=
      .of_base (legible (.base gen "int") (by simp)).2
    exact ⟨_, _, .cons first.array (.cons second (.cons third .nil)), .insert (compatible_self z),
      .cons (.array first.refined) .nil⟩
  | remove fits =>
    obtain ⟨z, fills, element⟩ := fills_element legible fits
    exact ⟨_, _, fills, .remove (compatible_self z), .cons (.array element.refined) .nil⟩
  | removeKey fits =>
    obtain ⟨k, v, fills, key, value⟩ := fills_key legible fits
    exact ⟨_, _, fills, .removeKey (compatible_self k), .cons (.map key.refined value.refined) .nil⟩
  | delete fits _ =>
    obtain ⟨z, fills, element⟩ := fills_element legible fits
    exact ⟨_, _, fills, .delete (compatible_self z) element.known, .cons element.refined .nil⟩
  | deleteKey fits _ =>
    obtain ⟨k, v, fills, key, value⟩ := fills_key legible fits
    exact ⟨_, _, fills, .deleteKey (compatible_self k) value.known, .cons value.refined .nil⟩
  | getIndex fits =>
    obtain ⟨z, fills, element⟩ := fills_element legible fits
    exact ⟨_, _, fills, .getIndex (compatible_self z), self _⟩
  | keys =>
    obtain ⟨key, value⟩ := fills_parts legible
    exact ⟨_, _, .cons (key.map value) .nil, .keys, .cons (.array key.refined) .nil⟩
  | values =>
    obtain ⟨key, value⟩ := fills_parts legible
    exact ⟨_, _, .cons (key.map value) .nil, .values, .cons (.array value.refined) .nil⟩
  | containsKey fits =>
    obtain ⟨k, v, fills, key, value⟩ := fills_key legible fits
    exact ⟨_, _, fills, .containsKey (compatible_self k), self _⟩
  | slice sliced options =>
    have bases := allBases_of_options [["int", "int"], ["int", "int", "int"]] options
    have fills := fills_filled (legible _ List.mem_cons_self)
    obtain ⟨_, array, base⟩ := sort_of_refined (whole _ List.mem_cons_self).known fills.refined
    rw [← array, ← base] at sliced
    exact ⟨_, _, .cons fills (fills_bases bases fun ty member =>
      whole ty (List.mem_cons_of_mem _ member)), .slice sliced options, .cons fills.refined .nil⟩
  | equals compatible =>
    obtain ⟨z, first, second⟩ :=
      exists_fills_of_compatible (legible _ List.mem_cons_self) (legible _ (by simp)) compatible
    exact ⟨_, _, .cons first (.cons second .nil), .equals (compatible_self z), self _⟩

end Builtin

/-! The rules in the pools of a run. -/

namespace Typing

def Succeeds {α : Type} (rule : Typing α) (pool : Pool) : Prop := ∃ a after, rule pool = .ok a after

/-- In the first pool a rule succeeds on types with unknown parts as it does in the second on
fillings of them. -/
structure FillsUnknowns (gen : Nat) (pool pool' : Pool) : Prop where
  operators : ∀ operator left right, Whole gen left → Whole gen right →
    (Succeeds (binary operator left right) pool ↔ ∃ left' right', Fills gen left left' ∧
      Fills gen right right' ∧ Succeeds (binary operator left' right') pool')
  operatorsRefine : ∀ operator left right, Whole gen left → Whole gen right → ∀ type after,
    binary operator left right pool = .ok type after → ∃ left' right' type' after',
    Fills gen left left' ∧
      Fills gen right right' ∧ binary operator left' right' pool' = .ok type' after' ∧
      RefinedBy type type'
  assignments : ∀ name operator target value, Whole gen target → Whole gen value →
    (Succeeds (assignment name operator target value) pool ↔
      ∃ target' value', Fills gen target target' ∧ Fills gen value value' ∧
      Succeeds (assignment name operator target' value') pool')
  assignmentsRefine : ∀ name operator target value, Whole gen target → Whole gen value →
    ∀ both after, assignment name operator target value pool = .ok both after →
    ∃ target' value' both' after',
      Fills gen target target' ∧ Fills gen value value' ∧
        assignment name operator target' value' pool' = .ok both' after' ∧ RefinedBy both both'
  builtins : ∀ (builtin : Builtin) args, (∀ ty ∈ args, Whole gen ty) →
    (Succeeds (builtin.results args) pool ↔ builtin.PartKnown args ∧
      ∃ filled, List.Forall₂ (Fills gen) args filled ∧ Succeeds (builtin.results filled) pool')
  builtinsRefine : ∀ (builtin : Builtin) args, (∀ ty ∈ args, Whole gen ty) → ∀ results after,
    builtin.results args pool = .ok results after → ∃ filled results' after',
    List.Forall₂ (Fills gen) args filled ∧
      builtin.results filled pool' = .ok results' after' ∧ List.Forall₂ RefinedBy results results'

variable {pool pool' after : Pool}

theorem exists_filled_binary {operator : String} {left right type : Ty} (legible : pool.Legible gen)
    (legible' : pool'.Legible gen) (first : Whole gen left) (second : Whole gen right)
    (run : binary operator left right pool = .ok type after) :
    ∃ left' right' type' after', Fills gen left left' ∧
      Fills gen right right' ∧ binary operator left' right' pool' = .ok type' after' ∧
      RefinedBy type type' := by
  obtain ⟨operates, _⟩ := (only_binary first.legible second.legible legible run).1
  obtain ⟨left', right', type', fills, fills', operates', refined⟩ :=
    exists_filled_operates first second operates
  obtain ⟨after', run', _⟩ := sure_binary fills.legible fills'.legible operates' legible'
  exact ⟨left', right', type', after', fills, fills', run', refined⟩

theorem exists_filled_assignment {name operator : String} {target value both : Ty}
    (legible : pool.Legible gen) (legible' : pool'.Legible gen) (first : Whole gen target)
    (second : Whole gen value)
    (run : assignment name operator target value pool = .ok both after) :
    ∃ target' value' both' after',
      Fills gen target target' ∧ Fills gen value value' ∧
        assignment name operator target' value' pool' = .ok both' after' ∧
        RefinedBy both both' := by
  have assigns := (only_assignment first.legible second.legible legible run).1
  obtain ⟨target', value', both', fills, fills', assigns', refined⟩ :=
    exists_filled_assigns first second assigns
  obtain ⟨after', run', _⟩ := sure_assignment fills.legible fills'.legible assigns' legible'
  exact ⟨target', value', both', after', fills, fills', run', refined⟩

theorem exists_filled_results {builtin : Builtin} {args results : List Ty}
    (legible : pool.Legible gen) (legible' : pool'.Legible gen) (whole : ∀ ty ∈ args, Whole gen ty)
    (run : builtin.results args pool = .ok results after) :
    ∃ filled results' after', List.Forall₂ (Fills gen) args filled ∧
      builtin.results filled pool' = .ok results' after' ∧
      List.Forall₂ RefinedBy results results' := by
  have yields :=
    (Builtin.only_results builtin (fun ty member => (whole ty member).legible) legible run).1
  obtain ⟨filled, results', fills, yields', refined⟩ := Builtin.filledYields_of_yields yields whole
  obtain ⟨after', run', _⟩ :=
    Builtin.sure_results (Builtin.allLegible_of_fills fills) yields' legible'
  exact ⟨filled, results', after', fills, run', refined⟩

theorem fillsUnknowns_of_legible (legible : pool.Legible gen) (legible' : pool'.Legible gen) :
    FillsUnknowns gen pool pool' := by
  constructor
  case operatorsRefine =>
    exact fun _ _ _ first second _ _ => exists_filled_binary legible legible' first second
  case assignmentsRefine =>
    exact fun _ _ _ _ first second _ _ => exists_filled_assignment legible legible' first second
  case builtinsRefine => exact fun _ _ whole _ _ => exists_filled_results legible legible' whole
  case operators =>
    intro operator left right first second
    constructor
    · rintro ⟨type, after, run⟩
      obtain ⟨left', right', type', after', fills, fills', run', _⟩ :=
        exists_filled_binary legible legible' first second run
      exact ⟨left', right', fills, fills', type', after', run'⟩
    · rintro ⟨left', right', fills, fills', type', after', run'⟩
      obtain ⟨operates, _⟩ := (only_binary fills.legible fills'.legible legible' run').1
      obtain ⟨type, operates, _⟩ :=
        operates_of_refined first second fills.refined fills'.refined operates
      obtain ⟨after, run, _⟩ := sure_binary first.legible second.legible operates legible
      exact ⟨type, after, run⟩
  case assignments =>
    intro name operator target value first second
    constructor
    · rintro ⟨both, after, run⟩
      obtain ⟨target', value', both', after', fills, fills', run', _⟩ :=
        exists_filled_assignment legible legible' first second run
      exact ⟨target', value', fills, fills', both', after', run'⟩
    · rintro ⟨target', value', fills, fills', both', after', run'⟩
      have assigns := (only_assignment fills.legible fills'.legible legible' run').1
      obtain ⟨both, assigns⟩ := assigns_of_refined first second fills.refined fills'.refined assigns
      obtain ⟨after, run, _⟩ := sure_assignment first.legible second.legible assigns legible
      exact ⟨both, after, run⟩
  case builtins =>
    intro builtin args whole
    have allLegible : Builtin.AllLegible gen args := fun ty member => (whole ty member).legible
    constructor
    · rintro ⟨results, after, run⟩
      have yields := (Builtin.only_results builtin allLegible legible run).1
      obtain ⟨filled, results', after', fills, run', _⟩ :=
        exists_filled_results legible legible' whole run
      exact ⟨Builtin.partKnown_of_yields yields fun ty member => (whole ty member).known,
        filled, fills, results', after', run'⟩
    · rintro ⟨part, filled, fills, results', after', run'⟩
      have yields :=
        (Builtin.only_results builtin (Builtin.allLegible_of_fills fills) legible' run').1
      obtain ⟨results, yields⟩ :=
        Builtin.yields_of_refined yields (fills.imp fun _ _ fills => fills.refined) whole part
      obtain ⟨after, run, _⟩ := Builtin.sure_results allLegible yields legible
      exact ⟨results, after, run⟩

/-- Whatever the pools have been asked before. -/
theorem fillsUnknowns_of_run {returned returned' : List Node} {memory memory' : Memory}
    (run : Memory.Run returned memory) (run' : Memory.Run returned' memory') (gen : Nat) :
    FillsUnknowns gen (memory.pool gen) (memory'.pool gen) :=
  fillsUnknowns_of_legible (run.canonical.1.legible_pool gen) (run'.canonical.1.legible_pool gen)

/-- An emptied pool, and one that has made integers and an empty array. -/
theorem fillsUnknowns_of_run_reset :
    let start := (Memory.mk 0 []).reset
    let int := start.base "int"
    let nothing := int.2.array .unknown
    FillsUnknowns 3 (start.pool 3) (nothing.2.pool 3) := by
  intro start int nothing
  have first : Memory.Run [int.1] int.2 :=
    .step (.reset ⟨0, []⟩) (show Memory.Operation.Allowed [] (.base "int") from
      plainName_of_baseNames (by decide))
  have second : Memory.Run [nothing.1, int.1] nothing.2 :=
    .step first (show Memory.Operation.Allowed [int.1] (.array .unknown) from .inl rfl)
  exact fillsUnknowns_of_run (.reset ⟨0, []⟩) second 3

end Typing

end ColonScript
