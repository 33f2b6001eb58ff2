import ColonScript.Proofs.Fillings
import ColonScript.Proofs.Rules

/-! What the rules of typing accept, as tables: operators on two types, assignments, and the
signatures of the built-in functions. In a pool of any generation a rule succeeds exactly on the
types of its table, with the results that stand there. -/

namespace ColonScript

namespace Typing
open Ty

variable {α β : Type} {gen : Nat} {rule : Typing α} {good : α → Prop}

def Only (gen : Nat) (good : α → Prop) (rule : Typing α) : Prop :=
  ∀ ⦃pool a after⦄, Pool.Legible gen pool → rule pool = .ok a after → good a ∧ after.Legible gen

/-- The rule gives the answer in every pool of the generation, and keeps the pool one of that. -/
def Sure (gen : Nat) (a : α) (rule : Typing α) : Prop :=
  ∀ ⦃pool⦄, Pool.Legible gen pool → ∃ after, rule pool = .ok a after ∧ after.Legible gen

namespace Only

theorem pure {a : α} (holds : good a) : Only gen good (pure a) := by
  intro pool a' after legible run
  cases run
  exact ⟨holds, legible⟩

theorem throw {cause : Cause} : Only gen good (throw cause) := by
  intro pool a after _ run
  cases run

theorem bind {good' : β → Prop} {f : α → Typing β} (first : Only gen good rule)
    (next : ∀ a, good a → Only gen good' (f a)) : Only gen good' (rule >>= f) := by
  intro pool b after legible run
  obtain ⟨a, between, answered, run⟩ := ok_of_bind run
  obtain ⟨holds, kept⟩ := first legible answered
  exact next a holds kept run

theorem ite {c : Prop} [Decidable c] {other : Typing α} (yes : c → Only gen good rule)
    (no : ¬c → Only gen good other) :
    Only gen good (if c then rule else other) := by
  split
  next holds => exact yes holds
  next fails => exact no fails

theorem mono {good' : α → Prop} (only : Only gen good rule) (implies : ∀ a, good a → good' a) :
    Only gen good' rule := by
  intro pool a after legible run
  obtain ⟨holds, kept⟩ := only legible run
  exact ⟨implies a holds, kept⟩

theorem modifyGet {f : Pool → α × Pool}
    (asks : ∀ pool, Pool.Legible gen pool → good (f pool).1 ∧ (f pool).2.Legible gen) :
    Only gen good (modifyGet f : Typing α) := by
  intro pool a after legible run
  cases run
  exact asks pool legible

theorem base {name : String} (plain : PlainName name) :
    Only gen (· = .base gen name) (Typing.base name) :=
  modifyGet fun _ legible => Pool.base_legible legible plain

theorem array {element : Ty} (legible : element.Legible gen) :
    Only gen (· = .array gen element) (Typing.array element) :=
  modifyGet fun _ kept => Pool.array_legible kept legible

theorem join {a b : Ty} (left : a.Legible gen) (right : b.Legible gen) :
    Only gen (Outcome gen a b) (Typing.join a b) :=
  modifyGet fun _ legible => Pool.join_legible legible left right

theorem agree {a b : Ty} (left : a.Legible gen) (right : b.Legible gen) :
    Only gen (· = a.compatible b) (Typing.agree a b) := by
  refine modifyGet fun pool legible => ?_
  obtain ⟨outcome, kept⟩ := Pool.join_legible legible left right
  exact ⟨outcome.isSome, kept⟩

end Only

namespace Sure

theorem pure (a : α) : Sure gen a (pure a) := fun pool legible => ⟨pool, rfl, legible⟩

theorem bind {a : α} {b : β} {f : α → Typing β} (first : Sure gen a rule)
    (next : Sure gen b (f a)) :
    Sure gen b (rule >>= f) := by
  intro pool legible
  obtain ⟨between, answered, kept⟩ := first legible
  obtain ⟨after, answered', kept'⟩ := next kept
  exact ⟨after, (run_answered_bind answered).trans answered', kept'⟩

theorem modifyGet {f : Pool → α × Pool} {a : α}
    (asks : ∀ pool, Pool.Legible gen pool → (f pool).1 = a ∧ (f pool).2.Legible gen) :
    Sure gen a (modifyGet f : Typing α) := by
  intro pool legible
  obtain ⟨rfl, kept⟩ := asks pool legible
  exact ⟨_, rfl, kept⟩

theorem base {name : String} (plain : PlainName name) :
    Sure gen (.base gen name) (Typing.base name) :=
  modifyGet fun _ legible => Pool.base_legible legible plain

theorem array {element : Ty} (legible : element.Legible gen) :
    Sure gen (.array gen element) (Typing.array element) :=
  modifyGet fun _ kept => Pool.array_legible kept legible

theorem join {a b : Ty} {found : Option Ty} (left : a.Legible gen) (right : b.Legible gen)
    (outcome : Outcome gen a b found) : Sure gen found (Typing.join a b) := by
  refine modifyGet fun pool legible => ?_
  obtain ⟨outcome', kept⟩ := Pool.join_legible legible left right
  exact ⟨outcome'.unique outcome, kept⟩

theorem agree {a b : Ty} (left : a.Legible gen) (right : b.Legible gen) :
    Sure gen (a.compatible b) (Typing.agree a b) := by
  refine modifyGet fun pool legible => ?_
  obtain ⟨outcome, kept⟩ := Pool.join_legible legible left right
  exact ⟨outcome.isSome, kept⟩

end Sure

/-! Operators and assignments. -/

inductive Operates (gen : Nat) (operator : String) : Ty → Ty → Ty → Prop where
  | bases {l r name : String} (listed : baseBinary? operator l r = some name) :
      Operates gen operator (.base gen l) (.base gen r) (.base gen name)
  | concat {x y both : Ty} (plus : operator = "+") (legible : both.Legible gen)
      (least : Least (.array gen x) (.array gen y) both) : Operates gen operator (.array gen x)
      (.array gen y) both
  | compare {x y : Ty} (compares : operator ∈ equality) (compatible : x.compatible y = true) :
      Operates gen operator (.array gen x) (.array gen y) (.base gen "bool")

variable {operator : String} {left right target value type : Ty}

theorem plus_of_mem_equality (compares : operator ∈ equality) : operator ≠ "+" := by
  rintro rfl
  revert compares
  decide

theorem only_binary (leftLegible : left.Legible gen) (rightLegible : right.Legible gen) :
    Only gen (fun type => Operates gen operator left right type ∧ type.Legible gen)
      (binary operator left right) := by
  unfold binary
  split
  · obtain ⟨rfl, leftLegible⟩ := leftLegible
    obtain ⟨rfl, rightLegible⟩ := rightLegible
    refine .bind (.join ⟨rfl, leftLegible⟩ ⟨rfl, rightLegible⟩) ?_
    intro found outcome
    cases outcome with
    | none => exact .throw
    | least legible least =>
      refine .ite (fun plus => .pure ⟨.concat plus legible least, legible⟩) fun _ => ?_
      refine .ite (fun compares => ?_) fun _ => .throw
      have plain : PlainName "bool" := plainName_of_baseNames (by decide)
      refine (Only.base plain).mono ?_
      rintro _ rfl
      exact ⟨.compare compares (least.left.compatible least.right), rfl, plain⟩
  · obtain ⟨rfl, _⟩ := leftLegible
    obtain ⟨rfl, _⟩ := rightLegible
    split
    next => exact .throw
    next name listed =>
      have plain := plainName_of_baseNames (mem_baseNames_of_baseBinary? listed)
      refine (Only.base plain).mono ?_
      rintro _ rfl
      exact ⟨.bases listed, rfl, plain⟩
  · exact .throw

theorem sure_binary (leftLegible : left.Legible gen) (rightLegible : right.Legible gen)
    (operates : Operates gen operator left right type) :
    Sure gen type (binary operator left right) := by
  cases operates with
  | bases listed =>
    unfold binary
    simp only [listed]
    exact .base (plainName_of_baseNames (mem_baseNames_of_baseBinary? listed))
  | concat plus legible least =>
    refine .bind (.join leftLegible rightLegible (.least legible least)) ?_
    simp only [plus, if_true]
    exact .pure _
  | @compare x y compares compatible =>
    obtain ⟨both, legible, least⟩ :=
      exists_least (a := .array gen x) (b := .array gen y) leftLegible rightLegible compatible
    refine .bind (.join leftLegible rightLegible (.least legible least)) ?_
    simp only [plus_of_mem_equality compares, compares, if_true, if_false]
    exact .base (plainName_of_baseNames (by decide))

inductive Receives (gen : Nat) (operator : String) (target value : Ty) : Ty → Prop where
  | plain (plain : operator = "=") : Receives gen operator target value value
  | compound {given : Ty} (compound : operator ≠ "=")
      (operates : Operates gen (underlying operator) target value given) : Receives gen operator
      target value given

def Assigns (gen : Nat) (operator : String) (target value both : Ty) : Prop :=
  ∃ given, (Receives gen operator target value given ∧ given.Legible gen) ∧ both.Legible gen ∧
    Least target given both

theorem only_assignment {name : String} (targetLegible : target.Legible gen)
    (valueLegible : value.Legible gen) :
    Only gen (Assigns gen operator target value) (assignment name operator target value) := by
  rw [assignment_eq]
  have given : Only gen (fun given => Receives gen operator target value given ∧ given.Legible gen)
      (received operator target value) := by
    unfold received
    refine .ite (fun plain => .pure ⟨.plain plain, valueLegible⟩) fun compound => ?_
    exact (only_binary targetLegible valueLegible).mono fun _ found =>
      ⟨.compound compound found.1, found.2⟩
  refine .bind given fun given received => .bind (.join targetLegible received.2) ?_
  intro found outcome
  cases outcome with
  | none => exact .throw
  | least legible least => exact .pure ⟨given, received, legible, least⟩

theorem sure_assignment {name : String} {both : Ty} (targetLegible : target.Legible gen)
    (valueLegible : value.Legible gen) (assigns : Assigns gen operator target value both) :
    Sure gen both (assignment name operator target value) := by
  obtain ⟨given, ⟨receives, givenLegible⟩, legible, least⟩ := assigns
  rw [assignment_eq]
  have first : Sure gen given (received operator target value) := by
    unfold received
    cases receives with
    | plain plain =>
      rw [if_pos plain]
      exact .pure _
    | compound compound operates =>
      rw [if_neg compound]
      exact sure_binary targetLegible valueLegible operates
  exact first.bind (.bind (.join targetLegible givenLegible (.least legible least)) (.pure _))

end Typing

/-! Built-in functions. -/

namespace Builtin
open Ty Typing

variable {gen : Nat} {builtin : Builtin} {args results : List Ty}

def ofOne? (gen : Nat) : Builtin → Option ((Ty → Bool) × List Ty)
  | print => some (fun _ => true, [])
  | len => some (fun ty => ty.isContainer || ty.isBase "string", [.base gen "int"])
  | toString | typeOf => some (fun _ => true, [.base gen "string"])
  | toInt => some (fun ty => !(ty.isContainer || ty.isBase "bool"), [.base gen "int"])
  | toFloat =>
    some (fun ty => !(ty.isContainer || ty.isBase "bool" || ty.isBase "char"), [.base gen "float"])
  | _ => none

/-- The signatures: the types of the results for the types of the arguments. -/
inductive Yields (gen : Nat) : Builtin → List Ty → List Ty → Prop where
  | ofOne {builtin : Builtin} {accepts : Ty → Bool} {subject : Ty} {results : List Ty}
      (listed : ofOne? gen builtin = some (accepts, results)) (accepted : accepts subject = true) :
      Yields gen builtin [subject] results
  | copy {subject : Ty} (container : subject.isContainer = true) : Yields gen .copy
    [subject] [subject]
  | println {args : List Ty} (few : args.length ≤ 1) : Yields gen .println args []
  | scan {builtin : Builtin} {args : List Ty} (reads : builtin = .scan ∨ builtin = .scanln)
      (options : args ∈ [[], [.base gen "string"], [.base gen "string", .base gen "bool"]]) :
      Yields gen builtin args [.base gen "string"]
  | push {element ty : Ty} (fits : element.compatible ty = true) :
      Yields gen .push [.array gen element, ty] [.array gen element]
  | pushPair {key value k v : Ty} (keyFits : key.compatible k = true)
      (valueFits : value.compatible v = true) :
      Yields gen .push [.map gen key value, k, v] [.map gen key value]
  | pop {element : Ty} {index : List Ty} (known : element ≠ .unknown)
      (options : index ∈ [[], [.base gen "int"]]) :
      Yields gen .pop (.array gen element :: index) [element]
  | insert {element ty : Ty} (fits : element.compatible ty = true) :
      Yields gen .insert [.array gen element, .base gen "int", ty] [.array gen element]
  | remove {element ty : Ty} (fits : element.compatible ty = true) :
      Yields gen .remove [.array gen element, ty] [.array gen element]
  | removeKey {key value k : Ty} (fits : key.compatible k = true) :
      Yields gen .remove [.map gen key value, k] [.map gen key value]
  | delete {element ty : Ty} (fits : element.compatible ty = true) (known : element ≠ .unknown) :
      Yields gen .delete [.array gen element, ty] [element]
  | deleteKey {key value k : Ty} (fits : key.compatible k = true) (known : value ≠ .unknown) :
      Yields gen .delete [.map gen key value, k] [value]
  | getIndex {element ty : Ty} (fits : element.compatible ty = true) :
      Yields gen .getIndex [.array gen element, ty] [.base gen "int"]
  | keys {key value : Ty} : Yields gen .keys [.map gen key value] [.array gen key]
  | values {key value : Ty} : Yields gen .values [.map gen key value] [.array gen value]
  | containsKey {key value k : Ty} (fits : key.compatible k = true) :
      Yields gen .containsKey [.map gen key value, k] [.base gen "bool"]
  | slice {subject : Ty} {bounds : List Ty}
      (sliced : (subject.isArray || subject.isBase "string") = true)
      (options : bounds ∈ [[.base gen "int", .base gen "int"],
        [.base gen "int", .base gen "int", .base gen "int"]]) :
      Yields gen .slice (subject :: bounds) [subject]
  | equals {left right : Ty} (compatible : left.compatible right = true) :
      Yields gen .equals [left, right] [.base gen "bool"]

/-! Only the results of the table. -/

theorem eq_base_of_isBase {ty : Ty} {name : String} (legible : ty.Legible gen)
    (is : ty.isBase name = true) :
    ty = .base gen name := by
  cases ty with
  | base own other =>
    obtain ⟨rfl, _⟩ := legible
    obtain rfl : other = name := by simpa [isBase] using is
    rfl
  | _ => cases is

theorem only_one {name : String} (member : name ∈ baseNames) :
    Only gen (· = [.base gen name]) (one name) := by
  refine .bind (.base (plainName_of_baseNames member)) ?_
  rintro _ rfl
  exact .pure rfl

theorem only_expectBase {what name : String} {ty : Ty} (legible : ty.Legible gen) :
    Only gen (fun _ => ty = .base gen name) (builtin.expectBase what name ty) := by
  unfold expectBase
  exact .ite (fun is => .pure (eq_base_of_isBase legible is)) fun _ => .throw

theorem only_expectPart {what : String} {part ty : Ty} (left : part.Legible gen)
    (right : ty.Legible gen) :
    Only gen (fun _ => part.compatible ty = true) (builtin.expectPart what part ty) := by
  unfold expectPart
  refine .ite (fun unknown => .pure ?_) fun _ => ?_
  · rw [unknown]
    cases ty <;> rfl
  · refine .bind (.agree left right) ?_
    rintro _ rfl
    exact .ite (fun fits => .pure fits) fun _ => .throw

theorem only_known {container : Container} {part : Ty} :
    Only gen (fun results => part ≠ .unknown ∧ results = [part])
      (do return [← builtin.knownPart container part]) := by
  unfold knownPart
  split
  · exact .throw
  · exact .pure ⟨‹_›, rfl⟩

theorem only_ofOne {accepts accepts' : Ty → Bool} {wanted : String} {make : Ty → Typing (List Ty)}
    (listed : ofOne? gen builtin = some (accepts', results)) (same : accepts = accepts')
    (each : ∀ ty, Only gen (· = results) (make ty)) :
    Only gen (Yields gen builtin args) (builtin.ofOne args accepts wanted make) := by
  subst same
  unfold ofOne
  split
  next subject =>
    refine .ite (fun accepted => ?_) fun _ => .throw
    refine (each subject).mono ?_
    rintro _ rfl
    exact .ofOne listed accepted
  next => exact .throw

def AllLegible (gen : Nat) (types : List Ty) : Prop := ∀ ty ∈ types, ty.Legible gen

theorem only_scanResults (reads : builtin = .scan ∨ builtin = .scanln)
    (legible : AllLegible gen args) :
    Only gen (Yields gen builtin args) (builtin.scanResults args) := by
  have result
    (options : args ∈ [[], [.base gen "string"], [.base gen "string", .base gen "bool"]]) :
      Only gen (Yields gen builtin args) (one "string") := by
    refine (only_one (by decide)).mono ?_
    rintro _ rfl
    exact .scan reads options
  unfold scanResults
  split
  · exact result (by simp)
  · refine .bind (only_expectBase (legible _ (by simp))) ?_
    rintro _ rfl
    exact result (by simp)
  · refine .bind (only_expectBase (legible _ (by simp))) ?_
    rintro _ rfl
    refine .bind (only_expectBase (legible _ (by simp))) ?_
    rintro _ rfl
    exact result (by simp)
  · exact .throw

theorem only_pushResults (legible : AllLegible gen args) :
    Only gen (Yields gen .push args) (push.pushResults args) := by
  unfold pushResults
  split
  · obtain ⟨rfl, element⟩ := legible _ List.mem_cons_self
    exact .bind (only_expectPart element (legible _ (by simp))) fun _ fits => .pure (.push fits)
  · obtain ⟨rfl, key, value⟩ := legible _ List.mem_cons_self
    refine .bind (only_expectPart key (legible _ (by simp))) fun _ keyFits => ?_
    exact .bind (only_expectPart value (legible _ (by simp))) fun _ valueFits =>
      .pure (.pushPair keyFits valueFits)
  all_goals exact .throw

theorem only_popResults (legible : AllLegible gen args) :
    Only gen (Yields gen .pop args) (pop.popResults args) := by
  unfold popResults
  split
  · obtain ⟨rfl, _⟩ := legible _ List.mem_cons_self
    refine only_known.mono ?_
    rintro _ ⟨known, rfl⟩
    exact .pop known (by simp)
  · obtain ⟨rfl, _⟩ := legible _ List.mem_cons_self
    refine .bind (only_expectBase (legible _ (by simp))) ?_
    rintro _ rfl
    refine only_known.mono ?_
    rintro _ ⟨known, rfl⟩
    exact .pop known (by simp)
  all_goals exact .throw

theorem only_insertResults (legible : AllLegible gen args) :
    Only gen (Yields gen .insert args) (insert.insertResults args) := by
  unfold insertResults
  split
  · obtain ⟨rfl, element⟩ := legible _ List.mem_cons_self
    refine .bind (only_expectBase (legible _ (by simp))) ?_
    rintro _ rfl
    exact .bind (only_expectPart element (legible _ (by simp))) fun _ fits => .pure (.insert fits)
  all_goals exact .throw

theorem only_removeResults (legible : AllLegible gen args) :
    Only gen (Yields gen .remove args) (remove.removeResults args) := by
  unfold removeResults
  split
  · obtain ⟨rfl, element⟩ := legible _ List.mem_cons_self
    exact .bind (only_expectPart element (legible _ (by simp))) fun _ fits => .pure (.remove fits)
  · obtain ⟨rfl, key, _⟩ := legible _ List.mem_cons_self
    exact .bind (only_expectPart key (legible _ (by simp))) fun _ fits => .pure (.removeKey fits)
  all_goals exact .throw

theorem only_deleteResults (legible : AllLegible gen args) :
    Only gen (Yields gen .delete args) (delete.deleteResults args) := by
  unfold deleteResults
  split
  · obtain ⟨rfl, element⟩ := legible _ List.mem_cons_self
    refine .bind (only_expectPart element (legible _ (by simp))) fun _ fits => ?_
    refine only_known.mono ?_
    rintro _ ⟨known, rfl⟩
    exact .delete fits known
  · obtain ⟨rfl, key, _⟩ := legible _ List.mem_cons_self
    refine .bind (only_expectPart key (legible _ (by simp))) fun _ fits => ?_
    refine only_known.mono ?_
    rintro _ ⟨known, rfl⟩
    exact .deleteKey fits known
  all_goals exact .throw

theorem only_getIndexResults (legible : AllLegible gen args) :
    Only gen (Yields gen .getIndex args) (getIndex.getIndexResults args) := by
  unfold getIndexResults
  split
  · obtain ⟨rfl, element⟩ := legible _ List.mem_cons_self
    refine .bind (only_expectPart element (legible _ (by simp))) fun _ fits => ?_
    refine (only_one (by decide)).mono ?_
    rintro _ rfl
    exact .getIndex fits
  all_goals exact .throw

theorem only_partsResults {part : (key value : Ty) → Ty} (legible : AllLegible gen args)
    (each : ∀ key value, key.Legible gen → value.Legible gen → (part key value).Legible gen)
    (listed : ∀ key value, Yields gen builtin [.map gen key value] [.array gen (part key value)]) :
    Only gen (Yields gen builtin args) (builtin.partsResults args part) := by
  unfold partsResults
  split
  · obtain ⟨rfl, key, value⟩ := legible _ List.mem_cons_self
    refine .bind (.array (each _ _ key value)) ?_
    rintro _ rfl
    exact .pure (listed _ _)
  all_goals exact .throw

theorem only_containsKeyResults (legible : AllLegible gen args) :
    Only gen (Yields gen .containsKey args) (containsKey.containsKeyResults args) := by
  unfold containsKeyResults
  split
  · obtain ⟨rfl, key, _⟩ := legible _ List.mem_cons_self
    refine .bind (only_expectPart key (legible _ (by simp))) fun _ fits => ?_
    refine (only_one (by decide)).mono ?_
    rintro _ rfl
    exact .containsKey fits
  all_goals exact .throw

theorem only_sliceResults (legible : AllLegible gen args) :
    Only gen (Yields gen .slice args) (slice.sliceResults args) := by
  unfold sliceResults
  split
  next subject start stop step =>
    refine .ite (fun _ => .throw) fun few => .ite (fun sliced => ?_) fun _ => .throw
    refine .bind (only_expectBase (legible _ (by simp))) ?_
    rintro _ rfl
    refine .bind (only_expectBase (legible _ (by simp))) ?_
    rintro _ rfl
    match step, few with
    | [], _ =>
      have none : Only gen (fun _ => True) (List.forM [] (slice.expectBase "step" "int")) :=
        .pure trivial
      exact none.bind fun _ _ => .pure (.slice sliced (by simp))
    | [last], _ =>
      have one : Only gen (fun _ => last = .base gen "int")
        ([last].forM (slice.expectBase "step" "int")) :=
        .bind (only_expectBase (legible last (by simp))) fun _ is => .pure is
      refine one.bind ?_
      rintro _ rfl
      exact .pure (.slice sliced (by simp))
    | _ :: _ :: _, few => exact absurd (by simp) few
  next => exact .throw

theorem only_equalsResults (legible : AllLegible gen args) :
    Only gen (Yields gen .equals args) (equals.equalsResults args) := by
  unfold equalsResults
  split
  · refine .bind (.agree (legible _ (by simp)) (legible _ (by simp))) ?_
    rintro _ rfl
    refine .ite (fun compatible => ?_) fun _ => .throw
    refine (only_one (by decide)).mono ?_
    rintro _ rfl
    exact .equals compatible
  · exact .throw

theorem only_results (builtin : Builtin) (legible : AllLegible gen args) :
    Only gen (Yields gen builtin args) (builtin.results args) := by
  cases builtin with
  | print => exact only_ofOne rfl rfl fun _ => .pure rfl
  | println => exact .ite (fun few => .pure (.println few)) fun _ => .throw
  | scan => exact only_scanResults (.inl rfl) legible
  | scanln => exact only_scanResults (.inr rfl) legible
  | len | toString | typeOf | toInt | toFloat =>
    exact only_ofOne rfl rfl fun _ => only_one (by decide)
  | push => exact only_pushResults legible
  | pop => exact only_popResults legible
  | insert => exact only_insertResults legible
  | remove => exact only_removeResults legible
  | delete => exact only_deleteResults legible
  | getIndex => exact only_getIndexResults legible
  | keys => exact only_partsResults legible (fun _ _ key _ => key) fun _ _ => .keys
  | values => exact only_partsResults legible (fun _ _ _ value => value) fun _ _ => .values
  | containsKey => exact only_containsKeyResults legible
  | slice => exact only_sliceResults legible
  | equals => exact only_equalsResults legible
  | copy =>
    unfold Builtin.results ofOne
    dsimp only
    split
    next => exact .ite (fun container => .pure (.copy container)) fun _ => .throw
    next => exact .throw

/-! All results of the table. -/

theorem sure_one {name : String} (member : name ∈ baseNames) :
    Sure gen [.base gen name] (one name) :=
  .bind (.base (plainName_of_baseNames member)) (.pure _)

theorem sure_expectBase (what name : String) :
    Sure gen () (builtin.expectBase what name (.base gen name)) := by
  unfold expectBase
  rw [if_pos (by simp [isBase])]
  exact .pure _

theorem sure_expectPart {what : String} {part ty : Ty} (left : part.Legible gen)
    (right : ty.Legible gen) (fits : part.compatible ty = true) :
    Sure gen () (builtin.expectPart what part ty) := by
  unfold expectPart
  split
  · exact .pure _
  · refine .bind (.agree left right) ?_
    rw [if_pos fits]
    exact .pure _

theorem sure_knownPart {container : Container} {part : Ty} (known : part ≠ .unknown) :
    Sure gen part (builtin.knownPart container part) := by
  unfold knownPart
  rw [if_neg known]
  exact .pure _

theorem sure_ofOne {accepts : Ty → Bool} {subject : Ty}
    (listed : ofOne? gen builtin = some (accepts, results))
    (accepted : accepts subject = true) : Sure gen results (builtin.results [subject]) := by
  cases builtin with
  | print =>
    cases listed
    exact .pure _
  | len | toInt | toFloat =>
    cases listed
    unfold Builtin.results ofOne
    dsimp only
    rw [if_pos accepted]
    exact sure_one (by decide)
  | toString | typeOf =>
    cases listed
    exact sure_one (by decide)
  | _ => cases listed

theorem sure_scanResults
    (options : args ∈ [[], [.base gen "string"], [.base gen "string", .base gen "bool"]]) :
    Sure gen [.base gen "string"] (builtin.scanResults args) := by
  simp only [List.mem_cons, List.not_mem_nil, or_false] at options
  rcases options with rfl | rfl | rfl
  · exact sure_one (by decide)
  · exact (sure_expectBase "prompt" "string").bind (sure_one (by decide))
  · exact (sure_expectBase "prompt" "string").bind
      ((sure_expectBase "newline flag" "bool").bind (sure_one (by decide)))

theorem sure_sliceResults {subject : Ty} {bounds : List Ty}
    (sliced : (subject.isArray || subject.isBase "string") = true)
    (options : bounds ∈ [[.base gen "int", .base gen "int"],
      [.base gen "int", .base gen "int", .base gen "int"]]) :
    Sure gen [subject] (slice.sliceResults (subject :: bounds)) := by
  have start : Sure gen () (slice.expectBase "start index" "int" (.base gen "int")) :=
    sure_expectBase _ _
  have stop : Sure gen () (slice.expectBase "end index" "int" (.base gen "int")) :=
    sure_expectBase _ _
  have step : Sure gen () (slice.expectBase "step" "int" (.base gen "int")) := sure_expectBase _ _
  simp only [List.mem_cons, List.not_mem_nil, or_false] at options
  unfold sliceResults
  rcases options with rfl | rfl
  · simp only [List.length_nil, if_neg (Nat.not_lt_zero 1), if_pos sliced]
    exact start.bind (stop.bind (.bind (.pure ()) (.pure _)))
  · simp only [List.length_singleton, if_neg (Nat.lt_irrefl 1), if_pos sliced]
    exact start.bind (stop.bind (.bind (step.bind (.pure ())) (.pure _)))

theorem sure_results (legible : AllLegible gen args) (yields : Yields gen builtin args results) :
    Sure gen results (builtin.results args) := by
  cases yields with
  | ofOne listed accepted => exact sure_ofOne listed accepted
  | copy container =>
    unfold Builtin.results ofOne
    dsimp only
    rw [if_pos container]
    exact .pure _
  | println few =>
    unfold Builtin.results
    dsimp only
    rw [if_pos few]
    exact .pure _
  | scan reads options =>
    have given : builtin.results args = builtin.scanResults args := by
      rcases reads with rfl | rfl <;> rfl
    rw [given]
    exact sure_scanResults options
  | push fits =>
    exact (sure_expectPart (legible _ List.mem_cons_self).2 (legible _ (by simp)) fits).bind
      (.pure _)
  | pushPair keyFits valueFits =>
    obtain ⟨_, key, value⟩ := legible _ List.mem_cons_self
    exact (sure_expectPart key (legible _ (by simp)) keyFits).bind
      ((sure_expectPart value (legible _ (by simp)) valueFits).bind (.pure _))
  | pop known options =>
    simp only [List.mem_cons, List.not_mem_nil, or_false] at options
    rcases options with rfl | rfl
    · exact (sure_knownPart known).bind (.pure _)
    · exact (sure_expectBase "index" "int").bind ((sure_knownPart known).bind (.pure _))
  | insert fits =>
    exact (sure_expectBase "index" "int").bind
      ((sure_expectPart (legible _ List.mem_cons_self).2 (legible _ (by simp)) fits).bind (.pure _))
  | remove fits =>
    exact (sure_expectPart (legible _ List.mem_cons_self).2 (legible _ (by simp)) fits).bind
      (.pure _)
  | removeKey fits =>
    exact (sure_expectPart (legible _ List.mem_cons_self).2.1 (legible _ (by simp)) fits).bind
      (.pure _)
  | delete fits known =>
    exact (sure_expectPart (legible _ List.mem_cons_self).2 (legible _ (by simp)) fits).bind
      ((sure_knownPart known).bind (.pure _))
  | deleteKey fits known =>
    exact (sure_expectPart (legible _ List.mem_cons_self).2.1 (legible _ (by simp)) fits).bind
      ((sure_knownPart known).bind (.pure _))
  | getIndex fits =>
    exact (sure_expectPart (legible _ List.mem_cons_self).2 (legible _ (by simp)) fits).bind
      (sure_one (by decide))
  | keys => exact (Sure.array (legible _ List.mem_cons_self).2.1).bind (.pure _)
  | values => exact (Sure.array (legible _ List.mem_cons_self).2.2).bind (.pure _)
  | containsKey fits =>
    exact (sure_expectPart (legible _ List.mem_cons_self).2.1 (legible _ (by simp)) fits).bind
      (sure_one (by decide))
  | slice sliced options => exact sure_sliceResults sliced options
  | equals compatible =>
    refine .bind (.agree (legible _ (by simp)) (legible _ (by simp))) ?_
    rw [if_pos compatible]
    exact sure_one (by decide)

end Builtin

end ColonScript
