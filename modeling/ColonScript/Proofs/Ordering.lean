import ColonScript.Proofs.Gathering
import ColonScript.Proofs.Printing.ReadBack
import ColonScript.Proofs.Reading.Placeless
import ColonScript.Proofs.Reading.Splicing

/-! The order in which the members of a literal stand. A member is read alike wherever it stands, in
front of a comma as in front of the end; so a literal is read whenever the types of its members can
be gathered, in any order of these, and the type that is gathered settles each of them. -/

namespace ColonScript.Reading
open Token (Kind)
open Ty
open Spelling (brackets curlies listed)

variable {s t t' : Session} {written behind more : List Spelling} {e : Expr}

/-! Members. -/

/-- In the place of `s` the tokens are read as the expression, and nothing of what stands behind
them. -/
def Session.ReadsAs (s : Session) (tokens : List Spelling) (e : Expr) : Prop :=
  ∃ c behind s', c.ahead.map Token.meaning = tokens ++ behind ∧
    expression .lowest (s.withCursor c) = .ok e s' ∧ s'.facing = behind

theorem Session.facing_splice (facing : s.facing = written ++ behind) (tail : Cursor) :
    (s.splice behind.length tail).facing = written ++ tail.ahead.map Token.meaning := by
  have length : s.ahead.length - behind.length = written.length := by
    rw [← List.length_map Token.meaning, show s.ahead.map Token.meaning = written ++ behind from
      facing, List.length_append, Nat.add_sub_cancel]
  show (s.ahead.take (s.ahead.length - behind.length) ++ tail.ahead).map Token.meaning = _
  rw [length, List.map_append, List.map_take, show s.ahead.map Token.meaning = written ++
    behind from facing, List.take_left]

/-- What is read from tokens somewhere is read from them wherever nothing goes on with it. -/
theorem Session.ReadsAs.readFrom (readsAs : s.ReadsAs written e) (grounded : Grounded s)
    (standard : s.grammar = .standard) : ReadFrom s.scopes written Stops (.expr .lowest e) := by
  intro more t ready stops
  obtain ⟨c, behind, s', facing, run, ends⟩ := readsAs
  have reads := ok_expression.mp run
  let tail : Cursor := ⟨t.ahead.drop written.length, t.cursor.closing⟩
  have tailMeanings : tail.ahead.map Token.meaning = more := by
    rw [List.map_drop, show t.ahead.map Token.meaning = written ++ more from
      ready.facing, List.drop_left]
  have loose : tail.Loose := by
    rw [Cursor.Loose, show tail.current.kind = leadKind more from
      kind_of_facing (s := t.withCursor tail) tailMeanings]
    exact stops
  have length : behind.length = s'.ahead.length := by rw [← ends, Session.facing, List.length_map]
  have spliced := reads.splice (n := behind.length) tail (.inr ⟨length, loose⟩)
  have start : ((s.withCursor c).splice behind.length tail).facing = t.facing := by
    rw [Session.facing_splice (s := s.withCursor c) facing, tailMeanings, ready.facing]
  obtain ⟨c', moved, alike⟩ := spliced.withCursor ⟨start, rfl⟩
  have there : Grounded (((s.withCursor c).splice behind.length tail).withCursor t.cursor) :=
    ⟨grounded.pool, grounded.scopes⟩
  obtain ⟨pool', pooled, faithful'⟩ := moved.inAnyPool there trivial ready.faithful
  have same : ((((s.withCursor c).splice behind.length tail).withCursor t.cursor).withPool
    t.pool).elsewhere t.file
      t.place = t := by
    obtain ⟨cursor, file, grammar, scopes, pool, place⟩ := t
    obtain rfl : grammar = s.grammar := ready.standard.trans standard.symm
    obtain rfl : scopes = s.scopes := ready.scopes
    rfl
  have read := pooled.elsewhere t.file t.place
  rw [same] at read
  have onward := read.onward
  refine ⟨_, ⟨onward.grammar.trans ready.standard, onward.scopes.trans ready.scopes, faithful', ?_⟩,
    read⟩
  have last : (s'.splice behind.length tail).facing = more := by
    rw [@Session.facing_splice s' [] behind ends, List.nil_append, tailMeanings]
  exact alike.ahead.symm.trans last

theorem Session.ReadsAs.proper {type : Ty} (readsAs : s.ReadsAs written e) (grounded : Grounded s)
    (single : e.types = [type]) : type.Proper := by
  obtain ⟨c, _, _, _, run, _⟩ := readsAs
  have there : Grounded (s.withCursor c) := ⟨grounded.pool, grounded.scopes⟩
  exact proper_of_single (grounded_of_expr there (ok_expression.mp run)).1 single

/-- An expression of one value that is read in the place of a state. -/
structure Member (s : Session) where
  tokens : List Spelling
  value : Expr
  type : Ty
  reads : s.ReadsAs tokens value
  single : value.types = [type]

theorem Member.proper (member : Member s) (grounded : Grounded s) : member.type.Proper :=
  member.reads.proper grounded member.single

def Gathers (members : List (Member s)) (type : Ty) : Prop :=
  gather? .unknown (members.map Member.type) = some type

theorem proper_types (grounded : Grounded s) (members : List (Member s)) :
    ∀ ty ∈ members.map Member.type, ty.Proper := by
  intro ty inside
  obtain ⟨member, _, rfl⟩ := List.mem_map.mp inside
  exact member.proper grounded

theorem exists_gathers_iff (grounded : Grounded s) (members : List (Member s)) :
    (∃ type, Gathers members type) ↔ PairwiseCompatible (members.map Member.type) :=
  (exists_gather?_iff rfl fun ty inside => (proper_types grounded members ty inside).plain_eq).trans
    pairwiseCompatible_unknown

theorem Gathers.proper {members : List (Member s)} {type : Ty} (gathers : Gathers members type)
    (grounded : Grounded s) : type.Proper :=
  gather?_proper proper_unknown (proper_types grounded members) gathers

theorem Gathers.perm {members members' : List (Member s)} {type : Ty}
    (gathers : Gathers members type) (grounded : Grounded s) (perm : members.Perm members') :
    Gathers members' type :=
  gather?_perm (fun ty inside => (proper_types grounded members ty inside).plain_eq)
    (perm.map _) gathers

structure Pair (s : Session) where
  key : Member s
  value : Member s
  literal : key.value.isBaseLiteral = true

def Pair.tokens (pair : Pair s) : List Spelling :=
  pair.key.tokens ++ (.colon, ":") :: pair.value.tokens

def Pair.exprs (pair : Pair s) : Expr × Expr := (pair.key.value, pair.value.value)

theorem joinsTo_of_common? {a b both : Ty} (left : a.Proper) (right : b.Proper)
    (common : common? a b = some both) :
    JoinsTo a b both := by
  intro pool faithful
  obtain ⟨joined, kept⟩ := Pool.join_eq faithful left right
  exact ⟨joined.trans common, kept⟩

theorem common?_of_joined {pool : Pool} {a b both : Ty} (faithful : pool.Faithful) (left : a.Proper)
    (right : b.Proper) (joined : (pool.join a b).1 = some both) : common? a b = some both := by
  rwa [(Pool.join_eq faithful left right).1] at joined

theorem separated_unique {first : Bool} {s₁ s₂ : Session} (one : Session.Separated first s s₁)
    (other : Session.Separated first s s₂) : s₁ = s₂ := by
  cases first with
  | true => exact Eq.trans one (Eq.symm other)
  | false => exact one.2.trans other.2.symm

/-! Lists of members. -/

section
variable (grounded : Grounded s) (standard : s.grammar = .standard) {first : Bool}
include grounded standard

theorem readFrom_elements {members : List (Member s)} {before type : Ty} (proper : before.Proper)
    (gathered : gather? before (members.map Member.type) = some type) :
    ReadFrom s.scopes (itemized first (members.map Member.tokens)) (leadKind · = .closeBracket)
      (.elements first before (members.map Member.value) type) := by
  induction members generalizing first before with
  | nil =>
    obtain rfl := Option.some.inj gathered
    exact readFrom_none fun _ closes => .noElements closes
  | cons member members ih =>
    obtain ⟨both, common, gathered⟩ := gather?_cons.mp gathered
    have own := member.proper grounded
    exact readFrom_element (member.reads.readFrom grounded standard) member.single
      (joinsTo_of_common? proper own common) (ih (common?_proper proper own common) gathered)

theorem gathered_of_elements {members : List (Member s)} {before type : Ty} {es : List Expr}
    (proper : before.Proper)
    (ready : Ready s.scopes (itemized first (members.map Member.tokens) ++ more) t)
    (closes : leadKind more = .closeBracket) (reads : Reads t (.elements first before es type) t') :
    gather? before (members.map Member.type) = some type := by
  induction members generalizing first before es t with
  | nil =>
    rw [List.map_nil, itemized_nil] at ready
    cases reads with
    | noElements => rfl
    | element goes => exact absurd (ready.kind_eq.trans closes) goes
  | cons member members ih =>
    have stops := stops_of_lead closes rfl
    obtain ⟨t₁, separated, ready₁⟩ := ready.item
    obtain ⟨t₂, ready₂, value⟩ :=
      member.reads.readFrom grounded standard ready₁ (stops_afterCommas stops _)
    cases reads with
    | noElements closed =>
      exact absurd closed (kind_ne_of_item separated value ready₁.standard (by decide))
    | element _ separated' value' single joined rest =>
      obtain rfl := separated_unique separated separated'
      obtain ⟨rfl, rfl⟩ := value.unique value'
      obtain rfl := (List.cons.inj (member.single.symm.trans single)).1
      have own := member.proper grounded
      have common := common?_of_joined ready₂.faithful proper own joined
      have after : Ready s.scopes (itemized false (members.map Member.tokens) ++ more) _ :=
        ready₂.withPool (Pool.join_eq ready₂.faithful proper own).2
      exact gather?_cons.mpr ⟨_, common, ih (common?_proper proper own common) after rest⟩

theorem readFrom_entries {pairs : List (Pair s)} {before : Ty × Ty} {key value : Ty}
    (keyProper : before.1.Proper) (valueProper : before.2.Proper)
    (keys : gather? before.1 ((pairs.map Pair.key).map Member.type) = some key)
    (values : gather? before.2 ((pairs.map Pair.value).map Member.type) = some value) :
    ReadFrom s.scopes (itemized first (pairs.map Pair.tokens)) (leadKind · = .closeCurly)
      (.entries first before (pairs.map Pair.exprs) (key, value)) := by
  induction pairs generalizing first before with
  | nil =>
    obtain rfl := Option.some.inj keys
    obtain rfl := Option.some.inj values
    exact readFrom_none fun _ closes => .noEntries closes
  | cons pair pairs ih =>
    obtain ⟨key', keyCommon, keys⟩ := gather?_cons.mp keys
    obtain ⟨value', valueCommon, values⟩ := gather?_cons.mp values
    have keyOwn := pair.key.proper grounded
    have valueOwn := pair.value.proper grounded
    exact readFrom_entry (pair.key.reads.readFrom grounded standard)
      (pair.value.reads.readFrom grounded standard)
      pair.literal pair.key.single pair.value.single (joinsTo_of_common? keyProper keyOwn keyCommon)
      (joinsTo_of_common? valueProper valueOwn valueCommon)
      (@ih false (key', value') (common?_proper keyProper keyOwn keyCommon)
        (common?_proper valueProper valueOwn valueCommon) keys values)

theorem gathered_of_entries {pairs : List (Pair s)} {before types : Ty × Ty}
    {es : List (Expr × Expr)}
    (keyProper : before.1.Proper) (valueProper : before.2.Proper)
    (ready : Ready s.scopes (itemized first (pairs.map Pair.tokens) ++ more) t)
    (closes : leadKind more = .closeCurly)
    (reads : Reads t (.entries first before es types) t') :
    gather? before.1 ((pairs.map Pair.key).map Member.type) = some types.1 ∧
      gather? before.2 ((pairs.map Pair.value).map Member.type) = some types.2 := by
  induction pairs generalizing first before es t with
  | nil =>
    rw [List.map_nil, itemized_nil] at ready
    cases reads with
    | noEntries => exact ⟨rfl, rfl⟩
    | entry goes => exact absurd (ready.kind_eq.trans closes) goes
  | cons pair pairs ih =>
    have stops := stops_of_lead closes rfl
    obtain ⟨t₁, separated, ready₁⟩ := ready.item
    rw [Pair.tokens, List.append_assoc, List.cons_append] at ready₁
    obtain ⟨t₂, ready₂, key⟩ := pair.key.reads.readFrom grounded standard ready₁ rfl
    obtain ⟨t₃, ready₃, value⟩ :=
      pair.value.reads.readFrom grounded standard ready₂.next (stops_afterCommas stops _)
    cases reads with
    | noEntries closed =>
      exact absurd closed (kind_ne_of_item separated key ready₁.standard (by decide))
    | entry _ separated' key' _ _ value' keySingle keyJoined valueSingle valueJoined rest =>
      obtain rfl := separated_unique separated separated'
      obtain ⟨rfl, rfl⟩ := key.unique key'
      obtain ⟨rfl, rfl⟩ := value.unique value'
      obtain rfl := (List.cons.inj (pair.key.single.symm.trans keySingle)).1
      obtain rfl := (List.cons.inj (pair.value.single.symm.trans valueSingle)).1
      have keyOwn := pair.key.proper grounded
      have valueOwn := pair.value.proper grounded
      have keyCommon := common?_of_joined ready₃.faithful keyProper keyOwn keyJoined
      have between := ready₃.withPool (Pool.join_eq ready₃.faithful keyProper keyOwn).2
      have valueCommon := common?_of_joined between.faithful valueProper valueOwn valueJoined
      have after : Ready s.scopes (itemized false (pairs.map Pair.tokens) ++ more) _ :=
        between.withPool (Pool.join_eq between.faithful valueProper valueOwn).2
      obtain ⟨keys, values⟩ := ih (common?_proper keyProper keyOwn keyCommon)
        (common?_proper valueProper valueOwn valueCommon) after rest
      exact ⟨gather?_cons.mpr ⟨_, keyCommon, keys⟩, gather?_cons.mpr ⟨_, valueCommon, values⟩⟩

end

/-! Literals. -/

def arrayTokens (members : List (Member s)) : List Spelling :=
  brackets (listed (members.map Member.tokens))

def mapTokens (pairs : List (Pair s)) : List Spelling := curlies (listed (pairs.map Pair.tokens))

def arrayOf (type : Ty) (members : List (Member s)) : Expr :=
  .array (members.map fun member => member.value.settle type) (.array 0 type)

def mapOf (key value : Ty) (pairs : List (Pair s)) : Expr :=
  .map (pairs.map fun pair => (pair.key.value, pair.value.value.settle value)) (.map 0 key value)

def Session.Accepts (s : Session) (power : Power) : Prop := ∃ e s', expression power s = .ok e s'

structure Cursor.Holds (c : Cursor) (tokens behind : List Spelling) : Prop where
  facing : c.ahead.map Token.meaning = tokens ++ behind
  stops : Stops behind

theorem Cursor.Holds.ready {c : Cursor} (holds : c.Holds written behind) (grounded : Grounded s)
    (standard : s.grammar = .standard) : Ready s.scopes (written ++ behind) (s.withCursor c) :=
  ⟨standard, rfl, grounded.pool, holds.facing⟩

def Session.Gives (s : Session) (tokens : List Spelling) (e : Expr) : Prop :=
  ∀ ⦃c behind power⦄, c.Holds tokens behind →
    ∃ s', expression power (s.withCursor c) = .ok e s' ∧ s'.facing = behind

theorem ReadFrom.gives (reads : ∀ power, ReadFrom s.scopes written Stops (.expr power e))
    (grounded : Grounded s) (standard : s.grammar = .standard) : s.Gives written e := by
  intro c behind power holds
  obtain ⟨t', after, read⟩ := reads power (holds.ready grounded standard) holds.stops
  exact ⟨t', ok_expression.mpr read, after.facing⟩

section
variable (grounded : Grounded s) (standard : s.grammar = .standard)
include grounded standard

theorem exists_gathers_of_array {members : List (Member s)} {c : Cursor} {power : Power}
    (holds : c.Holds (arrayTokens members) behind) (accepts : (s.withCursor c).Accepts power) :
    ∃ type, Gathers members type := by
  obtain ⟨e, s', run⟩ := accepts
  have ready := holds.ready grounded standard
  cases ok_expression.mp run with
  | expr opens operand rest =>
    rw [ready.opening] at opens
    cases opens
    cases operand with
    | array _ elements _ =>
      have inside : Ready s.scopes (itemized true (members.map Member.tokens) ++
        (.closeBracket, "]") :: behind)
          (s.withCursor c).next := by simpa [itemized] using ready.next
      exact ⟨_, gathered_of_elements grounded standard proper_unknown inside rfl elements⟩

theorem exists_gathers_of_map {pairs : List (Pair s)} {c : Cursor} {power : Power}
    (holds : c.Holds (mapTokens pairs) behind) (accepts : (s.withCursor c).Accepts power) :
    ∃ key value, Gathers (pairs.map Pair.key) key ∧ Gathers (pairs.map Pair.value) value := by
  obtain ⟨e, s', run⟩ := accepts
  have ready := holds.ready grounded standard
  cases ok_expression.mp run with
  | expr opens operand rest =>
    rw [ready.opening] at opens
    cases opens
    cases operand with
    | map _ entries _ =>
      have inside : Ready s.scopes
          (itemized true (pairs.map Pair.tokens) ++ (.closeCurly, "\x7d") :: behind)
          (s.withCursor c).next := by simpa [itemized] using ready.next
      exact ⟨_, _, gathered_of_entries grounded standard proper_unknown proper_unknown
        inside rfl entries⟩

theorem gives_array {members : List (Member s)} {type : Ty} (gathers : Gathers members type) :
    s.Gives (arrayTokens members) (arrayOf type members) := by
  have elements := @readFrom_elements s grounded standard true members .unknown type
    proper_unknown gathers
  have settled : arrayOf type members = .array (Expr.settleAll type (members.map Member.value))
    (.array 0 type) := by
    rw [arrayOf, Expr.settleAll_eq_map, List.map_map]
    rfl
  rw [settled]
  refine ReadFrom.gives (fun power => ?_) grounded standard
  exact (readFrom_array (gathers.proper grounded) elements).expr rfl power

theorem gives_map {pairs : List (Pair s)} {key value : Ty} (keys : Gathers (pairs.map Pair.key) key)
    (values : Gathers (pairs.map Pair.value) value) :
    s.Gives (mapTokens pairs) (mapOf key value pairs) := by
  have entries := @readFrom_entries s grounded standard true pairs (.unknown, .unknown) key value
    proper_unknown proper_unknown keys values
  have settled : mapOf key value pairs =
      .map (Expr.settleValues value (pairs.map Pair.exprs)) (.map 0 key value) := by
    rw [mapOf, Expr.settleValues_eq_map, List.map_map]
    rfl
  rw [settled]
  refine ReadFrom.gives (fun power => ?_) grounded standard
  exact (readFrom_map (keys.proper grounded) (values.proper grounded) entries).expr rfl power

end

/-- A literal of an array is accepted exactly when every two of its members have compatible types.
Then it is accepted in any order of the members, with the same type, and each member is settled
alike. -/
structure ArrayUnordered (members : List (Member s)) : Prop where
  accepted : ∀ ⦃c behind power⦄, c.Holds (arrayTokens members) behind →
    ((s.withCursor c).Accepts power ↔ PairwiseCompatible (members.map Member.type))
  unordered : PairwiseCompatible (members.map Member.type) →
    ∃ type, ∀ members', members'.Perm members →
    s.Gives (arrayTokens members') (arrayOf type members')

/-- A literal of a map is accepted exactly when every two of its keys have compatible types, and
every two of its values. Then it is accepted in any order of the pairs, with the same type, and each
value is settled alike. -/
structure MapUnordered (pairs : List (Pair s)) : Prop where
  accepted : ∀ ⦃c behind power⦄, c.Holds (mapTokens pairs) behind →
    ((s.withCursor c).Accepts power ↔
      PairwiseCompatible ((pairs.map Pair.key).map Member.type) ∧
        PairwiseCompatible ((pairs.map Pair.value).map Member.type))
  unordered : PairwiseCompatible ((pairs.map Pair.key).map Member.type) →
    PairwiseCompatible ((pairs.map Pair.value).map Member.type) →
    ∃ key value, ∀ pairs', pairs'.Perm pairs → s.Gives (mapTokens pairs') (mapOf key value pairs')

theorem array_unordered (grounded : Grounded s) (standard : s.grammar = .standard)
    (members : List (Member s)) :
    ArrayUnordered members := by
  have gathered := exists_gathers_iff grounded members
  constructor
  · intro c behind power holds
    constructor
    · intro accepts
      exact gathered.mp (exists_gathers_of_array grounded standard holds accepts)
    · intro compatible
      obtain ⟨type, gathers⟩ := gathered.mpr compatible
      obtain ⟨s', run, _⟩ := gives_array grounded standard gathers holds
      exact ⟨_, s', run⟩
  · intro compatible
    obtain ⟨type, gathers⟩ := gathered.mpr compatible
    exact ⟨type, fun members' perm => gives_array grounded standard
      (gathers.perm grounded perm.symm)⟩

theorem map_unordered (grounded : Grounded s) (standard : s.grammar = .standard)
    (pairs : List (Pair s)) :
    MapUnordered pairs := by
  have gatheredKeys := exists_gathers_iff grounded (pairs.map Pair.key)
  have gatheredValues := exists_gathers_iff grounded (pairs.map Pair.value)
  constructor
  · intro c behind power holds
    constructor
    · intro accepts
      obtain ⟨key, value, keys, values⟩ := exists_gathers_of_map grounded standard holds accepts
      exact ⟨gatheredKeys.mp ⟨key, keys⟩, gatheredValues.mp ⟨value, values⟩⟩
    · rintro ⟨keysFit, valuesFit⟩
      obtain ⟨key, keys⟩ := gatheredKeys.mpr keysFit
      obtain ⟨value, values⟩ := gatheredValues.mpr valuesFit
      obtain ⟨s', run, _⟩ := gives_map grounded standard keys values holds
      exact ⟨_, s', run⟩
  · intro keysFit valuesFit
    obtain ⟨key, keys⟩ := gatheredKeys.mpr keysFit
    obtain ⟨value, values⟩ := gatheredValues.mpr valuesFit
    refine ⟨key, value, fun pairs' perm => ?_⟩
    exact gives_map grounded standard (keys.perm grounded (perm.symm.map _))
      (values.perm grounded (perm.symm.map _))

/-- Wherever members are read, they make up literals that do not depend on their order. -/
theorem unordered_of_members (grounded : Grounded s) (standard : s.grammar = .standard) :
    (∀ members : List (Member s), ArrayUnordered members) ∧ ∀ pairs : List (Pair s),
      MapUnordered pairs :=
  ⟨array_unordered grounded standard, map_unordered grounded standard⟩

theorem exists_member_of_text (text : String) {type : Ty} {literal : Bool}
    (run : (match expression .lowest (s.withCursor (.ofText text)) with
      | .ok e s' => decide (s'.facing = [] ∧ e.types = [type] ∧ e.isBaseLiteral = literal)
      | .error _ _ => false) = true) :
    ∃ member : Member s, member.tokens = (Cursor.ofText text).ahead.map Token.meaning ∧
      member.type = type ∧ member.value.isBaseLiteral = literal := by
  split at run
  next e s' read =>
    obtain ⟨ends, single, literal⟩ := of_decide_eq_true run
    exact ⟨⟨_, e, type, ⟨.ofText text, [], s', (List.append_nil _).symm, read, ends⟩, single⟩,
      rfl, rfl, literal⟩
  next => cases run

/-- Empty arrays around one of integers, and an empty array and one of integers under keys. -/
theorem unordered_of_members_nested :
    let s := Session.insideOf (named "char")
    Grounded s ∧ s.grammar = .standard ∧
      (∃ members : List (Member s),
        members.map Member.type = [array 0 unknown, array 0 (named "int"), array 0 unknown] ∧
        PairwiseCompatible (members.map Member.type) ∧ ArrayUnordered members) ∧
      ∃ pairs : List (Pair s), (pairs.map Pair.key).map Member.type = [named "int", named "int"] ∧
        (pairs.map Pair.value).map Member.type = [array 0 unknown, array 0 (named "int")] ∧
        PairwiseCompatible ((pairs.map Pair.value).map Member.type) ∧ MapUnordered pairs := by
  intro s
  have grounded : Grounded s := Session.grounded_insideOf (written_named (by decide))
  obtain ⟨empty, _, emptyType, _⟩ :=
    @exists_member_of_text s "[]" (array 0 unknown) false (by decide +kernel)
  obtain ⟨one, _, oneType, _⟩ :=
    @exists_member_of_text s "[1]" (array 0 (named "int")) false (by decide +kernel)
  obtain ⟨key, _, keyType, literal⟩ :=
    @exists_member_of_text s "1" (named "int") true (by decide +kernel)
  obtain ⟨key', _, keyType', literal'⟩ :=
    @exists_member_of_text s "2" (named "int") true (by decide +kernel)
  obtain ⟨arrays, maps⟩ := unordered_of_members grounded rfl
  have types : [empty, one, empty].map Member.type =
    [array 0 unknown, array 0 (named "int"), array 0 unknown] := by
    simp [emptyType, oneType]
  let pairs : List (Pair s) := [⟨key, empty, literal⟩, ⟨key', one, literal'⟩]
  have keys : (pairs.map Pair.key).map Member.type = [named "int", named "int"] := by
    simp [pairs, keyType, keyType']
  have values : (pairs.map Pair.value).map Member.type =
    [array 0 unknown, array 0 (named "int")] := by
    simp [pairs, emptyType, oneType]
  refine ⟨grounded, rfl, ⟨_, types, ?_, arrays _⟩, pairs, keys, values, ?_, maps _⟩
  · rw [types]
    decide
  · rw [values]
    decide

end ColonScript.Reading
