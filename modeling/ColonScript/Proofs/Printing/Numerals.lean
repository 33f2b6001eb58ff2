import Mathlib.Data.List.TakeDrop
import ColonScript.Decimal.Shortest
import ColonScript.Proofs.Lexemes

/-! The numbers that a script can write, and what their texts are read as. An integer is written
with the digits that it is read from; a finite number with digits on either side of a point, which
are read as the same number. -/

namespace ColonScript.Decimal

abbrev IsDigits (text : List Char) : Prop := Token.Rule.digits.Shape text

abbrev IsDecimal (text : List Char) : Prop := Token.Rule.decimal.Shape text

theorem natOf_eq (digits : List Char) : natOf digits = Nat.ofDigitChars 10 digits 0 := rfl

theorem natOf_append (front back : List Char) :
    natOf (front ++ back) = Nat.ofDigitChars 10 back (natOf front) := by
  rw [natOf_eq, natOf_eq, Nat.ofDigitChars_append]

theorem isDigits_toDigits (n : Nat) : IsDigits (Nat.toDigits 10 n) :=
  ⟨Nat.toDigits_ne_nil, fun _ member => Nat.isDigit_of_mem_toDigits (by decide) (by decide) member⟩

theorem IsDigits.append_zeros {text : List Char} (digits : IsDigits text) (n : Nat) :
    IsDigits (text ++ List.replicate n '0') := by
  refine ⟨by simp [digits.1], ?_⟩
  intro d member
  rcases List.mem_append.mp member with front | zero
  · exact digits.2 d front
  · obtain rfl := List.eq_of_mem_replicate zero
    rfl

theorem IsDigits.zeros_append {text : List Char} (digits : IsDigits text) (n : Nat) :
    IsDigits (List.replicate n '0' ++ text) := by
  refine ⟨by simp [digits.1], ?_⟩
  intro d member
  rcases List.mem_append.mp member with zero | back
  · obtain rfl := List.eq_of_mem_replicate zero
    rfl
  · exact digits.2 d back

theorem splitSign_of_digits {text rest : List Char} (digits : IsDigits text) :
    splitSign (text ++ rest) = (false, text ++ rest) := by
  obtain ⟨filled, each⟩ := digits
  cases text with
  | nil => exact absurd rfl filled
  | cons d text =>
    have digit := each d List.mem_cons_self
    have noMinus : d ≠ '-' := fun same => (by rw [same] at digit; cases digit)
    have noPlus : d ≠ '+' := fun same => (by rw [same] at digit; cases digit)
    simp [splitSign, noMinus, noPlus]

/-! Integers. -/

theorem integer?_of_digits {text : List Char} (digits : IsDigits text) :
    integer? text = word? (natOf text) := by
  have sign : splitSign (text ++ []) = (false, text ++ []) := splitSign_of_digits digits
  rw [List.append_nil] at sign
  have filled : text.isEmpty = false := by simpa using digits.1
  have each : text.all Char.isDigit = true := List.all_eq_true.mpr digits.2
  simp [integer?, sign, filled, each]

structure IsLiteral (value : Int) : Prop where
  nonneg : 0 ≤ value
  word : word? value = some value

theorem isLiteral_of_integer? {text : List Char} {value : Int} (digits : IsDigits text)
    (read : integer? text = some value) : IsLiteral value := by
  rw [integer?_of_digits digits] at read
  obtain ⟨_, rfl⟩ := word?_eq_some.mp read
  exact ⟨Int.natCast_nonneg _, read⟩

theorem toList_toString {value : Int} (nonneg : 0 ≤ value) :
    (toString value).toList = Nat.toDigits 10 value.toNat := by
  obtain ⟨n, rfl⟩ := Int.eq_ofNat_of_zero_le nonneg
  show (String.ofList (Nat.toDigits 10 n)).toList = _
  rw [String.toList_ofList]
  rfl

/-- The text of an integer is read as that integer. -/
theorem integer?_toString {value : Int} (is : IsLiteral value) :
    integer? (toString value).toList = some value := by
  rw [toList_toString is.nonneg, integer?_of_digits (isDigits_toDigits _), natOf_eq,
    Nat.ofDigitChars_ten_toDigits, Int.toNat_of_nonneg is.nonneg]
  exact is.word

namespace Binary64

def isFinite : Binary64 → Bool
  | finite .. => true
  | _ => false

/-- The parts of a finite number in the one form that they have: nothing can be moved to the
exponent. -/
structure Canonical (m k : Nat) : Prop where
  below : m < Nat.pow 2 53
  full : k = 0 ∨ Nat.pow 2 52 ≤ m
  exponent : k ≤ 2045

theorem roundEven_bounds (num den : Nat) :
    num / den ≤ roundEven num den ∧ roundEven num den ≤ num / den + 1 := by
  unfold roundEven
  dsimp only
  split
  · exact ⟨Nat.le_refl _, Nat.le_succ _⟩
  · exact ⟨Nat.le_succ _, Nat.le_refl _⟩

theorem roundEven_mul {den : Nat} (positive : 0 < den) (n : Nat) : roundEven (den * n) den = n := by
  unfold roundEven
  simp only [Nat.mul_mod_right, Nat.mul_zero, positive, true_or, if_true]
  exact Nat.mul_div_cancel_left n positive

/-- The exponent that is chosen leaves fifty-three binary places before the rounding, unless it is
zero. -/
theorem bounds_of_log2 (q : Nat) :
    q / Nat.pow 2 (q.log2 - 52) < Nat.pow 2 53 ∧
      (q.log2 - 52 = 0 ∨ Nat.pow 2 52 ≤ q / Nat.pow 2 (q.log2 - 52)) := by
  simp only [Nat.pow_eq]
  have positive : 0 < 2 ^ (q.log2 - 52) := Nat.pow_pos (by decide)
  constructor
  · rw [Nat.div_lt_iff_lt_mul positive, ← Nat.pow_add]
    exact Nat.lt_of_lt_of_le Nat.lt_log2_self (Nat.pow_le_pow_right (by decide) (by omega))
  · by_cases small : q.log2 ≤ 52
    · exact .inl (by omega)
    · have nonzero : q ≠ 0 := by
        rintro rfl
        exact small (by decide)
      refine .inr ?_
      rw [Nat.le_div_iff_mul_le positive, ← Nat.pow_add]
      have exponent : 52 + (q.log2 - 52) = q.log2 := by omega
      rw [exponent]
      exact Nat.log2_self_le nonzero

theorem ofUnits_cases (negative : Bool) {m k : Nat} (below : m < Nat.pow 2 53)
    (full : k = 0 ∨ Nat.pow 2 52 ≤ m) :
    ofUnits negative m k = infinite negative ∨ ofUnits negative m k = finite negative m k ∧
      Canonical m k := by
  unfold ofUnits
  split
  next => exact .inl rfl
  next small => exact .inr ⟨rfl, below, full, by omega⟩

/-- A ratio is rounded to a finite number in its one form, or past all of them. -/
theorem ofRatio_cases (negative : Bool) (num den : Nat) :
    ofRatio negative num den = infinite negative ∨
      ∃ m k, ofRatio negative num den = finite negative m k ∧ Canonical m k := by
  obtain ⟨low, high⟩ := bounds_of_log2 (num / den)
  have bounds := roundEven_bounds num (den * Nat.pow 2 ((num / den).log2 - 52))
  rw [← Nat.div_div_eq_div_mul] at bounds
  unfold ofRatio
  dsimp only
  split
  next =>
    have carried := ofUnits_cases negative (m := Nat.pow 2 52)
      (k := (num / den).log2 - 52 + 1) (by decide)
      (.inr (Nat.le_refl _))
    exact carried.imp_right fun found => ⟨_, _, found⟩
  next other =>
    have within :=
      ofUnits_cases negative (m := roundEven num (den * Nat.pow 2 ((num / den).log2 - 52)))
      (k := (num / den).log2 - 52) (by omega)
        (high.imp_right fun full => Nat.le_trans full bounds.1)
    exact within.imp_right fun found => ⟨_, _, found⟩

theorem log2_of_canonical {m k : Nat} (canonical : Canonical m k) :
    (m * Nat.pow 2 k).log2 - 52 = k := by
  obtain ⟨below, full, _⟩ := canonical
  simp only [Nat.pow_eq] at below full ⊢
  rcases full with rfl | full
  · rw [Nat.pow_zero, Nat.mul_one]
    by_cases zero : m = 0
    · subst zero
      decide
    · have small := (Nat.log2_lt zero).mpr below
      omega
  · have nonzero : m * 2 ^ k ≠ 0 := by
      have positive : 0 < 2 ^ k := Nat.pow_pos (by decide)
      exact Nat.mul_ne_zero (by omega) (by omega)
    have exactly : (m * 2 ^ k).log2 = 52 + k := by
      rw [Nat.log2_eq_iff nonzero, Nat.pow_add, Nat.add_right_comm, Nat.pow_add]
      exact ⟨Nat.mul_le_mul_right _ full, Nat.mul_lt_mul_of_pos_right below
        (Nat.pow_pos (by decide))⟩
    omega

/-- A ratio that is a finite number is rounded to that number. -/
theorem ofRatio_mul (negative : Bool) {m k den : Nat} (canonical : Canonical m k)
    (positive : 0 < den) :
    ofRatio negative (den * (m * Nat.pow 2 k)) den = finite negative m k := by
  have below := canonical.below
  have rounded : roundEven (den * (m * Nat.pow 2 k)) (den * Nat.pow 2 k) = m := by
    rw [Nat.mul_comm m, ← Nat.mul_assoc]
    exact roundEven_mul (Nat.mul_pos positive (Nat.pow_pos (by decide))) m
  unfold ofRatio
  dsimp only
  rw [Nat.mul_div_cancel_left _ positive, log2_of_canonical canonical, rounded,
    if_neg (by omega), ofUnits, if_neg (Nat.not_lt.mpr canonical.exponent)]

/-! Reading what a script writes. -/

theorem span_of_digits {digits rest : List Char} {c : Char} (each : ∀ d ∈ digits, d.isDigit = true)
    (other : c.isDigit = false) :
    (digits ++ c :: rest).span Char.isDigit = (digits, c :: rest) := by
  rw [List.span_eq_takeWhile_dropWhile, List.takeWhile_append_of_pos each,
    List.dropWhile_append_of_pos each]
  simp [other]

theorem span_of_all {digits : List Char} (each : ∀ d ∈ digits, d.isDigit = true) :
    digits.span Char.isDigit = (digits, []) := by
  rw [List.span_eq_takeWhile_dropWhile, List.takeWhile_eq_self_iff.mpr each,
    List.dropWhile_eq_nil_iff.mpr each]

theorem number?_of_decimal {negative : Bool} {whole part : List Char} (wholeDigits : IsDigits whole)
    (partDigits : IsDigits part) :
    number? negative (whole ++ '.' :: part) =
      some (ofDecimal negative (natOf (whole ++ part)) (0 - part.length)) := by
  have filled : whole.isEmpty = false := by simpa using wholeDigits.1
  have point : ('.' : Char).isDigit = false := by decide
  have behind : fraction ('.' :: part) = (part, []) := span_of_all partDigits.2
  unfold number?
  rw [span_of_digits wholeDigits.2 point]
  dsimp only
  rw [behind, filled]
  rfl

theorem read?_of_decimal {whole part : List Char} (wholeDigits : IsDigits whole)
    (partDigits : IsDigits part) :
    read? (whole ++ '.' :: part) =
      some (ofDecimal false (natOf (whole ++ part)) (0 - part.length)) := by
  have lower : ∀ word : String, word.toList.head?.any Char.isDigit = false →
      String.ofList ((whole ++ '.' :: part).map Char.toLower) ≠ word := by
    rintro _ noDigit rfl
    obtain ⟨filled, each⟩ := wholeDigits
    cases whole with
    | nil => exact filled rfl
    | cons d whole =>
      have digit := each d List.mem_cons_self
      have low : (d.toLower == d) = true :=
        Token.holds_of_isDigit (p := fun d => d.toLower == d) rfl digit
      rw [List.cons_append, List.map_cons, eq_of_beq low] at noDigit
      simp [digit] at noDigit
  unfold read?
  rw [splitSign_of_digits wholeDigits]
  dsimp only
  split
  next word => exact absurd word (lower _ (by decide))
  next word => exact absurd word (lower _ (by decide))
  next word => exact absurd word (lower _ (by decide))
  next => exact number?_of_decimal wholeDigits partDigits

/-- What a decimal is read as: no sign, and in its one form if it is finite. -/
theorem read?_cases {text : List Char} {value : Binary64} (decimal : IsDecimal text)
    (read : read? text = some value) :
    value = infinite false ∨ ∃ m k, value = finite false m k ∧ Canonical m k := by
  obtain ⟨whole, part, wholeDigits, partDigits, rfl⟩ := decimal
  rw [read?_of_decimal wholeDigits partDigits] at read
  obtain rfl := Option.some.inj read
  unfold ofDecimal
  split
  · exact ofRatio_cases ..
  · exact ofRatio_cases ..

/-! The texts of finite numbers. -/

theorem isDigits_zero : IsDigits ['0'] := isDigits_toDigits 0

/-- With places behind the point the digits are filled up with zeros in front. -/
theorem positional_places (digits places : Nat) :
    ∃ whole part, positional digits (.negSucc places) = whole ++ '.' :: part ∧ IsDigits whole ∧
      IsDigits part ∧ natOf (whole ++ part) = digits ∧ part.length = places + 1 := by
  have padded := (isDigits_toDigits digits).zeros_append
    (places + 2 - (Nat.toDigits 10 digits).length)
  unfold positional
  dsimp only
  generalize same : List.replicate (places + 2 - (Nat.toDigits 10 digits).length) '0' ++
    Nat.toDigits 10 digits = text at padded
  have long : places + 2 ≤ text.length := by
    rw [← same, List.length_append, List.length_replicate]
    omega
  refine ⟨_, _, rfl, ⟨?_, ?_⟩, ⟨?_, ?_⟩, ?_, ?_⟩
  · refine List.ne_nil_of_length_pos ?_
    rw [List.length_take]
    omega
  · exact fun d member => padded.2 d (List.mem_of_mem_take member)
  · refine List.ne_nil_of_length_pos ?_
    rw [List.length_drop]
    omega
  · exact fun d member => padded.2 d (List.mem_of_mem_drop member)
  · rw [List.take_append_drop, ← same, natOf_append, natOf_eq,
      Nat.ofDigitChars_replicate_zero, Nat.mul_zero, Nat.ofDigitChars_ten_toDigits]
  · rw [List.length_drop]
    omega

theorem isDecimal_positional (digits : Nat) (exponent : Int) :
    IsDecimal (positional digits exponent) := by
  cases exponent with
  | ofNat e =>
    refine ⟨Nat.toDigits 10 digits ++ List.replicate e '0', ['0'], ?_, isDigits_zero, ?_⟩
    · exact (isDigits_toDigits digits).append_zeros e
    · simp [positional]
  | negSucc places =>
    obtain ⟨whole, part, text, wholeDigits, partDigits, _⟩ := positional_places digits places
    exact ⟨whole, part, wholeDigits, partDigits, text⟩

theorem isDecimal_writtenAs (digits : Nat) (exponent : Int) :
    IsDecimal (writtenAs false digits exponent) := by
  unfold writtenAs
  exact isDecimal_positional _ _

theorem writtenAs_of_dropZeros {digits ds : Nat} {exponent e : Int}
    (dropped : dropZeros 2000 digits exponent = (ds, e)) :
    writtenAs false digits exponent = positional ds e := by
  unfold writtenAs
  rw [dropped]
  rfl

/-- Dropping zeros behind the point leaves the value as it was. -/
theorem dropZeros_eq (n digits places : Nat) :
    ∃ digits' places' : Nat, dropZeros n digits (-(places : Int)) = (digits', -(places' : Int)) ∧
      places' ≤ places ∧ digits = digits' * Nat.pow 10 (places - places') := by
  induction n generalizing digits places with
  | zero => exact ⟨digits, places, rfl, Nat.le_refl _, by simp⟩
  | succ n ih =>
    unfold dropZeros
    split
    next drops =>
      obtain ⟨behind, zero⟩ := drops
      obtain ⟨fewer, rfl⟩ := Nat.exists_eq_add_one_of_ne_zero (n := places) (by omega)
      obtain ⟨digits', places', same, fits, value⟩ := ih (digits / 10) fewer
      refine ⟨digits', places', ?_, by omega, ?_⟩
      · rw [← same]
        congr 1
        omega
      · have whole : digits = digits / 10 * 10 := by omega
        have more : fewer + 1 - places' = fewer - places' + 1 := by omega
        rw [whole, value, more, Nat.mul_assoc]
        rfl
    next => exact ⟨digits, places, rfl, Nat.le_refl _, by simp⟩

/-- Digits with some of them behind the point are read as the ratio that they stand for. -/
theorem read?_positional {digits one units : Nat} (is : Nat.pow 2 1074 = one)
    (same : digits * one = units) (places : Nat) :
    ∃ scale, 0 < scale ∧
      read? (positional digits (-(places : Int))) =
        some (ofRatio false (units * scale) (Nat.pow 10 places * scale)) := by
  subst is same
  cases places with
  | zero =>
    have text : positional digits (-((0 : Nat) : Int)) =
      Nat.toDigits 10 digits ++ '.' :: ['0'] := by
      simp [positional]
    have value : natOf (Nat.toDigits 10 digits ++ ['0']) = 10 * digits := by
      rw [natOf_append, natOf_eq, Nat.ofDigitChars_ten_toDigits]
      rfl
    refine ⟨10, by decide, ?_⟩
    rw [text, read?_of_decimal (isDigits_toDigits digits) isDigits_zero, value]
    show some (ofRatio false (10 * digits * Nat.pow 2 1074) (Nat.pow 10 1)) = _
    have ten : Nat.pow 10 1 = Nat.pow 10 0 * 10 := rfl
    rw [Nat.mul_comm 10, Nat.mul_right_comm, ten]
  | succ places =>
    obtain ⟨whole, part, text, wholeDigits, partDigits, value, length⟩ :=
      positional_places digits places
    have behind : (0 : Int) - part.length = .negSucc places := by
      rw [length]
      omega
    refine ⟨1, by decide, ?_⟩
    have exponent : (-((places + 1 : Nat) : Int)) = .negSucc places := rfl
    rw [exponent, text, read?_of_decimal wholeDigits partDigits, value, behind,
      Nat.mul_one, Nat.mul_one]
    rfl

/-- Units of `2 ^ -n` are written out in units of `10 ^ -n`, from which zeros are dropped. -/
theorem writtenAs_expansion {n one : Nat} (is : Nat.pow 2 n = one) (units : Nat) :
    ∃ digits places : Nat, writtenAs false (units * Nat.pow 5 n) (-(n : Int)) = positional digits
      (-(places : Int)) ∧ digits * one = Nat.pow 10 places * units := by
  subst is
  obtain ⟨digits, places, dropped, fits, value⟩ := dropZeros_eq 2000 (units * Nat.pow 5 n) n
  refine ⟨digits, places, writtenAs_of_dropZeros dropped, ?_⟩
  refine Nat.eq_of_mul_eq_mul_left (Nat.pow_pos (n := n - places) (show 0 < 10 by decide)) ?_
  simp only [Nat.pow_eq] at value ⊢
  calc 10 ^ (n - places) * (digits * 2 ^ n)
      _ = units * 5 ^ n * 2 ^ n := by rw [value, ← Nat.mul_assoc, Nat.mul_comm digits]
      _ = 10 ^ n * units := by rw [Nat.mul_assoc, ← Nat.mul_pow, Nat.mul_comm]
      _ = 10 ^ (n - places) * (10 ^ places * units) := by
        rw [← Nat.mul_assoc, ← Nat.pow_add, Nat.sub_add_cancel fits]

/-- The full expansion is read as the number. -/
theorem read?_expansion {m k : Nat} (canonical : Canonical m k) :
    read? (writtenAs false (m * Nat.pow 2 k * Nat.pow 5 1074) (-1074)) =
      some (finite false m k) := by
  obtain ⟨one, is⟩ : ∃ one, Nat.pow 2 1074 = one := ⟨_, rfl⟩
  obtain ⟨digits, places, text, ratio⟩ := writtenAs_expansion is (m * Nat.pow 2 k)
  obtain ⟨scale, positive, read⟩ := read?_positional is ratio places
  have power : 0 < Nat.pow 10 places := Nat.pow_pos (by decide)
  have exactly := ofRatio_mul false canonical (Nat.mul_pos power positive)
  rw [Nat.mul_right_comm, exactly, ← text] at read
  exact read

/-- The text is a decimal that is read as the number. -/
def Writes (text : List Char) (number : Binary64) : Prop :=
  IsDecimal text ∧ read? text = some number

theorem writes_of_onGrid? {number : Binary64} {num den : Nat} {exponent : Int} {text : List Char}
    (found : number.onGrid? false num den exponent = some text) : Writes text number := by
  unfold onGrid? at found
  dsimp only at found
  split at found
  next below =>
    obtain rfl := Option.some.inj found
    exact ⟨isDecimal_writtenAs _ _, below.1⟩
  next =>
    split at found
    next above =>
      obtain rfl := Option.some.inj found
      exact ⟨isDecimal_writtenAs _ _, above⟩
    next => cases found

/-- A candidate is read as the number by construction, so that the text is right if the fallback
is. -/
theorem writes_of_candidates {number : Binary64} (num den : Nat) (p : Int) {fallback : List Char}
    (expansion : Writes fallback number) :
    Writes (((List.range 17).findSome? fun (n : Nat) =>
      number.onGrid? false num den (p - (n + 1 : Nat))).getD fallback) number := by
  cases found : (List.range 17).findSome? fun (n : Nat) =>
    number.onGrid? false num den (p - (n + 1 : Nat)) with
  | none => exact expansion
  | some text =>
    obtain ⟨n, _, grid⟩ := List.exists_of_findSome?_eq_some found
    exact writes_of_onGrid? grid

theorem writes_zero (canonical : Canonical 0 0) : Writes ['0', '.', '0'] (finite false 0 0) := by
  have text : positional 0 (-((1 : Nat) : Int)) = ['0', '.', '0'] := by decide
  obtain ⟨scale, positive, read⟩ := read?_positional rfl (Nat.zero_mul _) 1
  have exactly := ofRatio_mul false canonical
    (Nat.mul_pos (show 0 < Nat.pow 10 1 by decide) positive)
  rw [Nat.zero_mul, Nat.mul_zero] at exactly
  rw [text, Nat.zero_mul, exactly] at read
  exact ⟨⟨['0'], ['0'], isDigits_zero, isDigits_zero, rfl⟩, read⟩

/-- The text of a finite number without sign is a decimal, and is read as that number. -/
theorem writes_text {m k : Nat} (canonical : Canonical m k) :
    Writes (finite false m k).text (finite false m k) := by
  have expansion : Writes (writtenAs false (m * Nat.pow 2 k * Nat.pow 5 1074) (-1074))
    (finite false m k) :=
    ⟨isDecimal_writtenAs _ _, read?_expansion canonical⟩
  unfold text
  dsimp only
  split
  next zero =>
    subst zero
    obtain rfl : k = 0 := by
      rcases canonical.full with small | full
      · exact small
      · exact absurd full (by decide)
    exact writes_zero canonical
  next => exact writes_of_candidates _ _ _ expansion

end Binary64

end ColonScript.Decimal
