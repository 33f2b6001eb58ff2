import ColonScript.Proofs.Printing.Cutting

/-! The rule that is tried first of those that match is the one that matches most. Two rules whose
lexemes may begin with one character are few: an `else if` begins like a word, a decimal like an
integer, a comment like a mark, and some marks like others. In each of these pairs the one that
takes more stands in front. -/

namespace ColonScript

namespace Text.CharSet

def apart (a b : CharSet) : Bool :=
  a.ranges.all fun range => b.ranges.all fun other =>
    Nat.blt range.2 other.1 || Nat.blt other.2 range.1

theorem not_contains_of_apart {a b : CharSet} {c : Char} (apart : a.apart b = true)
    (inside : a.contains c = true) :
    b.contains c = false := by
  by_contra both
  obtain ⟨range, member, bounds⟩ := (a.contains_iff c).mp inside
  obtain ⟨other, member', bounds'⟩ := (b.contains_iff c).mp (by simpa using both)
  have ranges := List.all_eq_true.mp (List.all_eq_true.mp apart range member) other member'
  simp only [Bool.or_eq_true, Nat.blt_eq] at ranges
  omega

end Text.CharSet

namespace Token
open Text

variable {cs own after own' after' lexeme rest word : List Char} {rule first later : Rule}
    {c : Char} {p : Char → Bool}

/-! What a lexeme can begin with. -/

def Rule.firsts : Rule → CharSet
  | .blanks => Text.blanks
  | .comment => ⟨[(0x2f, 0x2f)]⟩
  | .elseIf => ⟨[(0x65, 0x65)]⟩
  | .word => ⟨[(0x41, 0x5a), (0x5f, 0x5f), (0x61, 0x7a)]⟩
  | .decimal | .digits => ⟨[(0x30, 0x39)]⟩
  | .quotedString => ⟨[(0x22, 0x22)]⟩
  | .quotedChar => ⟨[(0x27, 0x27)]⟩
  | .mark _ spelling => ⟨spelling.toList.head?.toList.map fun c => (c.toNat, c.toNat)⟩

theorem firsts_of_isDigit (digit : c.isDigit = true) : Rule.digits.firsts.contains c = true :=
  holds_of_isDigit (p := Rule.digits.firsts.contains) (by decide) digit

theorem firsts_of_isWordStart (start : isWordStart c = true) :
    Rule.word.firsts.contains c = true := by
  obtain ⟨range, member, bounds⟩ :=
    (wordRests.contains_iff c).mp (isWordRest_iff.mp (isWordRest_of_isWordStart start))
  refine (Rule.word.firsts.contains_iff c).mpr ⟨range, ?_, bounds⟩
  obtain rfl | member := List.mem_cons.mp member
  · have digit : c.isDigit = true := by
      simpa [Char.isDigit, UInt32.le_iff_toNat_le] using bounds
    rw [isWordStart_of_isDigit digit] at start
    cases start
  · exact member

theorem firsts_of_shape (shape : rule.Shape (c :: cs)) : rule.firsts.contains c = true := by
  cases rule with
  | blanks => exact shape.2 c List.mem_cons_self
  | digits => exact firsts_of_isDigit (shape.2 c List.mem_cons_self)
  | comment =>
    obtain ⟨line, _, same⟩ := shape
    obtain ⟨rfl, _⟩ := List.cons.inj same
    decide
  | elseIf =>
    obtain ⟨gap, _, same⟩ := shape
    obtain ⟨rfl, _⟩ := List.cons.inj same
    decide
  | word =>
    obtain ⟨d, ds, start, _, same⟩ := shape
    obtain ⟨rfl, _⟩ := List.cons.inj same
    exact firsts_of_isWordStart start
  | decimal =>
    obtain ⟨whole, part, ⟨filled, digits⟩, _, same⟩ := shape
    obtain ⟨d, ds, rfl⟩ := List.exists_cons_of_ne_nil filled
    obtain ⟨rfl, _⟩ := List.cons.inj same
    exact firsts_of_isDigit (digits c List.mem_cons_self)
  | quotedString =>
    obtain ⟨text, _, same⟩ := shape
    obtain ⟨rfl, _⟩ := List.cons.inj same
    decide
  | quotedChar =>
    obtain same | ⟨d, _, same⟩ := shape
    · obtain ⟨rfl, _⟩ := List.cons.inj same
      decide
    · obtain ⟨rfl, _⟩ := List.cons.inj same
      decide
  | mark kind spelling =>
    have spelled : c :: cs = spelling.toList := shape
    simp [Rule.firsts, CharSet.contains, ← spelled]

/-! Rules that begin alike. -/

def Rule.outruns : Rule → Rule → Bool
  | .elseIf, .word => true
  | .decimal, .digits => true
  | .comment, .mark _ spelling => !("//".toList.isPrefixOf spelling.toList)
  | .mark _ longer, .mark _ spelling => !longer.toList.isPrefixOf spelling.toList
  | _, _ => false

/-- What all of a class take ends at a character that is not of the class. -/
theorem length_le_of_stop (whole : own' ++ after' = own ++ c :: after)
    (inside : ∀ d ∈ own', p d = true) (stop : p c = false) : own'.length ≤ own.length := by
  obtain ⟨more, rfl, _⟩ | ⟨more, rfl, same⟩ := List.append_eq_append_iff.mp whole
  · rw [List.length_append]
    omega
  · cases more with
    | nil => simp
    | cons d more =>
      obtain ⟨rfl, _⟩ := List.cons.inj same
      rw [inside c (by simp)] at stop
      cases stop

/-- Of two texts in front of one the one that does not begin the other is the longer. -/
theorem length_lt_of_not_prefix (whole : own ++ after = own' ++ after') (differs : ¬own <+: own') :
    own'.length < own.length := by
  by_contra shorter
  refine differs (List.prefix_of_prefix_length_le ⟨after, rfl⟩ ⟨after', whole.symm⟩ ?_)
  omega

/-- The blank behind its `else` ends a word. -/
theorem length_lt_of_elseIf (whole : own ++ after = own' ++ after') (shape : Rule.elseIf.Shape own)
    (shape' : Rule.word.Shape own') : own'.length < own.length := by
  obtain ⟨gap, ⟨filled, blank⟩, rfl⟩ := shape
  obtain ⟨b, gap, rfl⟩ := List.exists_cons_of_ne_nil filled
  obtain ⟨d, ds, start, inside, rfl⟩ := shape'
  have stop := isWordRest_of_isBlank (blank b List.mem_cons_self)
  have each : ∀ e ∈ d :: ds, isWordRest e = true :=
    List.forall_mem_cons.mpr ⟨isWordRest_of_isWordStart start, inside⟩
  have front : d :: ds ++ after' = ['e', 'l', 's', 'e'] ++ b :: (gap ++ ['i', 'f'] ++ after) :=
    whole.symm.trans (by simp)
  have within : (d :: ds).length ≤ ['e', 'l', 's', 'e'].length := length_le_of_stop front each stop
  rw [List.length_append, List.length_append]
  exact Nat.lt_of_le_of_lt within (by simp; omega)

/-- The point of a decimal ends an integer. -/
theorem length_lt_of_decimal (whole : own ++ after = own' ++ after')
    (shape : Rule.decimal.Shape own) (shape' : Rule.digits.Shape own') :
    own'.length < own.length := by
  obtain ⟨digits, part, _, _, rfl⟩ := shape
  have front : own' ++ after' = digits ++ '.' :: (part ++ after) := whole.symm.trans (by simp)
  have within : own'.length ≤ digits.length := length_le_of_stop front shape'.2 (by decide)
  rw [List.length_append, List.length_cons]
  omega

/-- A mark that is not the beginning of the slashes of a comment is shorter than these. -/
theorem length_lt_of_comment {text : List Char} (whole : own ++ after = text ++ after')
    (shape : Rule.comment.Shape own) (differs : ¬['/', '/'] <+: text) :
    text.length < own.length := by
  obtain ⟨line, _, rfl⟩ := shape
  have front : ['/', '/'] ++ (line ++ after) = text ++ after' := whole
  have short := length_lt_of_not_prefix front differs
  rw [List.length_cons, List.length_cons]
  exact Nat.lt_of_lt_of_le short (by simp)

theorem length_lt_of_outruns (outruns : first.outruns later = true)
    (whole : own ++ after = own' ++ after') (shape : first.Shape own) (shape' : later.Shape own') :
    own'.length < own.length := by
  cases first with
  | elseIf =>
    cases later with
    | word => exact length_lt_of_elseIf whole shape shape'
    | _ => cases outruns
  | decimal =>
    cases later with
    | digits => exact length_lt_of_decimal whole shape shape'
    | _ => cases outruns
  | comment =>
    cases later with
    | mark kind spelling =>
      obtain rfl : own' = spelling.toList := shape'
      exact length_lt_of_comment whole shape
        (by simpa [Rule.outruns, ← List.isPrefixOf_iff_prefix] using outruns)
    | _ => cases outruns
  | mark kind longer =>
    cases later with
    | mark kind' spelling =>
      obtain rfl : own = longer.toList := shape
      obtain rfl : own' = spelling.toList := shape'
      exact length_lt_of_not_prefix whole
        (by simpa [Rule.outruns, ← List.isPrefixOf_iff_prefix] using outruns)
    | _ => cases outruns
  | _ => cases outruns

/-! The order of the rules. -/

/-- A rule takes more than those behind it, or begins otherwise. -/
theorem rules_in_order :
    Rule.all.Pairwise fun first later => (first.firsts.apart later.firsts || first.outruns later) =
      true := by
  decide +kernel

theorem length_lt_of_order (member : first ∈ Rule.all) (member' : later ∈ Rule.all)
    (order : (first.firsts.apart later.firsts || first.outruns later) = true)
    (split : first.split? cs = some (own, after)) (split' : later.split? cs = some (own', after')) :
    own'.length < own.length := by
  obtain ⟨whole, shape, _⟩ := split?_eq_some_iff.mp split
  obtain ⟨whole', shape', _⟩ := split?_eq_some_iff.mp split'
  obtain apart | outruns := (Bool.or_eq_true _ _).mp order
  · obtain ⟨c, own, rfl⟩ := List.exists_cons_of_ne_nil (filled_of_shape member shape)
    obtain ⟨d, own', rfl⟩ := List.exists_cons_of_ne_nil (filled_of_shape member' shape')
    obtain ⟨rfl, _⟩ := List.cons.inj (whole.symm.trans whole')
    have other := CharSet.not_contains_of_apart apart (firsts_of_shape shape)
    rw [firsts_of_shape shape'] at other
    cases other
  · exact length_lt_of_outruns outruns (whole.symm.trans whole') shape shape'

theorem byteLength_lt_of_length (whole : own ++ after = own' ++ after')
    (longer : own'.length < own.length) :
    byteLength own' < byteLength own := by
  obtain ⟨more, rfl⟩ : own' <+: own :=
    List.prefix_of_prefix_length_le ⟨after', whole.symm⟩ ⟨after, rfl⟩ (by omega)
  have filled : more ≠ [] := by
    rintro rfl
    simp at longer
  have positive := byteLength_pos filled
  rw [byteLength_append]
  omega

/-- The rule matches at the front of the text, and takes more of it than any other rule does. -/
structure Longest (cs : List Char) (rule : Rule) (lexeme rest : List Char) : Prop where
  member : rule ∈ Rule.all
  split : rule.split? cs = some (lexeme, rest)
  longer : ∀ other ∈ Rule.all, other ≠ rule → ∀ own after, other.split? cs = some (own, after) →
    byteLength own < byteLength lexeme

theorem longest_of_firstMatch? (found : firstMatch? cs = some (rule, lexeme, rest)) :
    Longest cs rule lexeme rest := by
  obtain ⟨member, split⟩ := split?_of_firstMatch? found
  refine ⟨member, split, fun other member' differs own after split' => ?_⟩
  obtain ⟨earlier, selected, behind, order, picks, none⟩ := List.findSome?_eq_some_iff.mp found
  obtain ⟨pair, _, same⟩ := Option.map_eq_some_iff.mp picks
  obtain rfl : selected = rule := congrArg Prod.fst same
  have place : other ∈ behind := by
    rw [order, List.mem_append, List.mem_cons] at member'
    obtain early | same | late := member'
    · simpa [split'] using none other early
    · exact absurd same differs
    · exact late
  have pairs := rules_in_order
  rw [order] at pairs
  have ahead := (List.pairwise_cons.mp (List.pairwise_append.mp pairs).2.1).1 other place
  have longer := length_lt_of_order member member' ahead split split'
  exact byteLength_lt_of_length ((append_of_split? split).trans (append_of_split? split').symm)
    longer

/-- Which rule is the first decides nothing else: there is one that takes most. -/
theorem firstMatch?_iff_longest : firstMatch? cs = some (rule, lexeme, rest) ↔
    Longest cs rule lexeme rest := by
  refine ⟨longest_of_firstMatch?, fun longest => ?_⟩
  cases found : firstMatch? cs with
  | none =>
    have unmatched := List.findSome?_eq_none_iff.mp found rule longest.member
    rw [longest.split] at unmatched
    cases unmatched
  | some match' =>
    obtain ⟨rule', lexeme', rest'⟩ := match'
    have longest' := longest_of_firstMatch? found
    by_cases same : rule' = rule
    · subst same
      obtain ⟨rfl, rfl⟩ := Prod.mk.inj (Option.some.inj (longest.split.symm.trans longest'.split))
      rfl
    · have longer := longest.longer rule' longest'.member same _ _ longest'.split
      have longer' := longest'.longer rule longest.member (Ne.symm same) _ _ longest.split
      omega

/-! Matches that stop short of what the rule takes. -/

/-- The rule can match the text `own` in front of `after`, if it need not go on as far as it can. -/
def Rule.Matches (rule : Rule) (own after : List Char) : Prop :=
  rule.Shape own ∧ (rule = .elseIf → ∀ c ∈ after.head?, isWordChar c = false)

theorem shape_append {more : List Char} (shape : rule.Shape own)
    (goesOn : ∀ c ∈ more, rule.goesOn c = true) (other : rule ≠ .elseIf) :
    rule.Shape (own ++ more) := by
  have both (q : Char → Bool) (inside : ∀ c ∈ own, q c = true) (inside' : ∀ c ∈ more, q c = true) :
      ∀ c ∈ own ++ more, q c = true :=
        fun c member => (List.mem_append.mp member).elim (inside c) (inside' c)
  cases rule with
  | blanks | digits => exact ⟨List.append_ne_nil_of_left_ne_nil shape.1 _, both _ shape.2 goesOn⟩
  | comment =>
    obtain ⟨line, single, rfl⟩ := shape
    refine ⟨line ++ more, fun member => ?_, by simp⟩
    obtain inside | inside := List.mem_append.mp member
    · exact single inside
    · simpa [Rule.goesOn] using goesOn _ inside
  | elseIf => exact absurd rfl other
  | word =>
    obtain ⟨d, ds, start, inside, rfl⟩ := shape
    refine ⟨d, ds ++ more, start, fun c member => ?_, by simp⟩
    exact (List.mem_append.mp member).elim (inside c) (goesOn c)
  | decimal =>
    obtain ⟨whole, part, digits, ⟨filled, inside⟩, rfl⟩ := shape
    refine ⟨whole, part ++ more, digits, ⟨List.append_ne_nil_of_left_ne_nil filled _,
      fun c member => ?_⟩, by simp⟩
    exact (List.mem_append.mp member).elim (inside c) (goesOn c)
  | quotedString | quotedChar | mark =>
    have nothing : more = [] := List.eq_nil_iff_forall_not_mem.mpr fun c member =>
      Bool.false_ne_true (goesOn c member)
    rwa [nothing, List.append_nil]

/-- A rule that can match goes on as far as it can. -/
theorem split?_of_matches (matches' : rule.Matches own after) :
    ∃ more rest, rule.split? (own ++ after) = some (own ++ more, rest) := by
  obtain ⟨shape, ends⟩ := matches'
  refine ⟨after.takeWhile rule.goesOn, after.dropWhile rule.goesOn,
    split?_eq_some_iff.mpr ⟨?_, ?_, ?_⟩⟩
  · rw [List.append_assoc, List.takeWhile_append_dropWhile]
  · by_cases isElseIf : rule = .elseIf
    · subst isElseIf
      have nothing : after.takeWhile Rule.elseIf.goesOn = [] := by
        cases after with
        | nil => rfl
        | cons c after =>
          exact List.takeWhile_cons_of_neg (by simpa [Rule.goesOn] using ends rfl c rfl)
      rwa [nothing, List.append_nil]
    · exact shape_append shape (fun c => List.mem_takeWhile_imp) isElseIf
  · exact (span_eq_iff.mp ⟨rfl, rfl⟩).2.2

theorem Longest.byteLength_le {other : Rule} (longest : Longest (own ++ after) rule lexeme rest)
    (member : other ∈ Rule.all) (matches' : other.Matches own after) :
    byteLength own ≤ byteLength lexeme := by
  obtain ⟨more, rest', split⟩ := split?_of_matches matches'
  have further : byteLength own ≤ byteLength (own ++ more) := by
    rw [byteLength_append]
    omega
  by_cases same : other = rule
  · subst same
    obtain ⟨rfl, _⟩ := Prod.mk.inj (Option.some.inj (split.symm.trans longest.split))
    exact further
  · have longer := longest.longer other member same _ _ split
    omega

/-- Where some rule can match, the first one that does matches as much. -/
theorem exists_firstMatch?_of_matches {other : Rule} (member : other ∈ Rule.all)
    (matches' : other.Matches own after) :
    ∃ rule lexeme rest, firstMatch? (own ++ after) = some (rule, lexeme, rest) ∧
      byteLength own ≤ byteLength lexeme := by
  cases found : firstMatch? (own ++ after) with
  | none =>
    obtain ⟨more, rest, split⟩ := split?_of_matches matches'
    have unmatched := List.findSome?_eq_none_iff.mp found other member
    rw [split] at unmatched
    cases unmatched
  | some match' =>
    obtain ⟨rule, lexeme, rest⟩ := match'
    exact ⟨rule, lexeme, rest, rfl, (longest_of_firstMatch? found).byteLength_le member matches'⟩

/-! Words. -/

def Kind.isReserved (kind : Kind) : Bool :=
  kind = .elseIfWord || reservedWords.any fun entry => entry.2 = kind

def WholeWord (word after : List Char) : Prop :=
  Rule.word.Shape word ∧ ∀ c ∈ after.head?, isWordRest c = false

theorem WholeWord.split? (whole : WholeWord word after) :
    Rule.word.split? (word ++ after) = some (word, after) :=
  split?_eq_some_iff.mpr ⟨rfl, whole⟩

theorem isReserved_wordKind (word : String) :
    (wordKind word).isReserved = true ↔ (word, wordKind word) ∈ reservedWords := by
  have reserved : ∀ entry ∈ reservedWords, entry.2.isReserved = true := by decide
  refine ⟨fun isReserved => (wordKind_cases word).resolve_right fun identifier => ?_, fun member =>
    reserved _ member⟩
  rw [identifier] at isReserved
  exact absurd isReserved (by decide)

theorem marks_unreserved : ∀ rule ∈ Rule.all, (match rule with
    | .mark kind _ => !kind.isReserved
    | _ => true) = true := by
  decide

/-- Only words and `else if` leave tokens of these kinds. -/
theorem word_or_elseIf {kind : Kind} {value : String} (member : rule ∈ Rule.all)
    (meaning : rule.meaning? lexeme = some (kind, value)) (isReserved : kind.isReserved = true) :
    rule = .word ∨ rule = .elseIf := by
  cases rule with
  | word => exact .inl rfl
  | elseIf => exact .inr rfl
  | blanks | comment => cases meaning
  | mark own spelling =>
    obtain ⟨rfl, _⟩ := Prod.mk.inj (Option.some.inj meaning)
    have other : (!own.isReserved) = true := marks_unreserved _ member
    rw [isReserved] at other
    cases other
  | decimal | digits | quotedString | quotedChar =>
    obtain ⟨rfl, _⟩ := Prod.mk.inj (Option.some.inj meaning)
    exact absurd isReserved (by decide)

theorem wholeWord_of_elseIf (split : Rule.elseIf.split? cs = some (lexeme, rest)) :
    ∃ after, cs = ['e', 'l', 's', 'e'] ++ after ∧ WholeWord ['e', 'l', 's', 'e'] after := by
  obtain ⟨rfl, ⟨gap, ⟨filled, blank⟩, rfl⟩, _⟩ := split?_eq_some_iff.mp split
  obtain ⟨b, gap, rfl⟩ := List.exists_cons_of_ne_nil filled
  have word : Rule.word.Shape ['e', 'l', 's', 'e'] :=
    ⟨'e', ['l', 's', 'e'], rfl, List.all_eq_true.mp rfl, rfl⟩
  refine ⟨b :: gap ++ ['i', 'f'] ++ rest, by simp, word, fun c head => ?_⟩
  obtain rfl : b = c := Option.some.inj head
  exact isWordRest_of_isBlank (blank b List.mem_cons_self)

/-- Where a word stands it is taken as a whole, alone or with the `if` behind an `else`. -/
theorem firstMatch?_of_word (whole : WholeWord word after) :
    firstMatch? (word ++ after) = some (.word, word, after) ∨
      word = ['e', 'l', 's', 'e'] ∧ ∃ lexeme rest,
      firstMatch? (word ++ after) = some (.elseIf, lexeme, rest) := by
  obtain ⟨d, ds, start, inside, rfl⟩ := whole.1
  have noBlanks : Rule.blanks.split? (d :: ds ++ after) = none :=
    noBlanks_of_head (isBlank_of_isWordRest (isWordRest_of_isWordStart start))
  have noComment : Rule.comment.split? (d :: ds ++ after) = none := by
    refine noComment_of_head ?_
    rintro rfl
    exact absurd start (by decide)
  cases elseIf : Rule.elseIf.split? (d :: ds ++ after) with
  | none =>
    rw [firstMatch?_of_noElseIf elseIf]
    exact .inl (plainMatch?_of_word noBlanks noComment whole.split?)
  | some split =>
    obtain ⟨lexeme, rest⟩ := split
    refine .inr ⟨?_, lexeme, rest, firstMatch?_of_elseIf noBlanks noComment elseIf⟩
    obtain ⟨behind, text, whole'⟩ := wholeWord_of_elseIf elseIf
    have splits := whole.split?
    rw [text, whole'.split?] at splits
    exact (Prod.mk.inj (Option.some.inj splits)).1.symm

/-! Tokens of a source. -/

def FirstAt (source : List Char) (token : Token) : Prop :=
  ∃ before cs rule lexeme rest, source = before ++ cs ∧ token.start = byteLength before ∧
    firstMatch? cs = some (rule, lexeme, rest) ∧ ofLexeme? rule lexeme token.start = some token

theorem meaning?_of_ofLexeme? {offset : Nat} {token : Token}
    (own : ofLexeme? rule lexeme offset = some token) :
    rule.meaning? lexeme = some (token.kind, token.value) := by
  obtain ⟨⟨kind, value⟩, meaning, rfl⟩ := Option.map_eq_some_iff.mp own
  exact meaning

theorem firstAt_of_scan {bound : Nat} {tokens : List Token} (front : List Char)
    (run : scan bound (byteLength front) cs = .ok tokens) :
    ∃ read, tokens = read ++ [endOfInput (byteLength (front ++ cs))] ∧ ∀ token ∈ read,
      token.FirstAt (front ++ cs) := by
  generalize place : byteLength front = offset at run
  fun_induction scan bound offset cs generalizing front tokens with
  | case1 =>
    cases run
    exact ⟨[], by simp [place], by simp⟩
  | case2 => cases run
  | case3 => cases run
  | case4 bound offset c cs rule lexeme rest found ih =>
    subst place
    have whole := append_of_split? (split?_of_firstMatch? found).2
    cases more : scan bound (byteLength front + byteLength lexeme) rest with
    | error =>
      simp only [more] at run
      cases run
    | ok following =>
      obtain ⟨read, rfl, each⟩ := ih (front ++ lexeme) (byteLength_append front lexeme) more
      rw [List.append_assoc, whole] at each more
      simp only [more] at run
      obtain rfl := Except.ok.inj run
      refine ⟨(ofLexeme? rule lexeme (byteLength front)).toList ++ read, by
        simp, fun token member => ?_⟩
      obtain here | later := List.mem_append.mp member
      · have own := Option.mem_toList.mp here
        obtain ⟨_, _, rfl⟩ := Option.map_eq_some_iff.mp own
        exact ⟨front, c :: cs, rule, lexeme, rest, rfl, rfl, found, own⟩
      · exact each token later

theorem firstAt_or_end {source : String} {file : String} {tokens : List Token} {token : Token}
    (read : ofSource source file = .ok tokens) (member : token ∈ tokens) :
    token.FirstAt source.toList ∨ token = endOfInput (byteLength source.toList) := by
  obtain ⟨others, rfl, each⟩ := firstAt_of_scan [] (ofSource_eq_ok.mp read)
  exact (List.mem_append.mp member).imp (each token) List.mem_singleton.mp

/-- A word at the offset of a token is the token, or the first word of an `else if`. -/
theorem FirstAt.of_word {token : Token} {source before : List Char} (firstAt : token.FirstAt source)
    (text : source = before ++ (word ++ after)) (place : token.start = byteLength before)
    (whole : WholeWord word after) :
    token.kind = wordKind (String.ofList word) ∧ token.value = String.ofList word ∨
      word = ['e', 'l', 's', 'e'] ∧ token.kind = .elseIfWord := by
  obtain ⟨before', cs, rule, lexeme, rest, rfl, place', found, own⟩ := firstAt
  obtain ⟨_, rfl⟩ := eq_of_byteLength text (place'.symm.trans place)
  obtain first | ⟨isElse, lexeme', rest', first⟩ := firstMatch?_of_word whole
  · rw [first] at found
    obtain ⟨rfl, rfl, rfl⟩ : Rule.word = rule ∧ word = lexeme ∧ after = rest := by simpa using found
    obtain ⟨kind, value⟩ := Prod.mk.inj (Option.some.inj (meaning?_of_ofLexeme? own))
    exact .inl ⟨kind.symm, value.symm⟩
  · rw [first] at found
    obtain ⟨rfl, rfl, rfl⟩ : Rule.elseIf = rule ∧ lexeme' = lexeme ∧ rest' = rest := by
      simpa using found
    obtain ⟨kind, _⟩ := Prod.mk.inj (Option.some.inj (meaning?_of_ofLexeme? own))
    exact .inr ⟨isElse, kind.symm⟩

/-- A reserved word stands at the offset of the token, and no longer identifier. -/
def AtReserved (source : List Char) (token : Token) : Prop :=
  ∃ before word after kind, source = before ++ (word ++ after) ∧ token.start = byteLength before ∧
    WholeWord word after ∧ (String.ofList word, kind) ∈ reservedWords

theorem FirstAt.isReserved_iff {token : Token} {source : List Char}
    (firstAt : token.FirstAt source) :
    token.kind.isReserved = true ↔ token.AtReserved source := by
  constructor
  · intro isReserved
    obtain ⟨before, cs, rule, lexeme, rest, rfl, place, found, own⟩ := firstAt
    obtain ⟨member, split⟩ := split?_of_firstMatch? found
    have meaning := meaning?_of_ofLexeme? own
    obtain rfl | rfl := word_or_elseIf member meaning isReserved
    · obtain ⟨text, whole⟩ := split?_eq_some_iff.mp split
      have kind : wordKind (String.ofList lexeme) = token.kind :=
        congrArg Prod.fst (Option.some.inj meaning)
      rw [← kind] at isReserved
      exact ⟨before, lexeme, rest, _, by
        rw [text], place, whole, (isReserved_wordKind _).mp isReserved⟩
    · obtain ⟨behind, text, whole⟩ := wholeWord_of_elseIf split
      exact ⟨before, _, behind, .elseWord, by rw [text], place, whole, by decide⟩
  · rintro ⟨before, word, after, kind, text, place, whole, reserved⟩
    obtain ⟨same, _⟩ | ⟨_, same⟩ := firstAt.of_word text place whole
    · rw [same, isReserved_wordKind, (reserved_apart _ reserved).1]
      exact reserved
    · rw [same]
      decide

/-- No word stands behind the end of the source. -/
theorem not_wholeWord_end {before : List Char}
    (place : byteLength (before ++ (word ++ after)) = byteLength before) :
    ¬WholeWord word after := by
  rintro ⟨⟨d, ds, _, _, rfl⟩, _⟩
  cases eq_nil_of_byteLength place

theorem not_atReserved_end (source : List Char) :
    ¬(endOfInput (byteLength source)).AtReserved source := by
  rintro ⟨before, word, after, kind, rfl, place, whole, _⟩
  exact not_wholeWord_end place whole

/-- Trying the rules in their order takes the longest match, and so reads reserved words where
nothing else stands. -/
structure LongestFirst (source : String) : Prop where
  /-- At every offset the first rule that matches takes more than any other that does. -/
  longest : ∀ cs, cs <:+ source.toList → ∀ rule lexeme rest,
    firstMatch? cs = some (rule, lexeme, rest) ↔ Longest cs rule lexeme rest
  /-- No match is cut short, whatever rule it is one of and however far that rule may go on. -/
  whole : ∀ own after, own ++ after <:+ source.toList → ∀ other ∈ Rule.all,
  other.Matches own after →
    ∃ rule lexeme rest, firstMatch? (own ++ after) = some (rule, lexeme, rest) ∧
    byteLength own ≤ byteLength lexeme
  tokens : ∀ file tokens, ofSource source file = .ok tokens →
    ∃ read, tokens = read ++ [endOfInput (byteLength source.toList)] ∧ ∀ token ∈ read,
    token.FirstAt source.toList
  reserved : ∀ file tokens, ofSource source file = .ok tokens → ∀ token ∈ tokens,
    (token.kind.isReserved = true ↔ token.AtReserved source.toList)
  words : ∀ file tokens, ofSource source file = .ok tokens → ∀ token ∈ tokens, ∀ before word after,
    source.toList = before ++ (word ++ after) → token.start = byteLength before →
    WholeWord word after →
      token.kind = wordKind (String.ofList word) ∧ token.value = String.ofList word ∨
        word = ['e', 'l', 's', 'e'] ∧ token.kind = .elseIfWord

theorem first_is_longest (source : String) : LongestFirst source where
  longest _ _ _ _ _ := firstMatch?_iff_longest
  whole _ _ _ _ member matches' := exists_firstMatch?_of_matches member matches'
  tokens _ _ read := firstAt_of_scan [] (ofSource_eq_ok.mp read)
  reserved := by
    intro file tokens read token member
    obtain firstAt | rfl := firstAt_or_end read member
    · exact firstAt.isReserved_iff
    · exact iff_of_false (show ¬Kind.eof.isReserved = true by decide) (not_atReserved_end _)
  words := by
    intro file tokens read token member before word after text place whole
    obtain firstAt | rfl := firstAt_or_end read member
    · exact firstAt.of_word text place whole
    · rw [text] at place
      exact absurd whole (not_wholeWord_end place)

/-- An `else if` ends where its second word does. -/
example : (firstMatch? "else iffy".toList).map (·.1) = some .word ∧
    (firstMatch? "else if(".toList).map (·.1) = some .elseIf := by
  decide +kernel

end Token

end ColonScript
