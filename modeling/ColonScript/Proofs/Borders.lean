import ColonScript.Proofs.Pieces

/-! Borders. What a rule matches does not depend on all of the text: where a blank stands, or a
comment, no piece in front of it reaches over, and the pieces stay what they are whatever comes
behind. -/

namespace ColonScript.Token
open Text

variable {offset : Nat} {c : Char} {cs gap lexeme text front back rest rest' : List Char}
    {rule : Rule}

/-! What is enough of a lexeme for its rule to match. -/

def Rule.Seed : Rule → List Char → Prop
  | blanks, seed => ∃ c, isBlank c = true ∧ seed = [c]
  | comment, seed => seed = ['/', '/']
  | word, seed => ∃ c, isWordStart c = true ∧ seed = [c]
  | decimal, seed => ∃ whole c, (whole ≠ [] ∧ ∀ d ∈ whole, d.isDigit = true) ∧ c.isDigit = true ∧
      seed = whole ++ ['.', c]
  | digits, seed => ∃ c, c.isDigit = true ∧ seed = [c]
  | mark _ spelling, seed => seed = spelling.toList
  | elseIf, _ | quotedString, _ | quotedChar, _ => False

def Rule.quote? : Rule → Option Char
  | quotedString => some '"'
  | quotedChar => some '\''
  | _ => none

theorem run?_of_head {p : Char → Bool} (head : p c = true) (cs : List Char) :
    ∃ lexeme rest, run? p (c :: cs) = some (lexeme, rest) := by
  refine ⟨c :: cs.takeWhile p, cs.dropWhile p, ?_⟩
  simp [run?, head]

theorem seed_of_split? (member : rule ∈ Rule.plain) (unquoted : rule.quote? = none)
    (split : rule.split? cs = some (lexeme, rest)) :
    ∃ seed rest, cs = seed ++ rest ∧ rule.Seed seed := by
  obtain ⟨rfl, shape, _⟩ := split?_eq_some_iff.mp split
  cases rule with
  | blanks | digits =>
    obtain ⟨c, lexeme, rfl⟩ := List.exists_cons_of_ne_nil shape.1
    exact ⟨[c], lexeme ++ rest, rfl, c, shape.2 c List.mem_cons_self, rfl⟩
  | comment =>
    obtain ⟨line, _, rfl⟩ := shape
    exact ⟨['/', '/'], line ++ rest, rfl, rfl⟩
  | elseIf => exact absurd member (by decide)
  | word =>
    obtain ⟨c, cs, start, _, rfl⟩ := shape
    exact ⟨[c], cs ++ rest, rfl, c, start, rfl⟩
  | decimal =>
    obtain ⟨whole, part, wholeDigits, partDigits, rfl⟩ := shape
    obtain ⟨c, part, rfl⟩ := List.exists_cons_of_ne_nil partDigits.1
    exact ⟨whole ++ ['.', c], part ++ rest, by
      simp, whole, c, wholeDigits, partDigits.2 c List.mem_cons_self, rfl⟩
  | quotedString | quotedChar => cases unquoted
  | mark kind spelling => exact ⟨lexeme, rest, rfl, shape⟩

theorem split?_of_seed {seed : List Char} (begins : rule.Seed seed) :
    ∃ lexeme rest', rule.split? (seed ++ rest) = some (lexeme, rest') := by
  cases rule with
  | blanks | digits =>
    obtain ⟨c, holds, rfl⟩ := begins
    exact run?_of_head holds _
  | comment =>
    obtain rfl : seed = ['/', '/'] := begins
    exact ⟨_, _, rfl⟩
  | word =>
    obtain ⟨c, start, rfl⟩ := begins
    exact ⟨_, _, if_pos start⟩
  | decimal =>
    obtain ⟨whole, c, digits, digit, rfl⟩ := begins
    have run : run? Char.isDigit (whole ++ '.' :: (c :: rest)) = some (whole, '.' :: (c :: rest)) :=
      run?_eq_some_iff.mpr ⟨rfl, digits, by simp⟩
    obtain ⟨part, rest', run'⟩ := run?_of_head digit rest
    exact ⟨whole ++ '.' :: part, rest', by simp [Rule.split?, decimal?, run, run']⟩
  | mark kind spelling =>
    obtain rfl : seed = spelling.toList := begins
    exact ⟨_, rest, split?_eq_some_iff.mpr ⟨rfl, rfl, fun _ _ => rfl⟩⟩
  | elseIf | quotedString | quotedChar => exact begins.elim

/-- Behind its first character no mark has a blank or a slash. -/
theorem spelling_tail :
    ∀ rule ∈ Rule.plain, (rule.spelling.tail.all fun c => !isBlank c && c ≠ '/') = true := by
  decide

/-- Behind its first character no seed has a blank, and only that of a comment has a slash. -/
theorem tail_of_seed {seed : List Char} (member : rule ∈ Rule.plain) (begins : rule.Seed seed) :
    ∀ c ∈ seed.tail, isBlank c = false ∧ (c = '/' → seed = ['/', '/']) := by
  have ofDigit : ∀ c : Char, c.isDigit = true → isBlank c = false ∧
    (c = '/' → seed = ['/', '/']) := by
    intro c digit
    constructor
    · by_contra blank
      have word := isWordRest_of_isBlank (by simpa using blank)
      rw [isWordRest_of_isDigit digit] at word
      cases word
    · rintro rfl
      exact absurd digit (by decide)
  cases rule with
  | blanks | word | digits =>
    obtain ⟨c, _, rfl⟩ := begins
    exact fun _ member => absurd member List.not_mem_nil
  | comment =>
    obtain rfl : seed = ['/', '/'] := begins
    intro c inside
    obtain rfl : c = '/' := by simpa using inside
    exact ⟨by decide, fun _ => rfl⟩
  | decimal =>
    obtain ⟨whole, last, ⟨filled, digits⟩, digit, rfl⟩ := begins
    obtain ⟨first, whole, rfl⟩ := List.exists_cons_of_ne_nil filled
    intro c inside
    simp only [List.cons_append, List.tail_cons, List.mem_append, List.mem_cons, List.not_mem_nil,
      or_false] at inside
    rcases inside with inside | rfl | rfl
    · exact ofDigit c (digits c (List.mem_cons_of_mem _ inside))
    · exact ⟨by decide, fun same => absurd same (by decide)⟩
    · exact ofDigit c digit
  | mark kind spelling =>
    obtain rfl : seed = spelling.toList := begins
    intro c inside
    have holds := List.all_eq_true.mp (spelling_tail _ member) c inside
    simp only [Bool.and_eq_true, Bool.not_eq_true', decide_eq_true_eq] at holds
    exact ⟨holds.1, fun same => absurd same holds.2⟩
  | elseIf | quotedString | quotedChar => exact begins.elim

/-! Pieces stay what they are when what stands behind them changes. -/

/-- No lexeme can reach from the one text into the other: the other begins with a blank, or with a
slash that does not make a comment of a slash in front of it. -/
def Parted (text rest : List Char) : Prop :=
  ∀ c ∈ rest.head?, isBlank c = true ∨ c = '/' ∧ text.getLast? ≠ some '/'

theorem Parted.behind (parted : Parted (front ++ text) rest) (filled : text ≠ []) :
    Parted text rest := by
  intro c head
  refine (parted c head).imp_right (And.imp_right fun last => ?_)
  rwa [List.getLast?_append_of_ne_nil _ filled] at last

/-- A rule that matches in front of the one rest matches in front of the other. -/
theorem split?_of_parted (member : rule ∈ Rule.plain) (unquoted : rule.quote? = none)
    (filled : text ≠ [])
    (parted : Parted text rest) (split : rule.split? (text ++ rest) = some (lexeme, back))
    (rest' : List Char) :
    ∃ lexeme back, rule.split? (text ++ rest') = some (lexeme, back) := by
  obtain ⟨seed, after, same, begins⟩ := seed_of_split? member unquoted split
  suffices inside : ∃ more, text = seed ++ more by
    obtain ⟨more, rfl⟩ := inside
    rw [List.append_assoc]
    exact split?_of_seed begins
  rcases List.append_eq_append_iff.mp same with ⟨more, rfl, reaches⟩ | ⟨more, rfl, _⟩
  · cases more with
    | nil => exact ⟨[], by simp⟩
    | cons c more =>
      -- The seed would reach over the border, and `c` behind its first character.
      have tail : c ∈ (text ++ c :: more).tail := by
        obtain ⟨first, text, rfl⟩ := List.exists_cons_of_ne_nil filled
        simp
      obtain ⟨noBlank, comment⟩ := tail_of_seed member begins c tail
      rcases parted c (by rw [reaches]; rfl) with blank | ⟨rfl, last⟩
      · rw [noBlank] at blank
        cases blank
      · have slashes := comment rfl
        have length := congrArg List.length slashes
        simp only [List.length_append, List.length_cons, List.length_nil] at length
        obtain ⟨first, text, rfl⟩ := List.exists_cons_of_ne_nil filled
        obtain rfl : text = [] :=
          List.length_eq_zero_iff.mp (by rw [List.length_cons] at length; omega)
        obtain rfl : first = '/' := (List.cons.inj slashes).1
        exact absurd rfl last
  · exact ⟨more, rfl⟩

theorem spelling_head : ∀ rule ∈ Rule.plain,
    (['"', '\''].all fun quote => rule.spelling.head? ≠ some quote) = true := by
  decide

/-- A piece that begins with a quote is quoted text. -/
theorem quote?_of_shape {quote : Char} (member : rule ∈ Rule.plain) (shape : rule.Shape lexeme)
    (head : lexeme.head? = some quote) (isQuote : quote ∈ ['"', '\'']) :
    rule.quote? = some quote := by
  obtain ⟨noBlank, noStart, noDigit, noSlash⟩ :
      isBlank quote = false ∧ isWordStart quote = false ∧ quote.isDigit = false ∧ quote ≠ '/' := by
    obtain rfl | rfl : quote = '"' ∨ quote = '\'' := by simpa using isQuote
    · decide
    · decide
  cases rule with
  | blanks =>
    have blank := shape.2 quote (List.mem_of_mem_head? head)
    rw [noBlank] at blank
    cases blank
  | digits =>
    have digit := shape.2 quote (List.mem_of_mem_head? head)
    rw [noDigit] at digit
    cases digit
  | comment =>
    obtain ⟨line, _, rfl⟩ := shape
    exact absurd (Option.some.inj head).symm noSlash
  | elseIf => exact absurd member (by decide)
  | word =>
    obtain ⟨first, cs, start, _, rfl⟩ := shape
    obtain rfl : first = quote := Option.some.inj head
    rw [noStart] at start
    cases start
  | decimal =>
    obtain ⟨whole, part, ⟨filled, digits⟩, _, rfl⟩ := shape
    obtain ⟨first, whole, rfl⟩ := List.exists_cons_of_ne_nil filled
    obtain rfl : first = quote := Option.some.inj head
    have digit := digits first List.mem_cons_self
    rw [noDigit] at digit
    cases digit
  | quotedString =>
    obtain ⟨text, _, rfl⟩ := shape
    exact head
  | quotedChar =>
    obtain rfl | ⟨_, _, rfl⟩ := shape
    · exact head
    · exact head
  | mark kind spelling =>
    have holds := List.all_eq_true.mp (spelling_head _ member) quote isQuote
    obtain rfl : lexeme = spelling.toList := shape
    exact absurd head (of_decide_eq_true holds)

theorem head_of_quote? {quote : Char} (shape : rule.Shape lexeme)
    (quoted : rule.quote? = some quote) :
    lexeme.head? = some quote ∧ quote ∈ ['"', '\''] := by
  cases rule with
  | quotedString =>
    obtain ⟨text, _, rfl⟩ := shape
    obtain rfl : '"' = quote := Option.some.inj quoted
    exact ⟨rfl, by decide⟩
  | quotedChar =>
    obtain rfl : '\'' = quote := Option.some.inj quoted
    obtain rfl | ⟨_, _, rfl⟩ := shape
    · exact ⟨rfl, by decide⟩
    · exact ⟨rfl, by decide⟩
  | _ => cases quoted

theorem rule_of_quote? {quote : Char} (quoted : rule.quote? = some quote) :
    rule = if quote = '"' then .quotedString else .quotedChar := by
  cases rule with
  | quotedString | quotedChar =>
    cases quoted
    rfl
  | _ => cases quoted

/-- No piece with a meaning goes on over a blank or a slash. -/
theorem goesOn_of_loud (member : rule ∈ Rule.plain) (loud : rule.meaning? lexeme ≠ none)
    (ends : isBlank c = true ∨ c = '/') : rule.goesOn c = false := by
  have noWord : isWordRest c = false := by
    rcases ends with blank | rfl
    · exact isWordRest_of_isBlank blank
    · decide
  cases rule with
  | blanks | comment => exact absurd rfl loud
  | elseIf => exact absurd member (by decide)
  | word => exact noWord
  | decimal | digits =>
    by_contra digit
    rw [isWordRest_of_isDigit (by simpa [Rule.goesOn] using digit)] at noWord
    cases noWord
  | quotedString | quotedChar | mark => rfl

theorem spelling_last : ∀ rule ∈ Rule.plain, rule.spelling.getLast? = some '/' →
    rule.spelling = ['/'] := by
  decide

/-- A piece with a meaning that ends with a slash is one slash. -/
theorem eq_slash_of_last (member : rule ∈ Rule.plain) (loud : rule.meaning? lexeme ≠ none)
    (shape : rule.Shape lexeme) (last : lexeme.getLast? = some '/') : lexeme = ['/'] := by
  have inside : '/' ∈ lexeme := List.mem_of_getLast? last
  cases rule with
  | blanks | comment => exact absurd rfl loud
  | elseIf => exact absurd member (by decide)
  | word =>
    obtain ⟨c, cs, start, rests, rfl⟩ := shape
    rcases List.mem_cons.mp inside with rfl | inside
    · exact absurd start (by decide)
    · exact absurd (rests '/' inside) (by decide)
  | decimal =>
    obtain ⟨whole, part, ⟨_, wholeDigits⟩, ⟨_, partDigits⟩, rfl⟩ := shape
    rcases List.mem_append.mp inside with inside | inside
    · exact absurd (wholeDigits '/' inside) (by decide)
    · exact absurd (partDigits '/' ((List.mem_cons.mp inside).resolve_left (by decide))) (by decide)
  | digits => exact absurd (shape.2 '/' inside) (by decide)
  | quotedString =>
    obtain ⟨text, _, rfl⟩ := shape
    rw [← List.cons_append, List.getLast?_concat] at last
    cases last
  | quotedChar =>
    obtain rfl | ⟨c, _, rfl⟩ := shape
    · cases last
    · cases last
  | mark kind spelling =>
    obtain rfl : lexeme = spelling.toList := shape
    exact spelling_last _ member last

/-- A rule that does not match in front of the one rest does not match in front of the other. -/
theorem split?_eq_none_of_parted {other : Rule} (member : rule ∈ Rule.plain)
    (member' : other ∈ Rule.plain)
    (split : rule.split? (lexeme ++ (text ++ rest)) = some (lexeme, text ++ rest))
    (parted : Parted (lexeme ++ text) rest')
    (unmatched : other.split? (lexeme ++ (text ++ rest)) = none) :
    other.split? (lexeme ++ (text ++ rest')) = none := by
  obtain ⟨_, shape, _⟩ := split?_eq_some_iff.mp split
  have filled := filled_of_shape (mem_all_of_mem_plain member) shape
  by_contra some
  obtain ⟨⟨lexeme', rest''⟩, split'⟩ := Option.ne_none_iff_exists'.mp some
  cases quoted : other.quote? with
  | none =>
    have filled' : lexeme ++ text ≠ [] := by simp [filled]
    rw [← List.append_assoc] at split' unmatched
    obtain ⟨_, _, again⟩ := split?_of_parted member' quoted filled' parted split' rest
    rw [unmatched] at again
    cases again
  | some quote =>
    -- Both rules match at a quote, so they are the same.
    obtain ⟨same, shape', _⟩ := split?_eq_some_iff.mp split'
    obtain ⟨head, isQuote⟩ := head_of_quote? shape' quoted
    obtain ⟨first, lexeme, rfl⟩ := List.exists_cons_of_ne_nil filled
    obtain ⟨quote', lexeme', rfl⟩ := List.exists_cons_of_ne_nil
      (filled_of_shape (mem_all_of_mem_plain member') shape')
    obtain ⟨rfl, _⟩ := List.cons.inj same
    have quoted' := quote?_of_shape member shape head isQuote
    rw [rule_of_quote? quoted, ← rule_of_quote? quoted', split] at unmatched
    cases unmatched

theorem plainMatch?_of_parted
    (first : plainMatch? (lexeme ++ (text ++ rest)) = some (rule, lexeme, text ++ rest))
    (parted : Parted (lexeme ++ text) rest') (loud : text = [] → rule.meaning? lexeme ≠ none) :
    plainMatch? (lexeme ++ (text ++ rest')) = some (rule, lexeme, text ++ rest') := by
  obtain ⟨member, split⟩ := split?_of_plainMatch? first
  obtain ⟨_, shape, stops⟩ := split?_eq_some_iff.mp split
  obtain ⟨before, own, after, rules, found, none⟩ := List.findSome?_eq_some_iff.mp first
  refine List.findSome?_eq_some_iff.mpr ⟨before, own, after, rules, ?_, ?_⟩
  · obtain ⟨split', _, same⟩ := Option.map_eq_some_iff.mp found
    obtain ⟨rfl, rfl⟩ := Prod.mk.inj same
    have stops' : ∀ c ∈ (text ++ rest').head?, own.goesOn c = false := by
      cases text with
      | nil =>
        intro c head
        exact goesOn_of_loud member (loud rfl) ((parted c head).imp_right And.left)
      | cons c text => exact stops
    rw [split?_eq_some_iff.mpr ⟨rfl, shape, stops'⟩]
    rfl
  · intro other earlier
    have member' : other ∈ Rule.plain := by
      rw [rules]
      exact List.mem_append_left _ earlier
    have unmatched := Option.map_eq_none_iff.mp (none other earlier)
    exact Option.map_eq_none_iff.mpr
      (split?_eq_none_of_parted member member' split parted unmatched)

/-- The pieces of a text stay when what stands behind it becomes something that it does not reach
into. -/
theorem Pieces.keep {pieces : List Piece} (cut : Pieces rest text pieces)
    (parted : Parted text rest') (loud : ∀ last ∈ pieces.getLast?, ¬last.Silent) :
    Pieces rest' text pieces := by
  induction cut with
  | nil => exact .nil
  | @cons rule lexeme text pieces first others ih =>
    have last : text = [] → rule.meaning? lexeme ≠ none := by
      rintro rfl
      cases pieces with
      | nil => exact loud _ rfl
      | cons piece pieces =>
        obtain ⟨others, same, _, filled, _⟩ := others.eq_cons
        exact absurd (List.append_eq_nil_iff.mp same.symm).1 filled
    refine .cons (plainMatch?_of_parted first parted last) ?_
    cases pieces with
    | nil =>
      obtain rfl := others.eq_nil
      exact .nil
    | cons piece pieces =>
      have filled : text ≠ [] := by
        obtain ⟨others, rfl, _, filled, _⟩ := others.eq_cons
        simp [filled]
      exact ih (parted.behind filled) fun last member => loud last (by simpa using member)

end ColonScript.Token
