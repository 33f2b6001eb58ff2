import ColonScript.Proofs.Borders
import ColonScript.Proofs.Words
import ColonScript.Proofs.Reading.Positions

/-! Layout. Blanks and comments may stand between any two words of a source, in any number and
mixture, and the source means the same; only between an `else` and an `if` it matters whether a
comment is among them. -/

namespace ColonScript.Token
open Text

variable {gap gap' lexeme text front back rest : List Char}
    {pieces before after between other : List Piece}

/-! Runs of blanks and comments fall into silent pieces. -/

def Unblank (text : List Char) : Prop := ∀ c ∈ text.head?, isBlank c = false

theorem plainMatch?_of_run (filled : lexeme ≠ []) (blank : ∀ c ∈ lexeme, isBlank c = true)
    (stops : Unblank rest) :
    plainMatch? (lexeme ++ rest) = some (.blanks, lexeme, rest) :=
  plainMatch?_of_blanks (split?_eq_some_iff.mpr ⟨rfl, ⟨filled, blank⟩, stops⟩)

theorem pieces_of_trivia (trivia : Trivia back gap) (stops : Unblank back) :
    ∃ pieces, Pieces back gap pieces ∧ ∀ piece ∈ pieces, piece.Silent := by
  induction trivia with
  | nil => exact ⟨[], .nil, by simp⟩
  | @blank c text blank _ ih =>
    obtain ⟨pieces, cut, silent⟩ := ih
    -- The blank goes to the run behind it, if there is one.
    by_cases apart : Unblank (text ++ back)
    · have single : plainMatch? ([c] ++ (text ++ back)) = some (.blanks, [c], text ++ back) :=
        plainMatch?_of_run (by simp) (by simpa using blank) apart
      exact ⟨⟨.blanks, [c]⟩ :: pieces, .cons single cut, List.forall_mem_cons.mpr ⟨rfl, silent⟩⟩
    · cases cut with
      | nil => exact absurd stops apart
      | @cons rule lexeme text pieces first others =>
        rw [List.forall_mem_cons] at silent
        obtain ⟨_, shape, ends⟩ := split?_eq_some_iff.mp (split?_of_plainMatch? first).2
        rcases Piece.silent_iff.mp silent.1 with blanks | comment
        · obtain rfl : rule = .blanks := blanks
          refine ⟨⟨.blanks, c :: lexeme⟩ :: pieces, ?_, List.forall_mem_cons.mpr ⟨rfl, silent.2⟩⟩
          have run : ∀ d ∈ c :: lexeme, isBlank d = true :=
            List.forall_mem_cons.mpr ⟨blank, shape.2⟩
          have longer : plainMatch? ((c :: lexeme) ++ (text ++ back)) =
            some (.blanks, c :: lexeme, text ++ back) :=
            plainMatch?_of_run (by simp) run ends
          exact .cons longer others
        · obtain rfl : rule = .comment := comment
          obtain ⟨line, _, rfl⟩ := shape
          refine absurd ?_ apart
          intro d head
          obtain rfl : '/' = d := by simpa using head
          decide
  | @comment line text single ends _ ih =>
    obtain ⟨pieces, cut, silent⟩ := ih
    have first : plainMatch? (('/' :: '/' :: line) ++ (text ++ back)) =
        some (.comment, '/' :: '/' :: line, text ++ back) := by
      refine plainMatch?_of_comment (noBlanks_of_head (by decide)) ?_
      refine split?_eq_some_iff.mpr ⟨rfl, ⟨line, single, rfl⟩, ?_⟩
      intro c head
      simp [Rule.goesOn, ends c head]
    exact ⟨⟨.comment, '/' :: '/' :: line⟩ :: pieces, .cons first cut,
      List.forall_mem_cons.mpr ⟨rfl, silent⟩⟩

/-- They are one piece exactly where no comment is among them. -/
theorem blanks_iff (cut : Pieces back gap pieces) (stops : Unblank back) :
    (∃ lexeme, pieces = [⟨.blanks, lexeme⟩]) ↔ gap ≠ [] ∧ ∀ c ∈ gap, isBlank c = true := by
  constructor
  · rintro ⟨lexeme, rfl⟩
    obtain ⟨others, rfl, _, _, split, cut⟩ := cut.eq_cons
    obtain rfl := cut.eq_nil
    rw [List.append_nil]
    exact (split?_eq_some_iff.mp split).2.1
  · rintro ⟨filled, blank⟩
    have single : Pieces back gap [⟨.blanks, gap⟩] := by
      have whole : Pieces back (gap ++ []) [⟨.blanks, gap⟩] :=
        .cons (plainMatch?_of_run filled blank stops) .nil
      rwa [List.append_nil] at whole
    exact ⟨gap, cut.unique single⟩

/-- A text of which the first piece has a meaning does not begin with a blank. -/
theorem unblank_of_loud (cut : Pieces [] text pieces)
    (loud : ∀ first ∈ pieces.head?, ¬first.Silent) :
    Unblank text := by
  intro c head
  by_contra blank
  have blank : isBlank c = true := by simpa using blank
  cases cut with
  | nil => cases head
  | @cons rule lexeme text _ first _ =>
    obtain ⟨cs, same⟩ := List.head?_eq_some_iff.mp head
    obtain ⟨run, rest, split⟩ := run?_of_head blank cs
    rw [List.append_nil, same, plainMatch?_of_blanks split] at first
    obtain ⟨rfl, _⟩ := Prod.mk.inj (Option.some.inj first)
    exact loud _ rfl rfl

/-! What the pieces of a text leave, part by part. -/

theorem leaves_append
    (apart : ∀ p q, before = p ++ q → q ≠ [] → opensElseIf (q ++ after) = true →
      opensElseIf q = true) :
    leaves (before ++ after) = leaves before ++ leaves after := by
  fun_induction leaves before with
  | case1 => simp
  | case2 piece pieces opens ih =>
    obtain ⟨gap, others, same⟩ := opensElseIf_iff.mp opens
    obtain ⟨rfl, rfl⟩ := List.cons.inj same
    rw [List.cons_append, List.cons_append, List.cons_append, leaves_elseIf]
    simp only [List.drop_succ_cons, List.drop_zero] at ih ⊢
    rw [ih, List.cons_append]
    intro p q split
    exact apart (.elseWord :: ⟨.blanks, gap⟩ :: .ifWord :: p) q (by rw [split]; rfl)
  | case3 piece pieces closed ih =>
    have closed' : opensElseIf (piece :: (pieces ++ after)) = false := by
      by_contra opens
      exact closed (apart [] (piece :: pieces) rfl (by simp) (by simpa using opens))
    rw [List.cons_append, leaves_cons closed', ih, List.append_assoc]
    intro p q split
    exact apart (piece :: p) q (by rw [split]; rfl)

theorem leaves_silent (silent : ∀ piece ∈ between, piece.Silent) :
    leaves (between ++ after) = leaves after := by
  induction between with
  | nil => rfl
  | cons piece between ih =>
    rw [List.forall_mem_cons] at silent
    have closed : opensElseIf (piece :: (between ++ after)) = false := by
      by_contra opens
      obtain ⟨_, _, same⟩ := opensElseIf_iff.mp (by simpa using opens)
      obtain ⟨rfl, _⟩ := List.cons.inj same
      cases silent.1
    rw [List.cons_append, leaves_cons closed, ih silent.2, silent.1]
    rfl

/-- An `else` belongs to nothing that stands in front of it. -/
theorem leaves_append_else : leaves (before ++ .elseWord :: after) = leaves before ++ leaves
    (.elseWord :: after) := by
  refine leaves_append fun p q _ filled opens => ?_
  match q with
  | [x] =>
    obtain ⟨gap, others, same⟩ := opensElseIf_iff.mp opens
    cases (List.cons.inj (List.cons.inj same).2).1
  | [x, y] =>
    obtain ⟨gap, others, same⟩ := opensElseIf_iff.mp opens
    cases (List.cons.inj (List.cons.inj (List.cons.inj same).2).2).1
  | x :: y :: z :: q => exact opens

def Straddles (before after : List Piece) : Prop :=
  before.getLast? = some .elseWord ∧ after.head? = some .ifWord

def OneRun (between : List Piece) : Prop := ∃ lexeme, between = [⟨.blanks, lexeme⟩]

theorem leaves_joined (single : OneRun between) :
    leaves (before ++ .elseWord :: (between ++ .ifWord :: after)) =
      leaves before ++ (.elseIfWord, "else if") :: leaves after := by
  obtain ⟨lexeme, rfl⟩ := single
  rw [leaves_append_else, List.singleton_append, leaves_elseIf]

theorem leaves_apart (silent : ∀ piece ∈ between, piece.Silent) (several : ¬OneRun between) :
    leaves (before ++ .elseWord :: (between ++ .ifWord :: after)) =
      leaves before ++ (.elseWord, "else") :: (.ifWord, "if") :: leaves after := by
  have closed : opensElseIf (.elseWord :: (between ++ .ifWord :: after)) = false := by
    by_contra opens
    obtain ⟨gap, others, same⟩ := opensElseIf_iff.mp (by simpa using opens)
    have behind : between ++ .ifWord :: after = ⟨.blanks, gap⟩ :: .ifWord :: others :=
      (List.cons.inj same).2
    match between with
    | [] => cases behind
    | [x] => exact several ⟨gap, by rw [(List.cons.inj behind).1]⟩
    | x :: y :: between =>
      have second : y = .ifWord := (List.cons.inj (List.cons.inj behind).2).1
      cases silent .ifWord (by simp [second])
  have closed' : opensElseIf (.ifWord :: after) = false := by
    by_contra opens
    obtain ⟨_, _, same⟩ := opensElseIf_iff.mp (by simpa using opens)
    cases same
  rw [leaves_append_else, leaves_cons closed, leaves_silent silent, leaves_cons closed']
  rfl

theorem leaves_beside (loud : ∀ last ∈ before.getLast?, ¬last.Silent)
    (silent : ∀ piece ∈ between, piece.Silent) (loud' : ∀ first ∈ after.head?, ¬first.Silent)
    (beside : ¬Straddles before after) :
    leaves (before ++ (between ++ after)) = leaves before ++ leaves after := by
  refine (leaves_append fun p q split filled opens => ?_).trans (congrArg _ (leaves_silent silent))
  subst split
  match q with
  | [x] =>
    obtain ⟨gap, others, same⟩ := opensElseIf_iff.mp opens
    obtain ⟨rfl, behind⟩ := List.cons.inj same
    have behind : between ++ after = ⟨.blanks, gap⟩ :: .ifWord :: others := behind
    match between with
    | [] =>
      obtain rfl : after = ⟨.blanks, gap⟩ :: .ifWord :: others := behind
      exact absurd rfl (loud' _ rfl)
    | [y] =>
      obtain rfl : after = .ifWord :: others := (List.cons.inj behind).2
      exact absurd ⟨by simp, rfl⟩ beside
    | y :: z :: between =>
      have second : z = .ifWord := (List.cons.inj (List.cons.inj behind).2).1
      cases silent .ifWord (by simp [second])
  | [x, y] =>
    obtain ⟨gap, others, same⟩ := opensElseIf_iff.mp opens
    obtain ⟨rfl, _⟩ := List.cons.inj (List.cons.inj same).2
    exact absurd rfl (loud ⟨.blanks, gap⟩ (by simp))
  | x :: y :: z :: q => exact opens

/-- What stands between two words matters only between an `else` and an `if`, and only whether it is
all blank. -/
theorem leaves_eq_iff (loud : ∀ last ∈ before.getLast?, ¬last.Silent)
    (silent : ∀ piece ∈ between, piece.Silent) (silent' : ∀ piece ∈ other, piece.Silent)
    (loud' : ∀ first ∈ after.head?, ¬first.Silent) :
    leaves (before ++ (other ++ after)) = leaves (before ++ (between ++ after)) ↔
      (Straddles before after → (OneRun other ↔ OneRun between)) := by
  by_cases straddles : Straddles before after
  · obtain ⟨last, first⟩ := straddles
    obtain ⟨before, rfl⟩ := List.getLast?_eq_some_iff.mp last
    obtain ⟨after, rfl⟩ := List.head?_eq_some_iff.mp first
    simp only [List.append_assoc, List.singleton_append]
    simp only [Straddles, last, first, and_self, true_implies]
    by_cases single : OneRun between
    · by_cases single' : OneRun other
      · simp [leaves_joined single, leaves_joined single', single, single']
      · simp [leaves_joined single, leaves_apart silent' single', single, single']
    · by_cases single' : OneRun other
      · simp [leaves_apart silent single, leaves_joined single', single, single']
      · simp [leaves_apart silent single, leaves_apart silent' single', single, single']
  · rw [leaves_beside loud silent loud' straddles, leaves_beside loud silent' loud' straddles]
    exact ⟨fun _ holds => absurd holds straddles, fun _ => rfl⟩

/-! A gap in place of another. -/

/-- Blanks and comments that can stand between the texts. -/
structure Spaces (front back gap : List Char) : Prop where
  trivia : Trivia back gap
  filled : gap ≠ []
  parted : Parted front gap

/-- Between the words of an `else if` something stands. -/
theorem Parts.filled (parts : Parts front gap back before between after)
    (straddles : Straddles before after) :
    gap ≠ [] := by
  rintro rfl
  obtain ⟨last, first⟩ := straddles
  obtain ⟨before, rfl⟩ := List.getLast?_eq_some_iff.mp last
  obtain ⟨after, rfl⟩ := List.head?_eq_some_iff.mp first
  obtain ⟨others, rfl, _⟩ := parts.back.eq_cons
  obtain ⟨front, word, rfl, _, cut⟩ := parts.front.of_append
  obtain ⟨behind, rfl, _, _, split, cut⟩ := cut.eq_cons
  obtain rfl := cut.eq_nil
  -- An `else` does not end in front of an `i`.
  have stops := (split?_eq_some_iff.mp split).2.2 'i' rfl
  revert stops
  decide

theorem Parts.replace (parts : Parts front gap back before between after)
    (spaces : Spaces front back gap') :
    ∃ other, Parts front gap' back before other after := by
  obtain ⟨other, cut, silent⟩ :=
    pieces_of_trivia spaces.trivia (unblank_of_loud parts.back parts.first)
  have parted : Parted front (gap' ++ back) := by
    obtain ⟨c, cs, rfl⟩ := List.exists_cons_of_ne_nil spaces.filled
    exact spaces.parted
  exact ⟨other, parts.front.keep parted parts.last, cut, parts.back, parts.last,
    silent, parts.first⟩

theorem Parts.leaves_eq_iff (parts : Parts front gap back before between after)
    (parts' : Parts front gap' back before other after) (filled : gap' ≠ []) :
    leaves (before ++ (other ++ after)) = leaves (before ++ (between ++ after)) ↔
      (Straddles before after → ((∀ c ∈ gap', isBlank c = true) ↔
        ∀ c ∈ gap, isBlank c = true)) := by
  rw [Token.leaves_eq_iff parts.last parts.silent parts'.silent parts.first]
  have stops := unblank_of_loud parts.back parts.first
  refine forall_congr' fun straddles => ?_
  rw [OneRun, OneRun, blanks_iff parts.gap stops, blanks_iff parts'.gap stops]
  simp [parts.filled straddles, filled]

def ElseIf (words : List Token) (next : Token) : Prop :=
  words.getLast?.map kind = some .elseWord ∧ next.kind = .ifWord

/-- The gaps mean the same between the last of the words and the next: between an `else` and an `if`
both are blank, or neither is. -/
def Exchangeable (words : List Token) (next : Token) (gap gap' : List Char) : Prop :=
  ElseIf words next → ((∀ c ∈ gap', isBlank c = true) ↔ ∀ c ∈ gap, isBlank c = true)

/-! The gap that is there. -/

theorem trivia_of_pieces (cut : Pieces rest text pieces) (silent : ∀ piece ∈ pieces, piece.Silent) :
    Trivia rest text := by
  induction cut with
  | nil => exact .nil
  | cons first _ ih =>
    rw [List.forall_mem_cons] at silent
    exact trivia_of_split? (split?_of_plainMatch? first).2 silent.1 (ih silent.2)

/-- No word reaches into the gap behind it. -/
theorem Parts.parted (parts : Parts front gap back before between after) : Parted front gap := by
  intro c head
  cases trivia_of_pieces parts.gap parts.silent with
  | nil => cases head
  | blank blank => exact .inl (Option.some.inj head ▸ blank)
  | comment =>
    refine .inr ⟨(Option.some.inj head).symm, fun last => ?_⟩
    rcases List.eq_nil_or_concat before with rfl | ⟨before, piece, rfl⟩
    · rw [parts.front.eq_nil] at last
      cases last
    rw [List.concat_eq_append] at parts
    obtain ⟨front, word, rfl, _, cut⟩ := parts.front.of_append
    cases cut with
    | cons first none =>
      obtain rfl := none.eq_nil
      obtain ⟨member, split⟩ := split?_of_plainMatch? first
      obtain ⟨_, shape, _⟩ := split?_eq_some_iff.mp split
      have filled := filled_of_shape (mem_all_of_mem_plain member) shape
      rw [List.append_nil, List.getLast?_append_of_ne_nil _ filled] at last
      have loud := parts.last _ List.getLast?_concat
      obtain rfl := eq_slash_of_last member loud shape last
      -- Two slashes would have begun a comment.
      have slashes (cs : List Char) : plainMatch? ('/' :: '/' :: cs) =
          some (.comment, '/' :: '/' :: cs.takeWhile (· ≠ '\n'), cs.dropWhile (· ≠ '\n')) :=
        plainMatch?_of_comment (noBlanks_of_head (by decide)) rfl
      obtain ⟨rfl, _⟩ := Prod.mk.inj (Option.some.inj (first.symm.trans (slashes _)))
      exact loud rfl

/-- A comment may stand in front of any end of a line, also behind another. -/
theorem Trivia.insert {line : List Char} (trivia : Trivia rest text) (single : '\n' ∉ line)
    (same : text = gap ++ '\n' :: back) :
    Trivia rest (gap ++ ' ' :: '/' :: '/' :: (line ++ '\n' :: back)) := by
  induction trivia generalizing gap with
  | nil => simp at same
  | @blank c text blank more ih =>
    cases gap with
    | nil =>
      obtain ⟨rfl, rfl⟩ := List.cons.inj same
      exact .blank (by decide) (.comment single (by simp) (.blank blank more))
    | cons d gap =>
      obtain ⟨rfl, behind⟩ := List.cons.inj same
      exact .blank blank (ih behind)
  | @comment own text single' ends more ih =>
    have same : ('/' :: '/' :: own) ++ text = gap ++ '\n' :: back := same
    obtain ⟨gap, rfl, rfl⟩ : ∃ gap', gap = ('/' :: '/' :: own) ++ gap' ∧
      text = gap' ++ '\n' :: back := by
      rcases List.append_eq_append_iff.mp same with ⟨gap', first, last⟩ |
        ⟨_ | ⟨c, others⟩, first, last⟩
      · exact ⟨gap', first, last⟩
      · exact ⟨[], by simpa using first.symm, last.symm⟩
      · obtain ⟨rfl, _⟩ := List.cons.inj last
        have inside : '\n' ∈ '/' :: '/' :: own := by simp [first]
        exact absurd (by simpa using inside) single'
    cases gap with
    | nil =>
      have longer : '\n' ∉ own ++ ' ' :: '/' :: '/' :: line := by simp [single, single']
      have trivia : Trivia rest
        ('/' :: '/' :: ((own ++ ' ' :: '/' :: '/' :: line) ++ '\n' :: back)) :=
        .comment longer (by simp) more
      simpa using trivia
    | cons d gap =>
      have trivia : Trivia rest
          ('/' :: '/' :: (own ++ ((d :: gap) ++ ' ' :: '/' :: '/' :: (line ++ '\n' :: back)))) :=
        .comment single' (fun c head => ends c (by simpa using head)) (ih rfl)
      simpa using trivia

/-! Sources. -/

section Sources
variable {front gap gap' back file : String} {tokens words : List Token} {next : Token}

theorem makes_of_ofSource {source : String} (lexed : ofSource source file = .ok tokens) :
    ∃ pieces, Makes 0 source.toList pieces tokens := by
  have makes := makes_of_scan source.toList.length 0 source.toList (Nat.le_refl _)
  rwa [ofSource_eq_ok.mp lexed] at makes

theorem ofSource_of_pieces {source : String} (cut : Pieces [] source.toList pieces)
    (file : String) :
    ∃ tokens, ofSource source file = .ok tokens ∧ Makes 0 source.toList pieces tokens := by
  have makes := makes_of_scan source.toList.length 0 source.toList (Nat.le_refl _)
  cases scanned : scan source.toList.length 0 source.toList with
  | ok tokens =>
    rw [scanned] at makes
    obtain ⟨pieces', makes⟩ := makes
    obtain rfl := makes.cut.unique cut
    exact ⟨tokens, ofSource_eq_ok.mpr scanned, makes⟩
  | error fault =>
    rw [scanned] at makes
    exact absurd cut (makes pieces)

theorem exists_parts (lexed : ofSource (front ++ gap ++ back) file = .ok tokens)
    (separates : Separates tokens words front.toList gap.toList next) :
    ∃ before between after, Parts front.toList gap.toList back.toList before between after ∧
      tokens.map meaning = leaves (before ++ (between ++ after)) ++ [(.eof, "EOF")] ∧
      (ElseIf words next ↔ Straddles before after) := by
  obtain ⟨pieces, makes⟩ := makes_of_ofSource lexed
  simp only [String.toList_append, List.append_assoc] at makes
  obtain ⟨before, between, after, rfl, parts, isElse, isIf⟩ := makes.parts separates
  exact ⟨before, between, after, parts, makes.meanings, and_congr isElse isIf⟩

theorem ofSource_of_spaces (lexed : ofSource (front ++ gap ++ back) file = .ok tokens)
    (separates : Separates tokens words front.toList gap.toList next)
    (spaces : Spaces front.toList back.toList gap'.toList) :
    ∃ others, ofSource (front ++ gap' ++ back) file = .ok others ∧
      (others.map meaning = tokens.map meaning ↔
        Exchangeable words next gap.toList gap'.toList) := by
  obtain ⟨before, between, after, parts, meanings, elseIf⟩ := exists_parts lexed separates
  obtain ⟨other, parts'⟩ := parts.replace spaces
  have cut : Pieces [] (front ++ gap' ++ back).toList (before ++ (other ++ after)) := by
    simpa only [String.toList_append, List.append_assoc] using parts'.cut
  obtain ⟨others, lexed', makes⟩ := ofSource_of_pieces cut file
  refine ⟨others, lexed', ?_⟩
  rw [meanings, makes.meanings, List.append_left_inj, parts.leaves_eq_iff parts' spaces.filled,
    Exchangeable, elseIf]

theorem program_of_spaces (lexed : ofSource (front ++ gap ++ back) file = .ok tokens)
    (separates : Separates tokens words front.toList gap.toList next)
    (spaces : Spaces front.toList back.toList gap'.toList)
    (exchangeable : Exchangeable words next gap.toList gap'.toList) (testing : Bool)
    (program : Program) :
    Program.ofSource (front ++ gap' ++ back) file testing = .ok program ↔
      Program.ofSource (front ++ gap ++ back) file testing = .ok program := by
  obtain ⟨others, lexed', same⟩ := ofSource_of_spaces lexed separates spaces
  have trees : Program.ofTokens others file testing = .ok program ↔
      Program.ofTokens tokens file testing = .ok program :=
    Program.ofTokens_eq_ok_iff_of_meanings (same.mpr exchangeable)
  rw [Program.ofSource, Program.ofSource, lexed, lexed']
  exact trees

theorem spaces_of_comment {before line behind : String}
    (lexed : ofSource (front ++ (before ++ "\n" ++ behind) ++ back) file = .ok tokens)
    (separates : Separates tokens words front.toList (before ++ "\n" ++ behind).toList next)
    (single : '\n' ∉ line.toList) :
    Spaces front.toList back.toList (before ++ " //" ++ line ++ "\n" ++ behind).toList := by
  obtain ⟨_, _, _, parts, _⟩ := exists_parts lexed separates
  have same : (before ++ "\n" ++ behind).toList = before.toList ++ '\n' :: behind.toList := by simp
  have same' : (before ++ " //" ++ line ++ "\n" ++ behind).toList =
      before.toList ++ ' ' :: '/' :: '/' :: (line.toList ++ '\n' :: behind.toList) := by simp
  have parted := parts.parted
  rw [same] at parted
  rw [same']
  refine ⟨(trivia_of_pieces parts.gap parts.silent).insert single same, by simp, fun c head => ?_⟩
  cases before : before.toList with
  | nil =>
    rw [before] at head
    exact .inl (Option.some.inj head ▸ by decide)
  | cons d others =>
    rw [before] at head parted
    exact parted c head

/-- What may stand in place of a gap in a source. -/
structure Replaceable (front gap back file : String) (tokens words : List Token) (next : Token) :
    Prop where
  /-- With other blanks and comments there are tokens as before. They are of the same kinds and
  values, unless just one of the gaps is blank and parts an `else` from an `if`. -/
  tokens : ∀ gap' : String, Spaces front.toList back.toList gap'.toList →
    ∃ others, ofSource (front ++ gap' ++ back) file = .ok others ∧
      (others.map meaning = tokens.map meaning ↔ Exchangeable words next gap.toList gap'.toList)
  programs : ∀ gap' : String, Spaces front.toList back.toList gap'.toList →
    Exchangeable words next gap.toList gap'.toList → ∀ testing program,
      Program.ofSource (front ++ gap' ++ back) file testing = .ok program ↔
        Program.ofSource (front ++ gap ++ back) file testing = .ok program
  /-- A comment at the end of a line. -/
  comments : ∀ before line behind : String, gap = before ++ "\n" ++ behind → '\n' ∉ line.toList →
    ¬ElseIf words next → ∀ testing program,
      Program.ofSource (front ++ (before ++ " //" ++ line ++ "\n" ++ behind) ++ back) file
      testing = .ok program ↔
        Program.ofSource (front ++ gap ++ back) file testing = .ok program

/-- Layout does not matter, but between an `else` and an `if`. -/
theorem gap_replaceable (lexed : ofSource (front ++ gap ++ back) file = .ok tokens)
    (separates : Separates tokens words front.toList gap.toList next) :
    Replaceable front gap back file tokens words next where
  tokens := fun _ spaces => ofSource_of_spaces lexed separates spaces
  programs := fun _ spaces exchangeable => program_of_spaces lexed separates spaces exchangeable
  comments := by
    rintro before line behind rfl single apart
    exact program_of_spaces lexed separates (spaces_of_comment lexed separates single) fun elseIf =>
      absurd elseIf apart

/-- Two names on two lines. -/
theorem gap_replaceable_line :
    Replaceable "x" "\n" "y" "" [⟨.identifier, "x", 0, 1⟩, ⟨.identifier, "y", 2, 3⟩, endOfInput 3]
      [⟨.identifier, "x", 0, 1⟩] ⟨.identifier, "y", 2, 3⟩ :=
  gap_replaceable rfl ⟨⟨[endOfInput 3], rfl⟩, rfl, rfl⟩

/-- Between an `else` and an `if` a comment behind a blank is not what a blank is. -/
theorem comment_between_else_and_if :
    ofSource ("else" ++ " " ++ "if") "" = .ok [⟨.elseIfWord, "else if", 0, 7⟩, endOfInput 7] ∧
      Separates [⟨.elseIfWord, "else if", 0, 7⟩, endOfInput 7] [⟨.elseWord, "else", 0, 4⟩]
        "else".toList " ".toList ⟨.ifWord, "if", 5, 7⟩ ∧
      Trivia "if".toList " // c\n".toList ∧
      ofSource ("else" ++ " // c\n" ++ "if") "" =
        .ok [⟨.elseWord, "else", 0, 4⟩, ⟨.ifWord, "if", 10, 12⟩, endOfInput 12] ∧
      [⟨.elseWord, "else", 0, 4⟩, ⟨.ifWord, "if", 10, 12⟩, endOfInput 12].map meaning ≠
        [⟨.elseIfWord, "else if", 0, 7⟩, endOfInput 7].map meaning := by
  refine ⟨rfl, ⟨⟨[endOfInput 7], rfl⟩, rfl, rfl⟩, ?_, rfl, by decide⟩
  have comment : Trivia "if".toList ('/' :: '/' :: ([' ', 'c'] ++ ['\n'])) :=
    .comment (by decide) (by simp) (.blank (by decide) .nil)
  exact .blank (c := ' ') (by decide) comment

end Sources

end ColonScript.Token
