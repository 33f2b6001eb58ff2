import ColonScript.Proofs.Lexing

/-! Where the tokens of a text lie in it. Cutting a text loses nothing and invents nothing: the
spans of the tokens follow one another, each token has the value that is written in its span, and
what lies between them is blank or comment. A text that cannot be cut is cut in the same way up to
the first character that begins no lexeme. -/

namespace ColonScript.Token
open Text

variable {offset : Nat} {cs gap lexeme text rest : List Char} {rule : Rule} {token : Token}
    {tokens : List Token}

/-- Text in front of `rest` that leaves no token: blanks, and comments that run to the end of their
line. -/
inductive Trivia (rest : List Char) : List Char → Prop where
  | nil : Trivia rest []
  | blank {c : Char} {text : List Char} (blank : isBlank c = true)
    (more : Trivia rest text) : Trivia rest (c :: text)
  | comment {line text : List Char} (single : '\n' ∉ line)
      (ends : ∀ c ∈ (text ++ rest).head?, c = '\n')
      (more : Trivia rest text) : Trivia rest ('/' :: '/' :: (line ++ text))

/-- A lexeme is the value of the token, in quotes where the value is quoted text. The words of an
`else if` may stand further apart than in the value, and no lexeme spells the end of the input. -/
def Spells (token : Token) (lexeme : List Char) : Prop :=
  match token.kind with
  | .eof => False
  | .string => lexeme = '"' :: (token.value.toList ++ ['"'])
  | .char => lexeme = '\'' :: (token.value.toList ++ ['\''])
  | .elseIfWord => token.value = "else if" ∧
      ∃ gap, gap ≠ [] ∧ (∀ c ∈ gap, isBlank c = true) ∧ lexeme = "else".toList ++ gap ++ "if".toList
  | _ => lexeme = token.value.toList

inductive Cut (rest : List Char) : Nat → List Char → List Token → Prop where
  | done {offset : Nat} {gap : List Char} (trivia : Trivia rest gap) : Cut rest offset gap []
  | token {offset : Nat} {gap lexeme text : List Char} {token : Token} {tokens : List Token}
      (trivia : Trivia (lexeme ++ text ++ rest) gap) (filled : lexeme ≠ [])
      (spells : token.Spells lexeme)
      (start : token.start = offset + byteLength gap)
      (stop : token.stop = token.start + byteLength lexeme)
      (others : Cut rest token.stop text tokens) : Cut rest offset (gap ++ lexeme ++ text)
      (token :: tokens)

/-- The token covers a piece of the text that is not empty and spells it, between two characters of
the text. -/
def Covers (text : List Char) (token : Token) : Prop :=
  ∃ before lexeme after, text = before ++ lexeme ++ after ∧ lexeme ≠ [] ∧ token.Spells lexeme ∧
    token.start = byteLength before ∧ token.stop = byteLength (before ++ lexeme)

structure InOrder (text : List Char) (tokens : List Token) : Prop where
  ordered : tokens.Pairwise fun a b => a.stop ≤ b.start
  covers : ∀ token ∈ tokens, token.Covers text

/-! A cut text as the spans of its tokens. -/

theorem Cut.start_le (cut : Cut rest offset text tokens) :
    ∀ token ∈ tokens, offset ≤ token.start := by
  induction cut with
  | done => exact fun _ member => absurd member List.not_mem_nil
  | token _ _ _ start stop _ ih =>
    rw [List.forall_mem_cons]
    refine ⟨by omega, fun token member => ?_⟩
    have later := ih token member
    omega

theorem Cut.ordered (cut : Cut rest offset text tokens) :
    tokens.Pairwise fun a b => a.stop ≤ b.start := by
  induction cut with
  | done => exact .nil
  | token _ _ _ _ _ others ih => exact .cons others.start_le ih

theorem Cut.covers (cut : Cut rest offset text tokens) (before : List Char)
    (begins : byteLength before = offset) :
    ∀ token ∈ tokens, token.Covers (before ++ text ++ rest) := by
  induction cut generalizing before with
  | done => exact fun _ member => absurd member List.not_mem_nil
  | @token offset gap lexeme text token tokens _ filled spells start stop _ ih =>
    have begins' : byteLength (before ++ gap ++ lexeme) = token.stop := by
      simp only [byteLength_append]
      omega
    rw [List.forall_mem_cons]
    constructor
    · refine ⟨before ++ gap, lexeme, text ++ rest, ?_, filled, spells, ?_, begins'.symm⟩
      · simp only [List.append_assoc]
      · rw [byteLength_append]
        omega
    · have later := ih _ begins'
      simpa only [List.append_assoc] using later

theorem Cut.inOrder (cut : Cut rest 0 text tokens) : InOrder (text ++ rest) tokens :=
  ⟨cut.ordered, cut.covers [] rfl⟩

/-! What a rule matches. -/

theorem Trivia.blanks (blank : ∀ c ∈ gap, isBlank c = true) (trivia : Trivia rest text) :
    Trivia rest (gap ++ text) := by
  induction gap with
  | nil => exact trivia
  | cons c gap ih =>
    rw [List.forall_mem_cons] at blank
    exact .blank blank.1 (ih blank.2)

/-- A lexeme without a meaning is trivia. -/
theorem trivia_of_split? (split : rule.split? cs = some (lexeme, text ++ rest))
    (silent : rule.meaning? lexeme = none) (trivia : Trivia rest text) :
    Trivia rest (lexeme ++ text) := by
  obtain ⟨_, shape, stops⟩ := split?_eq_some_iff.mp split
  cases rule with
  | blanks => exact trivia.blanks shape.2
  | comment =>
    obtain ⟨line, single, rfl⟩ := shape
    exact .comment single (fun c head => by simpa [Rule.goesOn] using stops c head) trivia
  | _ => cases silent

theorem spells_of_plain (plain : token.kind ∉ [.eof, .string, .char, .elseIfWord])
    (same : lexeme = token.value.toList) :
    token.Spells lexeme := by
  unfold Spells
  split <;> simp_all

theorem wordKind_plain (word : String) :
    wordKind word ∉ [Kind.eof, .string, .char, .elseIfWord] := by
  have reserved : ∀ pair ∈ reservedWords, pair.2 ∉ [Kind.eof, .string, .char, .elseIfWord] := by
    decide
  rcases wordKind_cases word with member | identifier
  · exact reserved _ member
  · rw [identifier]
    decide

def Rule.isSpelled : Rule → Bool
  | .mark kind spelling => kind ∉ [.eof, .string, .char, .elseIfWord] && spelling.toList != []
  | _ => true

theorem isSpelled_of_mem : ∀ rule ∈ Rule.all, rule.isSpelled = true := by
  decide

theorem mark_spelled {kind : Kind} {spelling : String} (member : .mark kind spelling ∈ Rule.all) :
    kind ∉ [.eof, .string, .char, .elseIfWord] ∧ spelling.toList ≠ [] := by
  simpa only [Rule.isSpelled, Bool.and_eq_true, decide_eq_true_eq, bne_iff_ne]
    using isSpelled_of_mem _ member

/-- A lexeme with a meaning spells it. -/
theorem spells_of_split? (member : rule ∈ Rule.all) (split : rule.split? cs = some (lexeme, rest))
    (meaning : rule.meaning? lexeme = some (token.kind, token.value)) : token.Spells lexeme := by
  obtain ⟨_, shape, _⟩ := split?_eq_some_iff.mp split
  cases rule with
  | blanks | comment => cases meaning
  | elseIf =>
    obtain ⟨kind, value⟩ := Prod.mk.inj (Option.some.inj meaning)
    obtain ⟨gap, ⟨filled, blank⟩, rfl⟩ := shape
    unfold Spells
    rw [← kind, ← value]
    exact ⟨rfl, gap, filled, blank, rfl⟩
  | word =>
    obtain ⟨kind, value⟩ := Prod.mk.inj (Option.some.inj meaning)
    refine spells_of_plain (kind ▸ wordKind_plain _) ?_
    rw [← value, String.toList_ofList]
  | decimal | digits =>
    obtain ⟨kind, value⟩ := Prod.mk.inj (Option.some.inj meaning)
    refine spells_of_plain (kind ▸ by decide) ?_
    rw [← value, String.toList_ofList]
  | quotedString =>
    obtain ⟨kind, value⟩ := Prod.mk.inj (Option.some.inj meaning)
    obtain ⟨text, _, rfl⟩ := shape
    unfold Spells
    rw [← kind, ← value]
    simp
  | quotedChar =>
    obtain ⟨kind, value⟩ := Prod.mk.inj (Option.some.inj meaning)
    unfold Spells
    rw [← kind, ← value]
    obtain rfl | ⟨c, _, rfl⟩ := shape
    · simp
    · simp
  | mark own spelling =>
    obtain ⟨kind, value⟩ := Prod.mk.inj (Option.some.inj meaning)
    refine spells_of_plain (kind ▸ (mark_spelled member).1) ?_
    rw [← value]
    exact shape

theorem filled_of_shape (member : rule ∈ Rule.all) (shape : rule.Shape lexeme) : lexeme ≠ [] := by
  cases rule with
  | blanks | digits => exact shape.1
  | mark kind spelling => exact shape.trans_ne (mark_spelled member).2
  | comment =>
    obtain ⟨line, _, rfl⟩ := shape
    exact List.cons_ne_nil _ _
  | elseIf =>
    obtain ⟨gap, _, rfl⟩ := shape
    exact List.cons_ne_nil _ _
  | word =>
    obtain ⟨c, cs, _, _, rfl⟩ := shape
    exact List.cons_ne_nil _ _
  | decimal =>
    obtain ⟨whole, part, _, _, rfl⟩ := shape
    simp
  | quotedString =>
    obtain ⟨text, _, rfl⟩ := shape
    exact List.cons_ne_nil _ _
  | quotedChar =>
    obtain rfl | ⟨c, _, rfl⟩ := shape
    · exact List.cons_ne_nil _ _
    · exact List.cons_ne_nil _ _

theorem filled_of_split? (member : rule ∈ Rule.all) (split : rule.split? cs = some (lexeme, rest)) :
    lexeme ≠ [] :=
  filled_of_shape member (split?_eq_some_iff.mp split).2.1

/-! The scan. -/

/-- Trivia may be put in front of a cut text. -/
theorem Cut.behind_trivia (split : rule.split? cs = some (lexeme, text ++ rest))
    (silent : rule.meaning? lexeme = none)
    (cut : Cut rest (offset + byteLength lexeme) text tokens) :
    Cut rest offset (lexeme ++ text) tokens := by
  cases cut with
  | done trivia => exact .done (trivia_of_split? split silent trivia)
  | @token _ gap own text token _ trivia filled spells start stop others =>
    have split' : rule.split? cs = some (lexeme, gap ++ (own ++ text ++ rest)) := by
      simpa only [List.append_assoc] using split
    have start' : token.start = offset + byteLength (lexeme ++ gap) := by
      rw [start, byteLength_append, Nat.add_assoc]
    have whole := Cut.token (trivia_of_split? split' silent trivia) filled spells start' stop others
    simpa only [List.append_assoc] using whole

/-- A lexeme may be put in front of a cut text, with the token that it leaves. -/
theorem Cut.behind (member : rule ∈ Rule.all) (split : rule.split? cs = some (lexeme, text ++ rest))
    (cut : Cut rest (offset + byteLength lexeme) text tokens) :
    Cut rest offset (lexeme ++ text) ((ofLexeme? rule lexeme offset).toList ++ tokens) := by
  cases meaning : rule.meaning? lexeme with
  | none =>
    have none : ofLexeme? rule lexeme offset = none := by simp [ofLexeme?, meaning]
    rw [none]
    exact cut.behind_trivia split meaning
  | some pair =>
    obtain ⟨kind, value⟩ := pair
    have some : ofLexeme? rule lexeme offset =
      some ⟨kind, value, offset, offset + byteLength lexeme⟩ := by
      simp [ofLexeme?, meaning]
    rw [some]
    have trivia : Trivia (lexeme ++ text ++ rest) [] := .nil
    exact .token trivia (filled_of_split? member split)
      (spells_of_split? member split meaning) rfl rfl cut

/-- The scan of a text cuts it to its end, or up to a character at which no rule matches. -/
theorem cut_of_scan (bound offset : Nat) (cs : List Char) :
    match scan bound offset cs with
    | .ok tokens =>
      ∃ others, tokens = others ++ [endOfInput (offset + byteLength cs)] ∧ Cut [] offset cs others
    | .error (c, stop) =>
      ∃ before after others, cs = before ++ c :: after ∧ stop = offset + byteLength before ∧
        Cut (c :: after) offset before others ∧
        (cs.length ≤ bound → firstMatch? (c :: after) = none) := by
  fun_induction scan bound offset cs with
  | case1 bound offset => exact ⟨[], by simp, .done .nil⟩
  | case2 offset c cs =>
    exact ⟨[], cs, [], by simp, by simp, .done .nil, fun enough => by simp at enough⟩
  | case3 bound offset c cs none => exact ⟨[], cs, [], by simp, by simp, .done .nil, fun _ => none⟩
  | case4 bound offset c cs rule lexeme rest found ih =>
    obtain ⟨member, split⟩ := split?_of_firstMatch? found
    have whole := append_of_split? split
    cases more : scan bound (offset + byteLength lexeme) rest with
    | ok following =>
      rw [more] at ih
      obtain ⟨others, same, cut⟩ := ih
      subst same
      refine ⟨(ofLexeme? rule lexeme offset).toList ++ others, ?_, ?_⟩
      · rw [← whole, byteLength_append, ← Nat.add_assoc]
        simp
      · rw [← whole]
        exact cut.behind member (by simpa using split)
    | error fault =>
      rw [more] at ih
      obtain ⟨before, after, others, same, stop, cut, last⟩ := ih
      subst same
      refine ⟨lexeme ++ before, after, (ofLexeme? rule lexeme offset).toList ++ others,
        ?_, ?_, ?_, ?_⟩
      · rw [← whole, List.append_assoc]
      · rw [stop, byteLength_append, Nat.add_assoc]
      · exact cut.behind member split
      · intro enough
        have filled := List.length_pos_iff.mpr (filled_of_split? member split)
        rw [← whole, List.length_append] at enough
        exact last (by omega)

/-- A bound that is no smaller than the text is never met. -/
theorem scan_of_enough {bound bound' offset : Nat} {cs : List Char} (enough : cs.length ≤ bound)
    (enough' : cs.length ≤ bound') : scan bound offset cs = scan bound' offset cs := by
  induction bound generalizing bound' offset cs with
  | zero =>
    obtain rfl := List.length_eq_zero_iff.mp (Nat.le_zero.mp enough)
    cases bound' <;> rfl
  | succ bound ih =>
    cases cs with
    | nil => cases bound' <;> rfl
    | cons c cs =>
      obtain ⟨bound', rfl⟩ := Nat.exists_eq_add_one_of_ne_zero (Nat.ne_zero_of_lt enough')
      cases found : firstMatch? (c :: cs) with
      | none => simp only [scan, found]
      | some split =>
        obtain ⟨rule, lexeme, rest⟩ := split
        obtain ⟨member, split⟩ := split?_of_firstMatch? found
        have filled := List.length_pos_iff.mpr (filled_of_split? member split)
        have whole := congrArg List.length (append_of_split? split)
        rw [List.length_append] at whole
        have same : scan bound (offset + byteLength lexeme) rest =
          scan bound' (offset + byteLength lexeme) rest :=
          ih (by omega) (by omega)
        simp only [scan, found, same]

theorem cut_of_ofSource {source file : String} {tokens : List Token}
    (lexed : ofSource source file = .ok tokens) :
    ∃ others, tokens = others ++ [endOfInput (byteLength source.toList)] ∧
      Cut [] 0 source.toList others := by
  have cut := cut_of_scan source.toList.length 0 source.toList
  rwa [ofSource_eq_ok.mp lexed, Nat.zero_add] at cut

theorem cut_of_ofSource_error {source file : String} {fault : Fault}
    (failed : ofSource source file = .error fault) :
    ∃ before c after others, source.toList = before ++ c :: after ∧
      fault = ⟨.unrecognised c, ⟨byteLength before, file⟩⟩ ∧ Cut (c :: after) 0 before others ∧
      ∀ rule ∈ Rule.all, rule.split? (c :: after) = none := by
  have cut := cut_of_scan source.toList.length 0 source.toList
  unfold ofSource at failed
  cases scanned : scan source.toList.length 0 source.toList with
  | ok found =>
    rw [scanned] at failed
    cases failed
  | error stop =>
    obtain ⟨c, offset⟩ := stop
    rw [scanned] at cut failed
    obtain rfl : _ = fault := Except.error.inj failed
    obtain ⟨before, after, others, same, rfl, cut, last⟩ := cut
    refine ⟨before, c, after, others, same, by rw [Nat.zero_add], cut, fun rule member => ?_⟩
    have unmatched := List.findSome?_eq_none_iff.mp (last (Nat.le_refl _)) rule member
    exact Option.map_eq_none_iff.mp unmatched

/-- Cutting a source into tokens ends, whatever the source, and loses and invents nothing: up to the
end of the source, or up to the character that is reported, at which no rule matches. -/
theorem tokens_cover_source (source file : String) :
    (∀ bound, source.toList.length ≤ bound →
      scan bound 0 source.toList = scan source.toList.length 0 source.toList) ∧
    match ofSource source file with
    | .ok tokens => ∃ others, tokens = others ++ [endOfInput (byteLength source.toList)] ∧
        Cut [] 0 source.toList others ∧ InOrder source.toList others
    | .error fault => ∃ before c after others, source.toList = before ++ c :: after ∧
        fault = ⟨.unrecognised c, ⟨byteLength before, file⟩⟩ ∧ Cut (c :: after) 0 before others ∧
        InOrder source.toList others ∧ ∀ rule ∈ Rule.all, rule.split? (c :: after) = none := by
  refine ⟨fun bound enough => scan_of_enough enough (Nat.le_refl _), ?_⟩
  cases lexed : ofSource source file with
  | ok tokens =>
    obtain ⟨others, same, cut⟩ := cut_of_ofSource lexed
    have inOrder := cut.inOrder
    rw [List.append_nil] at inOrder
    exact ⟨others, same, cut, inOrder⟩
  | error fault =>
    obtain ⟨before, c, after, others, same, reported, cut, unmatched⟩ := cut_of_ofSource_error lexed
    exact ⟨before, c, after, others, same, reported, cut, same ▸ cut.inOrder, unmatched⟩

end ColonScript.Token
