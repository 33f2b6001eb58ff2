import ColonScript.Proofs.Printing.ReadBack

/-! Written types and their texts. Brackets chain to the left, and the type inside them nests to the
right, in the text as in the reading: a type is read from the tokens of its text, and what is read
as a type are the tokens of its text. -/

namespace ColonScript

open Token

theorem Ty.isWord_of_baseNames {name : String} (member : name ∈ baseNames) : IsWord name := by
  simp only [baseNames, List.mem_cons, List.not_mem_nil, or_false] at member
  obtain rfl | rfl | rfl | rfl | rfl := member
  all_goals exact ⟨_, _, rfl, List.all_eq_true.mp rfl, rfl⟩

/-- The text of a type is written in lexemes. -/
theorem Ty.Written.chunk {type : Ty} (written : type.Written) :
    Chunk type.text.toList type.tokens := by
  obtain ⟨proper, settled⟩ := written
  induction type with
  | unknown => cases settled
  | base gen name =>
    have kinds : ∀ name ∈ baseNames, wordKind name = .type ∧ name ≠ "else" := by decide
    obtain ⟨kind, noElse⟩ := kinds name proper.2
    have word := Chunk.word (isWord_of_baseNames proper.2) noElse
    rw [kind] at word
    rwa [text_base (plainName_of_baseNames proper.2)]
  | array gen element ih =>
    have inner : Chunk element.text.toList element.tokens := ih proper.2 settled
    simpa [text, tokens] using inner.append CutInto.nil.brackets (Expr.ends_brackets _)
  | map gen key value keyIh valueIh =>
    obtain ⟨keySettled, valueSettled⟩ := Bool.and_eq_true_iff.mp settled
    have keys : Chunk key.text.toList key.tokens := keyIh proper.2.1 keySettled
    have values : Chunk value.text.toList value.tokens := valueIh proper.2.2 valueSettled
    simpa [text, tokens] using keys.append values.cuts.brackets (Expr.ends_brackets _)

theorem Ty.Written.ofSource {type : Ty} (written : type.Written) (file : String) :
    ∃ lexed, Token.ofSource type.text file = .ok lexed ∧
      lexed.map meaning = type.tokens ++ [(.eof, "EOF")] := by
  have cuts := written.chunk.cuts .nil .nil
  rw [List.append_nil, List.append_nil] at cuts
  exact cuts.ofSource file

namespace Ty.Pool
variable {pool : Pool} {type : Ty}

/-- The type is the one instance that the pool gives for its text. -/
def Holds (pool : Pool) (type : Ty) : Prop := pool.entries.get? type.text = some type

theorem get?_canonical (pool : Pool) (type : Ty) :
    (pool.canonical type).2.entries.get? type.text = some (pool.canonical type).1 := by
  unfold canonical
  cases found : pool.entries.get? type.text with
  | some known => exact found
  | none => simp [Table.get?]

theorem Faithful.holds_canonical (faithful : pool.Faithful) (proper : type.Proper) :
    (pool.canonical type).2.Holds type := by
  have held := get?_canonical pool type
  rwa [(canonical_eq faithful proper).1] at held

theorem Faithful.holds_base (faithful : pool.Faithful) {name : String} (member : name ∈ baseNames) :
    (pool.base name).2.Holds (named name) := by
  rw [base, faithful.first]
  exact faithful.holds_canonical (proper_named member)

theorem Faithful.holds_array (faithful : pool.Faithful) (proper : type.Proper) :
    (pool.array type).2.Holds (.array 0 type) := by
  rw [array, faithful.first]
  exact faithful.holds_canonical ⟨rfl, proper⟩

theorem Faithful.holds_map (faithful : pool.Faithful) {key value : Ty} (keys : key.Proper)
    (values : value.Proper) :
    (pool.map key value).2.Holds (.map 0 key value) := by
  rw [map, faithful.first]
  exact faithful.holds_canonical ⟨rfl, keys, values⟩

end Ty.Pool

namespace Reading
open Token (Kind)

variable {s s' : Session}

theorem Session.facing_eq_cons (kind : s.kind ≠ .eof) :
    s.facing = (s.kind, s.current.value) :: s.next.facing := by
  rw [Session.facing, ahead_of_kind kind]
  rfl

/-- The mark that comes first, and what stands behind it. -/
theorem Scanned.facing_of_mark {kind : Kind} {text : String} (scanned : Scanned s)
    (is : s.kind = kind) (noEnd : kind ≠ .eof) (member : Rule.mark kind text ∈ Rule.all) :
    s.facing = (kind, text) :: s.next.facing := by
  rw [Session.facing_eq_cons (is ▸ noEnd), is, scanned.value_of_mark is member]

structure Session.Knows (s : Session) (type : Ty) : Prop where
  faithful : s.pool.Faithful
  written : type.Written
  held : s.pool.Holds type

def TypePhrase.Decoded (s s' : Session) : TypePhrase → Prop
  | .whole _ type => s'.Knows type ∧ s.facing = type.tokens ++ s'.facing
  | .suffix _ before type =>
    s.Knows before → s'.Knows type ∧ before.tokens ++ s.facing = type.tokens ++ s'.facing

/-- The induction follows the reading: what stands to the left of a bracket is read already, and its
tokens go with those ahead. -/
theorem decoded_of_readsType {phrase : TypePhrase} (reads : ReadsType s phrase s')
    (faithful : s.pool.Faithful) (scanned : Scanned s) : phrase.Decoded s s' := by
  induction reads with
  | @whole s s' power type _ kind _ rest =>
    have noEnd : s.kind ≠ .eof := by simp [kind]
    have member := (scanned.current noEnd).baseName kind
    obtain ⟨result, faithful'⟩ := Ty.Pool.base_eq faithful member
    rw [result] at rest
    obtain ⟨known, tokens⟩ := rest faithful' scanned.next
      ⟨faithful', Ty.written_named member, faithful.holds_base member⟩
    refine ⟨known, ?_⟩
    rw [← tokens, Session.facing_eq_cons noEnd, kind]
    rfl
  | stop => exact fun known => ⟨known, rfl⟩
  | @array s s' power own before type _ _ opens closes _ rest =>
    intro known
    obtain ⟨result, faithful'⟩ := Ty.Pool.array_eq faithful known.written.proper
    rw [result] at rest
    obtain ⟨known', tokens⟩ := rest faithful' scanned.next.next
      ⟨faithful', written_array known.written, faithful.holds_array known.written.proper⟩
    refine ⟨known', ?_⟩
    rw [← tokens, scanned.facing_of_mark opens (by decide)
      (by decide : Rule.mark .openBracket "[" ∈ Rule.all), scanned.next.facing_of_mark closes
      (by decide) (by decide : Rule.mark .closeBracket "]" ∈ Rule.all)]
    simp [Ty.tokens, Spelling.brackets]
  | @map s s₁ s' power own before value type _ _ opens _ innerReads closes _ inner rest =>
    intro known
    obtain ⟨within, inside⟩ := inner faithful scanned.next
    have scanned₁ : Scanned s₁ := scanned.next.onward innerReads.onward
    obtain ⟨result, faithful'⟩ :=
      Ty.Pool.map_eq within.faithful known.written.proper within.written.proper
    rw [result] at rest
    obtain ⟨known', tokens⟩ := rest faithful' scanned₁.next
      ⟨faithful', written_map known.written within.written,
        within.faithful.holds_map known.written.proper within.written.proper⟩
    refine ⟨known', ?_⟩
    rw [← tokens, scanned.facing_of_mark opens (by decide)
      (by decide : Rule.mark .openBracket "[" ∈ Rule.all), inside, scanned₁.facing_of_mark closes
      (by decide) (by decide : Rule.mark .closeBracket "]" ∈ Rule.all)]
    simp [Ty.tokens, Spelling.brackets]

def TypePhrase.power : TypePhrase → Power
  | .whole power _ | .suffix power _ _ => power

/-- A type goes on for as long as brackets bind tightly enough. -/
theorem ReadsType.ends {phrase : TypePhrase} (reads : ReadsType s phrase s') :
    ∀ own, s'.grammar.typeSuffix? s'.kind = some own → own ≤ phrase.power := by
  induction reads with
  | stop loose => exact loose
  | whole _ _ _ rest => exact rest
  | array _ _ _ _ _ rest => exact rest
  | map _ _ _ _ _ _ _ _ rest => exact rest

/-- Types are read from their texts, and nothing but the tokens of a text is read as its type. -/
structure DecodesTypes (s : Session) : Prop where
  encoded : ∀ type : Ty, type.Written → ∀ file, ∃ tokens s',
    Token.ofSource type.text file = .ok tokens ∧
    writtenType .lowest (s.withCursor (.ofTokens tokens)) = .ok type s' ∧ s'.ahead = [] ∧
    s'.pool.Holds type
  decoded : ∀ source file tokens cursor type s', Token.ofSource source file = .ok tokens →
    cursor.ahead <:+ (Cursor.ofTokens tokens).ahead →
    writtenType .lowest (s.withCursor cursor) = .ok type s' →
      type.Written ∧ s'.pool.Holds type ∧ s'.kind ≠ .openBracket ∧
        ∃ consumed, cursor.ahead = consumed ++ s'.ahead ∧ ∀ file, ∃ lexed,
        Token.ofSource type.text file = .ok lexed ∧
          lexed.map meaning = consumed.map meaning ++ [(.eof, "EOF")]

theorem decodesTypes (faithful : s.pool.Faithful) (standard : s.grammar = .standard) :
    DecodesTypes s where
  encoded := by
    intro type written file
    obtain ⟨tokens, lexed, meanings⟩ := written.ofSource file
    have facing : (s.withCursor (.ofTokens tokens)).facing = type.tokens ++ [] := by
      rw [List.append_nil]
      exact meanings_ofTokens meanings
    have standard' : (s.withCursor (.ofTokens tokens)).grammar = .standard := standard
    obtain ⟨s', reads, last, _⟩ :=
      readsType_whole written standard' faithful facing (by simp [leadKind])
    have scanned : Scanned (s.withCursor (.ofTokens tokens)) :=
      scanned_of_ofSource lexed (List.suffix_refl _)
    obtain ⟨known, _⟩ := decoded_of_readsType reads faithful scanned
    exact ⟨tokens, s', lexed, ok_writtenType.mpr reads, List.map_eq_nil_iff.mp last, known.held⟩
  decoded := by
    intro source file tokens cursor type s' lexed ahead run
    have reads := ok_writtenType.mp run
    have scanned : Scanned (s.withCursor cursor) := scanned_of_ofSource lexed ahead
    obtain ⟨known, facing⟩ := decoded_of_readsType reads faithful scanned
    obtain ⟨consumed, split, _⟩ := reads.onward.passed
    refine ⟨known.written, known.held, fun bracket => ?_, consumed, split, fun file => ?_⟩
    · have standard' : s'.grammar = .standard := reads.onward.grammar.trans standard
      have loose : Power.index ≤ Power.lowest := reads.ends .index (by rw [standard', bracket]; rfl)
      exact absurd loose (by decide)
    · have meanings : consumed.map meaning = type.tokens := by
        rw [Session.facing, split, List.map_append] at facing
        exact List.append_cancel_right facing
      rw [meanings]
      exact known.written.ofSource file

/-- An array of integers for the keys, and a map for the values. -/
theorem decodesTypes_nested :
    let type := Ty.map 0 (.array 0 (.named "int"))
      (.map 0 (.named "string") (.array 0 (.named "int")))
    let s := Session.ofTokens [] "" false .standard
    DecodesTypes s ∧ type.text = "int[][string[int[]]]" ∧
      ∃ tokens s', Token.ofSource "int[][string[int[]]]" "" = .ok tokens ∧
        writtenType .lowest (s.withCursor (.ofTokens tokens)) = .ok type s' ∧ s'.ahead = [] := by
  intro type s
  have decodes : DecodesTypes s := decodesTypes Ty.Pool.faithful_empty rfl
  have written : type.Written := ⟨by simp [type, Ty.Proper, Ty.named, Ty.baseNames], rfl⟩
  have text : type.text = "int[][string[int[]]]" := by decide +kernel
  obtain ⟨tokens, s', lexed, run, last, _⟩ := decodes.encoded type written ""
  exact ⟨decodes, text, tokens, s', text ▸ lexed, run, last⟩

end Reading

end ColonScript
