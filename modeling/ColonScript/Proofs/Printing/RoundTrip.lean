import ColonScript.Proofs.Printing.ScriptTexts
import ColonScript.Proofs.Printing.Undotted

/-! Reading the text of a script again. The text of a script that was read from a source is cut into
the tokens of its statements, and from these it is read again in the same mode: as the same tree, if
it can be read at all. It can, unless it holds a number that is not finite, or returns a single
value that begins with a parenthesis and goes on behind the one that closes it. -/

namespace ColonScript

/-- The text of a point can be read. -/
def Point.Legible (point : Point) : Prop := point.Finite ∧ point.returnsPlain = true

def Program.Legible (p : Program) : Prop := p.Everywhere fun _ point => point.Legible

namespace Reading

variable {source file : String} {tokens : List Token} {testing : Bool}

abbrev Session.start (tokens : List Token) (file : String) (testing : Bool) : Session :=
  (Session.ofTokens tokens file testing .standard).push

theorem sourced_start (lexed : Token.ofSource source file = .ok tokens) :
    Sourced (.start tokens file testing) := by
  have names := Token.baseName_of_ofSource lexed
  exact ⟨(kept_ofTokens names).push, scanned_of_ofSource lexed (List.suffix_refl _), rfl⟩

theorem poised_start {others : List Token} {file' : String} {spellings : List Spelling}
    (meanings : others.map Token.meaning = spellings ++ [(.eof, "EOF")]) :
    Poised (.start tokens file testing) (spellings ++ []) (.start others file' testing) := by
  refine ⟨⟨rfl, rfl, Ty.Pool.faithful_empty, ?_⟩, rfl⟩
  rw [List.append_nil]
  exact meanings_ofTokens meanings

end Reading

namespace Program
open Reading

variable {source file : String} {testing : Bool} {p q : Program}

theorem accepted_iff_performs : ofSource source file testing = .ok p ↔ ∃ tokens s',
    Token.ofSource source file = .ok tokens ∧
    Performs (.start tokens file testing) (.script p.statements) s' := by
  rw [ofSource_eq_ok]
  constructor
  · rintro ⟨tokens, lexed, accepted⟩
    obtain ⟨s', performs⟩ := ofTokens_eq_ok.mp accepted
    exact ⟨tokens, s', lexed, performs⟩
  · rintro ⟨tokens, s', lexed, performs⟩
    exact ⟨tokens, lexed, ofTokens_eq_ok.mpr ⟨s', performs⟩⟩

/-- The text of a script that was read from a source is cut into the tokens of the script. -/
theorem cuts_text {tokens : List Token} {s' : Session}
    (lexed : Token.ofSource source file = .ok tokens)
    (performs : Performs (.start tokens file testing) (.script p.statements) s') :
    Token.Cuts p.text.toList p.tokens := by
  have rows : Rows p.text.toList p.tokens := cut_of_performs performs (sourced_start lexed)
  simpa using rows.cuts .nil .nil

/-- A script that was read from a source is read from its own text in the same mode just if that is
legible, and then as it was: with the same statements, expressions and types. -/
theorem read_from_text_iff (accepted : ofSource source file testing = .ok p) (file' : String)
    (q : Program) :
    ofSource p.text file' testing = .ok q ↔ p.Legible ∧ q = p := by
  obtain ⟨tokens, s', lexed, performs⟩ := accepted_iff_performs.mp accepted
  have recurs := recurs_of_performs performs (sourced_start lexed)
  obtain ⟨tokens', lexed', meanings⟩ := (cuts_text lexed performs).ofSource file'
  have poised : Poised (.start tokens file testing) (p.tokens ++ [])
    (.start tokens' file' testing) :=
    poised_start meanings
  rw [accepted_iff_performs]
  constructor
  · rintro ⟨_, t', same, performs'⟩
    cases lexed'.symm.trans same
    -- A float that is not finite is written with a dot of its own, which no accepted text has.
    have undotted := undotted_of_script performs' (sourced_start lexed').scanned
    rw [poised.ready.facing, List.append_nil] at undotted
    have finite := Block.finite_of_undotted .initial p.statements undotted
    obtain ⟨plain, same, _⟩ := (recurs finite poised rfl).back performs' trivial
    cases p
    cases q
    cases same
    exact ⟨Program.everywhere_of (fun _ _ => And.intro) finite plain, rfl⟩
  · rintro ⟨legible, rfl⟩
    have finite : q.Everywhere fun _ point => point.Finite :=
      Program.everywhere_of (fun _ _ legible _ => legible.1) legible legible
    have plain : q.Everywhere fun _ point => point.returnsPlain = true :=
      Program.everywhere_of (fun _ _ legible _ => legible.2) legible legible
    obtain ⟨t', performs', _⟩ := (recurs finite poised rfl).forth plain
    exact ⟨tokens', t', lexed', performs'⟩

/-- Nested statements, with a value made up for a variable that has none. -/
theorem read_from_text_iff_nested :
    let source :=
      "fun: g(a: int): (int) \x7b var b: int; while: (b < 9): \x7b if: (a > 2): \x7b b++; \x7d " ++
      "else: \x7b break; \x7d \x7d return: (a * b); \x7d"
    let text :=
      "fun: g(a: int): (int) \x7b var b: int = 0; while: ((b < 9)): \x7b " ++
      "if: ((a > 2)): \x7b (b++); \x7d else: \x7b break; \x7d \x7d return: (a * b); \x7d\n"
    ∃ p, ofSource source "" false = .ok p ∧ p.text = text ∧ p.Legible ∧
      ofSource text "again" false = .ok p := by
  intro source text
  have read : (ofSource source "" false).toOption.any
      (fun p => p.text = text ∧ (ofSource text "again" false).toBool = true) = true := by
        decide +kernel
  obtain ⟨p, accepted, read⟩ := exists_ok_of_any read
  obtain ⟨same, again⟩ := of_decide_eq_true read
  obtain ⟨q, accepted'⟩ := exists_ok_of_toBool again
  obtain ⟨legible, rfl⟩ := (read_from_text_iff accepted "again" q).mp (same ▸ accepted')
  exact ⟨q, accepted, same, legible, accepted'⟩

/-- A returned value in parentheses, of which a part in parentheses is indexed, loses the outer ones
in the text. -/
theorem not_read_from_text :
    ∃ p, ofSource "fun: f(a: string): (char) \x7b return: ((a + a)[0]); \x7d" "" false = .ok p ∧
      p.text = "fun: f(a: string): (char) \x7b return: (a + a)[0]; \x7d\n" ∧ ∀ q,
      ofSource p.text "" false ≠ .ok q := by
  have read :
      (ofSource "fun: f(a: string): (char) \x7b return: ((a + a)[0]); \x7d" "" false).toOption.any
        (fun p => p.text = "fun: f(a: string): (char) \x7b return: (a + a)[0]; \x7d\n") = true := by
    decide +kernel
  have refused :
      (ofSource "fun: f(a: string): (char) \x7b return: (a + a)[0]; \x7d\n" "" false).toBool =
        false := by
    decide +kernel
  obtain ⟨p, accepted, same⟩ := exists_ok_of_any read
  have text := of_decide_eq_true same
  refine ⟨p, accepted, text, fun q accepted' => ?_⟩
  rw [← text, accepted'] at refused
  cases refused

end Program

end ColonScript
