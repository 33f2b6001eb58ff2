import ColonScript.Proofs.Lexemes
import ColonScript.Proofs.Types

/-! What the tokens of a text can be: every one but the last is the meaning of a lexeme that some
rule matched first. -/

namespace ColonScript.Token

def meaning (token : Token) : Kind × String := (token.kind, token.value)

/-- The token is what some lexeme means, whatever comes behind it in some text. -/
def Lexed (token : Token) : Prop :=
  ∃ rule lexeme rest, firstMatch? (lexeme ++ rest) = some (rule, lexeme, rest) ∧
    rule.meaning? lexeme = some (token.kind, token.value)

theorem append_of_split? {rule : Rule} {cs lexeme rest : List Char}
    (split : rule.split? cs = some (lexeme, rest)) :
    lexeme ++ rest = cs :=
  (split?_eq_some_iff.mp split).1.symm

theorem split?_of_firstMatch? {cs lexeme rest : List Char} {rule : Rule}
    (found : firstMatch? cs = some (rule, lexeme, rest)) :
    rule ∈ Rule.all ∧ rule.split? cs = some (lexeme, rest) := by
  obtain ⟨rule', member, split⟩ := List.exists_of_findSome?_eq_some found
  obtain ⟨pair, split, same⟩ := Option.map_eq_some_iff.mp split
  obtain ⟨rfl, rfl⟩ := Prod.mk.inj same
  exact ⟨member, split⟩

theorem lexed_of_scan {bound offset : Nat} {cs : List Char} {tokens : List Token}
    (run : scan bound offset cs = .ok tokens) :
    ∃ lexed last, tokens = lexed ++ [endOfInput last] ∧ ∀ token ∈ lexed, token.Lexed := by
  fun_induction scan bound offset cs generalizing tokens with
  | case1 bound offset =>
    cases run
    exact ⟨[], offset, rfl, by simp⟩
  | case2 => cases run
  | case3 => cases run
  | case4 bound offset c cs rule lexeme rest found ih =>
    cases more : scan bound (offset + Text.byteLength lexeme) rest with
    | error =>
      simp only [more] at run
      cases run
    | ok following =>
      obtain ⟨lexed, last, rfl, each⟩ := ih more
      simp only [more] at run
      obtain rfl := Except.ok.inj run
      refine ⟨(ofLexeme? rule lexeme offset).toList ++ lexed, last, by simp, ?_⟩
      intro token member
      rcases List.mem_append.mp member with here | later
      · obtain ⟨⟨kind, value⟩, meaning, rfl⟩ :=
          Option.map_eq_some_iff.mp (Option.mem_toList.mp here)
        have whole := append_of_split? (split?_of_firstMatch? found).2
        exact ⟨rule, lexeme, rest, by rw [whole]; exact found, meaning⟩
      · exact each token later

theorem ofSource_eq_ok {source file : String} {tokens : List Token} :
    ofSource source file = .ok tokens ↔ scan source.toList.length 0 source.toList = .ok tokens := by
  unfold ofSource
  cases scan source.toList.length 0 source.toList <;> simp

theorem lexed_of_ofSource {source file : String} {tokens : List Token}
    (run : ofSource source file = .ok tokens) :
    ∃ lexed last, tokens = lexed ++ [endOfInput last] ∧ ∀ token ∈ lexed, token.Lexed :=
  lexed_of_scan (ofSource_eq_ok.mp run)

/-! Words. -/

theorem mem_of_lookup {α : Type} {table : List (String × α)} {word : String} {a : α}
    (found : table.lookup word = some a) : (word, a) ∈ table := by
  obtain ⟨before, after, rfl, _⟩ := List.lookup_eq_some_iff.mp found
  simp

theorem wordKind_cases (word : String) :
    (word, wordKind word) ∈ reservedWords ∨ wordKind word = .identifier := by
  unfold wordKind
  cases found : reservedWords.lookup word with
  | none => exact .inr rfl
  | some kind => exact .inl (mem_of_lookup found)

theorem kinds_of_marks :
    ∀ rule ∈ Rule.all, (match rule with | .mark kind _ => kind != .type | _ => true) = true := by
  decide

/-- A token of kind type carries the name of a base type. -/
theorem Lexed.baseName {token : Token} (lexed : token.Lexed) (kind : token.kind = .type) :
    token.value ∈ Ty.baseNames := by
  obtain ⟨rule, lexeme, rest, found, meaning⟩ := lexed
  have member := (split?_of_firstMatch? found).1
  rw [kind] at meaning
  cases rule with
  | word =>
    obtain ⟨isType, same⟩ := Prod.mk.inj (Option.some.inj meaning)
    have names : ∀ pair ∈ reservedWords, pair.2 = .type → pair.1 ∈ Ty.baseNames := by decide
    rcases wordKind_cases (String.ofList lexeme) with reserved | identifier
    · rw [← same]
      exact names _ reserved isType
    · rw [isType] at identifier
      cases identifier
  | mark own spelling =>
    obtain ⟨isType, _⟩ := Prod.mk.inj (Option.some.inj meaning)
    exact absurd isType (by simpa using kinds_of_marks _ member)
  | _ => simp [Rule.meaning?] at meaning

theorem baseName_of_ofSource {source file : String} {tokens : List Token}
    (lexed : ofSource source file = .ok tokens) :
    ∀ token ∈ tokens, token.kind = .type → token.value ∈ Ty.baseNames := by
  obtain ⟨others, last, rfl, each⟩ := lexed_of_ofSource lexed
  intro token member kind
  rcases List.mem_append.mp member with before | final
  · exact (each token before).baseName kind
  · obtain rfl := List.mem_singleton.mp final
    cases kind

end ColonScript.Token
