import ColonScript.Proofs.Printing.Tokens
import ColonScript.Proofs.Reading.Pools
import ColonScript.Proofs.Reading.Positions

/-! What stands ahead of a state, told by kinds and values alone, and the reading of a written type
from the tokens of that type. -/

namespace ColonScript.Reading
open Token (Kind)

variable {s s' : Session}

def Session.facing (s : Session) : List Spelling := s.ahead.map Token.meaning

@[simp] theorem Session.facing_withPool (s : Session) (pool : Ty.Pool) :
    (s.withPool pool).facing = s.facing := rfl

@[simp] theorem Session.facing_withScopes (s : Session) (scopes : ScopeStack) :
    (s.withScopes scopes).facing = s.facing := rfl

@[simp] theorem Session.facing_joining (s : Session) (a b : Ty) :
    (s.joining a b).facing = s.facing := rfl

/-- The first token ahead, and what stands behind it. -/
structure Session.Faces (s : Session) (first : Spelling) (more : List Spelling) : Prop where
  kind : s.kind = first.1
  value : s.current.value = first.2
  next : s.next.facing = more

theorem Session.faces {first : Spelling} {more : List Spelling}
    (facing : s.facing = first :: more) :
    s.Faces first more := by
  obtain ⟨⟨ahead, closing⟩, file, grammar, scopes, pool, place⟩ := s
  obtain ⟨token, rest, rfl, rfl, rfl⟩ := List.map_eq_cons_iff.mp facing
  exact ⟨rfl, rfl, rfl⟩

def leadKind (spellings : List Spelling) : Kind := (spellings.head?.map Prod.fst).getD .eof

theorem Session.kind_eq_leadKind (s : Session) : s.kind = leadKind s.facing := by
  obtain ⟨⟨ahead, closing⟩, file, grammar, scopes, pool, place⟩ := s
  cases ahead with
  | nil => rfl
  | cons token ahead => rfl

theorem kind_of_facing {spellings : List Spelling} (facing : s.facing = spellings) :
    s.kind = leadKind spellings :=
  facing ▸ s.kind_eq_leadKind

/-! Written types. -/

/-- From its tokens a type is read up to the brackets that may follow. -/
theorem readsType_of_facing {type : Ty} (written : type.Written) {more : List Spelling}
    (standard : s.grammar = .standard) (faithful : s.pool.Faithful)
    (facing : s.facing = type.tokens ++ more) :
    ∃ t, Onward s t ∧ t.facing = more ∧ t.pool.Faithful ∧
      ∀ {whole : Ty} {s' : Session}, ReadsType t (.suffix .lowest type whole) s' →
        ReadsType s (.whole .lowest whole) s' := by
  obtain ⟨proper, settled⟩ := written
  induction type generalizing s more with
  | unknown => cases settled
  | base gen name =>
    obtain ⟨rfl, member⟩ := proper
    have first : s.Faces (.type, name) more := Session.faces facing
    obtain ⟨result, faithful'⟩ := Ty.Pool.base_eq faithful member
    refine ⟨s.next.withPool (s.pool.base name).2, (onward_next first.kind rfl).withPool _,
      first.next, faithful', ?_⟩
    intro whole s' rest
    refine .whole (by rw [standard, first.kind]; rfl) first.kind ?_
    rw [first.value, result]
    exact rest
  | array gen element ih =>
    obtain ⟨rfl, proper⟩ := proper
    have split : s.facing = element.tokens ++
      ((.openBracket, "[") :: (.closeBracket, "]") :: more) := by
      simpa [Ty.tokens, Spelling.brackets] using facing
    obtain ⟨t, onward, behind, faithful₁, reads⟩ := ih standard faithful split proper settled
    have opens := Session.faces behind
    have closes := Session.faces opens.next
    obtain ⟨result, faithful'⟩ := Ty.Pool.array_eq faithful₁ proper
    refine ⟨t.next.next.withPool (t.pool.array element).2, ?_, closes.next, faithful', ?_⟩
    · exact ((onward.trans (onward_next opens.kind rfl)).trans
        (onward_next closes.kind rfl)).withPool _
    · intro whole s' rest
      have brackets : t.grammar.typeSuffix? t.kind = some .index := by
        rw [onward.grammar, standard, opens.kind]
        rfl
      refine reads (.array brackets (by decide) opens.kind closes.kind ?_)
      rw [result]
      exact rest
  | map gen key value keyIh valueIh =>
    obtain ⟨rfl, keyProper, valueProper⟩ := proper
    obtain ⟨keySettled, valueSettled⟩ := Bool.and_eq_true_iff.mp settled
    have split : s.facing =
        key.tokens ++ ((.openBracket, "[") :: (value.tokens ++ (.closeBracket, "]") :: more)) := by
      simpa [Ty.tokens, Spelling.brackets] using facing
    obtain ⟨t, onward, behind, faithful₁, reads⟩ :=
      keyIh standard faithful split keyProper keySettled
    have opens := Session.faces behind
    have standard₁ : t.next.grammar = .standard := onward.grammar.trans standard
    obtain ⟨u, inside, last, faithful₂, inner⟩ :=
      valueIh standard₁ faithful₁ opens.next valueProper valueSettled
    have closes := Session.faces last
    have innerReads : ReadsType t.next (.whole .lowest value) u := by
      refine inner (.stop fun own suffix => ?_)
      rw [inside.grammar, standard₁, closes.kind] at suffix
      cases suffix
    have filled : t.next.kind ≠ .closeBracket := by
      cases innerReads with
      | whole _ kind => simp [kind]
    obtain ⟨result, faithful'⟩ := Ty.Pool.map_eq faithful₂ keyProper valueProper
    refine ⟨u.next.withPool (u.pool.map key value).2, ?_, closes.next, faithful', ?_⟩
    · have opened := onward.trans (onward_next opens.kind rfl)
      exact ((opened.trans inside).trans (onward_next closes.kind rfl)).withPool _
    · intro whole s' rest
      have brackets : t.grammar.typeSuffix? t.kind = some .index := by
        rw [onward.grammar, standard, opens.kind]
        rfl
      refine reads (.map brackets (by decide) opens.kind filled innerReads closes.kind ?_)
      rw [result]
      exact rest

/-- Where no bracket follows, the type is read as a whole. -/
theorem readsType_whole {type : Ty} (written : type.Written) {more : List Spelling}
    (standard : s.grammar = .standard) (faithful : s.pool.Faithful)
    (facing : s.facing = type.tokens ++ more) (ends : leadKind more ≠ .openBracket) :
    ∃ t, ReadsType s (.whole .lowest type) t ∧ t.facing = more ∧ t.pool.Faithful := by
  obtain ⟨t, onward, behind, faithful', reads⟩ :=
    readsType_of_facing written standard faithful facing
  refine ⟨t, reads (.stop fun own suffix => ?_), behind, faithful'⟩
  rw [onward.grammar, standard, kind_of_facing behind, Grammar.typeSuffix?, if_neg ends] at suffix
  cases suffix

end ColonScript.Reading
