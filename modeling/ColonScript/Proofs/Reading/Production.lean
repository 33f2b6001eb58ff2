import Mathlib.Data.List.Forall2
import ColonScript.Proofs.Reading.Success
import ColonScript.Proofs.Settling

/-! What each production of expressions comes to when it succeeds. The reader of the expressions
inside is a parameter, as it is in the productions. -/

namespace ColonScript.Reading
open Token (Kind)

inductive Literal (token : Token) : (Ty → Expr) → String → Prop where
  | integer {value : Int} (kind : token.kind = .integer)
      (read : Decimal.integer? token.value.toList = some value) :
      Literal token (.integer value) "int"
  | float {value : Decimal.Binary64} (kind : token.kind = .float)
      (read : Decimal.Binary64.read? token.value.toList = some value) :
      Literal token (.float value) "float"
  | bool (kind : token.kind = .bool) : Literal token (.bool (token.value = "true")) "bool"
  | string (kind : token.kind = .string) : Literal token (.string token.value) "string"
  | char (kind : token.kind = .char) : Literal token (.char token.value) "char"

abbrev Singles (es : List Expr) (types : List Ty) : Prop :=
  List.Forall₂ (fun e type => e.types = [type]) es types

/-- Values joined with the types that are wanted for them, one after the other, and settled to what
they share. -/
inductive Fitted : Ty.Pool → List Ty → List (Expr × Ty) → List Expr → Ty.Pool → Prop where
  | nil {pool : Ty.Pool} : Fitted pool [] [] [] pool
  | cons {pool pool' : Ty.Pool} {wanted type both : Ty} {wanteds : List Ty} {value : Expr}
      {values : List (Expr × Ty)} {settled : List Expr}
      (joined : (pool.join wanted type).1 = some both)
      (rest : Fitted (pool.join wanted type).2 wanteds values settled pool') :
      Fitted pool (wanted :: wanteds) ((value, type) :: values) (value.settle both :: settled) pool'

theorem settled_of_fitted {pool pool' : Ty.Pool} {wanted types : List Ty} {es settled : List Expr}
    (fitted : Fitted pool wanted (es.zip types) settled pool') (singles : Singles es types) :
    Expr.AllSettled es settled := by
  induction singles generalizing pool wanted settled with
  | nil =>
    cases fitted
    exact .nil
  | cons _ _ ih =>
    cases fitted with
    | cons _ rest => exact .cons ⟨_, rfl⟩ (ih rest)

def combined (left : Expr) (operator : String) (right : Expr) (type : Ty) : Expr :=
  if type.isContainer then .binary (left.settle type) operator (right.settle type) type
  else .binary left operator right type

variable {s s' : Session} {e : Expr} {expr : Power → Read Expr} {power : Power}

theorem ok_literal :
    literal s = .ok e s' ↔ ∃ make name, Literal s.current make name ∧
      e = make (s.pool.base name).1 ∧ s' = s.next.withPool (s.pool.base name).2 := by
  simp only [literal, run_next_bind, run_positionOf_bind]
  constructor
  · intro run
    cases kind : s.current.kind <;> simp only [kind, ok_failAt] at run
    case integer =>
      cases read : Decimal.integer? s.current.value.toList with
      | none => simp [read] at run
      | some value => exact ⟨_, _, .integer kind read, by simpa [read] using run⟩
    case float =>
      cases read : Decimal.Binary64.read? s.current.value.toList with
      | none => simp [read] at run
      | some value => exact ⟨_, _, .float kind read, by simpa [read] using run⟩
    case bool => exact ⟨_, _, .bool kind, by simpa using run⟩
    case string => exact ⟨_, _, .string kind, by simpa using run⟩
    case char => exact ⟨_, _, .char kind, by simpa using run⟩
  · rintro ⟨make, name, token, rfl, rfl⟩
    cases token <;> simp_all

theorem ok_resolve {name : String} {position : Position} {type : Ty} :
    resolve name position s = .ok type s' ↔
      ∃ binding, s.scopes.binding? name = some binding ∧ type = binding.type ∧ s' = s := by
  simp only [resolve, run_scopes_bind]
  cases s.scopes.binding? name with
  | none => simp
  | some binding => simp

theorem ok_refuseConstant {name : String} {position : Position} {u : Unit} :
    refuseConstant name position s = .ok u s' ↔ s.scopes.isConstant name = false ∧ s' = s := by
  simp [refuseConstant]

theorem ok_argumentTypes {callee : String} {count : Nat} {args : List (Expr × Position)}
    {types : List Ty} :
    argumentTypes callee count args s = .ok types s' ↔ Singles (args.map (·.1)) types ∧ s' = s := by
  induction args generalizing count types s s' with
  | nil => simp [argumentTypes]
  | cons arg args ih =>
    obtain ⟨value, position⟩ := arg
    simp only [argumentTypes, ok_bind, ok_single, ih, ok_pure, List.map_cons,
      List.forall₂_cons_left_iff]
    constructor
    · rintro ⟨type, _, ⟨single, rfl⟩, rest, _, ⟨singles, rfl⟩, rfl, rfl⟩
      exact ⟨⟨type, rest, single, singles, rfl⟩, rfl⟩
    · rintro ⟨⟨type, rest, single, singles, rfl⟩, rfl⟩
      exact ⟨type, s', ⟨single, rfl⟩, rest, s', ⟨singles, rfl⟩, rfl, rfl⟩

theorem ok_fitArguments {position : Position} {callee : String} {count : Nat}
    {parameters : List Parameter} {args : List (Expr × Ty)} {settled : List Expr}
    (even : parameters.length = args.length) :
    fitArguments position callee count parameters args s = .ok settled s' ↔
      ∃ pool, Fitted s.pool (parameters.map (·.type)) args settled pool ∧ s' = s.withPool pool := by
  induction parameters generalizing args count settled s s' with
  | nil =>
    obtain rfl : args = [] := by simpa using even.symm
    simp only [fitArguments, ok_pure, List.map_nil]
    constructor
    · rintro ⟨rfl, rfl⟩
      exact ⟨s'.pool, .nil, rfl⟩
    · rintro ⟨pool, fitted, rfl⟩
      cases fitted
      exact ⟨rfl, rfl⟩
  | cons parameter parameters ih =>
    cases args with
    | nil => simp at even
    | cons arg args =>
      obtain ⟨value, type⟩ := arg
      simp only [List.length_cons, Nat.add_right_cancel_iff] at even
      simp only [fitArguments, ok_bind, ok_joinOr, ih even, ok_pure, List.map_cons]
      constructor
      · rintro ⟨both, _, ⟨joined, rfl⟩, rest, _, ⟨pool, fitted, rfl⟩, rfl, rfl⟩
        exact ⟨pool, .cons joined fitted, rfl⟩
      · rintro ⟨pool, fitted, rfl⟩
        cases fitted with
        | cons joined fitted => exact ⟨_, _, ⟨joined, rfl⟩, _, _, ⟨pool, fitted, rfl⟩, rfl, rfl⟩

theorem ok_callOf {function : Function} {callee : String} {position : Position}
    {args : List (Expr × Position)} :
    callOf function callee position args s = .ok e s' ↔
      ∃ types, Singles (args.map (·.1)) types ∧
        ((∃ builtin results pool, function.builtin? = some builtin ∧
          builtin.results types s.pool = .ok results pool ∧
            e = .call callee (args.map (·.1)) results ∧ s' = s.withPool pool) ∨
          ∃ settled pool, function.builtin? = none ∧
          function.signature.parameters.length = args.length ∧
            Fitted s.pool (function.signature.parameters.map (·.type))
            ((args.map (·.1)).zip types) settled pool ∧
            e = .call callee settled function.signature.results ∧ s' = s.withPool pool) := by
  simp only [callOf, ok_bind, ok_argumentTypes]
  constructor
  · rintro ⟨types, _, ⟨singles, rfl⟩, run⟩
    refine ⟨types, singles, ?_⟩
    cases stage : function.builtin? with
    | some builtin =>
      simp only [stage, ok_bind, ok_typed, ok_pure] at run
      obtain ⟨results, _, ⟨pool, typed, rfl⟩, rfl, rfl⟩ := run
      exact .inl ⟨builtin, results, pool, rfl, typed, rfl, rfl⟩
    | none =>
      simp only [stage, ok_ite, ok_bind, ok_failAt, List.length_map] at run
      obtain ⟨_, _, _, wrong, _⟩ | ⟨even, settled, _, fitted, last⟩ := run
      · exact wrong.elim
      · have count : function.signature.parameters.length = args.length := by simpa using even
        have lengths := singles.length_eq
        rw [ok_fitArguments (by simpa [← lengths] using count)] at fitted
        obtain ⟨pool, fitted, rfl⟩ := fitted
        obtain ⟨rfl, rfl⟩ := ok_pure.mp last
        exact .inr ⟨settled, pool, rfl, count, fitted, rfl, rfl⟩
  · rintro ⟨types, singles, ⟨builtin, results, pool, stage, typed, rfl, rfl⟩ |
      ⟨settled, pool, stage, count, fitted, rfl, rfl⟩⟩
    · refine ⟨types, s, ⟨singles, rfl⟩, ?_⟩
      simp only [stage, ok_bind, ok_typed, ok_pure]
      exact ⟨results, _, ⟨pool, typed, rfl⟩, rfl, rfl⟩
    · refine ⟨types, s, ⟨singles, rfl⟩, ?_⟩
      have lengths := singles.length_eq
      simp only [stage, ok_ite, ok_bind, ok_pure, List.length_map]
      refine .inr ⟨by simpa using count, settled, _, ?_, rfl, rfl⟩
      rw [ok_fitArguments (by simpa [← lengths] using count)]
      exact ⟨pool, fitted, rfl⟩
theorem ok_placed {position : Position} :
    placed expr s = .ok (e, position) s' ↔ expr .lowest s = .ok e s' ∧ position = s.here := by
  simp [placed]

theorem ok_element {before both : Ty} :
    element expr before s = .ok (e, both) s' ↔ ∃ type s₁, expr .lowest s = .ok e s₁ ∧
      e.types = [type] ∧ (s₁.pool.join before type).1 = some both ∧
      s' = s₁.joining before type := by
  simp only [element, run_here_bind, ok_bind, ok_single, ok_joinOr, ok_pure, Prod.mk.injEq]
  constructor
  · rintro ⟨_, s₁, value, type, _, ⟨single, rfl⟩, _, _, ⟨joined, rfl⟩, ⟨rfl, rfl⟩, rfl⟩
    exact ⟨type, _, value, single, joined, rfl⟩
  · rintro ⟨type, s₁, value, single, joined, rfl⟩
    exact ⟨e, s₁, value, type, s₁, ⟨single, rfl⟩, both, _, ⟨joined, rfl⟩, ⟨rfl, rfl⟩, rfl⟩

theorem ok_entry {before both : Ty × Ty} {key value : Expr} :
    entry expr before s = .ok ((key, value), both) s' ↔ ∃ keyType valueType s₁ s₂,
      expr .lowest s = .ok key s₁ ∧ key.isBaseLiteral = true ∧ s₁.kind = .colon ∧
      expr .lowest s₁.next = .ok value s₂ ∧ key.types = [keyType] ∧
      (s₂.pool.join before.1 keyType).1 = some both.1 ∧ value.types = [valueType] ∧
      ((s₂.joining before.1 keyType).pool.join before.2 valueType).1 = some both.2 ∧
      s' = (s₂.joining before.1 keyType).joining before.2 valueType := by
  obtain ⟨keys, values⟩ := both
  simp only [entry, run_here_bind]
  constructor
  · intro run
    obtain ⟨_, s₁, keyRead, run⟩ := ok_bind.mp run
    simp only [ok_ite, ↓ok_failAt_bind, and_false, or_false, ok_skip_bind, run_here_bind] at run
    obtain ⟨literal, colon, run⟩ := run
    obtain ⟨_, s₂, valueRead, run⟩ := ok_bind.mp run
    simp only [ok_single_bind, ok_joinOr_bind, ok_pure, Prod.mk.injEq] at run
    obtain ⟨keyType, keySingle, _, keyJoined, valueType, valueSingle, _, valueJoined,
      ⟨⟨rfl, rfl⟩, rfl, rfl⟩, rfl⟩ := run
    exact ⟨keyType, valueType, s₁, s₂, keyRead, literal, colon, valueRead, keySingle,
      keyJoined, valueSingle, valueJoined, rfl⟩
  · rintro ⟨keyType, valueType, s₁, s₂, keyRead, literal, colon, valueRead, keySingle,
      keyJoined, valueSingle, valueJoined, rfl⟩
    refine ok_bind.mpr ⟨key, s₁, keyRead, ?_⟩
    simp only [if_pos literal, ok_skip_bind, run_here_bind]
    refine ⟨colon, ok_bind.mpr ⟨value, s₂, valueRead, ?_⟩⟩
    simp only [ok_single_bind, ok_joinOr_bind, ok_pure]
    exact ⟨keyType, keySingle, keys, keyJoined, valueType, valueSingle, values,
      valueJoined, rfl, rfl⟩

theorem ok_arrayLiteral :
    arrayLiteral expr s = .ok e s' ↔ s.kind = .openBracket ∧ ∃ es type s₁,
      items .closeBracket (element expr) .unknown s.next = .ok (es, type) s₁ ∧
      s₁.kind = .closeBracket ∧ e = .array (Expr.settleAll type es) (s₁.pool.array type).1 ∧
      s' = s₁.next.withPool (s₁.pool.array type).2 := by
  simp [arrayLiteral, and_assoc]
  grind

theorem ok_mapLiteral :
    mapLiteral expr s = .ok e s' ↔ s.kind = .openCurly ∧ ∃ pairs types s₁,
      items .closeCurly (entry expr) (.unknown, .unknown) s.next = .ok (pairs, types) s₁ ∧
      s₁.kind = .closeCurly ∧ e = .map (Expr.settleValues types.2 pairs)
      (s₁.pool.map types.1 types.2).1 ∧ s' = s₁.next.withPool (s₁.pool.map types.1 types.2).2 := by
  simp [mapLiteral, and_assoc]
  grind

theorem ok_group :
    group expr s = .ok e s' ↔ s.kind = .openParen ∧ ∃ s₁, expr .lowest s.next = .ok e s₁ ∧
      s₁.kind = .closeParen ∧ s' = s₁.next := by
  simp [group, and_assoc]

theorem ok_unary :
    unary expr s = .ok e s' ↔ ∃ operand operandType type,
      expr .unary s.next = .ok operand s' ∧ operand.types = [operandType] ∧
      Typing.unary s.current.value operandType = .ok type ∧
      e = .unary s.current.value operand type := by
  simp [unary, and_assoc]

theorem ok_binary {left : Expr} :
    binary expr power left s = .ok e s' ↔ ∃ right leftType rightType type pool s₁,
      expr power s.next = .ok right s₁ ∧ left.types = [leftType] ∧ right.types = [rightType] ∧
      Typing.binary s.current.value leftType rightType s₁.pool = .ok type pool ∧
      e = combined left s.current.value right type ∧ s' = s₁.withPool pool := by
  simp only [binary, run_next_bind, run_positionOf_bind]
  constructor
  · intro run
    obtain ⟨right, s₁, operand, run⟩ := ok_bind.mp run
    simp only [ok_single_bind, ok_typed_bind] at run
    obtain ⟨leftType, leftSingle, rightType, rightSingle, type, pool, typed, run⟩ := run
    refine ⟨right, leftType, rightType, type, pool, s₁, operand, leftSingle, rightSingle, typed, ?_⟩
    unfold combined
    split at run
    next container =>
      rw [if_pos container]
      exact ok_pure.mp run
    next other =>
      rw [if_neg other]
      exact ok_pure.mp run
  · rintro ⟨right, leftType, rightType, type, pool, s₁, operand, leftSingle, rightSingle,
      typed, rfl, rfl⟩
    refine ok_bind.mpr ⟨right, s₁, operand, ?_⟩
    simp only [ok_single_bind, ok_typed_bind]
    refine ⟨leftType, leftSingle, rightType, rightSingle, type, pool, typed, ?_⟩
    unfold combined
    split
    next => exact ok_pure.mpr ⟨rfl, rfl⟩
    next => exact ok_pure.mpr ⟨rfl, rfl⟩

theorem ok_step {left : Expr} :
    step left s = .ok e s' ↔ ∃ leftType type, left.types = [leftType] ∧
      Typing.step s.current.value leftType = .ok type ∧ e = .step left s.current.value type ∧
      s' = s.next := by
  simp [step, and_assoc]
  grind

theorem ok_index {left : Expr} :
    index expr left s = .ok e s' ↔ s.kind = .openBracket ∧ ∃ key leftType keyType type pool s₁,
      expr .lowest s.next = .ok key s₁ ∧ s₁.kind = .closeBracket ∧ left.types = [leftType] ∧
      key.types = [keyType] ∧ Typing.index leftType keyType s₁.pool = .ok type pool ∧
      e = .index left key type ∧ s' = s₁.next.withPool pool := by
  simp only [index, ok_take_bind, run_positionOf_bind]
  refine and_congr_right fun _ => ?_
  constructor
  · intro run
    obtain ⟨key, s₁, inner, run⟩ := ok_bind.mp run
    simp only [ok_skip_bind, ok_single_bind, ok_typed_bind, ok_pure] at run
    obtain ⟨closes, leftType, leftSingle, keyType, keySingle, type, pool, typed, rfl, rfl⟩ := run
    exact ⟨key, leftType, keyType, type, pool, s₁, inner, closes, leftSingle, keySingle,
      typed, rfl, rfl⟩
  · rintro ⟨key, leftType, keyType, type, pool, s₁, inner, closes, leftSingle, keySingle,
      typed, rfl, rfl⟩
    refine ok_bind.mpr ⟨key, s₁, inner, ?_⟩
    simp only [ok_skip_bind, ok_single_bind, ok_typed_bind, ok_pure]
    exact ⟨closes, leftType, leftSingle, keyType, keySingle, type, pool, typed, rfl, rfl⟩

theorem ok_assignment {left : Expr} :
    assignment expr left s = .ok e s' ↔ ∃ target type value valueType both pool s₁,
      left = .name target type ∧ s.scopes.isConstant target = false ∧
      expr .lowest s.next = .ok value s₁ ∧ value.types = [valueType] ∧
      Typing.assignment target s.current.value type valueType s₁.pool = .ok both pool ∧
      e = .assign target s.current.value (value.settle both) type ∧ s' = s₁.withPool pool := by
  cases left with
  | name target type =>
    simp only [assignment, run_next_bind, run_positionOf_bind]
    constructor
    · intro run
      obtain ⟨_, _, refused, run⟩ := ok_bind.mp run
      obtain ⟨mutable, rfl⟩ := ok_refuseConstant.mp refused
      rw [run_here_bind] at run
      obtain ⟨value, s₁, given, run⟩ := ok_bind.mp run
      simp only [ok_single_bind, ok_typed_bind, ok_pure] at run
      obtain ⟨valueType, single, both, pool, typed, rfl, rfl⟩ := run
      exact ⟨target, type, value, valueType, both, pool, s₁, rfl, mutable, given, single,
        typed, rfl, rfl⟩
    · rintro ⟨_, _, value, valueType, both, pool, s₁, same, mutable, given, single, typed, rfl, rfl⟩
      obtain ⟨rfl, rfl⟩ := Expr.name.inj same
      refine ok_bind.mpr ⟨(), s.next, ok_refuseConstant.mpr ⟨mutable, rfl⟩, ?_⟩
      rw [run_here_bind]
      refine ok_bind.mpr ⟨value, s₁, given, ?_⟩
      simp only [ok_single_bind, ok_typed_bind, ok_pure]
      exact ⟨valueType, single, both, pool, typed, rfl, rfl⟩
  | _ => simp [assignment]

theorem ok_arguments {args : List (Expr × Position)} :
    arguments expr s = .ok args s' ↔ s.kind = .openParen ∧ ∃ s₁,
      items .closeParen (fun () => return (← placed expr, ())) () s.next = .ok (args, ()) s₁ ∧
      s₁.kind = .closeParen ∧ s' = s₁.next := by
  simp [arguments, and_assoc]
  grind

theorem ok_call :
    call expr s = .ok e s' ↔ s.kind = .identifier ∧ ∃ function args s₁,
      s.scopes.function? s.current.value = some function ∧ arguments expr s.next = .ok args s₁ ∧
      callOf function s.current.value ⟨s.current.start, s.file⟩ args s₁ = .ok e s' := by
  simp only [call, ok_bind, ok_take, ok_positionOf, ok_scopes]
  constructor
  · rintro ⟨_, _, ⟨kind, rfl, rfl⟩, _, _, ⟨rfl, rfl⟩, _, _, ⟨rfl, rfl⟩, run⟩
    cases known : s.scopes.function? s.current.value with
    | none => simp [known] at run
    | some function =>
      simp only [Session.next_scopes, known, ok_bind] at run
      obtain ⟨args, s₁, read, result⟩ := run
      exact ⟨kind, function, args, s₁, rfl, read, result⟩
  · rintro ⟨kind, function, args, s₁, known, read, result⟩
    refine ⟨_, _, ⟨kind, rfl, rfl⟩, _, _, ⟨rfl, rfl⟩, _, _, ⟨rfl, rfl⟩, ?_⟩
    simp only [Session.next_scopes, known, ok_bind]
    exact ⟨args, s₁, read, result⟩

theorem ok_nameOrCall :
    nameOrCall expr s = .ok e s' ↔ s.next.kind = .openParen ∧ call expr s = .ok e s' ∨
      s.next.kind ≠ .openParen ∧ ∃ binding, s.scopes.binding? s.current.value = some binding ∧
        e = .name s.current.value binding.type ∧ s' = s.next := by
  simp [nameOrCall, ok_resolve, and_assoc]
  grind

theorem ok_continued? {left : Expr} {result : Option Expr} :
    continued? expr power left s = .ok result s' ↔
      (∃ own continuation more, s.grammar.continuation? s.kind = some (own, continuation) ∧
        ¬own ≤ power ∧ continued expr own left continuation s = .ok more s' ∧ result = some more) ∨
      (∀ own continuation, s.grammar.continuation? s.kind = some (own, continuation) →
        own ≤ power) ∧ result = none ∧ s' = s := by
  simp only [continued?, run_get_bind, run_currentKind_bind]
  cases continues : s.grammar.continuation? s.kind with
  | none => simp
  | some pair =>
    obtain ⟨own, continuation⟩ := pair
    simp
    grind

theorem ok_expressionWith :
    expressionWith expr power s = .ok e s' ↔
      ∃ opening first s₁, s.grammar.opening? s.kind = some opening ∧
      operand expr opening s = .ok first s₁ ∧
      extendUpTo (continued? expr power) (s₁.ahead.length + 1) first s₁ = .ok e s' := by
  simp only [expressionWith, run_get_bind, run_currentKind_bind]
  cases s.grammar.opening? s.kind with
  | none => simp
  | some opening => simp [extend]

end ColonScript.Reading
