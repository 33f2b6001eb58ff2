import ColonScript.Proofs.Settling
import ColonScript.Token.Rule
import ColonScript.Tree.Printer

/-! The tokens of the written form of a tree, without their places in the text. The types that a
tree records are not among them, apart from the ones that a script writes. -/

namespace ColonScript

/-- A token without its place: its kind and the text it carries. -/
abbrev Spelling := Token.Kind × String

namespace Spelling

def markKind? (text : String) : Token.Rule → Option Token.Kind
  | .mark kind own => if own = text then some kind else none
  | _ => none

def mark (text : String) : Spelling := ((Token.Rule.all.findSome? (markKind? text)).getD .eof, text)

def isMark : Token.Rule → Bool
  | .mark kind text => mark text = (kind, text)
  | _ => true

theorem isMark_all : ∀ rule ∈ Token.Rule.all, isMark rule = true := by decide

theorem mark_eq {kind : Token.Kind} {text : String}
    (member : Token.Rule.mark kind text ∈ Token.Rule.all) :
    mark text = (kind, text) := of_decide_eq_true (isMark_all _ member)

def parens (inner : List Spelling) : List Spelling :=
  (.openParen, "(") :: inner ++ [(.closeParen, ")")]

def brackets (inner : List Spelling) : List Spelling :=
  (.openBracket, "[") :: inner ++ [(.closeBracket, "]")]

def curlies (inner : List Spelling) : List Spelling :=
  (.openCurly, "\x7b") :: inner ++ [(.closeCurly, "\x7d")]

def afterCommas (parts : List (List Spelling)) : List Spelling := parts.flatMap ((.comma, ",") :: ·)

def listed : List (List Spelling) → List Spelling
  | [] => []
  | first :: rest => first ++ afterCommas rest

end Spelling

open Spelling

def Ty.tokens : Ty → List Spelling
  | unknown => []
  | base _ name => [(.type, name)]
  | array _ element => element.tokens ++ brackets []
  | map _ key value => key.tokens ++ brackets value.tokens

def Decimal.Binary64.tokens : Decimal.Binary64 → List Spelling
  | number@(.finite ..) => [(.float, String.ofList number.text)]
  | .infinite _ | .nan _ => [(.identifier, "inf"), (.dot, "."), (.integer, "0")]

namespace Expr

/-- An assignment that is an operand stands in parentheses. -/
def operandTokens (expr : Expr) (tokens : List Spelling) : List Spelling :=
  match expr with
  | assign .. => parens tokens
  | _ => tokens

def isOperation : Expr → Bool
  | unary .. | binary .. | step .. => true
  | _ => false

mutual

def tokens : Expr → List Spelling
  | .name own _ => [(.identifier, own)]
  | integer value _ => [(.integer, toString value)]
  | float value _ => value.tokens
  | bool value _ => [(.bool, if value then "true" else "false")]
  | string value _ => [(.string, value)]
  | char value _ => [(.char, value)]
  | array elements _ => brackets (listed (tokensOf elements))
  | map pairs _ => curlies (listed (tokensOfPairs pairs))
  | unary operator operand _ => parens (mark operator :: operandTokens operand operand.tokens)
  | binary left operator right _ =>
    parens (operandTokens left left.tokens ++ mark operator :: operandTokens right right.tokens)
  | step operand operator _ => parens (operandTokens operand operand.tokens ++ [mark operator])
  | assign target operator value _ => (.identifier, target) :: mark operator :: value.tokens
  | call callee arguments _ => (.identifier, callee) :: parens (listed (tokensOf arguments))
  | .index target key _ => operandTokens target target.tokens ++ brackets key.tokens

def tokensOf : List Expr → List (List Spelling)
  | [] => []
  | e :: rest => e.tokens :: tokensOf rest

def tokensOfPairs : List (Expr × Expr) → List (List Spelling)
  | [] => []
  | (key, value) :: rest => (key.tokens ++ (.colon, ":") :: value.tokens) :: tokensOfPairs rest

end

theorem tokensOf_eq_map (es : List Expr) : tokensOf es = es.map tokens := by
  induction es with
  | nil => rfl
  | cons e rest ih => rw [tokensOf, ih, List.map_cons]

theorem tokensOfPairs_eq_map (pairs : List (Expr × Expr)) :
    tokensOfPairs pairs = pairs.map fun pair =>
      pair.1.tokens ++ (.colon, ":") :: pair.2.tokens := by
  induction pairs with
  | nil => rfl
  | cons pair rest ih => rw [tokensOfPairs, ih, List.map_cons]

/-! What settling changes is not written. -/

/-- The tokens of an expression where it stands alone and where it is an operand. -/
theorem ignoresTypes_tokens : IgnoresTypes fun e e' =>
    e'.tokens = e.tokens ∧ ∀ tokens, operandTokens e' tokens = operandTokens e tokens where
  refl _ := ⟨rfl, fun _ => rfl⟩
  array each := by
    refine ⟨?_, fun _ => rfl⟩
    rw [tokens, tokens, tokensOf_eq_map, tokensOf_eq_map,
      map_eq_of_forall₂ each fun _ _ same => same.1]
  map each := by
    refine ⟨?_, fun _ => rfl⟩
    rw [tokens, tokens, tokensOfPairs_eq_map, tokensOfPairs_eq_map,
      map_eq_of_forall₂ each fun _ _ same => by rw [same.1, same.2.1]]
  binary first second := by
    refine ⟨?_, fun _ => rfl⟩
    rw [tokens, tokens, first.1, second.1, first.2, second.2]

theorem tokens_settle (type : Ty) (e : Expr) : (e.settle type).tokens = e.tokens :=
  (ignoresTypes_tokens.settle type e).1

theorem tokens_settleAll (es : List Expr) (wanted type : Ty) :
    (Expr.array (settleAll wanted es) type).tokens = (Expr.array es type).tokens :=
  (ignoresTypes_tokens.array (ignoresTypes_tokens.settleAll wanted es)).1

theorem tokens_settleValues (pairs : List (Expr × Expr)) (wanted type : Ty) :
    (Expr.map (settleValues wanted pairs) type).tokens = (Expr.map pairs type).tokens :=
  (ignoresTypes_tokens.map (ignoresTypes_tokens.settleValues wanted pairs)).1

theorem operandTokens_settle (type : Ty) (e : Expr) (tokens : List Spelling) :
    operandTokens (e.settle type) tokens = operandTokens e tokens :=
  (ignoresTypes_tokens.settle type e).2 tokens

end Expr

end ColonScript
