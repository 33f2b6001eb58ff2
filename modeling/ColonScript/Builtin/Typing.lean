import ColonScript.Typing

/-! The result types of a call of a built-in function, from the types of its arguments. An argument
may fill an unknown part of a container for the length of the comparison; the container itself comes
back as it was. -/

namespace ColonScript.Builtin

def complain (builtin : Builtin) (complaint : Complaint) : Typing α :=
  throw (.builtinArguments builtin complaint)

def wrongCount (builtin : Builtin) (args : List Ty) (allowed : List Nat) : Typing α :=
  builtin.complain (.count args.length allowed)

def unsupported (builtin : Builtin) (ty : Ty) (wanted : String) : Typing α :=
  builtin.complain (.unsupported ty wanted)

def expectBase (builtin : Builtin) (what name : String) (ty : Ty) : Typing Unit :=
  if ty.isBase name then pure () else builtin.complain (.base what name ty)

def expectPart (builtin : Builtin) (what : String) (part ty : Ty) : Typing Unit := do
  if part = .unknown then return ()
  else if ← Typing.agree part ty then return ()
  else builtin.complain (.part what part ty)

def knownPart (builtin : Builtin) (container : Container) (part : Ty) : Typing Ty :=
  if part = .unknown then builtin.complain (.empty container) else pure part

def one (name : String) : Typing (List Ty) := do return [← Typing.base name]

def ofOne (builtin : Builtin) (args : List Ty) (accepts : Ty → Bool) (wanted : String)
    (results : Ty → Typing (List Ty)) : Typing (List Ty) :=
  match args with
  | [subject] => if accepts subject then results subject else builtin.unsupported subject wanted
  | _ => builtin.wrongCount args [1]

def scanResults (builtin : Builtin) (args : List Ty) : Typing (List Ty) :=
  match args with
  | [] => one "string"
  | [prompt] => do
    builtin.expectBase "prompt" "string" prompt
    one "string"
  | [prompt, newline] => do
    builtin.expectBase "prompt" "string" prompt
    builtin.expectBase "newline flag" "bool" newline
    one "string"
  | _ => builtin.wrongCount args [0, 1, 2]

def pushResults (builtin : Builtin) (args : List Ty) : Typing (List Ty) :=
  match args with
  | [.array gen element, ty] => do
    builtin.expectPart "element" element ty
    return [.array gen element]
  | [.map gen key value, k, v] => do
    builtin.expectPart "key" key k
    builtin.expectPart "value" value v
    return [.map gen key value]
  | [.array .., _, _] => builtin.wrongCount args [2]
  | [.map .., _] => builtin.wrongCount args [3]
  | [subject, _] | [subject, _, _] => builtin.unsupported subject "array or hashmap"
  | _ => builtin.wrongCount args [2, 3]

def popResults (builtin : Builtin) (args : List Ty) : Typing (List Ty) :=
  match args with
  | [.array _ element] => do return [← builtin.knownPart .array element]
  | [.array _ element, index] => do
    builtin.expectBase "index" "int" index
    return [← builtin.knownPart .array element]
  | [subject] | [subject, _] => builtin.unsupported subject "array"
  | _ => builtin.wrongCount args [1, 2]

def insertResults (builtin : Builtin) (args : List Ty) : Typing (List Ty) :=
  match args with
  | [.array gen element, index, ty] => do
    builtin.expectBase "index" "int" index
    builtin.expectPart "element" element ty
    return [.array gen element]
  | [subject, _, _] => builtin.unsupported subject "array"
  | _ => builtin.wrongCount args [3]

def removeResults (builtin : Builtin) (args : List Ty) : Typing (List Ty) :=
  match args with
  | [.array gen element, ty] => do
    builtin.expectPart "element" element ty
    return [.array gen element]
  | [.map gen key value, ty] => do
    builtin.expectPart "key" key ty
    return [.map gen key value]
  | [subject, _] => builtin.unsupported subject "array or hashmap"
  | _ => builtin.wrongCount args [2]

def deleteResults (builtin : Builtin) (args : List Ty) : Typing (List Ty) :=
  match args with
  | [.array _ element, ty] => do
    builtin.expectPart "element" element ty
    return [← builtin.knownPart .array element]
  | [.map _ key value, ty] => do
    builtin.expectPart "key" key ty
    return [← builtin.knownPart .map value]
  | [subject, _] => builtin.unsupported subject "array or hashmap"
  | _ => builtin.wrongCount args [2]

def getIndexResults (builtin : Builtin) (args : List Ty) : Typing (List Ty) :=
  match args with
  | [.array _ element, ty] => do
    builtin.expectPart "element" element ty
    one "int"
  | [subject, _] => builtin.unsupported subject "array"
  | _ => builtin.wrongCount args [2]

def partsResults (builtin : Builtin) (args : List Ty) (part : (key value : Ty) → Ty) :
    Typing (List Ty) :=
  match args with
  | [.map _ key value] => do return [← Typing.array (part key value)]
  | [subject] => builtin.unsupported subject "hashmap"
  | _ => builtin.wrongCount args [1]

def containsKeyResults (builtin : Builtin) (args : List Ty) : Typing (List Ty) :=
  match args with
  | [.map _ key _, ty] => do
    builtin.expectPart "key" key ty
    one "bool"
  | [subject, _] => builtin.unsupported subject "hashmap"
  | _ => builtin.wrongCount args [2]

def sliceResults (builtin : Builtin) (args : List Ty) : Typing (List Ty) :=
  match args with
  | subject :: start :: stop :: step =>
    if 1 < step.length then builtin.wrongCount args [3, 4]
    else if subject.isArray || subject.isBase "string" then do
      builtin.expectBase "start index" "int" start
      builtin.expectBase "end index" "int" stop
      step.forM (builtin.expectBase "step" "int")
      return [subject]
    else builtin.unsupported subject "array or `string`"
  | _ => builtin.wrongCount args [3, 4]

def equalsResults (builtin : Builtin) (args : List Ty) : Typing (List Ty) :=
  match args with
  | [left, right] => do
    if ← Typing.agree left right then one "bool"
    else builtin.complain (.different left right)
  | _ => builtin.wrongCount args [2]

def results (builtin : Builtin) (args : List Ty) : Typing (List Ty) :=
  match builtin with
  | print => builtin.ofOne args (fun _ => true) "" fun _ => pure []
  | println => if args.length ≤ 1 then pure [] else builtin.wrongCount args [0, 1]
  | scan | scanln => builtin.scanResults args
  | len =>
    builtin.ofOne args (fun ty => ty.isContainer || ty.isBase "string") "array, hashmap or `string`"
      fun _ => one "int"
  | toString | typeOf => builtin.ofOne args (fun _ => true) "" fun _ => one "string"
  | toInt =>
    builtin.ofOne args (fun ty => !(ty.isContainer || ty.isBase "bool"))
      "`int`, `float`, `string` or `char`" fun _ => one "int"
  | toFloat =>
    builtin.ofOne args (fun ty => !(ty.isContainer || ty.isBase "bool" || ty.isBase "char"))
      "`int`, `float` or `string`" fun _ => one "float"
  | push => builtin.pushResults args
  | pop => builtin.popResults args
  | insert => builtin.insertResults args
  | remove => builtin.removeResults args
  | delete => builtin.deleteResults args
  | getIndex => builtin.getIndexResults args
  | keys => builtin.partsResults args fun key _ => key
  | values => builtin.partsResults args fun _ value => value
  | containsKey => builtin.containsKeyResults args
  | slice => builtin.sliceResults args
  | equals => builtin.equalsResults args
  | copy => builtin.ofOne args Ty.isContainer "array or hashmap" fun subject => pure [subject]

end ColonScript.Builtin
