import ColonScript.CommandLine

/-! A host held in memory: files below one directory, two streams that collect what is written, and
a clock that stands still. Directories are those that lie on the way to a file. -/

namespace ColonScript.CommandLine

structure FileTree where
  files : List (List String × ByteArray)

namespace FileTree

def ofPaths (files : List (String × ByteArray)) : FileTree :=
  ⟨files.map fun (path, bytes) => (segments path, bytes)⟩

/-- Where a walk along a path has come to. Above the directory of the run nothing but directories is
known. -/
inductive Spot
  | above (levels : Nat)
  | directory (path : List String)
  | file (bytes : ByteArray)

def at? (tree : FileTree) (path : List String) : Option Spot :=
  match tree.files.find? fun file => file.1 = path with
  | some (_, bytes) => some (.file bytes)
  | none =>
    if path.isEmpty || tree.files.any fun file => path.isPrefixOf file.1 then some (.directory path)
    else none

def walk (tree : FileTree) : Spot → List String → Except ReadFailure Spot
  | spot, [] => .ok spot
  | .file _, _ :: _ => .error .notDirectory
  | .above levels, segment :: rest =>
    if segment = "" ∨ segment = "." then tree.walk (.above levels) rest
    else if segment = ".." then tree.walk (.above (levels + 1)) rest
    else .error .notFound
  | .directory path, segment :: rest =>
    if segment = "" ∨ segment = "." then tree.walk (.directory path) rest
    else if segment = ".." then
      if path.isEmpty then tree.walk (.above 1) rest else tree.walk (.directory path.dropLast) rest
    else match tree.at? (path ++ [segment]) with
      | some spot => tree.walk spot rest
      | none => .error .notFound

def read (tree : FileTree) (path : String) : Except ReadFailure String := do
  if path.isEmpty then throw .notFound
  let start : Spot := if path.startsWith "/" then .above 1 else .directory []
  match ← tree.walk start (path.splitOn "/") with
  | .file bytes =>
    match String.fromUTF8? bytes with
    | some text => return text
    | none => throw .invalidText
  | _ => throw .isDirectory

end FileTree

structure Written where
  out : String
  err : String
  deriving DecidableEq, Repr

def FileTree.host (tree : FileTree) : Host (StateM Written) where
  read path := return tree.read path
  out text := modify fun written => { written with out := written.out ++ text }
  err text := modify fun written => { written with err := written.err ++ text }
  clock := return 0

def FileTree.run (tree : FileTree) (args : List String) : UInt32 × Written :=
  CommandLine.run tree.host args ⟨"", ""⟩

end ColonScript.CommandLine
