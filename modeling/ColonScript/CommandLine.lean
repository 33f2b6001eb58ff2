import ColonScript.Reading.Program
import ColonScript.Report

/-! The command line: one file is read, checked and, if asked for, printed. What lies outside, the
files, the two streams and the clock, is a host with its own monad, so that a run is the same over a
real system and over a model of one. -/

namespace ColonScript.CommandLine

def usage : String := "usage: kolon <file> [--testing] [--print]"

structure Options where
  path : String
  testing : Bool
  print : Bool
  deriving DecidableEq, Repr

/-- Flags can stand anywhere; the first argument that is out of place decides the message. -/
def optionsFrom (path? : Option String) (testing print : Bool) : List String → Except String Options
  | [] =>
    match path? with
    | some path => .ok ⟨path, testing, print⟩
    | none => .error "no file given"
  | arg :: rest =>
    if arg = "--testing" then optionsFrom path? true print rest
    else if arg = "--print" then optionsFrom path? testing true rest
    else if "--".toList.isPrefixOf arg.toList then .error ("unknown flag `" ++ arg ++ "`")
    else if path?.isSome then .error "only one file can be given"
    else optionsFrom (some arg) testing print rest

def options (args : List String) : Except String Options := optionsFrom none false false args

inductive ReadFailure
  | notFound
  | notDirectory
  | isDirectory
  | invalidText
  | other (text : String)
  deriving DecidableEq, Repr

def ReadFailure.text : ReadFailure → String
  | notFound => "No such file or directory (os error 2)"
  | notDirectory => "Not a directory (os error 20)"
  | isDirectory => "Is a directory (os error 21)"
  | invalidText => "stream did not contain valid UTF-8"
  | other text => text

def segments (path : String) : List String :=
  let cut := path.toList.foldr (fun c parts =>
    if c = '/' then [] :: parts
    else match parts with
      | [] => [[c]]
      | part :: rest => (c :: part) :: rest) [[]]
  (cut.map String.ofList).filter fun part => part ≠ "" && part ≠ "."

def fileName (path : String) : String :=
  match (segments path).getLast? with
  | none => path
  | some name => if name = ".." then path else name

structure Host (m : Type → Type) where
  read : String → m (Except ReadFailure String)
  out : String → m Unit
  err : String → m Unit
  /-- Nanoseconds since some fixed moment. -/
  clock : m Nat

def inUnits (value unit places : Nat) : String :=
  let digits := Nat.toDigits 10 (value % unit)
  let padded := List.replicate (places - digits.length) '0' ++ digits
  let kept := (padded.reverse.dropWhile (· = '0')).reverse
  toString (value / unit) ++ if kept.isEmpty then "" else "." ++ String.ofList kept

def durationText (nanoseconds : Nat) : String :=
  if 1000000000 ≤ nanoseconds then inUnits nanoseconds 1000000000 9 ++ "s"
  else if 1000000 ≤ nanoseconds then inUnits nanoseconds 1000000 6 ++ "ms"
  else if 1000 ≤ nanoseconds then inUnits nanoseconds 1000 3 ++ "µs"
  else toString nanoseconds ++ "ns"

variable {m : Type → Type} [Monad m]

def writeTime (host : Host m) (label : String) (since : Nat) : m Unit := do
  host.out (label ++ durationText ((← host.clock) - since) ++ "\n")

def runOn (host : Host m) (options : Options) (source : String) : m UInt32 := do
  let name := fileName options.path
  let start ← host.clock
  match Token.ofSource source name with
  | .error fault =>
    host.out (fault.report options.path source)
    return 1
  | .ok tokens =>
    writeTime host "Tokenized in " start
    let parseStart ← host.clock
    let (result, _) := Reading.readTokens tokens name options.testing
    writeTime host "Parsed in " parseStart
    match result with
    | .error fault =>
      host.out (fault.report options.path source)
      return 1
    | .ok program =>
      writeTime host "Total time: " start
      if options.print then host.out program.text
      return 0

def run (host : Host m) (args : List String) : m UInt32 := do
  match options args with
  | .error message =>
    host.err (message ++ "\n" ++ usage ++ "\n")
    return 2
  | .ok options =>
    match ← host.read options.path with
    | .error failure =>
      host.err ("Failed to read `" ++ options.path ++ "`: " ++ failure.text ++ "\n")
      return 1
    | .ok source => runOn host options source

end ColonScript.CommandLine
