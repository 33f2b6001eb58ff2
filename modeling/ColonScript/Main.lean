import ColonScript.CommandLine

/-! The program itself: the command line over the real files, streams and clock. -/

namespace ColonScript.CommandLine

def failureOf : IO.Error → ReadFailure
  | .noFileOrDirectory .. => .notFound
  | .inappropriateType _ code _ => if code = 21 then .isDirectory else .notDirectory
  | failure => .other (toString failure)

def readSystemFile (path : String) : IO (Except ReadFailure String) := do
  try
    match String.fromUTF8? (← IO.FS.readBinFile path) with
    | some text => return .ok text
    | none => return .error .invalidText
  catch failure => return .error (failureOf failure)

def system : Host IO where
  read := readSystemFile
  out := IO.print
  err := IO.eprint
  clock := IO.monoNanosNow

end ColonScript.CommandLine

def main (args : List String) : IO UInt32 :=
  ColonScript.CommandLine.run ColonScript.CommandLine.system args
