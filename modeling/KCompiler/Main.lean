import KCompiler.Command.Run

/-! # The command line

The program on the real system: files, the terminal, and the log on the error output.
-/

namespace KCompiler

/-- Whether the code of a failed system call is this error number, with either sign. -/
def isErrorNumber (code number : UInt32) : Bool :=
  code == number || code == -number

/-- What a failed system call says about a file. -/
def fileError : IO.Error → FileError
  | .noFileOrDirectory .. => .notFound
  | .inappropriateType _ code details =>
    if isErrorNumber code 20 then .notDirectory
    else if isErrorNumber code 21 then .isDirectory
    else .other details
  | .invalidArgument _ code details =>
    if isErrorNumber code 36 then .nameTooLong else .other details
  | error => .other (toString error)

/-- A time in nanoseconds, in the largest unit of which it holds one. -/
def durationText (nanos : Nat) : String :=
  let (unit, size) :=
    if 1000000000 ≤ nanos then ("s", 1000000000)
    else if 1000000 ≤ nanos then ("ms", 1000000)
    else if 1000 ≤ nanos then ("µs", 1000)
    else ("ns", 1)
  let hundredths := (nanos * 100 + size / 2) / size
  let fraction := hundredths % 100
  toString (hundredths / 100) ++ "." ++ (if fraction < 10 then "0" else "") ++ toString fraction ++
    unit

/-- Reads a whole file as a text. -/
def readText (path : String) : IO (Except FileError String) := do
  try
    let content ← IO.FS.readBinFile path
    return (String.fromUTF8? content).elim (.error .invalidText) .ok
  catch error => return .error (fileError error)

def writeText (path text : String) : IO (Except FileError Unit) := do
  try
    IO.FS.writeFile path text
    return .ok ()
  catch error => return .error (fileError error)

/-- The host on the real system. -/
def systemHost (filter : LogFilter) (start : Nat) : Host IO where
  read := readText
  write := writeText
  log event := (filter.line? event).forM fun line => IO.eprintln line
  print := IO.print
  printTimed text := do
    let now ← IO.monoNanosNow
    IO.println (text ++ durationText (now - start))
  complain := IO.eprint

end KCompiler

open KCompiler in
/-- Runs the compiler with the arguments of the command line. -/
def main (arguments : List String) : IO UInt32 := do
  let start ← IO.monoNanosNow
  let request := Request.ofArguments arguments
  let filter := LogFilter.choose (← IO.getEnv "RUST_LOG") request.verbose
  let status ← (systemHost filter start).run request
  return UInt32.ofNat status.code
