import Skirmish.CommandLine.Line
import Skirmish.CommandLine.Session

/-!
# The program

The command line as a program: reports go to the standard output, a line each, and what failed to
the standard error.
-/

namespace Skirmish

open CommandLine (World)

def unreadable (e : IO.Error) : Unreadable :=
  match e with
  | .noFileOrDirectory .. => .missing
  | e => .other (toString e)

def readFile (path : String) : IO (Except Unreadable String) := do
  match ← (IO.FS.readBinFile path).toBaseIO with
  | .ok octets => return fileText (some octets)
  | .error e => return .error (unreadable e)

def writeFile (path text : String) : IO (Except Unreadable Unit) := do
  match ← (IO.FS.writeFile path text).toBaseIO with
  | .ok () => return .ok ()
  | .error e => return .error (unreadable e)

/-- The world of files and standard streams. -/
def world : World IO where
  read := readFile
  write := writeFile
  report e := IO.println e.line

end Skirmish

def main (arguments : List String) : IO UInt32 := do
  let outcome ← Skirmish.CommandLine.run Skirmish.world (← IO.getEnv "RUST_LOG") arguments
  outcome.lines.forM (IO.eprintln ·)
  return outcome.code.toUInt32
