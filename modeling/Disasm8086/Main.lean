/-
The command line: the program with the files of the machine it runs on.
-/
import Disasm8086.Program

namespace Disasm8086

/-- What kept a file from being read. -/
def FileError.ofSystem : IO.Error → FileError
  | .noFileOrDirectory .. => .noSuchFile
  | .inappropriateType .. => .directory
  | e => ⟨.other, e.toString⟩

/-- The contents of a file. -/
def readSystemFile (path : String) : IO (Except FileError (List UInt8)) := do
  match ← (IO.FS.readBinFile path).toBaseIO with
  | .ok bytes => return .ok bytes.toList
  | .error e => return .error (.ofSystem e)

/-- The files of the machine. -/
def systemFiles : FileAccess IO where
  readFile := readSystemFile
  pathExists path := do
    match ← readSystemFile path with
    | .ok _ => return true
    | .error e => return e.kind != .notFound

end Disasm8086

open Disasm8086 in
/-- Runs the program, prints what it has to say, and ends with its
status. -/
def main (args : List String) : IO UInt32 := do
  let requested := (← IO.getEnv "RUST_LOG").bind Log.Filter.ofName?
  let outcome ← Program.run systemFiles requested args
  let output ← IO.getStdout
  let errors ← IO.getStderr
  errors.putStr outcome.errors
  output.putStr outcome.output
  return outcome.status.toUInt32
