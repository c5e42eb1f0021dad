import ScriptFront.CommandLine

/-!
# The program

Reads the file that the command line names and prints the report on it.
-/
namespace ScriptFront

def readSource (file : String) : IO (Except ReadFailure String) := do
  try
    return CompileRequest.textOfBytes (← IO.FS.readBinFile file)
  catch
    | .noFileOrDirectory .. => return .error .missing
    | .inappropriateType .. => return .error .isDirectory
    | e => return .error (.other (toString e))

end ScriptFront

open ScriptFront in
def main (args : List String) : IO UInt32 := do
  match CompileRequest.ofArguments? args with
  | none =>
    IO.eprint CompileRequest.usage
    return 2
  | some request =>
    let report := request.run (← readSource request.file)
    IO.print report.output
    IO.eprint report.errors
    return UInt32.ofNat report.exitCode
