import TapeMachine.CommandLine.Command
import TapeMachine.Expression.Eval

/-! The command line program: reads the file a request names, and prints what it gives. -/

namespace TapeMachine.CommandLine

def commandLimits : Limits := ⟨0x10000000000, 0x1000000000000000⟩

def commandLibraries : Libraries := ⟨Expression.interpret, Table.render⟩

def readSource (file : Text) : IO Source := do
  match String.fromUTF8? ⟨file.toArray⟩ with
  | none => return .closed .missing
  | some name =>
      try
        let bytes ← IO.FS.readBinFile name
        return .file bytes.data.toList
      catch
        | .inappropriateType _ code _ => return if code = 21 then .folder else .closed .notFolder
        | .invalidArgument .. => return .closed .nameTooLong
        | _ => return .closed .missing

def printText (stream : IO.FS.Stream) (t : Text) : IO Unit := do
  stream.write ⟨t.toArray⟩
  stream.flush

def runArgs (args : List String) : IO UInt32 := do
  let out ← match readArgs (args.map text) with
    | .error e => pure e.output
    | .ok request => do
        let source ← match request.file? with
          | some file => readSource file
          | none => pure (.closed .missing)
        pure (request.output commandLibraries commandLimits source)
  printText (← IO.getStdout) out.stdout
  printText (← IO.getStderr) out.stderr
  return out.exit.toUInt32

end TapeMachine.CommandLine

def main (args : List String) : IO UInt32 := TapeMachine.CommandLine.runArgs args
