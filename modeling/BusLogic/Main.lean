import BusLogic.Command.Action

/-! The command line, on the files of the system. -/
namespace BusLogic.Command

def faultOf : IO.Error → FileFault
  | .noFileOrDirectory .. => .notFound
  | .permissionDenied .. => .permissionDenied
  | .inappropriateType .. => .isDirectory
  | e => .other (toString e)

/-- Carries out a plan: reads, writes, prints, and answers with the exit code. -/
def perform : Action → IO UInt8
  | .finish outcome => do
    (← IO.getStdout).putStr outcome.output
    (← IO.getStderr).putStr outcome.errors
    return outcome.exit
  | .read file next => do
    let content ← try pure (.ok (← IO.FS.readBinFile file)) catch e => pure (.error (faultOf e))
    perform (next content)
  | .write file text next => do
    let result ← try pure (.ok (← IO.FS.writeFile file text)) catch e => pure (.error (faultOf e))
    perform (next result)

end BusLogic.Command

def main (arguments : List String) : IO UInt32 := do
  return (← BusLogic.Command.perform (BusLogic.Command.Action.ofArguments arguments)).toUInt32
