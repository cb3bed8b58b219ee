import BusLogic.Command.Arguments
import BusLogic.Netlist.Export
import BusLogic.Script.Source

/-! What the command line does.

The program is a value: a plan that asks for files to be read and written and ends
with what is printed. Whoever carries it out has files, real or not. -/
namespace BusLogic.Command
open Script

/-- How the program ends. -/
structure Outcome where
  exit : UInt8
  output : String
  errors : String
  deriving DecidableEq, Repr

inductive Action where
  | finish (outcome : Outcome)
  | read (file : String) (next : Except FileFault ByteArray → Action)
  | write (file text : String) (next : Except FileFault Unit → Action)

namespace Action

def succeed (output : String) : Action := .finish ⟨0, output, ""⟩

/-- The causes of an error below its headline: one alone, or several numbered. -/
def causes : List String → String
  | [] => ""
  | [cause] => s!"\n\nCaused by:\n    {cause}"
  | several =>
    let numbered := several.zipIdx.map fun (cause, n) => Text.inColumn 5 n ++ s!": {cause}"
    "\n\nCaused by:\n" ++ String.intercalate "\n" numbered

/-- Ends with an error and what caused it, nearest cause first. -/
def fail (headline : String) (chain : List String) : Action :=
  .finish ⟨1, "", s!"Error: {headline}" ++ causes chain ++ "\n"⟩

/-- A failure, and below it its cause if the failure says more than its cause. -/
def failureChain (f : Failure) : List String :=
  match f.line with
  | some _ => [f.message, f.cause.message]
  | none => [f.message]

/-- Loads and builds a script, and goes on with the session. -/
def build (file : String) (settings : Settings) (next : Session → Action) : Action :=
  .read file fun content =>
    match Session.load content settings with
    | .error fault => fail s!"loading {file}" [fault.message, fault.reason]
    | .ok session =>
      match Session.build.outcome session with
      | (.error f, _) => fail s!"building {file}" (failureChain f)
      | (.ok (), session) => next session

/-- Drives the named buses one after another; the first unknown name is refused. -/
def applyStimuli (s : Session) (net : Netlist) : List Stimulus → Except String Netlist
  | [] => .ok net
  | stimulus :: rest =>
    match s.bus? stimulus.bus with
    | none => .error stimulus.bus
    | some bus => applyStimuli s (net.write bus stimulus.value) rest

def statsLine (net : Netlist) : String :=
  let st := net.stats
  s!"gates={st.gates} capacity={st.capacity} max_depth={st.maxDepth} max_usage={st.maxUsage} " ++
    s!"hash={net.hash}\n"

def help : String :=
  about ++ "\n\nUsage: gatebus <COMMAND>\n\nCommands:\n" ++
    "  run     Build, apply stimuli, tick and dump\n" ++
    "  stats   Print gate count, depth, fan-out and structural hash\n" ++
    "  export  Write the netlist as JSON\n" ++
    "  help    Print this message or the help of the given subcommand(s)\n\n" ++
    "Options:\n  -h, --help     Print help\n  -V, --version  Print version\n"

/-- Carries out a request. -/
def ofRequest : Request → Action
  | .help => succeed help
  | .version => succeed "gatebus 0.1.0\n"
  | .run file settings ticks stimuli =>
    build file settings fun session =>
      match applyStimuli session session.netlist stimuli with
      | .error name => fail s!"unknown bus `{name}`" []
      | .ok net =>
        let net := net.ticks ticks
        succeed (net.dumpPorts ++ net.dumpGates)
  | .stats file settings => build file settings fun session => succeed (statsLine session.netlist)
  | .snapshot file settings out =>
    build file settings fun session =>
      .write out (session.netlist.toJson.pretty 0) fun
        | .ok () => succeed s!"netlist written to {out}\n"
        | .error fault => fail s!"writing {out}" [fault.message]

/-- The program on its arguments. -/
def ofArguments (arguments : List String) : Action :=
  match parse arguments with
  | .ok request => ofRequest request
  | .error fault => .finish ⟨2, "", fault.message ++ "\n"⟩

end Action

end BusLogic.Command
