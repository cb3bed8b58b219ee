import BusLogic.Command.Stimulus
import BusLogic.Settings

/-! The arguments of the command line.

Arguments are taken from the left. The value of an option that stands in an
argument of its own is looked at only when the next option or file arrives, or at
the end; so an unknown option after a bad value is what is reported. -/
namespace BusLogic.Command
open Text

/-- The options that take a value. -/
inductive Setting where
  | capacity | seed | ticks | set | out
  deriving DecidableEq, Repr

namespace Setting

def name : Setting → String
  | .capacity => "capacity"
  | .seed => "seed"
  | .ticks => "ticks"
  | .set => "set"
  | .out => "out"

/-- The option as messages show it. -/
def usage : Setting → String
  | .capacity => "--capacity <CAPACITY>"
  | .seed => "--seed <SEED>"
  | .ticks => "--ticks <TICKS>"
  | .set => "--set <STIMULI>"
  | .out => "--out <OUT>"

end Setting

/-- What there is to do: simulate a circuit, show its statistics, or write a
snapshot of it to a file. -/
inductive Verb where
  | run | stats | snapshot
  deriving DecidableEq, Repr

namespace Verb

def ofName? (name : String) : Option Verb :=
  if name = "run" then some .run
  else if name = "stats" then some .stats
  else if name = "export" then some .snapshot
  else none

/-- The options a verb knows. -/
def settings : Verb → List Setting
  | .run => [.capacity, .seed, .ticks, .set]
  | .stats => [.capacity, .seed]
  | .snapshot => [.capacity, .seed, .out]

def setting? (verb : Verb) (name : String) : Option Setting :=
  verb.settings.find? (·.name = name)

end Verb

/-- What is wrong with the arguments. -/
inductive UsageFault where
  | noVerb
  | unknownVerb (name : String)
  | unexpected (argument : String)
  | unexpectedValue (value flag : String)
  | missingValue (usage : String)
  | invalidValue (value usage reason : String)
  | repeated (usage : String)
  | missingArguments
  deriving DecidableEq, Repr

/-- The first line of what the program says of itself. -/
def about : String := "Compile and tick bus-level gate circuits"

def UsageFault.message : UsageFault → String
  | .noVerb => about
  | .unknownVerb name => s!"error: unrecognized subcommand '{name}'"
  | .unexpected argument => s!"error: unexpected argument '{argument}' found"
  | .unexpectedValue value flag =>
    s!"error: unexpected value '{value}' for '{flag}' found; no more were expected"
  | .missingValue usage => s!"error: a value is required for '{usage}' but none was supplied"
  | .invalidValue value usage reason => s!"error: invalid value '{value}' for '{usage}': {reason}"
  | .repeated usage => s!"error: the argument '{usage}' cannot be used multiple times"
  | .missingArguments => "error: the following required arguments were not provided:"

/-- An argument whose value has not been looked at yet. -/
inductive Pending where
  | file (value : String)
  | setting (s : Setting) (value : Option String)

/-- The arguments taken so far. -/
structure Taken where
  file : Option String := none
  capacity : Option Nat := none
  seed : Option Nat := none
  ticks : Option Nat := none
  stimuli : List Stimulus := []
  out : Option String := none
  pending : Option Pending := none
  /-- Whether a file has been named, looked at or not. -/
  named : Bool := false
  /-- After `--` there are no more options. -/
  literal : Bool := false

/-- Ends the reading: something is wrong, or help was asked for. -/
inductive Stop where
  | fault (f : UsageFault)
  | help

namespace Taken

def number (s : Setting) (value : String) : Except Stop Nat :=
  match readNumeral 10 value.toList with
  | .ok n => .ok n
  | .error fault => .error (.fault (.invalidValue value s.usage fault.message))

def path (usage value : String) : Except Stop String :=
  if value = "" then .error (.fault (.missingValue usage)) else .ok value

/-- An option that may stand only once. -/
def once (s : Setting) : Option α → Except Stop Unit
  | some _ => .error (.fault (.repeated s.usage))
  | none => .ok ()

/-- Looks at the value of an option. -/
def assign (t : Taken) (s : Setting) (value : String) : Except Stop Taken := do
  match s with
  | .capacity =>
    once s t.capacity
    return { t with capacity := some (← number s value) }
  | .seed =>
    once s t.seed
    return { t with seed := some (← number s value) }
  | .ticks =>
    once s t.ticks
    return { t with ticks := some (← number s value) }
  | .out =>
    once s t.out
    return { t with out := some (← path s.usage value) }
  | .set =>
    match Stimulus.parse value.toList with
    | .ok stimulus => return { t with stimuli := t.stimuli ++ [stimulus] }
    | .error fault => throw (.fault (.invalidValue value s.usage fault.message))

/-- Looks at the value that is waiting. -/
def settle (t : Taken) : Except Stop Taken :=
  match t.pending with
  | none => .ok t
  | some (.setting s none) => .error (.fault (.missingValue s.usage))
  | some (.setting s (some value)) => { t with pending := none }.assign s value
  | some (.file value) => do
    let file ← path "<FILE>" value
    return { t with pending := none, file := some file }

/-- Takes an argument that is no option. -/
def positional (t : Taken) (argument : String) : Except Stop Taken :=
  if t.named then .error (.fault (.unexpected argument))
  else do
    let t ← t.settle
    return { t with pending := some (.file argument), named := true }

/-- Takes `--name` or `--name=value`. -/
def long (verb : Verb) (t : Taken) (name : String) (value : Option String) : Except Stop Taken :=
  match verb.setting? name with
  | some s => do
    let t ← t.settle
    match value with
    | some value => t.assign s value
    | none => return { t with pending := some (.setting s none) }
  | none =>
    if name = "help" then
      match value with
      | some value => .error (.fault (.unexpectedValue value "--help"))
      | none => do
        let _ ← t.settle
        .error .help
    else .error (.fault (.unexpected ("--" ++ name)))

/-- Takes the next argument. -/
def take (verb : Verb) (t : Taken) (argument : String) : Except Stop Taken :=
  if t.literal then t.positional argument
  else match argument.toList with
    | ['-', '-'] => .ok { t with literal := true }
    | '-' :: '-' :: rest =>
      match splitEquals? rest with
      | some (name, value) => long verb t (String.ofList name) (some (String.ofList value))
      | none => long verb t (String.ofList rest) none
    | '-' :: 'h' :: _ => do
      let _ ← t.settle
      .error .help
    | '-' :: c :: _ => .error (.fault (.unexpected (String.ofList ['-', c])))
    | _ =>
      match t.pending with
      | some (.setting s none) => .ok { t with pending := some (.setting s (some argument)) }
      | _ => t.positional argument

end Taken

/-- What the command line asks for. -/
inductive Request where
  | run (file : String) (settings : Settings) (ticks : Nat) (stimuli : List Stimulus)
  | stats (file : String) (settings : Settings)
  | snapshot (file : String) (settings : Settings) (out : String)
  | help
  | version
  deriving Repr

/-- The request that the arguments of a verb amount to. -/
def Taken.request (verb : Verb) (t : Taken) : Except UsageFault Request :=
  let settings : Settings :=
    { capacity := t.capacity.getD ({} : Settings).capacity
      seed := (t.seed.getD 0).toUInt64 }
  match t.file with
  | none => .error .missingArguments
  | some file =>
    match verb with
    | .run => .ok (.run file settings (t.ticks.getD 1) t.stimuli)
    | .stats => .ok (.stats file settings)
    | .snapshot =>
      match t.out with
      | none => .error .missingArguments
      | some out => .ok (.snapshot file settings out)

/-- The request of a verb and its arguments. -/
def requestOf (verb : Verb) (arguments : List String) : Except UsageFault Request :=
  match (do (← arguments.foldlM (Taken.take verb) {}).settle : Except Stop Taken) with
  | .ok t => t.request verb
  | .error (.fault f) => .error f
  | .error .help => .ok .help

/-- What follows the word `help` must name a verb, or help itself. -/
def helpOn : List String → Except UsageFault Request
  | [] => .ok .help
  | [name] =>
    if (Verb.ofName? name).isSome ∨ name = "help" then .ok .help else .error (.unknownVerb name)
  | name :: next :: _ =>
    if (Verb.ofName? name).isSome ∨ name = "help" then .error (.unknownVerb next)
    else .error (.unknownVerb name)

/-- A flag that stands before any verb. -/
def flag (name : String) (value : Option String) : Except UsageFault Request :=
  if name = "help" ∨ name = "version" then
    match value with
    | some value => .error (.unexpectedValue value ("--" ++ name))
    | none => .ok (if name = "help" then .help else .version)
  else .error (.unexpected ("--" ++ name))

/-- An argument after `--` where a verb is due. -/
def literalVerb : List String → Except UsageFault Request
  | [] => .error .noVerb
  | argument :: _ =>
    if (Verb.ofName? argument).isSome ∨ argument = "help" then .error (.unexpected argument)
    else .error (.unknownVerb argument)

/-- Reads the whole command line. -/
def parse : List String → Except UsageFault Request
  | [] => .error .noVerb
  | first :: rest =>
    match Verb.ofName? first with
    | some verb => requestOf verb rest
    | none =>
      if first = "help" then helpOn rest
      else match first.toList with
        | ['-', '-'] => literalVerb rest
        | '-' :: '-' :: name =>
          match splitEquals? name with
          | some (name, value) => flag (String.ofList name) (some (String.ofList value))
          | none => flag (String.ofList name) none
        | '-' :: 'h' :: _ => .ok .help
        | '-' :: 'V' :: _ => .ok .version
        | '-' :: c :: _ => .error (.unexpected (String.ofList ['-', c]))
        | _ => .error (.unknownVerb first)

end BusLogic.Command
