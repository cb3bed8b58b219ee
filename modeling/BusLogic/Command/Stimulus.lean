import BusLogic.Text.Blank
import BusLogic.Text.Numeral

/-! Stimuli: `name=value`, a bus and the number it is driven with. -/
namespace BusLogic.Command
open Text

structure Stimulus where
  bus : String
  value : Nat
  deriving DecidableEq, Repr

inductive StimulusFault where
  | noValue (text : String)
  | badValue (value : String) (fault : NumeralFault)
  deriving DecidableEq, Repr

def StimulusFault.message : StimulusFault → String
  | .noValue text => s!"expected name=value, got `{text}`"
  | .badValue value fault => s!"bad value `{value}`: {fault.message}"

/-- A number in decimal, or in hexadecimal after `0x`, or in binary after `0b`. -/
def readValue : List Char → Except NumeralFault Nat
  | '0' :: 'x' :: digits => readNumeral 16 digits
  | '0' :: 'b' :: digits => readNumeral 2 digits
  | digits => readNumeral 10 digits

/-- The texts before and after the first equals sign. -/
def splitEquals? (s : List Char) : Option (List Char × List Char) :=
  match s.dropWhile (· != '=') with
  | [] => none
  | _ :: value => some (s.takeWhile (· != '='), value)

/-- Reads a stimulus; white space around the name and the value does not count. -/
def Stimulus.parse (s : List Char) : Except StimulusFault Stimulus :=
  match splitEquals? s with
  | none => .error (.noValue (String.ofList s))
  | some (name, value) =>
    match readValue (trim value) with
    | .ok n => .ok ⟨String.ofList (trim name), n⟩
    | .error fault => .error (.badValue (String.ofList (trim value)) fault)

end BusLogic.Command
