import BusLogic.Script.Execute

/-! Where a script comes from: the bytes of a file. -/
namespace BusLogic

/-- Why a file could not be read or written. -/
inductive FileFault where
  | notFound
  | permissionDenied
  | notDirectory
  | isDirectory
  | other (reason : String)
  deriving DecidableEq, Repr

def FileFault.message : FileFault → String
  | .notFound => "No such file or directory (os error 2)"
  | .permissionDenied => "Permission denied (os error 13)"
  | .notDirectory => "Not a directory (os error 20)"
  | .isDirectory => "Is a directory (os error 21)"
  | .other reason => reason

namespace Script

/-- Why there is no script. -/
inductive SourceFault where
  | file (fault : FileFault)
  | notUtf8
  deriving DecidableEq, Repr

/-- What went wrong, without saying that it was the source. -/
def SourceFault.reason : SourceFault → String
  | .file fault => fault.message
  | .notUtf8 => "stream did not contain valid UTF-8"

def SourceFault.message (f : SourceFault) : String := s!"reading source: {f.reason}"

/-- A session at the start of the script a file holds. -/
def Session.load (content : Except FileFault ByteArray) (settings : Settings) :
    Except SourceFault Session :=
  match content with
  | .error fault => .error (.file fault)
  | .ok bytes =>
    match String.fromUTF8? bytes with
    | some source => .ok (.start source settings)
    | none => .error .notUtf8

end Script

end BusLogic
