/-
The program: commands carried out on the files of the machine it runs on.
-/
import Triage.CommandLine.Execution
import Triage.CommandLine.Help

namespace Triage.CommandLine

open Storage (Change Host Path)

/-- The fault behind an error of the system. -/
def faultOf (e : IO.Error) : FileFault :=
  match e with
  | .noFileOrDirectory .. => .notFound
  | .alreadyExists _ 17 _ => .alreadyExists
  | .alreadyExists _ code details | .inappropriateType _ code details
  | .invalidArgument _ code details | .permissionDenied _ code details
  | .resourceExhausted _ code details | .noSuchThing _ code details
  | .interrupted _ code details | .otherError code details | .resourceBusy code details
  | .resourceVanished code details | .unsupportedOperation code details
  | .hardwareFault code details | .unsatisfiedConstraints code details
  | .illegalOperation code details | .protocolError code details | .timeExpired code details =>
    if code = 20 then .notADirectory
    else if code = 21 then .isADirectory
    else if code = 36 then .nameTooLong
    else .other code.toNat details
  | .unexpectedEof => .other 0 "unexpected end of file"
  | .userError reason => .other 0 reason

/-- An action with the fault that may stop it. -/
def attempt {α : Type} (act : IO α) : IO (Except FileFault α) := do
  try return .ok (← act)
  catch e => return .error (faultOf e)

/-- Makes a change to the files of the machine. -/
def perform : Change → IO Unit
  | .write p bytes => IO.FS.writeBinFile p.text ⟨bytes.toArray⟩
  | .makeDirectories p => IO.FS.createDirAll p.text
  | .move source target => IO.FS.rename source.text target.text
  | .remove p => IO.FS.removeFile p.text
  | .removeTree p => IO.FS.removeDirAll p.text

/-- Makes a directory whose name ends in the first number from `n` on that is free. -/
partial def makeNumbered (dir : Path) (start : String) (n : Nat) : IO (Except FileFault Path) := do
  let p := dir.child s!"{start}{n}"
  match ← attempt (IO.FS.createDir p.text) with
  | .ok () => return .ok p
  | .error .alreadyExists => makeNumbered dir start (n + 1)
  | .error f => return .error f

instance : Host IO where
  read p := attempt do return (← IO.FS.readBinFile p.text).toList
  change c := attempt (perform c)
  makeFresh dir start := do makeNumbered dir start (← IO.monoNanosNow)
  clock := do return Float.ofNat (← IO.monoNanosNow) / 1000000000

/-- Carries out a command line, and tells with which status to exit. -/
def carryOut (words : List String) : IO UInt32 := do
  match Invocation.read words with
  | .error r =>
    if r.exit = 0 then IO.println r.message else IO.eprintln r.message
    return r.exit
  | .ok invocation =>
    let transcript ← (invocation.command.execute : IO Transcript)
    IO.print (transcript.output invocation.display)
    for line in transcript.errorLines invocation.display do IO.eprintln line
    return transcript.exit

end Triage.CommandLine

def main (args : List String) : IO UInt32 :=
  Triage.CommandLine.carryOut args
