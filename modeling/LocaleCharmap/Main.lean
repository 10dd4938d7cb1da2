import LocaleCharmap.Command.Run
/-!
# The tool as a process

Runs the tool on the process's arguments, files, standard streams and the `CHARMAP_LOG`
setting.
-/

namespace LocaleCharmap.Command

/-- The error number of a failed system call, when the error carries one. -/
def errorNumber : IO.Error → Option Nat
  | .alreadyExists _ code _ | .otherError code _ | .resourceBusy code _
  | .resourceVanished code _ | .unsupportedOperation code _ | .hardwareFault code _
  | .unsatisfiedConstraints code _ | .illegalOperation code _ | .protocolError code _
  | .timeExpired code _ | .interrupted _ code _ | .noFileOrDirectory _ code _
  | .invalidArgument _ code _ | .permissionDenied _ code _ | .resourceExhausted _ code _
  | .inappropriateType _ code _ | .noSuchThing _ code _ => some code.toNat
  | .unexpectedEof | .userError _ => none

/-- The system's description of a failed file operation. -/
def systemDescription (e : IO.Error) : String :=
  match errorNumber e with
  | some code => systemErrorText code
  | none => toString e

/-- Reads a stream to its end. -/
partial def readToEnd (stream : IO.FS.Stream) (acc : ByteArray) : IO ByteArray := do
  let chunk ← stream.read 65536
  if chunk.isEmpty then pure acc else readToEnd stream (acc ++ chunk)

/-- The process's surroundings. -/
def processHost : Host IO where
  fetch path := do
    try pure (.ok (← IO.FS.readBinFile path).toList)
    catch e => pure (.error (systemDescription e))
  fetchInput := do pure (← readToEnd (← IO.getStdin) ByteArray.empty).toList
  store path bytes := do
    match ← (IO.FS.Handle.mk path .write).toBaseIO with
    | .error e => pure (.error (.create (systemDescription e)))
    | .ok h =>
      match ← (do h.write (ByteArray.mk bytes.toArray); h.flush).toBaseIO with
      | .error e => pure (.error (.write (systemDescription e)))
      | .ok () => pure (.ok ())
  writeOutput bytes := do
    let out ← IO.getStdout
    out.write (ByteArray.mk bytes.toArray)
    out.flush
  writeError text := do
    let err ← IO.getStderr
    err.putStr text
    err.flush
  logSetting := IO.getEnv "CHARMAP_LOG"

end LocaleCharmap.Command

/-- Runs the tool. -/
def main (args : List String) : IO UInt32 :=
  LocaleCharmap.Command.run LocaleCharmap.Command.processHost args
