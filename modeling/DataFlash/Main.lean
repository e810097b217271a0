import DataFlash.Program
import Std.Time.DateTime.Timestamp

namespace DataFlash.Command

def numbered (details : String) (code : UInt32) : Fault :=
  .told s!"{details} (os error {code})"

def fault : IO.Error → Fault
  | .noFileOrDirectory .. => .notFound
  | .inappropriateType _ 20 _ => .notDirectory
  | .inappropriateType _ 21 _ => .isDirectory
  | .permissionDenied _ code details => numbered details code
  | e => .told (toString e)

def contents : Request → IO (Except Fault (List UInt8))
  | .report path _ => do
    match ← (IO.FS.readBinFile path).toBaseIO with
    | .ok bytes => return .ok bytes.toList
    | .error e => return .error (fault e)
  | _ => return .error .notFound

end DataFlash.Command

def main (arguments : List String) : IO UInt32 := do
  let request := DataFlash.CommandLine.request arguments
  let contents ← DataFlash.Command.contents request
  let now := (← Std.Time.Timestamp.now).toSecondsSinceUnixEpoch.val.toNat
  let outcome := DataFlash.Program.run request (fun _ => contents) now
  IO.print outcome.stdout
  IO.eprint outcome.stderr
  return UInt32.ofNat outcome.exit
