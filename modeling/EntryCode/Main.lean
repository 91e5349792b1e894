import EntryCode.Command.Run
import Std.Time.DateTime.Timestamp

/-!
The command line program: the command with the files, the clock and the random numbers of the
machine it runs on.
-/

namespace EntryCode.Command

def fileError : IO.Error → FileError
  | .noFileOrDirectory .. => .missing
  | .inappropriateType _ code _ => if code = 20 then .notDirectory else .isDirectory
  | .invalidArgument _ code _ => if code = 36 then .tooLong else .invalid
  | .resourceExhausted .. => .noSpace
  | _ => .denied

def attempt {α : Type} (step : IO α) : IO (Except FileError α) := do
  return (← step.toBaseIO).mapError fileError

def system : Host IO where
  cwd := return (← IO.currentDir).toString
  isThere path := return (← attempt (IO.FS.realPath path)).toBool
  isDevice path := do
    let found ← attempt ((← IO.currentDir) / path).metadata
    return found.toOption.any fun m => m.type matches .other
  read path := do
    let content ← attempt (IO.FS.readBinFile path)
    return content.map fun b => b.data.toList.map UInt8.toBitVec
  write path content :=
    attempt (IO.FS.writeBinFile path ⟨(content.map UInt8.ofBitVec).toArray⟩)
  remove path := do
    let _ ← attempt (IO.FS.removeFile path)
  makeDirectories path := do
    return (← attempt (IO.FS.createDirAll path)).toBool
  now := return BitVec.ofInt 64 (← Std.Time.Timestamp.now).toSecondsSinceUnixEpoch.val
  occasion := do
    let random ← IO.getRandomBytes 16
    let time ← Std.Time.Timestamp.now
    return {
      id := .random (random.data.foldl (fun n b => n * 256 + b.toBitVec.setWidth 128) 0)
      now := BitVec.ofInt 64 time.toSecondsSinceUnixEpoch.val
      host := .none
      mapping := 0x7f0000000000
      grants := fun size => size.toNat < 0x800000000 }

end EntryCode.Command

def main (args : List String) : IO UInt32 := do
  let o ← EntryCode.Command.run EntryCode.Command.system args
  IO.print o.stdout
  IO.eprint o.stderr
  return UInt32.ofNat o.exit
