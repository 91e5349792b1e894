import EntryCode.Command.Build

/-!
What the command needs of the machine it runs on: files, directories, and what is new in each run.
-/

namespace EntryCode

inductive FileError where
  | missing
  | isDirectory
  | notDirectory
  | tooLong
  | invalid
  | denied
  /-- Nothing more can be written. -/
  | noSpace
  deriving DecidableEq, Repr

def FileError.message : FileError → String
  | .missing => "no such file or directory"
  | .isDirectory => "is a directory"
  | .notDirectory => "not a directory"
  | .tooLong => "file name too long"
  | .invalid => "invalid argument"
  | .denied => "permission denied"
  | .noSpace => "no space left on device"

/-- The operations of a machine; `m` is where their effects happen. -/
structure Host (m : Type → Type) where
  cwd : m String
  isThere : String → m Bool
  /-- Whether there is something that keeps nothing of what is written to it. -/
  isDevice : String → m Bool
  read : String → m (Except FileError Bytes)
  write : String → Bytes → m (Except FileError Unit)
  remove : String → m Unit
  /-- Makes a directory and those around it; false where one of them cannot be made. -/
  makeDirectories : String → m Bool
  now : m Dword
  occasion : m Occasion

end EntryCode
