import EntryCode.Text.Utf8

/-!
What holds a database: a file, of which there are several ways to say that it is in use, or
memory.
-/

namespace EntryCode.Database

inductive Medium where
  | locked
  | unlocked
  | marked
  | owned
  | memory
  deriving DecidableEq, Repr

namespace Medium

def named : List (String × Medium) :=
  [("unix", locked), ("unix-none", unlocked), ("unix-dotfile", marked), ("unix-excl", owned),
   ("memdb", memory)]

/-- The medium that a text names, of which nothing after a NUL is read. -/
def ofBytes? (bytes : Bytes) : Option Medium :=
  (named.find? fun m => Text.utf8 m.1 = bytes.takeWhile (· ≠ 0)).map Prod.snd

/-- Whether changes can go to a log first, even if other programs use the file. -/
def canLog : Medium → Bool
  | .locked | .owned => true
  | _ => false

def hasIndex : Medium → Bool
  | .locked => true
  | _ => false

end Medium

end EntryCode.Database
