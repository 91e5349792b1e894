/-!
What can be wrong with a database, or with what is asked of it.
-/

namespace EntryCode.Database

inductive Fault where
  /-- Its file cannot be read. -/
  | unreadable
  /-- Its file is that of something else. -/
  | foreign
  /-- Its pages do not fit together. -/
  | damaged
  | unindexed
  | busy
  /-- It must not be changed. -/
  | readOnly
  /-- A file that is needed beside it cannot be made. -/
  | noCompanion
  | full
  | invalid (reason : String)
  /-- A value is of another kind than is needed. -/
  | mismatch
  /-- A row would break a rule; `code` is the number of the rule. -/
  | broken (code : Nat) (rule : String)
  deriving DecidableEq, Repr

def Fault.text : Fault → String
  | .unreadable => "disk I/O error (266)"
  | .foreign => "file is not a database (26)"
  | .damaged => "database disk image is malformed (11)"
  | .unindexed => "database disk image is malformed (779)"
  | .busy => "database is locked (5) (SQLITE_BUSY)"
  | .readOnly => "attempt to write a readonly database (8)"
  | .noCompanion => "unable to open database file (14)"
  | .full => "database or disk is full (13)"
  | .invalid reason => s!"SQL logic error: {reason} (1)"
  | .mismatch => "datatype mismatch (20)"
  | .broken code rule => s!"constraint failed: {rule} ({code})"

end EntryCode.Database
