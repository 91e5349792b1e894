/-!
Paths of files, with a slash between their parts.
-/

namespace EntryCode.Path

def isAbsolute (path : String) : Bool :=
  path.startsWith "/"

def names (path : String) : List String :=
  (path.splitOn "/").filter (· ≠ "")

/-- The parts of a path; single dots say nothing. -/
def parts (path : String) : List String :=
  (names path).filter (· ≠ ".")

/-- Takes one more part; `stack` holds those before it, the last one first. Two dots undo the part
before them, and at the root nothing. -/
def push (absolute : Bool) (stack : List String) (part : String) : List String :=
  if part ≠ ".." then part :: stack
  else match stack with
    | [] => if absolute then [] else [".."]
    | top :: rest => if top = ".." then ".." :: stack else rest

def clean (path : String) : String :=
  let absolute := isAbsolute path
  let kept := "/".intercalate ((parts path).foldl (push absolute) []).reverse
  if absolute then "/" ++ kept else if kept = "" then "." else kept

/-- A path below another. Empty paths are left out. -/
def join (dir path : String) : String :=
  if dir = "" ∧ path = "" then ""
  else if dir = "" then clean path
  else if path = "" then clean dir
  else clean (dir ++ "/" ++ path)

def absolute (cwd path : String) : String :=
  if isAbsolute path then clean path else join cwd path

def parent (path : String) : String :=
  clean (String.ofList (path.toList.reverse.dropWhile (· ≠ '/')).reverse)

def ofParts (parts : List String) : String :=
  "/" ++ "/".intercalate parts

/-- The ways along a list of parts, from the empty one to the whole list. -/
def ways {α : Type} : List α → List (List α)
  | [] => [[]]
  | a :: rest => [] :: (ways rest).map (a :: ·)

/-- A path from the root and those of the directories around it, the innermost first. -/
def ancestors (path : String) : List String :=
  (ways (parts path)).reverse.map ofParts

end EntryCode.Path
