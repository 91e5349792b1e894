import EntryCode.Text.Quoted

/-!
The options of the command line. An option begins with one or two dashes; its value follows an
equals sign or, where it is no switch, may be the next argument. Options end at the first argument
that is none.
-/

namespace EntryCode

structure Options where
  dir : String
  verbose : Bool
  output : String
  list : Bool
  entries : Bool
  noCache : Bool
  host : Bool
  allowAll : Bool
  signature : String
  static : Bool
  cacheList : Bool
  cacheDelete : String
  deriving DecidableEq, Repr

namespace Options

def default : Options where
  dir := "."
  verbose := false
  output := ""
  list := false
  entries := false
  noCache := false
  host := false
  allowAll := false
  signature := ""
  static := false
  cacheList := false
  cacheDelete := ""

inductive Setter where
  | switch (set : Bool → Options → Options)
  | text (set : String → Options → Options)

structure Flag where
  name : String
  setter : Setter
  help : String

def flags : List Flag :=
  [⟨"C", .text fun v o => { o with dir := v }, "Directory to search for rvgen.toml"⟩,
   ⟨"all", .switch fun b o => { o with allowAll := b }, "Allow every known extension"⟩,
   ⟨"cache-delete", .text fun v o => { o with cacheDelete := v },
    "Remove the cached image with this fingerprint"⟩,
   ⟨"cache-list", .switch fun b o => { o with cacheList := b }, "List cached images"⟩,
   ⟨"entries", .switch fun b o => { o with entries := b }, "Print the entry point table"⟩,
   ⟨"host", .switch fun b o => { o with host := b },
    "Target the extensions of this machine instead of the manifest's"⟩,
   ⟨"list", .switch fun b o => { o with list := b },
    "Print a disassembly listing of the interpreter"⟩,
   ⟨"no-cache", .switch fun b o => { o with noCache := b },
    "Neither read nor write the image cache"⟩,
   ⟨"o", .text fun v o => { o with output := v }, "Write the generated image to this file"⟩,
   ⟨"sig", .text fun v o => { o with signature := v },
    "Print the native signature handler for a method descriptor, e.g. '(IJ)I'"⟩,
   ⟨"static", .switch fun b o => { o with static := b }, "Treat -sig as a static method"⟩,
   ⟨"v", .switch fun b o => { o with verbose := b }, "Verbose output"⟩]

section Usage

/-- The help on an option. It stands on the same line after the name of a switch of one letter. -/
def Flag.usage (f : Flag) : String :=
  let head := match f.setter with
    | .switch _ => s!"  -{f.name}"
    | .text _ => s!"  -{f.name} string"
  let gap := if head.length ≤ 4 then "\t" else "\n    \t"
  let note := if f.name = "C" then s!" (default {Text.quoted default.dir})" else ""
  head ++ gap ++ f.help ++ note ++ "\n"

def usage : String :=
  "Usage: rvgen [options]\n\n" ++
  "Generates the interpreter entry routines configured by rvgen.toml.\n\n" ++
  "Options:\n" ++ String.join (flags.map Flag.usage) ++
  "\nExamples:\n" ++
  "  rvgen -entries              # Generate (or load from cache), print entries\n" ++
  "  rvgen -list -all            # Listing using every extension\n" ++
  "  rvgen -o interp.img         # Write the image to a file\n" ++
  "  rvgen -sig '(IDLjava/lang/Object;)J' -static\n" ++
  "  rvgen -cache-list           # Show cached images\n"

end Usage

/-- Why the arguments are not taken. -/
inductive Refusal where
  | help
  | badForm (argument : String)
  | unknown (name : String)
  | missingValue (name : String)
  | notBoolean (value name : String)
  deriving DecidableEq, Repr

def Refusal.message : Refusal → String
  | .help => ""
  | .badForm argument => s!"bad flag syntax: {argument}\n"
  | .unknown name => s!"flag provided but not defined: -{name}\n"
  | .missingValue name => s!"flag needs an argument: -{name}\n"
  | .notBoolean value name =>
    s!"invalid boolean value {Text.quoted value} for -{name}: parse error\n"

def Refusal.exitCode : Refusal → Nat
  | .help => 0
  | _ => 2

def boolean? (s : String) : Option Bool :=
  if ["1", "t", "T", "TRUE", "true", "True"].contains s then some true
  else if ["0", "f", "F", "FALSE", "false", "False"].contains s then some false
  else none

/-- An argument that is an option, without its dashes: its name and the value given with it. -/
structure Written where
  name : String
  value : Option String

/-- The option that an argument is. Two dashes alone, a single dash and anything without a dash are
none. -/
def written? (argument : String) : Option (Except Refusal Written) :=
  let body := match argument.toList with
    | ['-', '-'] => none
    | '-' :: '-' :: rest => some rest
    | '-' :: c :: rest => some (c :: rest)
    | _ => none
  body.map fun body =>
    match body with
    | [] | '-' :: _ | '=' :: _ => .error (.badForm argument)
    | _ =>
      let (name, value) := body.span (· ≠ '=')
      .ok ⟨String.ofList name, if value.isEmpty then none else some (String.ofList (value.drop 1))⟩

def parseFrom (o : Options) : List String → Except Refusal Options
  | [] => .ok o
  | argument :: rest =>
    match written? argument with
    | none => .ok o
    | some (.error e) => .error e
    | some (.ok w) =>
      match flags.find? fun f => f.name = w.name with
      | none => .error (if w.name = "h" ∨ w.name = "help" then .help else .unknown w.name)
      | some f =>
        match f.setter, w.value with
        | .switch set, none => parseFrom (set true o) rest
        | .switch set, some v =>
          match boolean? v with
          | some b => parseFrom (set b o) rest
          | none => .error (.notBoolean v w.name)
        | .text set, some v => parseFrom (set v o) rest
        | .text set, none =>
          match rest with
          | v :: rest => parseFrom (set v o) rest
          | [] => .error (.missingValue w.name)

def parse (arguments : List String) : Except Refusal Options :=
  parseFrom default arguments

end Options

end EntryCode
