import EntryCode.Word

/-!
The machine-level types of values that cross the native boundary.
-/

namespace EntryCode

inductive BasicType where
  | void | boolean | char | byte | short | int | long | float | double | object
  deriving DecidableEq, Repr

namespace BasicType

def all : List BasicType :=
  [void, boolean, char, byte, short, int, long, float, double, object]

def name : BasicType → String
  | void => "void"
  | boolean => "boolean"
  | char => "char"
  | byte => "byte"
  | short => "short"
  | int => "int"
  | long => "long"
  | float => "float"
  | double => "double"
  | object => "object"

/-- The letter of the type; classes and arrays share one. -/
def letter : BasicType → Char
  | void => 'V'
  | boolean => 'Z'
  | char => 'C'
  | byte => 'B'
  | short => 'S'
  | int => 'I'
  | long => 'J'
  | float => 'F'
  | double => 'D'
  | object => 'L'

def slots : BasicType → Nat
  | void => 0
  | long | double => 2
  | _ => 1

def isFloating : BasicType → Bool
  | float | double => true
  | _ => false

def ofNumber? (n : Nat) : Option BasicType :=
  all[n]?

/-- The name of the type with a number, also where there is none. -/
def nameOfNumber (n : Nat) : String :=
  match ofNumber? n with
  | some t => t.name
  | none => s!"type({n})"

end BasicType

end EntryCode
