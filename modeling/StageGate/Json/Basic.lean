/-!
# JSON values

A value keeps the order and the repetitions of an object's members, since a reader of a record has
to see them. Whole numbers are kept exactly; any other number is kept as it was written.
-/

namespace StageGate

namespace Json

inductive Number where
  | integer (value : Int)
  /-- A number with a fraction or an exponent, or a negative zero. -/
  | literal (text : List Char)
deriving DecidableEq, Repr

end Json

inductive Json where
  | null
  | bool (value : Bool)
  | number (value : Json.Number)
  | string (text : String)
  | array (items : List Json)
  | object (members : List (String × Json))
  /-- A string with half of a surrogate pair, or an object with such a key: it may be passed over,
  and no reader accepts it. -/
  | unreadable
deriving Inhabited

namespace Json

def int (value : Int) : Json := .number (.integer value)

def nat (value : Nat) : Json := .int value

def text? : Json → Option String
  | .string s => some s
  | _ => none

def bool? : Json → Option Bool
  | .bool b => some b
  | _ => none

def int? : Json → Option Int
  | .number (.integer n) => some n
  | _ => none

def natBelow? (bound : Nat) (j : Json) : Option Nat :=
  match j with
  | .number (.integer (.ofNat n)) => if n < bound then some n else none
  | _ => none

def array? : Json → Option (List Json)
  | .array items => some items
  | _ => none

def object? : Json → Option (List (String × Json))
  | .object members => some members
  | _ => none

/-- The value of a member; of two members with one key, the first. -/
def member? (key : String) : Json → Option Json
  | .object members => (members.find? fun m => m.1 == key).map (·.2)
  | _ => none

end Json

end StageGate
