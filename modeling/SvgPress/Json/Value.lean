import SvgPress.Number.Decimal

/-!
JSON values. An object is a list of members; the objects that the library keeps are canonical,
with keys in increasing order and each key once, while a freshly read one holds its members as
written.
-/

namespace SvgPress.Json

/-- A JSON number. Whole numbers that a signed or an unsigned machine word of 64 bits can hold are
kept exactly; all others are floating point. -/
inductive Number where
  | integer (value : Int)
  | float (value : Binary64)
  deriving DecidableEq, Repr

inductive Value where
  | null
  | bool (value : Bool)
  | number (value : Number)
  | string (value : String)
  | array (items : List Value)
  | object (members : List (String × Value))
  deriving Repr, Inhabited

/-- The members of an object in their order. -/
abbrev Object := List (String × Value)

namespace Object

/-- The value of the first member with the given key. -/
def get? (o : Object) (key : String) : Option Value :=
  o.lookup key

def has (o : Object) (key : String) : Bool :=
  o.any (·.1 == key)

/-- Set a member of a canonical object. A new key takes its place in the order of keys. -/
def put (o : Object) (key : String) (value : Value) : Object :=
  match o with
  | [] => [(key, value)]
  | (k, v) :: rest =>
    if key = k then (key, value) :: rest
    else if key < k then (key, value) :: (k, v) :: rest
    else (k, v) :: put rest key value

/-- All members of `changes` set in turn, so that a later member wins over an earlier one. -/
def merge (o changes : Object) : Object :=
  changes.foldl (fun o (k, v) => put o k v) o

end Object

namespace Number

/-- The number as a floating point number. -/
def toBinary64 : Number → Binary64
  | .integer i => .ofInt i
  | .float x => x

/-- The number as a natural number, unless it is negative or was written as a float. -/
def toNat? : Number → Option Nat
  | .integer (.ofNat n) => some n
  | _ => none

end Number

namespace Value

mutual

/-- Keys in increasing order at every depth. Of members with one key the last wins. -/
def canonical : Value → Value
  | .array items => .array (canonicalItems items)
  | .object members => .object (Object.merge [] (canonicalMembers members))
  | v => v
termination_by structural v => v

def canonicalItems : List Value → List Value
  | [] => []
  | v :: rest => v.canonical :: canonicalItems rest
termination_by structural vs => vs

def canonicalMembers : List (String × Value) → Object
  | [] => []
  | (k, v) :: rest => (k, v.canonical) :: canonicalMembers rest
termination_by structural ms => ms

end

def ofNat (n : Nat) : Value :=
  .number (.integer n)

def ofOption {α : Type} (f : α → Value) : Option α → Value
  | some a => f a
  | none => .null

def ofStrings (xs : List String) : Value :=
  .array (xs.map .string)

end Value

end SvgPress.Json
