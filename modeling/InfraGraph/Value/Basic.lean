import InfraGraph.Decimal.Binary
import InfraGraph.Entries

/-!
# Values

The dynamic values that properties, custom data and expressions carry. Integers have 64 bits; a map
keeps the order of insertion.

Functions on values recurse through the lists inside a value by companion functions on items and on
entries, so that every one of them is structural.
-/

namespace InfraGraph

/-- A value. -/
inductive Value where
  | null
  | bool (b : Bool)
  | int (n : Int64)
  | float (x : Float)
  | string (s : String)
  | list (items : List Value)
  | map (entries : List (String × Value))
  deriving Inhabited

namespace Value

/-- A list of strings as a value. -/
def strings (items : List String) : Value := .list (items.map .string)

/-- The name of a value's type. -/
def typeName : Value → String
  | null => "null"
  | bool _ => "bool"
  | int _ => "int"
  | float _ => "float"
  | string _ => "string"
  | list _ => "list"
  | map _ => "map"

/-- Whether a value is null. -/
def isNull : Value → Bool
  | null => true
  | _ => false

/-- The string that a value is. -/
def asString? : Value → Option String
  | string s => some s
  | _ => none

/-- The integer that a value is. -/
def asInt? : Value → Option Int64
  | int n => some n
  | _ => none

/-- The number that a value is; integers are widened. -/
def asFloat? : Value → Option Float
  | int n => some (Decimal.widen n)
  | float x => some x
  | _ => none

/-- The map that a value is. -/
def asMap? : Value → Option (Entries Value)
  | map entries => some entries
  | _ => none

/-- What a condition makes of a value: null, false, zero and what is empty count as false. -/
def truthy : Value → Bool
  | null => false
  | bool b => b
  | int n => n != 0
  | float x => x != 0.0
  | string s => !s.isEmpty
  | list items => !items.isEmpty
  | map entries => !entries.isEmpty

/-! ## Sameness -/

mutual

/-- Whether two values are the same: of one type and equal, numbers as numbers of that type, lists
item by item, maps by keys whatever their order. -/
def same : Value → Value → Bool
  | null, null => true
  | bool a, bool b => a == b
  | int a, int b => a == b
  | float a, float b => a == b
  | string a, string b => a == b
  | list xs, list ys => sameItems xs ys
  | map m, map n => m.length == n.length && sameEntries m n
  | _, _ => false

/-- Whether two lists are the same item by item. -/
def sameItems : List Value → List Value → Bool
  | [], [] => true
  | x :: xs, y :: ys => same x y && sameItems xs ys
  | _, _ => false

/-- Whether a map holds the same value under every key of the first one. -/
def sameEntries : List (String × Value) → Entries Value → Bool
  | [], _ => true
  | (k, v) :: rest, other =>
    (match Entries.get? other k with
      | some w => same v w
      | none => false) && sameEntries rest other

end

end Value

end InfraGraph
