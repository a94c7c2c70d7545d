import LeaseQueue.Json.Binary64
import LeaseQueue.Sorted
/-!
# JSON values

The values that payloads and written records are made of. The members of an
object are kept sorted by key, each key once, so that equal values are equal
texts.
-/

namespace LeaseQueue

inductive Number where
  | whole (n : Int)
  | real (x : Binary64)
deriving Repr, DecidableEq

inductive Json where
  | null
  | bool (b : Bool)
  | number (n : Number)
  | string (s : String)
  | array (items : List Json)
  | object (members : List (String × Json))
deriving Repr, Inhabited

namespace Json

/-- The object of some pairs; of two pairs with one key the later one counts. -/
def ofMembers (pairs : List (String × Json)) : Json :=
  .object (Sorted.ofPairs pairs)

def whole (n : Int) : Json := .number (.whole n)

def count (n : Nat) : Json := .number (.whole n)

def text (s : String) : Json := .string s

def texts (l : List String) : Json := .array (l.map .string)

def option (write : α → Json) : Option α → Json
  | none => .null
  | some a => write a

def get? (key : String) : Json → Option Json
  | .object members => Sorted.find key members
  | _ => none

end Json
end LeaseQueue
