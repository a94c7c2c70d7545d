/-!
# Pairs in the order of their keys

Lists of pairs that are kept sorted by key with each key once, so that two lists
that answer every look-up alike are equal.
-/

namespace LeaseQueue
namespace Sorted

variable {α : Type}

/-- Gives a key to pairs in ascending order; a key that is there already gets the new value. -/
def insert (key : String) (value : α) : List (String × α) → List (String × α)
  | [] => [(key, value)]
  | (k, v) :: rest =>
      if key < k then (key, value) :: (k, v) :: rest
      else if key = k then (key, value) :: rest
      else (k, v) :: insert key value rest

def ofPairs (pairs : List (String × α)) : List (String × α) :=
  pairs.foldl (fun acc (k, v) => insert k v acc) []

def find (key : String) : List (String × α) → Option α
  | [] => none
  | (k, v) :: rest => if k = key then some v else find key rest

end Sorted
end LeaseQueue
