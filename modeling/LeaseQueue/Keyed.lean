/-!
# Values under text keys

A finite map from texts to values that keeps the order in which the keys were
first given. Giving a key again replaces its value and keeps its place.
-/

namespace LeaseQueue

structure Keyed (α : Type) where
  /-- The pairs, each key once. -/
  entries : List (String × α)
deriving Repr, DecidableEq

namespace Keyed

variable {α : Type}

def empty : Keyed α := ⟨[]⟩

def find (key : String) : List (String × α) → Option α
  | [] => none
  | (k, v) :: rest => if k = key then some v else find key rest

def get? (m : Keyed α) (key : String) : Option α :=
  find key m.entries

def place (key : String) (value : α) : List (String × α) → List (String × α)
  | [] => [(key, value)]
  | (k, v) :: rest => if k = key then (key, value) :: rest else (k, v) :: place key value rest

def put (m : Keyed α) (key : String) (value : α) : Keyed α :=
  ⟨place key value m.entries⟩

def keys (m : Keyed α) : List String :=
  m.entries.map Prod.fst

def contains (m : Keyed α) (key : String) : Bool :=
  (m.get? key).isSome

/-- The map of a list of pairs; of two pairs with one key the later one counts. -/
def ofList (pairs : List (String × α)) : Keyed α :=
  pairs.foldl (fun m (k, v) => m.put k v) empty

@[simp] theorem get?_empty (key : String) : (empty : Keyed α).get? key = none := rfl

theorem find_place (key other : String) (value : α) (l : List (String × α)) :
    find other (place key value l) = if key = other then some value else find other l := by
  induction l with
  | nil => simp [place, find]
  | cons pair rest ih =>
      obtain ⟨k, v⟩ := pair
      by_cases hk : k = key
      · subst hk
        by_cases ho : k = other <;> simp [place, find, ho]
      · by_cases ho : k = other
        · subst ho
          have hk' : key ≠ k := fun h => hk h.symm
          simp [place, find, hk, hk']
        · simp [place, find, hk, ho, ih]

@[simp] theorem get?_put (m : Keyed α) (key other : String) (value : α) :
    (m.put key value).get? other = if key = other then some value else m.get? other :=
  find_place key other value m.entries

end Keyed
end LeaseQueue
