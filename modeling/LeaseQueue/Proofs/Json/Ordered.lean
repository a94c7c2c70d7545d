import Mathlib.Data.List.Induction
import LeaseQueue.Json.Document
/-!
# Values in normal form

Of a value in normal form every object lists its members by ascending key. Sorting
pairs leaves ascending ones as they are, so a value in normal form is the value
that is read off its own members.
-/

namespace LeaseQueue

namespace Sorted

variable {α : Type}

/-!
## Ascending pairs
-/

def Ascending (pairs : List (String × α)) : Prop := pairs.Pairwise fun p q => p.1 < q.1

instance (pairs : List (String × α)) : Decidable (Ascending pairs) :=
  inferInstanceAs (Decidable (pairs.Pairwise fun p q => p.1 < q.1))

section

variable {key : String} {value : α} {pairs rest : List (String × α)} {p : String × α}

theorem mem_insert (h : p ∈ insert key value pairs) : p = (key, value) ∨ p ∈ pairs := by
  induction pairs with
  | nil => exact Or.inl (List.mem_singleton.mp h)
  | cons q rest ih =>
      rcases q with ⟨k, v⟩
      unfold insert at h
      split at h
      · exact List.mem_cons.mp h
      · split at h
        · rcases List.mem_cons.mp h with hp | hrest
          · exact Or.inl hp
          · exact Or.inr (List.mem_cons_of_mem _ hrest)
        · rcases List.mem_cons.mp h with hp | hrest
          · exact Or.inr (hp ▸ List.mem_cons_self)
          · rcases ih hrest with hp | hold
            · exact Or.inl hp
            · exact Or.inr (List.mem_cons_of_mem _ hold)

theorem Ascending.insert (h : Ascending pairs) (key : String) (value : α) :
    Ascending (insert key value pairs) := by
  induction pairs with
  | nil => exact List.pairwise_singleton _ _
  | cons q rest ih =>
      rcases q with ⟨k, v⟩
      have hfirst : ∀ p ∈ rest, k < p.1 := fun p hp => List.rel_of_pairwise_cons h hp
      have hrest : Ascending rest := List.Pairwise.of_cons h
      unfold Sorted.insert
      split
      · rename_i hlt
        refine List.pairwise_cons.mpr ⟨?_, h⟩
        intro p hp
        rcases List.mem_cons.mp hp with rfl | hp
        · exact hlt
        · exact String.lt_trans hlt (hfirst p hp)
      · split
        · rename_i heq
          refine List.pairwise_cons.mpr ⟨?_, hrest⟩
          intro p hp
          rw [heq]
          exact hfirst p hp
        · rename_i hnot hne
          have hlt : k < key := by
            rcases String.le_total key k with hle | hle
            · exact absurd (String.le_antisymm hle (String.not_lt.mp hnot)) hne
            · exact String.not_le.mp fun hkey => hne (String.le_antisymm hkey hle)
          refine List.pairwise_cons.mpr ⟨?_, ih hrest⟩
          intro p hp
          rcases mem_insert hp with rfl | hp
          · exact hlt
          · exact hfirst p hp

theorem ofPairs_append_singleton (pairs : List (String × α)) (p : String × α) :
    ofPairs (pairs ++ [p]) = insert p.1 p.2 (ofPairs pairs) := by
  unfold ofPairs
  rw [List.foldl_append]
  rfl

theorem ascending_ofPairs (pairs : List (String × α)) : Ascending (ofPairs pairs) := by
  induction pairs using List.reverseRecOn with
  | nil => exact List.Pairwise.nil
  | append_singleton front p ih =>
      rw [ofPairs_append_singleton]
      exact ih.insert p.1 p.2

theorem mem_of_mem_ofPairs (h : p ∈ ofPairs pairs) : p ∈ pairs := by
  induction pairs using List.reverseRecOn with
  | nil => exact h
  | append_singleton front q ih =>
      rw [ofPairs_append_singleton] at h
      rcases mem_insert h with hq | hfront
      · exact List.mem_append_right front (List.mem_singleton.mpr hq)
      · exact List.mem_append_left _ (ih hfront)

theorem perm_insert (hnew : ∀ p ∈ pairs, p.1 ≠ key) :
    (insert key value pairs).Perm ((key, value) :: pairs) := by
  induction pairs with
  | nil => exact List.Perm.refl _
  | cons q rest ih =>
      rcases q with ⟨k, v⟩
      have hne : ¬ key = k := fun heq => hnew (k, v) List.mem_cons_self heq.symm
      have hrest := ih fun p hp => hnew p (List.mem_cons_of_mem _ hp)
      unfold insert
      by_cases hlt : key < k
      · rw [if_pos hlt]
      · rw [if_neg hlt, if_neg hne]
        exact (hrest.cons (k, v)).trans (List.Perm.swap _ _ _)

theorem perm_ofPairs (hkeys : (pairs.map Prod.fst).Nodup) : (ofPairs pairs).Perm pairs := by
  induction pairs using List.reverseRecOn with
  | nil => exact List.Perm.refl _
  | append_singleton front p ih =>
      rw [List.map_append] at hkeys
      rcases List.nodup_append.mp hkeys with ⟨hfront, -, hlast⟩
      have hnew : ∀ q ∈ ofPairs front, q.1 ≠ p.1 := fun q hq =>
        hlast q.1 (List.mem_map_of_mem (mem_of_mem_ofPairs hq)) p.1 List.mem_cons_self
      rw [ofPairs_append_singleton]
      have hback : (p :: ofPairs front).Perm (front ++ [p]) :=
        ((ih hfront).cons p).trans (List.perm_append_singleton p front).symm
      exact (perm_insert hnew).trans hback

theorem Ascending.nodup (h : Ascending pairs) : (pairs.map Prod.fst).Nodup := by
  refine List.pairwise_map.mpr (List.Pairwise.imp ?_ h)
  intro p q hlt heq
  exact String.lt_irrefl q.1 (heq ▸ hlt)

theorem Ascending.ofPairs_of_perm (h : Ascending pairs) (hperm : pairs.Perm rest) :
    ofPairs rest = pairs := by
  have hkeys : (rest.map Prod.fst).Nodup := (hperm.map Prod.fst).nodup_iff.mp h.nodup
  refine List.Perm.eq_of_pairwise ?_ (ascending_ofPairs rest) h
    ((perm_ofPairs hkeys).trans hperm.symm)
  intro p q _ _ hpq hqp
  exact absurd hqp (String.lt_asymm hpq)

end
end Sorted

namespace Json

/-!
## Normal form, whole numbers and depth
-/

mutual
def isOrdered : Json → Bool
  | .array items => isOrderedItems items
  | .object members => decide (Sorted.Ascending members) && isOrderedMembers members
  | _ => true

def isOrderedItems : List Json → Bool
  | [] => true
  | v :: rest => isOrdered v && isOrderedItems rest

def isOrderedMembers : List (String × Json) → Bool
  | [] => true
  | (_, v) :: rest => isOrdered v && isOrderedMembers rest
end

mutual
def isWhole : Json → Bool
  | .number (.whole n) => Document.leastWhole ≤ n && n ≤ Document.greatestWhole
  | .number (.real _) => false
  | .array items => isWholeItems items
  | .object members => isWholeMembers members
  | _ => true

def isWholeItems : List Json → Bool
  | [] => true
  | v :: rest => isWhole v && isWholeItems rest

def isWholeMembers : List (String × Json) → Bool
  | [] => true
  | (_, v) :: rest => isWhole v && isWholeMembers rest
end

mutual
/-- How many arrays and objects stand inside each other where they are nested most. -/
def depth : Json → Nat
  | .array items => depthItems items + 1
  | .object members => depthMembers members + 1
  | _ => 0

def depthItems : List Json → Nat
  | [] => 0
  | v :: rest => max (depth v) (depthItems rest)

def depthMembers : List (String × Json) → Nat
  | [] => 0
  | (_, v) :: rest => max (depth v) (depthMembers rest)
end

section

variable {items : List Json} {members : List (String × Json)} {room : Nat}

theorem isOrderedItems_iff : isOrderedItems items = true ↔ ∀ v ∈ items, v.isOrdered = true := by
  induction items with
  | nil => simp [isOrderedItems]
  | cons v rest ih => simp [isOrderedItems, ih]

theorem isOrderedMembers_iff :
    isOrderedMembers members = true ↔ ∀ p ∈ members, p.2.isOrdered = true := by
  induction members with
  | nil => simp [isOrderedMembers]
  | cons p rest ih => simp [isOrderedMembers, ih]

theorem isWholeItems_iff : isWholeItems items = true ↔ ∀ v ∈ items, v.isWhole = true := by
  induction items with
  | nil => simp [isWholeItems]
  | cons v rest ih => simp [isWholeItems, ih]

theorem isWholeMembers_iff :
    isWholeMembers members = true ↔ ∀ p ∈ members, p.2.isWhole = true := by
  induction members with
  | nil => simp [isWholeMembers]
  | cons p rest ih => simp [isWholeMembers, ih]

theorem depthItems_le_iff : depthItems items ≤ room ↔ ∀ v ∈ items, v.depth ≤ room := by
  induction items with
  | nil => simp [depthItems]
  | cons v rest ih => rw [depthItems, Nat.max_le, ih, List.forall_mem_cons]

theorem depthMembers_le_iff : depthMembers members ≤ room ↔ ∀ p ∈ members, p.2.depth ≤ room := by
  induction members with
  | nil => simp [depthMembers]
  | cons p rest ih => rw [depthMembers, Nat.max_le, ih, List.forall_mem_cons]

end

theorem toNat_le_greatestWhole (n : UInt64) : (n.toNat : Int) ≤ Document.greatestWhole := by
  have hn := n.toNat_lt
  unfold Document.greatestWhole
  omega

/-- A value in normal form with whole numbers only that fits into some room. -/
structure Plain (room : Nat) (v : Json) : Prop where
  ordered : v.isOrdered = true
  whole : v.isWhole = true
  shallow : v.depth ≤ room

namespace Plain

variable {room : Nat}

theorem mono {v : Json} {larger : Nat} (h : v.Plain room) (hle : room ≤ larger) :
    v.Plain larger :=
  ⟨h.ordered, h.whole, Nat.le_trans h.shallow hle⟩

@[simp] theorem null : Plain room .null := ⟨rfl, rfl, Nat.zero_le room⟩

@[simp] theorem bool (b : Bool) : Plain room (.bool b) := ⟨rfl, rfl, Nat.zero_le room⟩

@[simp] theorem string (s : String) : Plain room (.string s) := ⟨rfl, rfl, Nat.zero_le room⟩

theorem number {n : Int} (hleast : Document.leastWhole ≤ n)
    (hgreatest : n ≤ Document.greatestWhole) : Plain room (.whole n) :=
  ⟨rfl, Bool.and_eq_true_iff.mpr ⟨decide_eq_true hleast, decide_eq_true hgreatest⟩,
    Nat.zero_le room⟩

theorem count {n : Nat} (hn : (n : Int) ≤ Document.greatestWhole) : Plain room (.count n) := by
  refine number ?_ hn
  unfold Document.leastWhole
  omega

@[simp] theorem uint64 (n : UInt64) : Plain room (.count n.toNat) :=
  count (toNat_le_greatestWhole n)

@[simp] theorem uint32 (n : UInt32) : Plain room (.count n.toNat) := by
  refine count ?_
  have hn := n.toNat_lt
  unfold Document.greatestWhole
  omega

@[simp] theorem int32 (n : Int32) : Plain room (.whole n.toInt) := by
  have hleast := n.le_toInt
  have hgreatest := n.toInt_lt
  refine number ?_ ?_
  · unfold Document.leastWhole
    omega
  · unfold Document.greatestWhole
    omega

theorem option {α : Type} {write : α → Json} {o : Option α} (h : ∀ a, (write a).Plain room) :
    Plain room (Json.option write o) := by
  cases o with
  | none => exact null
  | some a => exact h a

theorem array {items : List Json} (h : ∀ v ∈ items, v.Plain room) :
    Plain (room + 1) (.array items) where
  ordered := isOrderedItems_iff.mpr fun v hv => (h v hv).ordered
  whole := isWholeItems_iff.mpr fun v hv => (h v hv).whole
  shallow := Nat.succ_le_succ (depthItems_le_iff.mpr fun v hv => (h v hv).shallow)

@[simp] theorem texts (l : List String) : Plain (room + 1) (.texts l) := by
  refine array fun v hv => ?_
  rcases List.mem_map.mp hv with ⟨s, -, rfl⟩
  exact string s

theorem object {members : List (String × Json)} (hascending : Sorted.Ascending members)
    (h : ∀ p ∈ members, p.2.Plain room) : Plain (room + 1) (.object members) where
  ordered := Bool.and_eq_true_iff.mpr
    ⟨decide_eq_true hascending, isOrderedMembers_iff.mpr fun p hp => (h p hp).ordered⟩
  whole := isWholeMembers_iff.mpr fun p hp => (h p hp).whole
  shallow := Nat.succ_le_succ (depthMembers_le_iff.mpr fun p hp => (h p hp).shallow)

theorem ofMembers {pairs : List (String × Json)} (h : ∀ p ∈ pairs, p.2.Plain room) :
    Plain (room + 1) (.ofMembers pairs) :=
  object (Sorted.ascending_ofPairs pairs) fun p hp => h p (Sorted.mem_of_mem_ofPairs hp)

end Plain

end Json
end LeaseQueue
