import LeaseQueue.Proofs.Json.Ordered
/-!
# Values with their members in another order

A value may be written with the members of its objects in any order. The numbers
stay whole then, and a value without objects stays as it is.
-/

namespace LeaseQueue
namespace Json

mutual
inductive Reordered : Json → Json → Prop
  | null : Reordered .null .null
  | bool (b : Bool) : Reordered (.bool b) (.bool b)
  | number (n : Number) : Reordered (.number n) (.number n)
  | string (s : String) : Reordered (.string s) (.string s)
  | array {items others : List Json} (hitems : ReorderedItems items others) :
      Reordered (.array items) (.array others)
  | object {members between others : List (String × Json)} (hperm : members.Perm between)
      (hmembers : ReorderedMembers between others) : Reordered (.object members) (.object others)

inductive ReorderedItems : List Json → List Json → Prop
  | nil : ReorderedItems [] []
  | cons {v w : Json} {items others : List Json} (hv : Reordered v w)
      (hitems : ReorderedItems items others) : ReorderedItems (v :: items) (w :: others)

/-- The same keys one by one, with values in any order of their own members. -/
inductive ReorderedMembers : List (String × Json) → List (String × Json) → Prop
  | nil : ReorderedMembers [] []
  | cons {k : String} {v w : Json} {members others : List (String × Json)} (hv : Reordered v w)
      (hmembers : ReorderedMembers members others) :
      ReorderedMembers ((k, v) :: members) ((k, w) :: others)
end

mutual
theorem Reordered.refl (v : Json) : Reordered v v := by
  cases v with
  | null => exact .null
  | bool b => exact .bool b
  | number n => exact .number n
  | string s => exact .string s
  | array items => exact .array (ReorderedItems.refl items)
  | object members => exact .object (List.Perm.refl members) (ReorderedMembers.refl members)

theorem ReorderedItems.refl (items : List Json) : ReorderedItems items items := by
  cases items with
  | nil => exact .nil
  | cons v rest => exact .cons (Reordered.refl v) (ReorderedItems.refl rest)

theorem ReorderedMembers.refl (members : List (String × Json)) :
    ReorderedMembers members members := by
  cases members with
  | nil => exact .nil
  | cons p rest =>
      rcases p with ⟨k, v⟩
      exact .cons (Reordered.refl v) (ReorderedMembers.refl rest)
end

mutual
theorem Reordered.isWhole {v w : Json} (h : Reordered v w) (hv : v.isWhole = true) :
    w.isWhole = true := by
  match h with
  | .null => exact hv
  | .bool b => exact hv
  | .number n => exact hv
  | .string s => exact hv
  | .array hitems => exact hitems.isWhole hv
  | .object hperm hmembers =>
      refine hmembers.isWhole (isWholeMembers_iff.mpr fun p hp => ?_)
      exact isWholeMembers_iff.mp hv p (hperm.mem_iff.mpr hp)

theorem ReorderedItems.isWhole {items others : List Json} (h : ReorderedItems items others)
    (hitems : isWholeItems items = true) : isWholeItems others = true := by
  match h with
  | .nil => rfl
  | .cons hv hrest =>
      rcases Bool.and_eq_true_iff.mp hitems with ⟨hwhole, hwholes⟩
      exact Bool.and_eq_true_iff.mpr ⟨hv.isWhole hwhole, hrest.isWhole hwholes⟩

theorem ReorderedMembers.isWhole {members others : List (String × Json)}
    (h : ReorderedMembers members others) (hmembers : isWholeMembers members = true) :
    isWholeMembers others = true := by
  match h with
  | .nil => rfl
  | .cons hv hrest =>
      rcases Bool.and_eq_true_iff.mp hmembers with ⟨hwhole, hwholes⟩
      exact Bool.and_eq_true_iff.mpr ⟨hv.isWhole hwhole, hrest.isWhole hwholes⟩
end

/-!
## Values without an order
-/

/-- There is but one way to write the value. -/
def Rigid (v : Json) : Prop := ∀ w, Reordered v w → w = v

namespace Rigid

theorem null : Rigid .null := by
  intro w h
  cases h
  rfl

theorem bool (b : Bool) : Rigid (.bool b) := by
  intro w h
  cases h
  rfl

theorem number (n : Number) : Rigid (.number n) := by
  intro w h
  cases h
  rfl

theorem string (s : String) : Rigid (.string s) := by
  intro w h
  cases h
  rfl

theorem option {α : Type} {write : α → Json} {o : Option α} (h : ∀ a, (write a).Rigid) :
    Rigid (Json.option write o) := by
  cases o with
  | none => exact null
  | some a => exact h a

theorem eq_of_reorderedItems {items others : List Json} (hitems : ∀ v ∈ items, v.Rigid)
    (h : ReorderedItems items others) : others = items := by
  induction items generalizing others with
  | nil =>
      cases h
      rfl
  | cons v rest ih =>
      cases h with
      | cons hv hrest =>
          rw [hitems v List.mem_cons_self _ hv,
            ih (fun w hw => hitems w (List.mem_cons_of_mem _ hw)) hrest]

theorem eq_of_reorderedMembers {members others : List (String × Json)}
    (hmembers : ∀ p ∈ members, p.2.Rigid) (h : ReorderedMembers members others) :
    others = members := by
  induction members generalizing others with
  | nil =>
      cases h
      rfl
  | cons p rest ih =>
      cases h with
      | cons hv hrest =>
          rw [hmembers _ List.mem_cons_self _ hv,
            ih (fun q hq => hmembers q (List.mem_cons_of_mem _ hq)) hrest]

theorem texts (l : List String) : Rigid (.texts l) := by
  intro w h
  cases h with
  | array hitems =>
      refine congrArg Json.array (eq_of_reorderedItems (fun v hv => ?_) hitems)
      rcases List.mem_map.mp hv with ⟨s, -, rfl⟩
      exact string s

end Rigid

/-!
## Taking members apart
-/

/-- What is in another order than the images is made of the originals in that order. -/
theorem exists_map_of_perm {α β : Type} {f : α → β} {l : List α} {m : List β}
    (h : (l.map f).Perm m) : ∃ l', l.Perm l' ∧ m = l'.map f := by
  induction m generalizing l with
  | nil => exact ⟨[], List.map_eq_nil_iff.mp h.eq_nil ▸ List.Perm.refl _, rfl⟩
  | cons b rest ih =>
      rcases List.mem_map.mp (h.mem_iff.mpr List.mem_cons_self) with ⟨a, ha, rfl⟩
      rcases List.append_of_mem ha with ⟨front, back, rfl⟩
      have hrest : ((front ++ back).map f).Perm rest := by
        rw [List.map_append, List.map_cons] at h
        rw [List.map_append]
        exact (List.perm_middle.symm.trans h).cons_inv
      rcases ih hrest with ⟨l', hperm, rfl⟩
      exact ⟨a :: l', List.perm_middle.trans (hperm.cons a), rfl⟩

theorem ReorderedMembers.append {front back front' back' : List (String × Json)}
    (hfront : ReorderedMembers front front') (hback : ReorderedMembers back back') :
    ReorderedMembers (front ++ back) (front' ++ back') := by
  induction front generalizing front' with
  | nil =>
      cases hfront
      exact hback
  | cons p rest ih =>
      cases hfront with
      | cons hv hrest => exact .cons hv (ih hrest)

theorem ReorderedMembers.exists_append {front back others : List (String × Json)}
    (h : ReorderedMembers (front ++ back) others) :
    ∃ front' back', others = front' ++ back' ∧ ReorderedMembers front front' ∧
      ReorderedMembers back back' := by
  induction front generalizing others with
  | nil => exact ⟨[], others, rfl, .nil, h⟩
  | cons p rest ih =>
      cases h with
      | @cons k v w _ others hv hrest =>
          rcases ih hrest with ⟨front', back', rfl, hfront, hback⟩
          exact ⟨(k, w) :: front', back', rfl, .cons hv hfront, hback⟩

theorem Reordered.exists_split {pairs rest : List (String × Json)} {k : String} {v w : Json}
    (h : Reordered (.ofMembers pairs) w) (hkeys : (pairs.map Prod.fst).Nodup)
    (hpairs : pairs.Perm ((k, v) :: rest)) :
    ∃ front back v' front' back', w = .object (front' ++ (k, v') :: back') ∧
      rest.Perm (front ++ back) ∧ Reordered v v' ∧ ReorderedMembers front front' ∧
        ReorderedMembers back back' := by
  cases h with
  | @object _ between others hperm hmembers =>
      have hbetween : ((k, v) :: rest).Perm between :=
        hpairs.symm.trans ((Sorted.perm_ofPairs hkeys).symm.trans hperm)
      rcases List.append_of_mem (hbetween.mem_iff.mp List.mem_cons_self) with ⟨front, back, rfl⟩
      rcases hmembers.exists_append with ⟨front', later, rfl, hfront, hlater⟩
      cases hlater with
      | @cons _ _ v' _ back' hv hback =>
          exact ⟨front, back, v', front', back', rfl,
            (hbetween.trans List.perm_middle).cons_inv, hv, hfront, hback⟩

end Json
end LeaseQueue
