import LeaseQueue.Json.Reading
import LeaseQueue.Proofs.Json.Reordered
/-!
# Reading values and records

A value in normal form that is not nested too deep reads as itself, and whatever is
read is in normal form. One member may be taken out from among the others first.
A record whose members are each read by the field of their key does not depend on
their order.
-/

namespace LeaseQueue
namespace Document

/-!
## Steps of a reader
-/

theorem bind_eq_ok_iff {α β : Type} {x : Except Failure α} {f : α → Except Failure β} {b : β} :
    (x >>= f) = .ok b ↔ ∃ a, x = .ok a ∧ f a = .ok b := by
  constructor
  · intro h
    cases x with
    | error e => cases h
    | ok a => exact ⟨a, rfl, h⟩
  · rintro ⟨a, rfl, h⟩
    exact h

theorem bind_of_ok {α β : Type} {x : Except Failure α} {a : α} (h : x = .ok a)
    (f : α → Except Failure β) : (x >>= f) = f a := by
  rw [h]
  rfl

theorem eq_ok_of_toOption {ε α : Type} {x : Except ε α} {a : α} (h : x.toOption = some a) :
    x = .ok a := by
  cases x with
  | error f => cases h
  | ok b =>
      cases h
      rfl

/-!
## Any value
-/

mutual
theorem toJson_reordered {v w : Json} (h : v.Reordered w) (hv : v.isOrdered = true) {room : Nat}
    (hroom : v.depth ≤ room) : toJson room (ofJson w) = .ok v := by
  match h with
  | .null => rfl
  | .bool b => rfl
  | .number n => rfl
  | .string s => rfl
  | .array hitems =>
      cases room with
      | zero => cases hroom
      | succ room =>
          have hread := toItems_reordered hitems hv (Nat.le_of_succ_le_succ hroom)
          show (toItems room (ofItems _) >>= _) = _
          exact bind_of_ok hread _
  | .object hperm hmembers =>
      cases room with
      | zero => cases hroom
      | succ room =>
          rcases Bool.and_eq_true_iff.mp hv with ⟨hascending, hordered⟩
          have hascending : Sorted.Ascending _ := of_decide_eq_true hascending
          have hshallow := Json.depthMembers_le_iff.mp (Nat.le_of_succ_le_succ hroom)
          have hread := toMembers_reordered hmembers
            (Json.isOrderedMembers_iff.mpr fun p hp =>
              Json.isOrderedMembers_iff.mp hordered p (hperm.mem_iff.mpr hp))
            (Json.depthMembers_le_iff.mpr fun p hp => hshallow p (hperm.mem_iff.mpr hp))
          show (toMembers room (ofMembers _) >>= _) = _
          rw [bind_of_ok hread]
          show Except.ok (Json.object (Sorted.ofPairs _)) = _
          rw [hascending.ofPairs_of_perm hperm]

theorem toItems_reordered {items others : List Json} (h : Json.ReorderedItems items others)
    (hitems : Json.isOrderedItems items = true) {room : Nat}
    (hroom : Json.depthItems items ≤ room) : toItems room (ofItems others) = .ok items := by
  match h with
  | .nil => rfl
  | .cons hv hrest =>
      rcases Bool.and_eq_true_iff.mp hitems with ⟨hordered, hordereds⟩
      rcases Nat.max_le.mp hroom with ⟨hroomv, hroomrest⟩
      show (toJson room (ofJson _) >>= _) = _
      rw [bind_of_ok (toJson_reordered hv hordered hroomv)]
      exact bind_of_ok (toItems_reordered hrest hordereds hroomrest) _

theorem toMembers_reordered {members others : List (String × Json)}
    (h : Json.ReorderedMembers members others) (hmembers : Json.isOrderedMembers members = true)
    {room : Nat} (hroom : Json.depthMembers members ≤ room) :
    toMembers room (ofMembers others) = .ok members := by
  match h with
  | .nil => rfl
  | .cons hv hrest =>
      rcases Bool.and_eq_true_iff.mp hmembers with ⟨hordered, hordereds⟩
      rcases Nat.max_le.mp hroom with ⟨hroomv, hroomrest⟩
      show (toJson room (ofJson _) >>= _) = _
      rw [bind_of_ok (toJson_reordered hv hordered hroomv)]
      exact bind_of_ok (toMembers_reordered hrest hordereds hroomrest) _
end

theorem ofMembers_append (front back : List (String × Json)) :
    ofMembers (front ++ back) = ofMembers front ++ ofMembers back := by
  induction front with
  | nil => rfl
  | cons p rest ih => rw [List.cons_append, ofMembers, ih, ofMembers, List.cons_append]

theorem isOrdered_ofMembers {pairs : List (String × Json)}
    (h : Json.isOrderedMembers pairs = true) : (Json.ofMembers pairs).isOrdered = true := by
  refine Bool.and_eq_true_iff.mpr ⟨decide_eq_true (Sorted.ascending_ofPairs pairs), ?_⟩
  refine Json.isOrderedMembers_iff.mpr fun p hp => ?_
  exact Json.isOrderedMembers_iff.mp h p (Sorted.mem_of_mem_ofPairs hp)

mutual
theorem isOrdered_of_toJson {room : Nat} (d : Document) {v : Json} (h : toJson room d = .ok v) :
    v.isOrdered = true := by
  cases d with
  | null =>
      cases h
      rfl
  | bool b =>
      cases h
      rfl
  | number n =>
      cases n with
      | error f => cases h
      | ok n =>
          cases h
          rfl
  | string s =>
      cases s with
      | error f => cases h
      | ok s =>
          cases h
          rfl
  | broken b => cases h
  | array items tail =>
      rcases bind_eq_ok_iff.mp h with ⟨inner, -, h⟩
      rcases bind_eq_ok_iff.mp h with ⟨vs, hvs, h⟩
      rcases bind_eq_ok_iff.mp h with ⟨-, -, h⟩
      cases h
      exact isOrderedItems_of_toItems items hvs
  | object members tail =>
      rcases bind_eq_ok_iff.mp h with ⟨inner, -, h⟩
      rcases bind_eq_ok_iff.mp h with ⟨pairs, hpairs, h⟩
      rcases bind_eq_ok_iff.mp h with ⟨-, -, h⟩
      cases h
      exact isOrdered_ofMembers (isOrderedMembers_of_toMembers members hpairs)

theorem isOrderedItems_of_toItems {room : Nat} (items : List Document) {vs : List Json}
    (h : toItems room items = .ok vs) : Json.isOrderedItems vs = true := by
  cases items with
  | nil =>
      cases h
      rfl
  | cons d rest =>
      rcases bind_eq_ok_iff.mp h with ⟨v, hv, h⟩
      rcases bind_eq_ok_iff.mp h with ⟨vs, hvs, h⟩
      cases h
      exact Bool.and_eq_true_iff.mpr
        ⟨isOrdered_of_toJson d hv, isOrderedItems_of_toItems rest hvs⟩

theorem isOrderedMembers_of_toMembers {room : Nat} (members : List (Key × Document))
    {pairs : List (String × Json)} (h : toMembers room members = .ok pairs) :
    Json.isOrderedMembers pairs = true := by
  cases members with
  | nil =>
      cases h
      rfl
  | cons m rest =>
      rcases m with ⟨key, d⟩
      rcases bind_eq_ok_iff.mp h with ⟨k, -, h⟩
      rcases bind_eq_ok_iff.mp h with ⟨v, hv, h⟩
      rcases bind_eq_ok_iff.mp h with ⟨pairs, hpairs, h⟩
      cases h
      exact Bool.and_eq_true_iff.mpr
        ⟨isOrdered_of_toJson d hv, isOrderedMembers_of_toMembers rest hpairs⟩
end

/-!
## Plain values
-/

theorem toWhole_ofJson {least greatest n : Int} (hleast : least ≤ n) (hgreatest : n ≤ greatest) :
    toWhole least greatest (ofJson (.whole n)) = .ok n := by
  simp [toWhole, ofJson, Json.whole, hleast, hgreatest]

theorem toCount_ofJson {n : Nat} (hn : (n : Int) ≤ greatestWhole) :
    toCount (ofJson (.count n)) = .ok n :=
  bind_of_ok (toWhole_ofJson (Int.natCast_nonneg n) hn) _

theorem le_of_toCount {d : Document} {n : Nat} (h : toCount d = .ok n) :
    (n : Int) ≤ greatestWhole := by
  rcases bind_eq_ok_iff.mp h with ⟨m, hm, h⟩
  cases h
  unfold toWhole at hm
  split at hm
  · split at hm
    · rename_i hbounds
      cases hm
      simp at hbounds
      omega
    · cases hm
  · cases hm

theorem toUInt64_ofJson (n : UInt64) : toUInt64 (ofJson (.count n.toNat)) = .ok n := by
  unfold toUInt64
  rw [bind_of_ok (toCount_ofJson (Json.toNat_le_greatestWhole n))]
  exact congrArg Except.ok UInt64.ofNat_toNat

theorem toUInt32_ofJson (n : UInt32) : toUInt32 (ofJson (.count n.toNat)) = .ok n := by
  have hn : (n.toNat : Int) ≤ 4294967295 := by
    have := n.toNat_lt
    omega
  unfold toUInt32
  rw [show Json.count n.toNat = .whole n.toNat from rfl,
    bind_of_ok (toWhole_ofJson (Int.natCast_nonneg _) hn)]
  exact congrArg Except.ok UInt32.ofNat_toNat

theorem toInt32_ofJson (n : Int32) : toInt32 (ofJson (.whole n.toInt)) = .ok n := by
  have hleast := n.le_toInt
  have hgreatest := n.toInt_lt
  unfold toInt32
  rw [bind_of_ok (toWhole_ofJson (by omega) (by omega))]
  exact congrArg Except.ok (Int32.ofInt_toInt n)

theorem toOption_of_ne_null {α : Type} {read : Document → Except Failure α} {d : Document} {a : α}
    (hd : d ≠ .null) (hread : read d = .ok a) : toOption read d = .ok (some a) := by
  cases d with
  | null => exact absurd rfl hd
  | _ => exact bind_of_ok hread _

theorem toListItems_ofTexts (l : List String) :
    toListItems toText (ofItems (l.map .string)) = .ok l := by
  induction l with
  | nil => rfl
  | cons s rest ih =>
      show (toListItems toText (ofItems (rest.map .string)) >>= _) = _
      exact bind_of_ok ih _

theorem toList_ofTexts (room : Nat) (l : List String) :
    toList toText (room + 1) (ofJson (.texts l)) = .ok l := by
  show (toListItems toText (ofItems (l.map .string)) >>= _) = _
  exact bind_of_ok (toListItems_ofTexts l) _

/-!
## One member apart from the others
-/

/-- A reader takes the value of one key out from among the members of an object. All other members
are set aside as they are, once their values have been read in full. -/
structure TakesOut {α : Type} (key : String) (take : Document → Except Failure α) (room : Nat)
    (split : Option α → List (Key × Document) → Except Failure (Option α × List (Key × Document))) :
    Prop where
  done : ∀ a, split a [] = .ok (a, [])
  taken : ∀ d rest, split none ((.text key, d) :: rest) = take d >>= fun a => split (some a) rest
  aside : ∀ a k d rest, k ≠ key → split a ((.text k, d) :: rest) =
    toJson room d >>= fun _ => split a rest >>= fun p => .ok (p.1, (.text k, d) :: p.2)

namespace TakesOut

variable {α : Type} {key : String} {take : Document → Except Failure α} {room : Nat}
  {split : Option α → List (Key × Document) → Except Failure (Option α × List (Key × Document))}

theorem append (h : TakesOut key take room split) {members members' : List (String × Json)}
    (hmembers : Json.ReorderedMembers members members')
    (hplain : ∀ p ∈ members, p.2.Plain room ∧ p.1 ≠ key) {a b : Option α}
    {rest others : List (Key × Document)} (hrest : split a rest = .ok (b, others)) :
    split a (ofMembers members' ++ rest) = .ok (b, ofMembers members' ++ others) := by
  induction members generalizing members' with
  | nil =>
      cases hmembers
      exact hrest
  | cons p more ih =>
      cases hmembers with
      | @cons k _ w _ more' hv hmore =>
          rcases List.forall_mem_cons.mp hplain with ⟨⟨hp, hne⟩, hplain⟩
          have hread := toJson_reordered hv hp.ordered hp.shallow
          rw [ofMembers, List.cons_append, h.aside _ _ _ _ hne, bind_of_ok hread,
            bind_of_ok (ih hmore hplain)]
          rfl

theorem between (h : TakesOut key take room split) {front front' back back' : List (String × Json)}
    (hfront : Json.ReorderedMembers front front') (hback : Json.ReorderedMembers back back')
    (hplain : ∀ p ∈ front ++ back, p.2.Plain room ∧ p.1 ≠ key) {v : Json} {a : α}
    (hv : take (ofJson v) = .ok a) :
    split none (ofMembers (front' ++ (key, v) :: back')) =
      .ok (some a, ofMembers (front' ++ back')) := by
  rcases List.forall_mem_append.mp hplain with ⟨hplainfront, hplainback⟩
  have hlater : split (some a) (ofMembers back') = .ok (some a, ofMembers back') := by
    have hall := h.append hback hplainback (h.done (some a))
    rwa [List.append_nil] at hall
  rw [ofMembers_append, ofMembers_append]
  refine h.append hfront hplainfront ?_
  rw [ofMembers, h.taken, bind_of_ok hv]
  exact hlater

end TakesOut

/-!
## Records
-/

section

variable {σ : Type} {fields : List (Field σ)} {room : Nat}

theorem Field.mem_of_withKey {key : String} {f : Field σ} (h : withKey key fields = some f) :
    f ∈ fields := by
  induction fields with
  | nil => cases h
  | cons g rest ih =>
      unfold withKey at h
      split at h
      · cases h
        exact List.mem_cons_self
      · exact List.mem_cons_of_mem _ (ih h)

/-- A member of a record as it is written, and what it puts into the record that is read. -/
structure Slot (σ : Type) where
  key : String
  value : Json
  put : σ → σ

namespace Slot

def pair (e : Slot σ) : String × Json := (e.key, e.value)

/-- The field of the slot's key reads its value, in whatever order that is written. -/
def IsReadBy (fields : List (Field σ)) (room : Nat) (e : Slot σ) : Prop :=
  ∃ f, Field.withKey e.key fields = some f ∧
    ∀ w, e.value.Reordered w → ∀ s, f.read room (ofJson w) s = .ok (e.put s)

theorem isReadBy_of_rigid {e : Slot σ} {f : Field σ} (hf : Field.withKey e.key fields = some f)
    (hrigid : e.value.Rigid) (hread : ∀ s, f.read room (ofJson e.value) s = .ok (e.put s)) :
    e.IsReadBy fields room := by
  refine ⟨f, hf, fun w hw s => ?_⟩
  rw [hrigid w hw]
  exact hread s

def putAll (slots : List (Slot σ)) (s : σ) : σ := slots.foldl (fun s e => e.put s) s

end Slot

variable {slots slots' : List (Slot σ)} {others : List (String × Json)}

theorem fillMembers_slots (hread : ∀ e ∈ slots, e.IsReadBy fields room)
    (hkeys : (slots.map Slot.key).Nodup)
    (hothers : Json.ReorderedMembers (slots.map Slot.pair) others) {seen : List String}
    (hseen : ∀ e ∈ slots, e.key ∉ seen) (s : σ) :
    fillMembers fields room seen s (ofMembers others) =
      .ok ((slots.map Slot.key).reverse ++ seen, Slot.putAll slots s) := by
  -- What was seen are the keys of the slots before, so none comes twice.
  induction slots generalizing others seen s with
  | nil =>
      cases hothers
      rfl
  | cons e rest ih =>
      cases hothers with
      | @cons _ _ w _ others hv hrest =>
          rcases hread e List.mem_cons_self with ⟨f, hfield, hvalue⟩
          rcases List.nodup_cons.mp hkeys with ⟨hnew, hkeys⟩
          have hunseen : seen.contains e.key = false := by
            simpa using hseen e List.mem_cons_self
          have hlater : ∀ g ∈ rest, g.key ∉ e.key :: seen := by
            intro g hg hmem
            rcases List.mem_cons.mp hmem with heq | hold
            · exact hnew (heq ▸ List.mem_map_of_mem hg)
            · exact hseen g (List.mem_cons_of_mem e hg) hold
          rw [ofMembers, fillMembers, bind_of_ok (rfl : keyText (.text e.key) = .ok e.key)]
          simp only [hfield, hunseen]
          rw [if_neg Bool.false_ne_true, bind_of_ok (hvalue w hv s),
            ih (fun g hg => hread g (List.mem_cons_of_mem e hg)) hkeys hrest hlater (e.put s)]
          simp [Slot.putAll]

/-- The slots of a record: each is read by its field, and their order does not matter. -/
structure Readable (fields : List (Field σ)) (room : Nat) (slots : List (Slot σ)) : Prop where
  read : ∀ e ∈ slots, e.IsReadBy fields room
  keys : (slots.map Slot.key).Nodup
  commute : ∀ e ∈ slots, ∀ g ∈ slots, ∀ s, g.put (e.put s) = e.put (g.put s)
  needed : (fields.all fun f => !f.needed || (slots.map Slot.key).contains f.key) = true

theorem Readable.toRecord_members (h : Readable fields room slots)
    (hperm : slots.Perm slots')
    (hothers : Json.ReorderedMembers (slots'.map Slot.pair) others) (blank : σ) :
    toRecord fields blank (room + 1) (.object (ofMembers others) .closed) =
      .ok (Slot.putAll slots blank) := by
  have hkeys := (hperm.map Slot.key)
  have hfill := fillMembers_slots (fun e he => h.read e (hperm.mem_iff.mpr he))
    (hkeys.nodup_iff.mp h.keys) hothers (fun _ _ => List.not_mem_nil) blank
  have hall : (fields.all fun f => !f.needed ||
      ((slots'.map Slot.key).reverse ++ []).contains f.key) = true := by
    refine List.all_eq_true.mpr fun f hf => ?_
    have hf := List.all_eq_true.mp h.needed f hf
    simpa [← hkeys.mem_iff] using hf
  -- The fields take the slots as they stand there, which comes to the same.
  have hput : Slot.putAll slots' blank = Slot.putAll slots blank :=
    (hperm.foldl_eq' h.commute blank).symm
  rw [toRecord, bind_of_ok (rfl : enter (room + 1) = .ok room), bind_of_ok hfill]
  simp only [hall, hput]
  rfl

/-- A record is read from its object in any order. -/
theorem Readable.toRecord_reordered (h : Readable fields room slots) {v : Json}
    (hv : Json.Reordered (.ofMembers (slots.map Slot.pair)) v) (blank : σ) :
    toRecord fields blank (room + 1) (ofJson v) = .ok (Slot.putAll slots blank) := by
  have hkeys : ((slots.map Slot.pair).map Prod.fst).Nodup := by
    rw [List.map_map]
    exact h.keys
  cases hv with
  | object hperm hothers =>
      rcases Json.exists_map_of_perm ((Sorted.perm_ofPairs hkeys).symm.trans hperm) with
        ⟨slots', hslots, rfl⟩
      exact h.toRecord_members hslots hothers blank

/-!
What every field keeps, a record has that is read from any document.
-/

variable {P : σ → Prop}

theorem of_fillMembers (hfields : ∀ f ∈ fields, ∀ d s t, P s → f.read room d s = .ok t → P t)
    {members : List (Key × Document)} {seen later : List String} {s t : σ} (hs : P s)
    (h : fillMembers fields room seen s members = .ok (later, t)) : P t := by
  induction members generalizing seen s with
  | nil =>
      cases h
      exact hs
  | cons m rest ih =>
      rcases m with ⟨key, d⟩
      rcases bind_eq_ok_iff.mp h with ⟨k, -, h⟩
      split at h
      · rcases bind_eq_ok_iff.mp h with ⟨-, -, h⟩
        exact ih hs h
      · rename_i f hfield
        split at h
        · cases h
        · rcases bind_eq_ok_iff.mp h with ⟨s', hread, h⟩
          exact ih (hfields f (Field.mem_of_withKey hfield) d s s' hs hread) h

theorem of_fillItems (hfields : ∀ f ∈ fields, ∀ d s t, P s → f.read room d s = .ok t → P t)
    {items : List Document} {tail : Tail} {s t : σ} (hs : P s)
    (h : fillItems room tail fields items s = .ok t) : P t := by
  induction fields generalizing items s with
  | nil =>
      rcases bind_eq_ok_iff.mp h with ⟨-, -, h⟩
      cases h
      exact hs
  | cons f rest ih =>
      cases items with
      | nil =>
          rcases bind_eq_ok_iff.mp h with ⟨-, -, h⟩
          split at h
          · cases h
          · cases h
            exact hs
      | cons d items =>
          rcases bind_eq_ok_iff.mp h with ⟨s', hread, h⟩
          have hkept := hfields f List.mem_cons_self d s s' hs hread
          exact ih (fun g hg => hfields g (List.mem_cons_of_mem _ hg)) hkept h

theorem of_toRecord (hfields : ∀ f ∈ fields, ∀ room d s t, P s → f.read room d s = .ok t → P t)
    {d : Document} {blank t : σ} (hblank : P blank) (h : toRecord fields blank room d = .ok t) :
    P t := by
  cases d with
  | object members tail =>
      rcases bind_eq_ok_iff.mp h with ⟨inner, -, h⟩
      rcases bind_eq_ok_iff.mp h with ⟨⟨seen, s⟩, hfill, h⟩
      rcases bind_eq_ok_iff.mp h with ⟨-, -, h⟩
      have hs : P s := of_fillMembers (fun f hf => hfields f hf inner) hblank hfill
      split at h
      · cases h
        exact hs
      · cases h
  | array items tail =>
      rcases bind_eq_ok_iff.mp h with ⟨inner, -, h⟩
      exact of_fillItems (fun f hf => hfields f hf inner) hblank h
  | _ => cases h

end

end Document
end LeaseQueue
