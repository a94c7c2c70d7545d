import LeaseQueue.Proofs.Json.Text
import LeaseQueue.Proofs.Job.Parts
/-!
# Records as they are written

A record reads back from its own text, whatever fields of it are set, and so does a
record that was read from any other text. The payload takes part in full: it is
written beside the base and must fit into the object around both.
-/

namespace LeaseQueue

open Document (Slot Readable)

namespace Base

def stamps (b : Base) : List (Option Timestamp) :=
  [b.status.modTime, b.times.created, b.times.start, b.times.finish]

def moments (b : Base) : List Timestamp := b.stamps.flatMap Option.toList

def slots (b : Base) : List (Slot Base) := [
  ⟨"id", .string b.id, fun c => { c with id := b.id }⟩,
  ⟨"type", b.jobType.toJson, fun c => { c with jobType := b.jobType }⟩,
  ⟨"status", b.status.toJson, fun c => { c with status := b.status }⟩,
  ⟨"priority", .whole b.priority.toInt, fun c => { c with priority := b.priority }⟩,
  ⟨"time_info", b.times.toJson, fun c => { c with times := b.times }⟩,
  ⟨"dependency", b.dependency.toJson, fun c => { c with dependency := b.dependency }⟩] ++
  match b.error with
  | some e => [⟨"error", .string e, fun c => { c with error := some e }⟩]
  | none => []

theorem map_pair_slots (b : Base) : b.slots.map Slot.pair = b.members := by
  rcases b with ⟨id, jobType, status, priority, times, dependency, error⟩
  cases error <;> rfl

theorem putAll_slots (b : Base) : Slot.putAll b.slots blank = b := by
  rcases b with ⟨id, jobType, status, priority, times, dependency, error⟩
  cases error <;> rfl

theorem plain_members (b : Base) {room : Nat} : ∀ p ∈ b.members, p.2.Plain (room + 2) := by
  rcases b with ⟨id, jobType, status, priority, times, dependency, error⟩
  cases error <;> simp [members]

theorem readable {b : Base} (htimes : ∀ t ∈ b.moments, t.ReadsBack) (buffered : Bool) (room : Nat) :
    Readable (fields buffered) (room + 2) b.slots where
  read := by
    have hstamps : ∀ o ∈ b.stamps, ∀ t ∈ o, t.ReadsBack :=
      fun o ho t ht => htimes t (List.mem_flatMap.mpr ⟨o, ho, Option.mem_toList.mpr ht⟩)
    rcases List.forall_mem_cons.mp hstamps with ⟨hstatus, htime⟩
    refine List.forall_mem_append.mpr ⟨?_, ?_⟩
    · simp only [List.forall_mem_cons]
      exact ⟨Slot.isReadBy_of_rigid rfl (.string _) fun _ => rfl,
        ⟨_, rfl, fun w hw _ =>
          Document.bind_of_ok (b.jobType.ofDocument_reordered buffered (room + 1) hw) _⟩,
        ⟨_, rfl, fun w hw _ =>
          Document.bind_of_ok (Status.ofDocument_reordered hstatus (room + 1) hw) _⟩,
        Slot.isReadBy_of_rigid rfl (.number _) fun _ =>
          Document.bind_of_ok (Document.toInt32_ofJson b.priority) _,
        ⟨_, rfl, fun w hw _ =>
          Document.bind_of_ok (Times.ofDocument_reordered htime (room + 1) hw) _⟩,
        ⟨_, rfl, fun w hw _ =>
          Document.bind_of_ok (b.dependency.ofDocument_reordered buffered room hw) _⟩,
        fun _ h => nomatch h⟩
    · intro e he
      split at he
      · cases List.mem_singleton.mp he
        exact Slot.isReadBy_of_rigid rfl (.string _) fun _ => rfl
      · cases he
  keys := by
    rcases b with ⟨id, jobType, status, priority, times, dependency, error⟩
    cases error <;> simp [slots]
  commute := by
    rcases b with ⟨id, jobType, status, priority, times, dependency, error⟩
    cases error <;> simp [slots]
  needed := by
    rcases b with ⟨id, jobType, status, priority, times, dependency, error⟩
    cases error <;> rfl

end Base

namespace Record

section

variable {room : Nat}

theorem takesOut_splitPayload (room : Nat) :
    Document.TakesOut "payload" (Document.toJson room) room (splitPayload room) where
  done := fun _ => rfl
  taken := fun _ _ => rfl
  aside := by
    intro taken k d rest hne
    show (if k = "payload" then _ else _) = _
    rw [if_neg hne]
    rfl

theorem members_ne_payload (b : Base) : ∀ p ∈ b.members, p.1 ≠ "payload" := by
  rcases b with ⟨id, jobType, status, priority, times, dependency, error⟩
  cases error <;> simp [Base.members]

theorem nodup_members (r : Record) :
    ((r.base.members ++ [("payload", r.payload)]).map Prod.fst).Nodup := by
  rcases r with ⟨⟨id, jobType, status, priority, times, dependency, error⟩, payload⟩
  cases error <;> simp [Base.members]

theorem plain_toJson {r : Record} (hpayload : r.payload.Plain (room + 2)) :
    r.toJson.Plain (room + 3) :=
  .ofMembers (List.forall_mem_append.mpr
    ⟨r.base.plain_members, List.forall_mem_singleton.mpr hpayload⟩)

/-- A record is read from its object in any order: the payload is taken out, and the base is what
all other members give. -/
theorem ofDocument_reordered {r : Record} (htimes : ∀ t ∈ r.base.moments, t.ReadsBack)
    (hpayload : r.payload.Plain (room + 2)) {v : Json} (hv : r.toJson.Reordered v) :
    ofDocument (room + 3) (.ofJson v) = .ok r := by
  rcases hv.exists_split (nodup_members r) (List.perm_append_singleton _ _) with
    ⟨front, back, w, front', back', rfl, hperm, hw, hfront, hback⟩
  have hothers : ∀ p ∈ front ++ back, p.2.Plain (room + 2) ∧ p.1 ≠ "payload" := by
    intro p hp
    have hp := hperm.mem_iff.mpr hp
    exact ⟨r.base.plain_members p hp, members_ne_payload r.base p hp⟩
  have hread := Document.toJson_reordered hw hpayload.ordered hpayload.shallow
  have hsplit := (takesOut_splitPayload (room + 2)).between hfront hback hothers hread
  rw [← r.base.map_pair_slots] at hperm
  rcases Json.exists_map_of_perm hperm with ⟨slots, hslots, hmap⟩
  have hbase := (r.base.readable htimes true 124).toRecord_members hslots
    (hmap ▸ hfront.append hback) Base.blank
  rw [Base.putAll_slots] at hbase
  show (splitPayload (room + 2) none _ >>= _) = _
  rw [Document.bind_of_ok hsplit]
  show (Dependency.settled (Document.toRecord (Base.fields true) Base.blank (126 + 1)
    (.object (Document.ofMembers (front' ++ back')) .closed)) >>= _) = _
  rw [hbase]
  rfl

/-!
## What was read
-/

theorem isOrdered_of_splitPayload {payload taken : Option Json}
    {members others : List (Key × Document)}
    (h : splitPayload room payload members = .ok (taken, others))
    (hpayload : ∀ v ∈ payload, v.isOrdered = true) : ∀ v ∈ taken, v.isOrdered = true := by
  induction members generalizing payload others with
  | nil =>
      cases h
      exact hpayload
  | cons m rest ih =>
      rcases m with ⟨key, d⟩
      rcases Document.bind_eq_ok_iff.mp h with ⟨k, -, h⟩
      split at h
      · split at h
        · cases h
        · rcases Document.bind_eq_ok_iff.mp h with ⟨v, hv, h⟩
          refine ih h fun w hw => ?_
          cases hw
          exact Document.isOrdered_of_toJson d hv
      · rcases Document.bind_eq_ok_iff.mp h with ⟨-, -, h⟩
        rcases Document.bind_eq_ok_iff.mp h with ⟨⟨p, others⟩, hrest, h⟩
        cases h
        exact ih hrest hpayload

theorem isOrdered_of_ofDocument {d : Document} {r : Record} (h : ofDocument room d = .ok r) :
    r.payload.isOrdered = true := by
  cases d with
  | object members tail =>
      rcases Document.bind_eq_ok_iff.mp h with ⟨inner, -, h⟩
      rcases Document.bind_eq_ok_iff.mp h with ⟨⟨payload, others⟩, hsplit, h⟩
      rcases Document.bind_eq_ok_iff.mp h with ⟨-, -, h⟩
      rcases Document.bind_eq_ok_iff.mp h with ⟨base, -, h⟩
      cases h
      have htaken := isOrdered_of_splitPayload hsplit fun v hv => nomatch hv
      cases payload with
      | none => rfl
      | some v => exact htaken v rfl
  | _ => cases h

theorem ofDocument_of_parse {text : String} {r : Record} (h : parse text = .ok r) :
    ∃ d, ofDocument nestingLimit d = .ok r := by
  refine ⟨(Document.read text.toList).1, ?_⟩
  unfold parse Document.parse at h
  split at h
  rename_i d rest hread
  rw [hread]
  split at h
  · cases h
  · rename_i a ha
    split at h
    · split at h
      · cases h
        exact ha
      · cases h
    · cases h

/-!
## Round trips
-/

/-- A record reads back from its object and from its text, in whatever order the members of objects
are written there. The payload is one that is kept in order, or was read from any text, whatever
fields of the record were missing there, out of order, null or unknown. -/
theorem survives_writing (r : Record) (htimes : ∀ t ∈ r.base.moments, t.ReadsBack)
    (hwhole : r.payload.isWhole = true) (hdepth : r.payload.depth < nestingLimit)
    (horigin : r.payload.isOrdered = true ∨ ∃ text, parse text = .ok r) :
    (parse r.render = .ok r ∧ ofJson r.toJson = .ok r) ∧
      ∀ v, r.toJson.Reordered v → parse v.render = .ok r ∧ ofJson v = .ok r := by
  have hordered : r.payload.isOrdered = true := by
    rcases horigin with hordered | ⟨text, htext⟩
    · exact hordered
    · rcases ofDocument_of_parse htext with ⟨d, hd⟩
      exact isOrdered_of_ofDocument hd
  have hpayload : r.payload.Plain (124 + 2) := ⟨hordered, hwhole, Nat.le_of_lt_succ hdepth⟩
  have hback : ∀ v, r.toJson.Reordered v → parse v.render = .ok r ∧ ofJson v = .ok r := by
    intro v hv
    have hread : ofDocument nestingLimit (.ofJson v) = .ok r :=
      ofDocument_reordered htimes hpayload hv
    refine ⟨?_, hread⟩
    unfold parse
    rw [Document.parse_render ofDocument (hv.isWhole (plain_toJson hpayload).whole), hread]
  exact ⟨hback r.toJson (Json.Reordered.refl r.toJson), hback⟩

end

def lost : Record :=
  ⟨⟨"lost", ⟨"shell", .json, 2⟩, ⟨false, true, false, "", 7, some ⟨1700000000, 250000000⟩⟩, -3,
    ⟨some ⟨1699999990, 0⟩, none, some ⟨1700000000, 5⟩⟩, .edges ["build", "test"], some "no disk"⟩,
    .object [("id", .string "other"), ("steps", .array [.null, .whole (-5), .bool true])]⟩

def sparse : Record := ⟨.named "sparse" (.named "shell" 0), .array [.null, .whole (-5)]⟩

theorem survives_writing_of_lost_and_sparse :
    parse lost.render = .ok lost ∧ parse sparse.render = .ok sparse := by
  let other : Json := .object [("error", .null), ("payload", .array [.null, .whole (-5)]),
    ("new", .whole 0), ("type", .object [("name", .string "shell")]), ("id", .string "sparse")]
  have hother : parse other.render = .ok sparse :=
    (Document.parse_render ofDocument (by decide : other.isWhole = true)).trans rfl
  have hlost := survives_writing lost (by decide +kernel) (by decide) (by decide) (.inl (by decide))
  have hsparse := survives_writing sparse (by decide) (by decide) (by decide)
    (.inr ⟨other.render, hother⟩)
  exact ⟨hlost.1.1, hsparse.1.1⟩

end Record
end LeaseQueue
