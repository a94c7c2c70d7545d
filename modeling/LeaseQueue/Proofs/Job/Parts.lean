import LeaseQueue.Job.Record
import LeaseQueue.Proofs.Json.Reading
/-!
# Parts of a record as they are written

Each part of the base of a job reads back from what is written of it, in whatever
order its members stand; a moment does so only if its own text does. The kind of a
dependency is taken out from among its members first.
-/

namespace LeaseQueue

open Document (Slot Readable)

namespace Timestamp

def ReadsBack (t : Timestamp) : Prop := parse? t.render = some t

instance (t : Timestamp) : Decidable t.ReadsBack :=
  inferInstanceAs (Decidable (parse? t.render = some t))

theorem toOption_ofJson {o : Option Timestamp} (h : ∀ t ∈ o, t.ReadsBack) :
    Document.toOption ofDocument (.ofJson (Json.option toJson o)) = .ok o := by
  cases o with
  | none => rfl
  | some t =>
      have hread : read t.render.toList = some t := h t rfl
      show Document.toOption ofDocument (.string (.ok t.render)) = _
      refine Document.toOption_of_ne_null (by simp) ?_
      unfold ofDocument
      have htext : Document.toText (.string (.ok t.render)) = .ok t.render := rfl
      rw [Document.bind_of_ok htext, hread]
      rfl

theorem rigid_option (o : Option Timestamp) : (Json.option toJson o).Rigid :=
  .option fun t => .string t.render

@[simp] theorem plain_option (o : Option Timestamp) {room : Nat} :
    (Json.option toJson o).Plain room := .option fun t => .string t.render

end Timestamp

namespace JobType

def slots (t : JobType) : List (Slot JobType) := [
  ⟨"name", .string t.name, fun u => { u with name := t.name }⟩,
  ⟨"format", t.format.toJson, fun u => { u with format := t.format }⟩,
  ⟨"version", .count t.version.toNat, fun u => { u with version := t.version }⟩]

theorem readable (t : JobType) (buffered : Bool) (room : Nat) :
    Readable (fields buffered) room t.slots where
  read := by
    have hformat : Format.ofDocument buffered room (.ofJson t.format.toJson) = .ok t.format := by
      cases t.format
      rfl
    simp only [slots, List.forall_mem_cons]
    exact ⟨Slot.isReadBy_of_rigid rfl (.string _) fun _ => rfl,
      Slot.isReadBy_of_rigid rfl (.string _) fun _ => Document.bind_of_ok hformat _,
      Slot.isReadBy_of_rigid rfl (.number _) fun _ =>
        Document.bind_of_ok (Document.toUInt32_ofJson t.version) _, fun _ h => nomatch h⟩
  keys := by simp [slots]
  commute := by simp [slots]
  needed := rfl

theorem ofDocument_reordered (t : JobType) (buffered : Bool) (room : Nat) {v : Json}
    (hv : t.toJson.Reordered v) : ofDocument buffered (room + 1) (.ofJson v) = .ok t :=
  (t.readable buffered room).toRecord_reordered hv blank

@[simp] theorem plain_toJson (t : JobType) {room : Nat} : t.toJson.Plain (room + 1) :=
  .ofMembers (by simp [Format.toJson])

end JobType

namespace Status

def slots (s : Status) : List (Slot Status) := [
  ⟨"completed", .bool s.completed, fun t => { t with completed := s.completed }⟩,
  ⟨"failed", .bool s.failed, fun t => { t with failed := s.failed }⟩,
  ⟨"in_progress", .bool s.inProgress, fun t => { t with inProgress := s.inProgress }⟩,
  ⟨"owner", .string s.owner, fun t => { t with owner := s.owner }⟩,
  ⟨"mod_count", .count s.modCount.toNat, fun t => { t with modCount := s.modCount }⟩,
  ⟨"mod_time", Json.option Timestamp.toJson s.modTime, fun t => { t with modTime := s.modTime }⟩]

theorem readable {s : Status} (htime : ∀ t ∈ s.modTime, t.ReadsBack) (room : Nat) :
    Readable fields room s.slots where
  read := by
    simp only [slots, List.forall_mem_cons]
    exact ⟨Slot.isReadBy_of_rigid rfl (.bool _) fun _ => rfl,
      Slot.isReadBy_of_rigid rfl (.bool _) fun _ => rfl,
      Slot.isReadBy_of_rigid rfl (.bool _) fun _ => rfl,
      Slot.isReadBy_of_rigid rfl (.string _) fun _ => rfl,
      Slot.isReadBy_of_rigid rfl (.number _) fun _ =>
        Document.bind_of_ok (Document.toUInt64_ofJson s.modCount) _,
      Slot.isReadBy_of_rigid rfl (Timestamp.rigid_option _) fun _ =>
        Document.bind_of_ok (Timestamp.toOption_ofJson htime) _, fun _ h => nomatch h⟩
  keys := by simp [slots]
  commute := by simp [slots]
  needed := rfl

theorem ofDocument_reordered {s : Status} (htime : ∀ t ∈ s.modTime, t.ReadsBack) (room : Nat)
    {v : Json} (hv : s.toJson.Reordered v) : ofDocument (room + 1) (.ofJson v) = .ok s :=
  (readable htime room).toRecord_reordered hv blank

@[simp] theorem plain_toJson (s : Status) {room : Nat} : s.toJson.Plain (room + 1) :=
  .ofMembers (by simp)

end Status

namespace Times

def slots (t : Times) : List (Slot Times) := [
  ⟨"created", Json.option Timestamp.toJson t.created, fun u => { u with created := t.created }⟩,
  ⟨"start", Json.option Timestamp.toJson t.start, fun u => { u with start := t.start }⟩,
  ⟨"end", Json.option Timestamp.toJson t.finish, fun u => { u with finish := t.finish }⟩]

theorem readable {t : Times}
    (htimes : ∀ o ∈ [t.created, t.start, t.finish], ∀ m ∈ o, m.ReadsBack) (room : Nat) :
    Readable fields room t.slots where
  read := by
    have hread : ∀ o ∈ [t.created, t.start, t.finish],
        Document.toOption Timestamp.ofDocument (.ofJson (Json.option Timestamp.toJson o)) = .ok o :=
      fun o ho => Timestamp.toOption_ofJson (htimes o ho)
    simp only [List.forall_mem_cons] at hread
    rcases hread with ⟨hcreated, hstart, hfinish, -⟩
    simp only [slots, List.forall_mem_cons]
    exact ⟨Slot.isReadBy_of_rigid rfl (Timestamp.rigid_option _) fun _ =>
        Document.bind_of_ok hcreated _,
      Slot.isReadBy_of_rigid rfl (Timestamp.rigid_option _) fun _ => Document.bind_of_ok hstart _,
      Slot.isReadBy_of_rigid rfl (Timestamp.rigid_option _) fun _ => Document.bind_of_ok hfinish _,
      fun _ h => nomatch h⟩
  keys := by simp [slots]
  commute := by simp [slots]
  needed := rfl

theorem ofDocument_reordered {t : Times}
    (htimes : ∀ o ∈ [t.created, t.start, t.finish], ∀ m ∈ o, m.ReadsBack) (room : Nat) {v : Json}
    (hv : t.toJson.Reordered v) : ofDocument (room + 1) (.ofJson v) = .ok t :=
  (readable htimes room).toRecord_reordered hv blank

@[simp] theorem plain_toJson (t : Times) {room : Nat} : t.toJson.Plain (room + 1) :=
  .ofMembers (by simp)

end Times

namespace Dependency

def tag : Dependency → Tag
  | .always => .always
  | .edges _ => .edges
  | .createsFile _ => .createsFile

def word : Dependency → String
  | .always => "always"
  | .edges _ => "edges"
  | .createsFile _ => "creates_file"

def contents : Dependency → List (Slot Dependency)
  | .always => []
  | .edges ids => [⟨"edges", .texts ids, fun _ => .edges ids⟩]
  | .createsFile path => [⟨"path", .string path, fun _ => .createsFile path⟩]

theorem toJson_eq (d : Dependency) :
    d.toJson = .ofMembers (("kind", .string d.word) :: d.contents.map Slot.pair) := by
  cases d <;> rfl

theorem plain_contents (d : Dependency) {room : Nat} :
    ∀ p ∈ d.contents.map Slot.pair, p.2.Plain (room + 1) ∧ p.1 ≠ "kind" := by
  cases d <;> simp [contents, Slot.pair]

@[simp] theorem plain_toJson (d : Dependency) {room : Nat} : d.toJson.Plain (room + 2) := by
  rw [toJson_eq]
  refine .ofMembers (List.forall_mem_cons.mpr ⟨.string _, fun p hp => ?_⟩)
  exact (d.plain_contents p hp).1

theorem takesOut_splitTag (buffered : Bool) (room : Nat) :
    Document.TakesOut "kind" (toTag buffered) room (splitTag buffered room) where
  done := fun _ => rfl
  taken := fun _ _ => rfl
  aside := by
    intro taken k d rest hne
    show (if k = "kind" then _ else _) = _
    rw [if_neg hne]
    rfl

theorem ofContents_members (d : Dependency) {slots : List (Slot Dependency)}
    {others : List (String × Json)} (hperm : d.contents.Perm slots)
    (hothers : Json.ReorderedMembers (slots.map Slot.pair) others) :
    ofContents d.tag (.object (Document.ofMembers others) .closed) = .ok d := by
  cases d with
  | always => rfl
  | edges ids =>
      have hread := Document.toList_ofTexts 125 ids
      have hreadable : Readable
          [.requiredDeep "edges" (Document.toList Document.toText) fun v _ => Dependency.edges v]
          126 (contents (.edges ids)) := by
        refine ⟨List.forall_mem_singleton.mpr ?_, by simp [contents], by simp [contents], rfl⟩
        exact Slot.isReadBy_of_rigid rfl (.texts ids) fun _ => Document.bind_of_ok hread _
      exact congrArg settled (hreadable.toRecord_members hperm hothers _)
  | createsFile path =>
      have hreadable : Readable
          [.required "path" Document.toText fun v _ => Dependency.createsFile v] 126
          (contents (.createsFile path)) := by
        refine ⟨List.forall_mem_singleton.mpr ?_, by simp [contents], by simp [contents], rfl⟩
        exact Slot.isReadBy_of_rigid rfl (.string path) fun _ => rfl
      exact congrArg settled (hreadable.toRecord_members hperm hothers _)

theorem ofDocument_reordered (d : Dependency) (buffered : Bool) (room : Nat) {v : Json}
    (hv : d.toJson.Reordered v) : ofDocument buffered (room + 2) (.ofJson v) = .ok d := by
  have hkeys : ((("kind", Json.string d.word) :: d.contents.map Slot.pair).map Prod.fst).Nodup := by
    cases d <;> simp [contents, Slot.pair]
  rw [toJson_eq] at hv
  rcases hv.exists_split hkeys (List.Perm.refl _) with
    ⟨front, back, v', front', back', rfl, hperm, hkind, hfront, hback⟩
  cases hkind
  rcases Json.exists_map_of_perm hperm with ⟨slots, hslots, hmap⟩
  have hplain : ∀ p ∈ front ++ back, p.2.Plain (room + 1) ∧ p.1 ≠ "kind" :=
    fun p hp => d.plain_contents p (hperm.mem_iff.mpr hp)
  have htag : toTag buffered (.ofJson (.string d.word)) = .ok d.tag := by
    cases d <;> rfl
  have hsplit := (takesOut_splitTag buffered (room + 1)).between hfront hback hplain htag
  show (splitTag buffered (room + 1) none _ >>= _) = _
  rw [Document.bind_of_ok hsplit]
  exact d.ofContents_members hslots (hmap ▸ hfront.append hback)

end Dependency
end LeaseQueue
