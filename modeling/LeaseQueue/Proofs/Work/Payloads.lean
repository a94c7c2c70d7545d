import LeaseQueue.Work.Basic
import LeaseQueue.Proofs.Json.Reading
import LeaseQueue.Proofs.Job.Kinds
/-!
# Payloads of the kinds of work

A command reads back from its payload if its variables are listed as a map is kept,
and one that was read always lists them so. Drills and kept payloads read back too,
so the registries of work hold lawful kinds only. Building such a registry's own
snapshots gives the jobs they were taken of.
-/

namespace LeaseQueue

open Document (Slot Readable)

namespace ShellCommand

def binding (p : String × String) : String × Json := (p.1, .string p.2)

def slots (c : ShellCommand) : List (Slot ShellCommand) :=
  [⟨"command", .string c.command, fun d => { d with command := c.command }⟩,
    ⟨"working_dir", .string c.workingDir, fun d => { d with workingDir := c.workingDir }⟩] ++
  (if c.environment.isEmpty then []
    else [⟨"env", .object (c.environment.map binding),
      fun d => { d with environment := c.environment }⟩]) ++
  match c.output with
  | some s => [⟨"output", .string s, fun d => { d with output := some s }⟩]
  | none => []

theorem toJson_eq (c : ShellCommand) : c.toJson = .ofMembers (c.slots.map Slot.pair) := by
  rcases c with ⟨command, workingDir, environment, output⟩
  cases environment <;> cases output <;> rfl

theorem putAll_slots (c : ShellCommand) : Slot.putAll c.slots (ofText "") = c := by
  rcases c with ⟨command, workingDir, environment, output⟩
  cases environment <;> cases output <;> rfl

theorem toKeyedMembers_ofMembers (pairs : List (String × String)) :
    Document.toKeyedMembers Document.toText (Document.ofMembers (pairs.map binding)) =
      .ok pairs := by
  induction pairs with
  | nil => rfl
  | cons p rest ih =>
      show (Document.toKeyedMembers Document.toText
        (Document.ofMembers (rest.map binding)) >>= _) = _
      exact Document.bind_of_ok ih _

theorem toEnvironment_reordered {pairs : List (String × String)} (h : Sorted.Ascending pairs)
    (room : Nat) {v : Json} (hv : Json.Reordered (.object (pairs.map binding)) v) :
    toEnvironment (room + 1) (.ofJson v) = .ok pairs := by
  cases hv with
  | object hperm hothers =>
      rcases Json.exists_map_of_perm hperm with ⟨pairs', hpairs, rfl⟩
      have hrigid : ∀ p ∈ pairs'.map binding, p.2.Rigid := by
        intro p hp
        rcases List.mem_map.mp hp with ⟨q, -, rfl⟩
        exact .string q.2
      rw [Json.Rigid.eq_of_reorderedMembers hrigid hothers]
      show (Document.toKeyedMembers Document.toText _ >>= _) = _
      rw [Document.bind_of_ok (toKeyedMembers_ofMembers pairs')]
      exact congrArg Except.ok (h.ofPairs_of_perm hpairs)

theorem readable {c : ShellCommand} (h : Sorted.Ascending c.environment) (room : Nat) :
    Readable fields (room + 1) c.slots where
  read := by
    refine List.forall_mem_append.mpr ⟨List.forall_mem_append.mpr ⟨?_, ?_⟩, ?_⟩
    · simp only [List.forall_mem_cons]
      exact ⟨Slot.isReadBy_of_rigid rfl (.string _) fun _ => rfl,
        Slot.isReadBy_of_rigid rfl (.string _) fun _ => rfl, fun _ h => nomatch h⟩
    · intro e he
      split at he
      · cases he
      · cases List.mem_singleton.mp he
        exact ⟨_, rfl, fun w hw _ => Document.bind_of_ok (toEnvironment_reordered h room hw) _⟩
    · intro e he
      split at he
      · cases List.mem_singleton.mp he
        exact Slot.isReadBy_of_rigid rfl (.string _) fun _ => rfl
      · cases he
  keys := by
    rcases c with ⟨command, workingDir, environment, output⟩
    cases environment <;> cases output <;> simp [slots]
  commute := by
    rcases c with ⟨command, workingDir, environment, output⟩
    cases environment <;> cases output <;> simp [slots]
  needed := by
    rcases c with ⟨command, workingDir, environment, output⟩
    cases environment <;> cases output <;> rfl

theorem ofDocument_reordered {c : ShellCommand} (h : Sorted.Ascending c.environment) (room : Nat)
    {v : Json} (hv : c.toJson.Reordered v) : ofDocument (room + 2) (.ofJson v) = .ok c := by
  have hread := (readable h room).toRecord_reordered (c.toJson_eq ▸ hv) (ofText "")
  rwa [putAll_slots] at hread

theorem ascending_of_toEnvironment {room : Nat} {d : Document} {pairs : List (String × String)}
    (h : toEnvironment room d = .ok pairs) : Sorted.Ascending pairs := by
  cases d with
  | object members tail =>
      rcases Document.bind_eq_ok_iff.mp h with ⟨-, -, h⟩
      rcases Document.bind_eq_ok_iff.mp h with ⟨read, -, h⟩
      rcases Document.bind_eq_ok_iff.mp h with ⟨-, -, h⟩
      cases h
      exact Sorted.ascending_ofPairs read
  | _ => cases h

theorem ascending_of_ofDocument {room : Nat} {d : Document} {c : ShellCommand}
    (h : ofDocument room d = .ok c) : Sorted.Ascending c.environment := by
  have hfields : ∀ f ∈ fields, ∀ room d (s t : ShellCommand), Sorted.Ascending s.environment →
      f.read room d s = .ok t → Sorted.Ascending t.environment := by
    intro f hf room d s t hs hread
    simp only [fields, List.mem_cons, List.not_mem_nil, or_false] at hf
    rcases hf with rfl | rfl | rfl | rfl
    all_goals
      rcases Document.bind_eq_ok_iff.mp hread with ⟨v, hv, hset⟩
      cases hset
    · exact hs
    · exact hs
    · exact ascending_of_toEnvironment hv
    · exact hs
  have hblank : Sorted.Ascending (ofText "").environment := List.Pairwise.nil
  exact Document.of_toRecord hfields hblank h

end ShellCommand

namespace Drill

def slots (d : Drill) : List (Slot Drill) :=
  [⟨"sleep_ms", .count d.sleepMillis, fun e => { e with sleepMillis := d.sleepMillis }⟩,
    ⟨"fail", .bool d.fail, fun e => { e with fail := d.fail }⟩] ++
  if d.errors.isEmpty then []
  else [⟨"errors", .texts d.errors, fun e => { e with errors := d.errors }⟩]

theorem toJson_eq (d : Drill) : d.toJson = .ofMembers (d.slots.map Slot.pair) := by
  rcases d with ⟨sleepMillis, fail, errors⟩
  cases errors <;> rfl

theorem putAll_slots (d : Drill) : Slot.putAll d.slots blank = d := by
  rcases d with ⟨sleepMillis, fail, errors⟩
  cases errors <;> rfl

theorem readable {d : Drill} (h : (d.sleepMillis : Int) ≤ Document.greatestWhole) (room : Nat) :
    Readable fields (room + 1) d.slots where
  read := by
    refine List.forall_mem_append.mpr ⟨?_, ?_⟩
    · simp only [List.forall_mem_cons]
      exact ⟨Slot.isReadBy_of_rigid rfl (.number _) fun _ =>
          Document.bind_of_ok (Document.toCount_ofJson h) _,
        Slot.isReadBy_of_rigid rfl (.bool _) fun _ => rfl, fun _ h => nomatch h⟩
    · intro e he
      split at he
      · cases he
      · cases List.mem_singleton.mp he
        exact Slot.isReadBy_of_rigid rfl (.texts _) fun _ =>
          Document.bind_of_ok (Document.toList_ofTexts room d.errors) _
  keys := by
    rcases d with ⟨sleepMillis, fail, errors⟩
    cases errors <;> simp [slots]
  commute := by
    rcases d with ⟨sleepMillis, fail, errors⟩
    cases errors <;> simp [slots]
  needed := by
    rcases d with ⟨sleepMillis, fail, errors⟩
    cases errors <;> rfl

theorem ofDocument_reordered {d : Drill} (h : (d.sleepMillis : Int) ≤ Document.greatestWhole)
    (room : Nat) {v : Json} (hv : d.toJson.Reordered v) :
    ofDocument (room + 2) (.ofJson v) = .ok d := by
  have hread := (readable h room).toRecord_reordered (d.toJson_eq ▸ hv) blank
  rwa [putAll_slots] at hread

theorem sleepMillis_le_of_ofDocument {room : Nat} {d : Document} {b : Drill}
    (h : ofDocument room d = .ok b) : (b.sleepMillis : Int) ≤ Document.greatestWhole := by
  have hfields : ∀ f ∈ fields, ∀ room d (s t : Drill),
      (s.sleepMillis : Int) ≤ Document.greatestWhole → f.read room d s = .ok t →
        (t.sleepMillis : Int) ≤ Document.greatestWhole := by
    intro f hf room d s t hs hread
    simp only [fields, List.mem_cons, List.not_mem_nil, or_false] at hf
    rcases hf with rfl | rfl | rfl
    all_goals
      rcases Document.bind_eq_ok_iff.mp hread with ⟨v, hv, hset⟩
      cases hset
    · exact Document.le_of_toCount hv
    · exact hs
    · exact hs
  exact Document.of_toRecord hfields (by decide) h

end Drill

/-!
## The kinds of work
-/

namespace Work

theorem readCommand_toJson {c : ShellCommand} (h : Sorted.Ascending c.environment) :
    readCommand c.toJson = some (.command c) := by
  have hread : ShellCommand.ofDocument nestingLimit (.ofJson c.toJson) = .ok c :=
    ShellCommand.ofDocument_reordered h 125 (Json.Reordered.refl c.toJson)
  unfold readCommand
  rw [hread]
  rfl

theorem readDrill_toJson {d : Drill} (h : (d.sleepMillis : Int) ≤ Document.greatestWhole) :
    readDrill d.toJson = some (.drill d) := by
  have hread : Drill.ofDocument nestingLimit (.ofJson d.toJson) = .ok d :=
    Drill.ofDocument_reordered h 125 (Json.Reordered.refl d.toJson)
  unfold readDrill
  rw [hread]
  rfl

def commandKind : JobKind Work where
  name := "shell"
  version := 0
  read := readCommand
  read_written := by
    intro v b h
    rcases Option.map_eq_some_iff.mp h with ⟨c, hc, rfl⟩
    have hread := Document.eq_ok_of_toOption hc
    exact ⟨c.toJson, rfl, readCommand_toJson (ShellCommand.ascending_of_ofDocument hread)⟩

def drillKind : JobKind Work where
  name := "mock"
  version := 0
  read := readDrill
  read_written := by
    intro v b h
    rcases Option.map_eq_some_iff.mp h with ⟨d, hd, rfl⟩
    have hread := Document.eq_ok_of_toOption hd
    exact ⟨d.toJson, rfl, readDrill_toJson (Drill.sleepMillis_le_of_ofDocument hread)⟩

def keptKind : JobKind Work where
  name := "custom"
  version := 3
  read := readKept
  read_written := by
    intro v b h
    unfold readKept at h
    split at h
    · cases h
      exact ⟨_, rfl, rfl⟩
    · cases h

theorem registry_eq_ofKinds : registry = .ofKinds [commandKind, drillKind, keptKind] := rfl

end Work

namespace Registry

variable {β : Type} [Body β]

/-- What a registry of lawful kinds does with a record. The failures come in order: an unknown name,
another version than the one registered last, a payload that does not read. A job that is built has
the record's own base, and its snapshot is built into the same job, so it has the same snapshot
again. A command comes back from its snapshot whatever else the registry knows. -/
theorem building_undoes_snapshots (kinds : List (JobKind β)) (r : Record) :
    (∀ name, (ofKinds kinds).build r = .error (.unknownType name) ↔
      name = r.base.jobType.name ∧ ∀ k ∈ kinds, k.name ≠ name) ∧
    (∀ name expected found,
      (ofKinds kinds).build r = .error (.versionMismatch name expected found) ↔
        (name = r.base.jobType.name ∧ found = r.base.jobType.version) ∧
          ∃ k, lastNamed name kinds = some k ∧ k.version = expected ∧ expected ≠ found) ∧
    ((ofKinds kinds).build r = .error .payload ↔
      ∃ k, lastNamed r.base.jobType.name kinds = some k ∧
        k.version = r.base.jobType.version ∧ k.read r.payload = none) ∧
    (∀ j, (ofKinds kinds).build r = .ok j → j.base = r.base ∧
      ∃ s, j.toRecord = .ok s ∧ s.base = r.base ∧ (ofKinds kinds).build s = .ok j) ∧
    ∀ (kinds : List (JobKind Work)) (base : Base) (c : ShellCommand),
      lastNamed "shell" kinds = some Work.commandKind → base.jobType = Work.commandType →
        Sorted.Ascending c.environment →
          ∃ s, (Job.mk base (Work.command c)).toRecord = .ok s ∧ s.base = base ∧
            (ofKinds kinds).build s = .ok ⟨base, .command c⟩ := by
  refine ⟨fun name => build_eq_unknownType_iff, fun name expected found =>
    build_eq_versionMismatch_iff, build_eq_payload_iff, fun j => exists_snapshot_of_build, ?_⟩
  intro kinds base c hlast htype hascending
  refine ⟨⟨base, c.toJson⟩, rfl, rfl, ?_⟩
  have hk : lastNamed base.jobType.name kinds = some Work.commandKind := by
    rw [htype]
    exact hlast
  have hversion : Work.commandKind.version = base.jobType.version := by
    rw [htype]
    rfl
  have hread : Work.commandKind.read c.toJson = some (.command c) :=
    Work.readCommand_toJson hascending
  rw [build_of_lastNamed_eq_some (r := ⟨base, c.toJson⟩) hk, if_pos hversion]
  simp only [hread]

def disguised : Record :=
  ⟨.named "a" Work.commandType,
    .object [("command", .string "ls"), ("id", .string "b"), ("status", .null)]⟩

def listing : ShellCommand := ⟨"ls", "/tmp", [("HOME", "/"), ("LANG", "C")], some "empty"⟩

theorem building_undoes_snapshots_of_listings :
    (∃ s, (Work.commandJob "a" (.ofText "ls")).toRecord = .ok s ∧ s.base = disguised.base ∧
      Work.registry.build s = .ok (Work.commandJob "a" (.ofText "ls"))) ∧
    ∃ s, (Work.commandJob "a" listing).toRecord = .ok s ∧ s.base = .named "a" Work.commandType ∧
      Work.registry.build s = .ok (Work.commandJob "a" listing) := by
  have h := building_undoes_snapshots [Work.commandKind, Work.drillKind, Work.keptKind] disguised
  rw [Work.registry_eq_ofKinds]
  exact ⟨(h.2.2.2.1 (Work.commandJob "a" (.ofText "ls")) rfl).2,
    h.2.2.2.2 _ _ listing rfl rfl (by decide)⟩

end Registry
end LeaseQueue
