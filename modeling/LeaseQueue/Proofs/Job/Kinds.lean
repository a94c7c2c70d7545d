import Mathlib.Data.List.Induction
import LeaseQueue.Job.Registry
/-!
# Kinds of jobs in a registry

A kind of job is lawful if every body of it that was read is written as a payload
that reads as the same body. What a registry of lawful kinds makes of a record is
decided by the last kind of the record's type name, and building undoes the taking
of snapshots.
-/

namespace LeaseQueue

/-- A kind of job as it is registered. -/
structure JobKind (β : Type) [Body β] where
  name : String
  version : UInt32
  /-- Reads a payload, if it is one of the kind. -/
  read : Json → Option β
  /-- What is read can be written, and reads as the same body then. -/
  read_written : ∀ v b, read v = some b → ∃ w, Body.payload b = .ok w ∧ read w = some b

namespace Registry

variable {β : Type} [Body β]

/-- The registry in which some kinds were registered one after the other. -/
def ofKinds (kinds : List (JobKind β)) : Registry β :=
  kinds.foldl (fun r k => r.register k.name k.version k.read) empty

def lastNamed (name : String) (kinds : List (JobKind β)) : Option (JobKind β) :=
  (kinds.filter fun k => k.name = name).getLast?

section

variable {kinds : List (JobKind β)} {name : String} {r : Record}

theorem lastNamed_append_singleton (kinds : List (JobKind β)) (k : JobKind β) (name : String) :
    lastNamed name (kinds ++ [k]) = if k.name = name then some k else lastNamed name kinds := by
  unfold lastNamed
  rw [List.filter_append]
  by_cases hk : k.name = name <;> simp [hk]

theorem lastNamed_eq_none_iff : lastNamed name kinds = none ↔ ∀ k ∈ kinds, k.name ≠ name := by
  simp [lastNamed]

theorem get?_ofKinds (kinds : List (JobKind β)) (name : String) :
    (ofKinds kinds).factories.get? name =
      (lastNamed name kinds).map fun k => ⟨k.version, k.read⟩ := by
  -- A kind replaces all before it, so the induction takes off the last one.
  induction kinds using List.reverseRecOn with
  | nil => rfl
  | append_singleton front k ih =>
      unfold ofKinds at ih ⊢
      rw [List.foldl_append, lastNamed_append_singleton]
      show (Keyed.put _ k.name _).get? name = _
      rw [Keyed.get?_put, ih]
      split <;> rfl

theorem build_of_lastNamed_eq_none (h : lastNamed r.base.jobType.name kinds = none) :
    (ofKinds kinds).build r = .error (.unknownType r.base.jobType.name) := by
  have hget : (ofKinds kinds).factories.get? r.base.jobType.name = none := by
    rw [get?_ofKinds, h]
    rfl
  unfold build
  simp only [hget]

theorem build_of_lastNamed_eq_some {k : JobKind β}
    (h : lastNamed r.base.jobType.name kinds = some k) :
    (ofKinds kinds).build r =
      if k.version = r.base.jobType.version then
        match k.read r.payload with
        | some body => .ok ⟨r.base, body⟩
        | none => .error .payload
      else .error (.versionMismatch r.base.jobType.name k.version r.base.jobType.version) := by
  have hget : (ofKinds kinds).factories.get? r.base.jobType.name = some ⟨k.version, k.read⟩ := by
    rw [get?_ofKinds, h]
    rfl
  unfold build
  simp only [hget]
  by_cases hversion : k.version = r.base.jobType.version
  · exact (if_neg (by simp [hversion])).trans (if_pos hversion).symm
  · exact (if_pos (by simp [hversion])).trans (if_neg hversion).symm

/-- What becomes of a record in a registry of kinds. -/
inductive Outcome (kinds : List (JobKind β)) (r : Record) : Except RegistryError (Job β) → Prop
  | unknown (hnone : lastNamed r.base.jobType.name kinds = none) :
      Outcome kinds r (.error (.unknownType r.base.jobType.name))
  | mismatched {k : JobKind β} (hk : lastNamed r.base.jobType.name kinds = some k)
      (hversion : k.version ≠ r.base.jobType.version) :
      Outcome kinds r
        (.error (.versionMismatch r.base.jobType.name k.version r.base.jobType.version))
  | refused {k : JobKind β} (hk : lastNamed r.base.jobType.name kinds = some k)
      (hversion : k.version = r.base.jobType.version) (hread : k.read r.payload = none) :
      Outcome kinds r (.error .payload)
  | built {k : JobKind β} {body : β} (hk : lastNamed r.base.jobType.name kinds = some k)
      (hversion : k.version = r.base.jobType.version) (hread : k.read r.payload = some body) :
      Outcome kinds r (.ok ⟨r.base, body⟩)

theorem outcome_build (kinds : List (JobKind β)) (r : Record) :
    Outcome kinds r ((ofKinds kinds).build r) := by
  cases hk : lastNamed r.base.jobType.name kinds with
  | none =>
      rw [build_of_lastNamed_eq_none hk]
      exact .unknown hk
  | some k =>
      rw [build_of_lastNamed_eq_some hk]
      by_cases hversion : k.version = r.base.jobType.version
      · rw [if_pos hversion]
        cases hread : k.read r.payload with
        | none => exact .refused hk hversion hread
        | some body => exact .built hk hversion hread
      · rw [if_neg hversion]
        exact .mismatched hk hversion

theorem build_eq_unknownType_iff :
    (ofKinds kinds).build r = .error (.unknownType name) ↔
      name = r.base.jobType.name ∧ ∀ k ∈ kinds, k.name ≠ name := by
  constructor
  · intro h
    have houtcome := outcome_build kinds r
    rw [h] at houtcome
    cases houtcome with
    | unknown hnone => exact ⟨rfl, lastNamed_eq_none_iff.mp hnone⟩
  · rintro ⟨rfl, hnone⟩
    exact build_of_lastNamed_eq_none (lastNamed_eq_none_iff.mpr hnone)

theorem build_eq_versionMismatch_iff {expected found : UInt32} :
    (ofKinds kinds).build r = .error (.versionMismatch name expected found) ↔
      (name = r.base.jobType.name ∧ found = r.base.jobType.version) ∧
        ∃ k, lastNamed name kinds = some k ∧ k.version = expected ∧ expected ≠ found := by
  constructor
  · intro h
    have houtcome := outcome_build kinds r
    rw [h] at houtcome
    cases houtcome with
    | mismatched hk hversion => exact ⟨⟨rfl, rfl⟩, _, hk, rfl, hversion⟩
  · rintro ⟨⟨rfl, rfl⟩, k, hk, rfl, hversion⟩
    rw [build_of_lastNamed_eq_some hk, if_neg hversion]

theorem build_eq_payload_iff :
    (ofKinds kinds).build r = .error .payload ↔
      ∃ k, lastNamed r.base.jobType.name kinds = some k ∧
        k.version = r.base.jobType.version ∧ k.read r.payload = none := by
  constructor
  · intro h
    have houtcome := outcome_build kinds r
    rw [h] at houtcome
    cases houtcome with
    | refused hk hversion hread => exact ⟨_, hk, hversion, hread⟩
  · rintro ⟨k, hk, hversion, hread⟩
    rw [build_of_lastNamed_eq_some hk, if_pos hversion, hread]

theorem exists_payload_of_build? {j : Job β} (h : (ofKinds kinds).build? r = some j) :
    ∃ v, Body.payload j.body = .ok v := by
  have hbuild : (ofKinds kinds).build r = .ok j := by
    unfold build? at h
    cases hr : (ofKinds kinds).build r with
    | error e =>
        rw [hr] at h
        cases h
    | ok j' =>
        rw [hr] at h
        cases h
        rfl
  have houtcome := outcome_build kinds r
  rw [hbuild] at houtcome
  cases houtcome with
  | @built k body hk hversion hread =>
      rcases k.read_written r.payload body hread with ⟨w, hwrite, -⟩
      exact ⟨w, hwrite⟩

theorem exists_snapshot_of_build {j : Job β} (h : (ofKinds kinds).build r = .ok j) :
    j.base = r.base ∧
      ∃ s, j.toRecord = .ok s ∧ s.base = r.base ∧ (ofKinds kinds).build s = .ok j := by
  have houtcome := outcome_build kinds r
  rw [h] at houtcome
  cases houtcome with
  | @built k body hk hversion hread =>
      rcases k.read_written r.payload body hread with ⟨w, hwrite, hread'⟩
      refine ⟨rfl, ⟨r.base, w⟩, ?_, rfl, ?_⟩
      · unfold Job.toRecord
        rw [hwrite]
        rfl
      · rw [build_of_lastNamed_eq_some (r := ⟨r.base, w⟩) hk, if_pos hversion]
        simp only [hread']

end

end Registry
end LeaseQueue
