import LeaseQueue.Job.Type
import LeaseQueue.Job.Status
import LeaseQueue.Job.Times
import LeaseQueue.Job.Dependency
import LeaseQueue.Json.Printer
/-!
# Job records

The part that all jobs have, and the record that a store keeps of a job: that
part together with the payload. In writing the two share one object.
-/

namespace LeaseQueue

structure Base where
  id : String
  jobType : JobType
  status : Status
  priority : Int32
  times : Times
  dependency : Dependency
  /-- The errors of the last attempt, joined. -/
  error : Option String
deriving Repr, DecidableEq

namespace Base

def blank : Base := ⟨"", .blank, .blank, 0, .blank, .always, none⟩

def named (id : String) (jobType : JobType) : Base :=
  { blank with id := id, jobType := jobType }

def addError (b : Base) (error : String) : Base :=
  { b with error := some <| match b.error with
      | some earlier => earlier ++ "; " ++ error
      | none => error }

def members (b : Base) : List (String × Json) :=
  [("id", .string b.id), ("type", b.jobType.toJson), ("status", b.status.toJson),
    ("priority", .whole b.priority.toInt), ("time_info", b.times.toJson),
    ("dependency", b.dependency.toJson)] ++
  match b.error with
  | some e => [("error", .string e)]
  | none => []

def toJson (b : Base) : Json := .ofMembers b.members

def fields (buffered : Bool) : List (Document.Field Base) := [
  .required "id" Document.toText fun v b => { b with id := v },
  .requiredDeep "type" (JobType.ofDocument buffered) fun v b => { b with jobType := v },
  .optionalDeep "status" Status.ofDocument fun v b => { b with status := v },
  .optional "priority" Document.toInt32 fun v b => { b with priority := v },
  .optionalDeep "time_info" Times.ofDocument fun v b => { b with times := v },
  .optionalDeep "dependency" (Dependency.ofDocument buffered) fun v b => { b with dependency := v },
  .optional "error" (Document.toOption Document.toText) fun v b => { b with error := v }]

def ofDocument : Nat → Document → Except Failure Base :=
  Document.toRecord (fields false) blank

end Base

structure Record where
  base : Base
  payload : Json
deriving Repr

namespace Record

def id (r : Record) : String := r.base.id

def status (r : Record) : Status := r.base.status

def withStatus (r : Record) (s : Status) : Record :=
  { r with base := { r.base with status := s } }

def toJson (r : Record) : Json :=
  .ofMembers (r.base.members ++ [("payload", r.payload)])

def render (r : Record) : String := r.toJson.render

/-- Reads the members of an object apart from the payload, which must not come twice; all values are
read in full first. -/
def splitPayload (room : Nat) (payload : Option Json) :
    List (Key × Document) → Except Failure (Option Json × List (Key × Document))
  | [] => .ok (payload, [])
  | (key, d) :: rest => do
      let k ← Document.keyText key
      if k = "payload" then
        if payload.isSome then .error .mismatched
        else
          let v ← d.toJson room
          splitPayload room (some v) rest
      else
        let _ ← d.toJson room
        let (p, others) ← splitPayload room payload rest
        return (p, (key, d) :: others)

def ofDocument (room : Nat) : Document → Except Failure Record
  | .object members tail => do
      let room ← Document.enter room
      let (payload, others) ← splitPayload room none members
      Document.endOf tail
      let base ← Dependency.settled <|
        Document.toRecord (Base.fields true) Base.blank nestingLimit (.object others .closed)
      return ⟨base, payload.getD .null⟩
  | d => .error d.refusal

def parse (text : String) : Except Failure Record := Document.parse ofDocument text

def ofJson (v : Json) : Except Failure Record := ofDocument nestingLimit (.ofJson v)

end Record

structure StatusInfo where
  id : String
  completed : Bool
  failed : Bool
  inProgress : Bool
  owner : String
  modCount : UInt64
  modTime : Option Timestamp
deriving Repr, DecidableEq

namespace StatusInfo

def ofRecord (r : Record) : StatusInfo :=
  let s := r.status
  ⟨r.id, s.completed, s.failed, s.inProgress, s.owner, s.modCount, s.modTime⟩

def toJson (i : StatusInfo) : Json :=
  .ofMembers [("id", .string i.id), ("completed", .bool i.completed), ("failed", .bool i.failed),
    ("in_progress", .bool i.inProgress), ("owner", .string i.owner),
    ("mod_count", .count i.modCount.toNat), ("mod_time", Json.option Timestamp.toJson i.modTime)]

/-- The fields of the information. An object may lack the time of the last change, an array not. -/
def fields : List (Document.Field StatusInfo) := [
  .required "id" Document.toText fun v i => { i with id := v },
  .required "completed" Document.toBool fun v i => { i with completed := v },
  .optional "failed" Document.toBool fun v i => { i with failed := v },
  .required "in_progress" Document.toBool fun v i => { i with inProgress := v },
  .required "owner" Document.toText fun v i => { i with owner := v },
  .required "mod_count" Document.toUInt64 fun v i => { i with modCount := v },
  { Document.Field.optional "mod_time" (Document.toOption Timestamp.ofDocument)
      (fun v i => { i with modTime := v }) with neededInArray := true }]

def ofDocument : Nat → Document → Except Failure StatusInfo :=
  Document.toRecord fields ⟨"", false, false, false, "", 0, none⟩

end StatusInfo
end LeaseQueue
