import LeaseQueue.Time.Written
/-!
# Times of a job

When a job was first handed out, when its work began and when it ended. All are
unset until the job is handed out for the first time.
-/

namespace LeaseQueue

structure Times where
  created : Option Timestamp
  start : Option Timestamp
  finish : Option Timestamp
deriving Repr, DecidableEq

namespace Times

def blank : Times := ⟨none, none, none⟩

def isBlank (t : Times) : Bool :=
  t.created.isNone && t.start.isNone && t.finish.isNone

def markDispatched (t : Times) (now : Timestamp) : Times :=
  { t with created := t.created.or (some now), start := t.start.or (some now) }

def duration (t : Times) : Option Int := do
  return (← t.finish).since (← t.start)

def toJson (t : Times) : Json :=
  .ofMembers [("created", Json.option Timestamp.toJson t.created),
    ("start", Json.option Timestamp.toJson t.start),
    ("end", Json.option Timestamp.toJson t.finish)]

def fields : List (Document.Field Times) := [
  .optional "created" (Document.toOption Timestamp.ofDocument) fun v t => { t with created := v },
  .optional "start" (Document.toOption Timestamp.ofDocument) fun v t => { t with start := v },
  .optional "end" (Document.toOption Timestamp.ofDocument) fun v t => { t with finish := v }]

def ofDocument : Nat → Document → Except Failure Times :=
  Document.toRecord fields blank

end Times
end LeaseQueue
