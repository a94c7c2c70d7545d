import LeaseQueue.Job.Live
/-!
# Drills

A body that does nothing but wait, and then records the errors it was told to.
It stands in for real work where the time and the outcome have to be known.
-/

namespace LeaseQueue

structure Drill where
  sleepMillis : Nat
  fail : Bool
  errors : List String
deriving Repr, DecidableEq

namespace Drill

def blank : Drill := ⟨0, false, []⟩

def toJson (d : Drill) : Json :=
  .ofMembers <| [("sleep_ms", .count d.sleepMillis), ("fail", .bool d.fail)] ++
    if d.errors.isEmpty then [] else [("errors", .texts d.errors)]

def fields : List (Document.Field Drill) := [
  .optional "sleep_ms" Document.toCount fun v d => { d with sleepMillis := v },
  .optional "fail" Document.toBool fun v d => { d with fail := v },
  .optionalDeep "errors" (Document.toList Document.toText) fun v d => { d with errors := v }]

def ofDocument : Nat → Document → Except Failure Drill :=
  Document.toRecord fields blank

def attempt (d : Drill) : Attempt Drill :=
  ⟨d, (if d.fail then ["mock failure"] else []) ++ d.errors, d.sleepMillis * nanosPerMilli⟩

end Drill
end LeaseQueue
