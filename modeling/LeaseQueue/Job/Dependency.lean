import LeaseQueue.Json.Reading
/-!
# Dependencies

What has to hold before a job runs: nothing, the completion of other jobs, or
that a file is still to be made. Other jobs are looked up in the order they are
listed, up to the first one that nobody knows.
-/

namespace LeaseQueue

inductive Dependency where
  | always
  | edges (ids : List String)
  /-- The job makes the file; if it exists the work is done. -/
  | createsFile (path : String)
deriving Repr, DecidableEq

inductive Readiness where
  /-- The job should run. -/
  | ready
  /-- The work is done already. -/
  | passed
  /-- Other jobs come first. -/
  | blocked
  /-- A job it waits for is unknown. -/
  | unresolved
deriving Repr, DecidableEq

namespace Readiness

def word : Readiness → String
  | .ready => "ready"
  | .passed => "passed"
  | .blocked => "blocked"
  | .unresolved => "unresolved"

def words : List (String × Readiness) :=
  [("ready", .ready), ("passed", .passed), ("blocked", .blocked), ("unresolved", .unresolved)]

def toJson (r : Readiness) : Json := .string r.word

def ofDocument : Nat → Document → Except Failure Readiness :=
  Document.toWord false words

end Readiness

namespace Dependency

def waitsFor : Dependency → List String
  | .edges ids => ids
  | _ => []

/-- Looks jobs up one after the other: the ids asked for, and the readiness they give. `blocked` says
whether an unfinished one was met before. -/
def examine (lookup : String → Option Bool) (blocked : Bool) :
    List String → List String × Readiness
  | [] => ([], if blocked then .blocked else .ready)
  | id :: rest =>
      match lookup id with
      | none => ([id], .unresolved)
      | some completed =>
          let (asked, state) := examine lookup (blocked || !completed) rest
          (id :: asked, state)

/-- The readiness of a job, given which files exist and what is known of other jobs: whether one is
completed, or nothing. -/
def state (fileExists : String → Bool) (lookup : String → Option Bool) : Dependency → Readiness
  | .always => .ready
  | .edges ids => (examine lookup false ids).2
  | .createsFile path => if fileExists path then .passed else .ready

def asked (lookup : String → Option Bool) (d : Dependency) : List String :=
  (examine lookup false d.waitsFor).1

def toJson : Dependency → Json
  | .always => .ofMembers [("kind", .string "always")]
  | .edges ids => .ofMembers [("kind", .string "edges"), ("edges", .texts ids)]
  | .createsFile path => .ofMembers [("kind", .string "creates_file"), ("path", .string path)]

/-! ## Reading

The kind comes with the other fields, in an object anywhere among them and in an
array first. -/

inductive Tag where
  | always
  | edges
  | createsFile
deriving Repr, DecidableEq

/-- The words for the kinds, in the order in which a number selects them. -/
def tags : List (String × Tag) :=
  [("always", .always), ("edges", .edges), ("creates_file", .createsFile)]

/-- Reads a kind: a word or, in a document that was read before, its number too. -/
def toTag (buffered : Bool) : Document → Except Failure Tag
  | .string s => do
      match tags.lookup (← s) with
      | some t => return t
      | none => .error .mismatched
  | .number (.ok (.whole n)) =>
      if buffered && 0 ≤ n then
        match tags[n.toNat]? with
        | some (_, t) => .ok t
        | none => .error .mismatched
      else .error .mismatched
  | d => .error d.refusal

/-- Reads the members of an object apart from the kind, which must not come twice; all other values
are read in full first. -/
def splitTag (buffered : Bool) (room : Nat) (tag : Option Tag) :
    List (Key × Document) → Except Failure (Option Tag × List (Key × Document))
  | [] => .ok (tag, [])
  | (key, d) :: rest => do
      let k ← Document.keyText key
      if k = "kind" then
        if tag.isSome then .error .mismatched
        else
          let t ← toTag buffered d
          splitTag buffered room (some t) rest
      else
        let _ ← Document.toJson room d
        let (t, others) ← splitTag buffered room tag rest
        return (t, (key, d) :: others)

def settled (r : Except Failure α) : Except Failure α :=
  r.mapError fun _ => .mismatched

def ofContents (tag : Tag) (contents : Document) : Except Failure Dependency :=
  match tag with
  | .always => .ok .always
  | .edges => settled <| (Document.toRecord
      [.requiredDeep "edges" (Document.toList Document.toText) fun v _ => .edges v]
      (.edges []) nestingLimit contents)
  | .createsFile => settled <| (Document.toRecord
      [.required "path" Document.toText fun v _ => .createsFile v]
      (.createsFile "") nestingLimit contents)

def ofDocument (buffered : Bool) (room : Nat) : Document → Except Failure Dependency
  | .object members tail => do
      let room ← Document.enter room
      let (tag, others) ← splitTag buffered room none members
      Document.endOf tail
      match tag with
      | some tag => ofContents tag (.object others .closed)
      | none => .error .mismatched
  | .array [] tail => do
      let _ ← Document.enter room
      Document.endOf tail
      .error .mismatched
  | .array (first :: items) tail => do
      let room ← Document.enter room
      let tag ← toTag buffered first
      let _ ← Document.toItems room items
      Document.endOf tail
      ofContents tag (.array items .closed)
  | d => .error d.refusal

end Dependency
end LeaseQueue
