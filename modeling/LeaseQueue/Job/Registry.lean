import LeaseQueue.Keyed
import LeaseQueue.Text.Quoted
import LeaseQueue.Job.Live
/-!
# Registry of job types

The registry turns records back into live jobs. It knows a version of each type
name and how to read that type's payloads. The base of the job is always the
record's own.
-/

namespace LeaseQueue

inductive RegistryError where
  | unknownType (name : String)
  | versionMismatch (name : String) (expected found : UInt32)
  | payload
deriving Repr, DecidableEq

namespace RegistryError

/-- An error as text. What is wrong with a payload has no text of its own. -/
def message : RegistryError → Option String
  | .unknownType name => some ("no factory registered for job type: " ++ name)
  | .versionMismatch name expected found =>
      some ("job type " ++ name ++ " is registered at version " ++ toString expected.toNat ++
        ", record has version " ++ toString found.toNat)
  | .payload => none

end RegistryError

structure Factory (β : Type) where
  version : UInt32
  /-- Reads a payload, if it is one of the type. -/
  read : Json → Option β

structure Registry (β : Type) where
  factories : Keyed (Factory β)

namespace Registry

variable {β : Type}

def empty : Registry β := ⟨.empty⟩

def register (r : Registry β) (name : String) (version : UInt32) (read : Json → Option β) :
    Registry β :=
  ⟨r.factories.put name ⟨version, read⟩⟩

def has (r : Registry β) (name : String) : Bool := r.factories.contains name

def names (r : Registry β) : List String :=
  r.factories.keys.mergeSort (fun a b => !(b < a))

def describe (r : Registry β) : String :=
  "JobRegistry \x7b job_types: [" ++ ", ".intercalate (r.names.map Text.quoted) ++ "] \x7d"

def build (r : Registry β) (record : Record) : Except RegistryError (Job β) :=
  let type := record.base.jobType
  match r.factories.get? type.name with
  | none => .error (.unknownType type.name)
  | some f =>
      if f.version != type.version then
        .error (.versionMismatch type.name f.version type.version)
      else
        match f.read record.payload with
        | some body => .ok ⟨record.base, body⟩
        | none => .error .payload

def build? (r : Registry β) (record : Record) : Option (Job β) :=
  (r.build record).toOption

end Registry
end LeaseQueue
