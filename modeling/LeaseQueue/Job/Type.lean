import LeaseQueue.Json.Reading
/-!
# Job types

A job names its type, the format its payload is written in, and the version of
the type.
-/

namespace LeaseQueue

inductive Format where
  | json
deriving Repr, DecidableEq

namespace Format

def word : Format → String
  | .json => "json"

def toJson (f : Format) : Json := .string f.word

def ofDocument (buffered : Bool) : Nat → Document → Except Failure Format :=
  Document.toWord buffered [("json", .json)]

end Format

structure JobType where
  name : String
  format : Format
  version : UInt32
deriving Repr, DecidableEq

namespace JobType

def blank : JobType := ⟨"", .json, 0⟩

def named (name : String) (version : UInt32) : JobType := ⟨name, .json, version⟩

def describe (t : JobType) : String :=
  t.name ++ "@v" ++ toString t.version.toNat ++ " (" ++ t.format.word ++ ")"

def toJson (t : JobType) : Json :=
  .ofMembers [("name", .string t.name), ("format", t.format.toJson),
    ("version", .count t.version.toNat)]

def fields (buffered : Bool) : List (Document.Field JobType) := [
  .required "name" Document.toText fun v t => { t with name := v },
  .optionalDeep "format" (Format.ofDocument buffered) fun v t => { t with format := v },
  .optional "version" Document.toUInt32 fun v t => { t with version := v }]

def ofDocument (buffered : Bool) : Nat → Document → Except Failure JobType :=
  Document.toRecord (fields buffered) blank

end JobType
end LeaseQueue
