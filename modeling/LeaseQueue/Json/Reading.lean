import LeaseQueue.Json.Document
/-!
# Reading typed values from documents

A reader takes a document and gives a value or the first failure in the order of
the text. Records are read by filling in a blank one: from an object by key, or
from an array by place. Keys that a record does not know are skipped.
-/

namespace LeaseQueue

def maxUInt64 : Nat := 18446744073709551615

/-- How many arrays and objects may stand inside each other where a value is read. -/
def nestingLimit : Nat := 127

namespace Document

/-- The failure that a document of another kind than the expected one gives. -/
def refusal : Document → Failure
  | .broken b => b.read
  | .string (.error f) => f
  | .number (.error f) => f
  | _ => .mismatched

def endOf : Tail → Except Failure Unit
  | .closed => .ok ()
  | .cut _ b => .error b.read

mutual
def skip : Document → Except Failure Unit
  | .array items tail => do
      skipItems items
      skipEnd tail
  | .object members tail => do
      skipMembers members
      skipEnd tail
  | .broken b => .error b.skipped
  | .null => .ok ()
  | .bool _ => .ok ()
  | .number _ => .ok ()
  | .string _ => .ok ()

def skipItems : List Document → Except Failure Unit
  | [] => .ok ()
  | d :: rest => do
      skip d
      skipItems rest

def skipMembers : List (Key × Document) → Except Failure Unit
  | [] => .ok ()
  | (.absent, _) :: _ => .error .malformed
  | (_, d) :: rest => do
      skip d
      skipMembers rest

def skipEnd : Tail → Except Failure Unit
  | .closed => .ok ()
  | .cut _ b => .error b.skipped
end

def enter : Nat → Except Failure Nat
  | 0 => .error .malformed
  | room + 1 => .ok room

def keyText : Key → Except Failure String
  | .text s => .ok s
  | .flawed f => .error f
  | .absent => .error .malformed

mutual
def toJson (room : Nat) : Document → Except Failure Json
  | .null => .ok .null
  | .bool b => .ok (.bool b)
  | .number n => n.map .number
  | .string s => s.map .string
  | .array items tail => do
      let room ← enter room
      let items ← toItems room items
      endOf tail
      return .array items
  | .object members tail => do
      let room ← enter room
      let members ← toMembers room members
      endOf tail
      return .ofMembers members
  | .broken b => .error b.read

def toItems (room : Nat) : List Document → Except Failure (List Json)
  | [] => .ok []
  | d :: rest => do
      let v ← toJson room d
      let vs ← toItems room rest
      return v :: vs

def toMembers (room : Nat) : List (Key × Document) → Except Failure (List (String × Json))
  | [] => .ok []
  | (key, d) :: rest => do
      let k ← keyText key
      let v ← toJson room d
      let vs ← toMembers room rest
      return (k, v) :: vs
end

/-! ## Plain values -/

def toBool : Document → Except Failure Bool
  | .bool b => .ok b
  | d => .error d.refusal

def toText : Document → Except Failure String
  | .string s => s
  | d => .error d.refusal

def toWhole (least greatest : Int) : Document → Except Failure Int
  | .number (.ok (.whole n)) => if least ≤ n && n ≤ greatest then .ok n else .error .mismatched
  | d => .error d.refusal

def toCount (d : Document) : Except Failure Nat := do
  return (← d.toWhole 0 greatestWhole).toNat

def toUInt64 (d : Document) : Except Failure UInt64 := do
  return UInt64.ofNat (← d.toCount)

def toUInt32 (d : Document) : Except Failure UInt32 := do
  return UInt32.ofNat (← d.toWhole 0 4294967295).toNat

def toInt32 (d : Document) : Except Failure Int32 := do
  return Int32.ofInt (← d.toWhole (-2147483648) 2147483647)

def toOption (read : Document → Except Failure α) : Document → Except Failure (Option α)
  | .null => .ok none
  | d => do
      let a ← read d
      return some a

def toListItems (read : Document → Except Failure α) : List Document → Except Failure (List α)
  | [] => .ok []
  | d :: rest => do
      let a ← read d
      let as ← toListItems read rest
      return a :: as

def toList (read : Document → Except Failure α) (room : Nat) : Document → Except Failure (List α)
  | .array items tail => do
      let _ ← enter room
      let as ← toListItems read items
      endOf tail
      return as
  | d => .error d.refusal

/-- Reads an object with values of one type; of two members with one key the later one counts. -/
def toKeyedMembers (read : Document → Except Failure α) :
    List (Key × Document) → Except Failure (List (String × α))
  | [] => .ok []
  | (key, d) :: rest => do
      let k ← keyText key
      let a ← read d
      let as ← toKeyedMembers read rest
      return (k, a) :: as

def endAfterLast : List Document → Tail → Except Failure Unit
  | _ :: _, _ => .error .malformed
  | [], .closed => .ok ()
  | [], .cut true _ => .error .malformed
  | [], .cut false b => .error b.read

/-! ## Records -/

/-- One field of a record: its key, whether it has to be there, and how its value goes into the
record. -/
structure Field (σ : Type) where
  /-- The key in an object. -/
  key : String
  /-- Whether an object has to have the key. -/
  needed : Bool
  /-- Whether an array has to reach to the field. -/
  neededInArray : Bool
  /-- Reads a value into the record, given the room for nested values. -/
  read : Nat → Document → σ → Except Failure σ

namespace Field

def optional (key : String) (read : Document → Except Failure α) (set : α → σ → σ) : Field σ :=
  ⟨key, false, false, fun _ d s => do return set (← read d) s⟩

def required (key : String) (read : Document → Except Failure α) (set : α → σ → σ) : Field σ :=
  ⟨key, true, true, fun _ d s => do return set (← read d) s⟩

def optionalDeep (key : String) (read : Nat → Document → Except Failure α) (set : α → σ → σ) :
    Field σ :=
  ⟨key, false, false, fun room d s => do return set (← read room d) s⟩

/-- A field that has to be there and whose value has parts of its own. -/
def requiredDeep (key : String) (read : Nat → Document → Except Failure α) (set : α → σ → σ) :
    Field σ :=
  ⟨key, true, true, fun room d s => do return set (← read room d) s⟩

def withKey (key : String) : List (Field σ) → Option (Field σ)
  | [] => none
  | f :: rest => if f.key = key then some f else withKey key rest

end Field

/-- Fills a record from the members of an object; gives also the keys met, last one first. A known
key must not come twice. -/
def fillMembers (fields : List (Field σ)) (room : Nat) (seen : List String) (s : σ) :
    List (Key × Document) → Except Failure (List String × σ)
  | [] => .ok (seen, s)
  | (key, d) :: rest => do
      let k ← keyText key
      match Field.withKey k fields with
      | none =>
          skip d
          fillMembers fields room seen s rest
      | some f =>
          if seen.contains k then .error .mismatched
          else
            let s ← f.read room d s
            fillMembers fields room (k :: seen) s rest

def fillItems (room : Nat) (tail : Tail) : List (Field σ) → List Document → σ → Except Failure σ
  | [], items, s => do
      endAfterLast items tail
      return s
  | f :: fs, [], s => do
      endOf tail
      if (f :: fs).any Field.neededInArray then .error .mismatched else return s
  | f :: fs, d :: ds, s => do
      let s ← f.read room d s
      fillItems room tail fs ds s

def toRecord (fields : List (Field σ)) (blank : σ) (room : Nat) : Document → Except Failure σ
  | .object members tail => do
      let room ← enter room
      let (seen, s) ← fillMembers fields room [] blank members
      endOf tail
      if fields.all fun f => !f.needed || seen.contains f.key then return s
      else .error .mismatched
  | .array items tail => do
      let room ← enter room
      fillItems room tail fields items blank
  | d => .error d.refusal

/-! ## Words -/

/-- Reads one of a fixed set of words. A word may also be the only key of an object whose value is
null. In a text that is read at once every other value counts as malformed; in a document that was
read before (`buffered`) it is mismatched, and an empty object may stand for the null. -/
def toWord (buffered : Bool) (words : List (String × α)) (room : Nat) (d : Document) :
    Except Failure α :=
  let pick (s : String) : Except Failure α :=
    match words.lookup s with
    | some a => .ok a
    | none => .error .mismatched
  match d with
  | .string s => do pick (← s)
  | .object ((key, value) :: more) tail => do
      let _ ← enter room
      let a ← match key with
        | .text k => pick k
        | .flawed f => .error f
        | .absent => .error value.refusal
      match value with
      | .null => pure ()
      | .object [] .closed => if buffered then pure () else .error .mismatched
      | value => .error value.refusal
      endAfterLast (more.map Prod.snd) tail
      return a
  | .object [] (.cut _ b) => do
      let _ ← enter room
      .error b.read
  | .broken b => .error b.glimpsed
  | _ => .error (if buffered then .mismatched else .malformed)

/-! ## Whole texts -/

/-- Reads a text as one value of a type, with nothing but blanks after it. -/
def parse (read : Nat → Document → Except Failure α) (text : String) : Except Failure α :=
  let (d, rest) := Document.read text.toList
  match read nestingLimit d with
  | .error f => .error f
  | .ok a =>
      match rest with
      | some rest => if (skipSpace rest).isEmpty then .ok a else .error .malformed
      | none => .error .malformed

end Document

namespace Json

def parse (text : String) : Except Failure Json :=
  Document.parse Document.toJson text

end Json
end LeaseQueue
