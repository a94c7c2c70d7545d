import LeaseQueue.Json.Value
/-!
# JSON text as a document

A text is read into a tree that keeps everything a reader of a typed value has
to know: members in their order with repeated keys, strings and numbers that
are well formed but denote nothing, and the places where the text stops being
JSON. A typed reader walks the tree in the order of the text, so of several
faults it reports the one that comes first.
-/

namespace LeaseQueue

inductive Failure where
  /-- The text is not JSON. -/
  | malformed
  /-- The text ends early. -/
  | truncated
  /-- The text is JSON so far, but of another type. -/
  | mismatched
deriving Repr, DecidableEq

/-- A place where the text stops being JSON. A string may be faulty for one who reads it before it
is for one who only skips it. -/
structure Break where
  /-- What one who reads the text meets. -/
  read : Failure
  /-- What one who skips the text meets. -/
  skipped : Failure
  /-- What one meets who looks at the first character only and wants a string or an object. -/
  glimpsed : Failure
deriving Repr, DecidableEq

def Break.plain (f : Failure) : Break := ⟨f, f, f⟩

inductive Key where
  | text (s : String)
  /-- A string that denotes no text. -/
  | flawed (f : Failure)
  /-- Something else than a string. -/
  | absent
deriving Repr, DecidableEq

inductive Tail where
  | closed
  /-- The text breaks, before or after the comma that announces a further item. -/
  | cut (afterComma : Bool) (b : Break)
deriving Repr, DecidableEq

/-- A JSON text as a tree. -/
inductive Document where
  | null
  | bool (b : Bool)
  | number (n : Except Failure Number)
  | string (s : Except Failure String)
  | array (items : List Document) (tail : Tail)
  | object (members : List (Key × Document)) (tail : Tail)
  | broken (b : Break)
deriving Inhabited

namespace Document

def stop (f : Failure) : Document := .broken (.plain f)

/-! ## Blanks, words and numbers -/

def isSpace (c : Char) : Bool :=
  c = ' ' || c = '\n' || c = '\t' || c = '\r'

def skipSpace (cs : List Char) : List Char := cs.dropWhile isSpace

def readWord : List Char → List Char → Except Failure (List Char)
  | [], cs => .ok cs
  | _ :: _, [] => .error .truncated
  | w :: ws, c :: cs => if w = c then readWord ws cs else .error .malformed

def digitsValue (ds : List Char) : Nat :=
  ds.foldl (fun n c => 10 * n + (c.toNat - '0'.toNat)) 0

/-- The failure of a text that should have gone on with something else. -/
def unexpected : List Char → Failure
  | [] => .truncated
  | _ :: _ => .malformed

/-- The whole part of a number: a zero alone, or digits that start with another one. -/
def readWhole (cs : List Char) : Except Failure (List Char × List Char) :=
  match cs with
  | '0' :: rest =>
      match rest with
      | c :: _ => if c.isDigit then .error .malformed else .ok (['0'], rest)
      | [] => .ok (['0'], rest)
  | _ =>
      let ds := cs.takeWhile Char.isDigit
      if ds.isEmpty then .error (unexpected cs) else .ok (ds, cs.dropWhile Char.isDigit)

def readDigits (cs : List Char) : Except Failure (List Char × List Char) :=
  let ds := cs.takeWhile Char.isDigit
  if ds.isEmpty then .error (unexpected cs) else .ok (ds, cs.dropWhile Char.isDigit)

def readFraction (cs : List Char) : Except Failure (Option (List Char) × List Char) :=
  match cs with
  | '.' :: rest => do
      let (ds, rest) ← readDigits rest
      return (some ds, rest)
  | _ => .ok (none, cs)

def readExponent (cs : List Char) : Except Failure (Option Int × List Char) :=
  match cs with
  | c :: rest =>
      if c = 'e' || c = 'E' then
        match rest with
        | '+' :: more => do
            let (ds, rest) ← readDigits more
            return (some (digitsValue ds : Int), rest)
        | '-' :: more => do
            let (ds, rest) ← readDigits more
            return (some (-(digitsValue ds : Int)), rest)
        | _ => do
            let (ds, rest) ← readDigits rest
            return (some (digitsValue ds : Int), rest)
      else .ok (none, cs)
  | [] => .ok (none, cs)

def leastWhole : Int := -9223372036854775808

def greatestWhole : Int := 18446744073709551615

/-- The number that the parts of a literal denote. A literal without fraction and exponent is a whole
number if it is in range and no negative zero; every other one is a binary fraction. -/
def denote (negative : Bool) (whole : List Char) (fraction : Option (List Char))
    (exponent : Option Int) : Except Failure Number :=
  let significand := digitsValue (whole ++ fraction.getD [])
  let real : Except Failure Number :=
    match Binary64.ofDecimal negative significand
        (exponent.getD 0 - ((fraction.getD []).length : Int)) with
    | some x => .ok (.real x)
    | none => .error .malformed
  if fraction.isSome || exponent.isSome then real
  else if negative then
    if significand = 0 || -(significand : Int) < leastWhole then real
    else .ok (.whole (-(significand : Int)))
  else if greatestWhole < significand then real
  else .ok (.whole significand)

def readUnsigned (negative : Bool) (cs : List Char) : Except Failure (Document × List Char) := do
  let (whole, rest) ← readWhole cs
  let (fraction, rest) ← readFraction rest
  let (exponent, rest) ← readExponent rest
  return (.number (denote negative whole fraction exponent), rest)

/-! ## Strings -/

def hexValue (c : Char) : Option Nat :=
  if c.isDigit then some (c.toNat - '0'.toNat)
  else if 'a' ≤ c && c ≤ 'f' then some (c.toNat - 'a'.toNat + 10)
  else if 'A' ≤ c && c ≤ 'F' then some (c.toNat - 'A'.toNat + 10)
  else none

def hexValue4 (a b c d : Char) : Option Nat := do
  let a ← hexValue a
  let b ← hexValue b
  let c ← hexValue c
  let d ← hexValue d
  return ((a * 16 + b) * 16 + c) * 16 + d

def shortEscape (c : Char) : Option Char :=
  if c = '"' || c = '\\' || c = '/' then some c
  else if c = 'b' then some (Char.ofNat 8)
  else if c = 'f' then some (Char.ofNat 12)
  else if c = 'n' then some '\n'
  else if c = 'r' then some '\r'
  else if c = 't' then some '\t'
  else none

/-- The failure of four hexadecimal digits that are not there: the text counts as ended if fewer
than four bytes are left. -/
def hexFailure (cs : List Char) : Failure :=
  if (String.ofList cs).utf8ByteSize < 4 then .truncated else .malformed

/-- What has been read of a string: its characters, last one first; a first half of a pair of code
units that waits for the second; and whether a half stood alone. -/
structure Draft where
  chars : List Char
  half : Option Nat
  flawed : Bool

namespace Draft

def start : Draft := ⟨[], none, false⟩

def char (d : Draft) (c : Char) : Draft :=
  ⟨c :: d.chars, none, d.flawed || d.half.isSome⟩

def unit (d : Draft) (n : Nat) : Draft :=
  match d.half with
  | some h =>
      if 0xDC00 ≤ n && n ≤ 0xDFFF then
        ⟨Char.ofNat (0x10000 + (h - 0xD800) * 0x400 + (n - 0xDC00)) :: d.chars, none, d.flawed⟩
      else ⟨d.chars, none, true⟩
  | none =>
      if 0xD800 ≤ n && n ≤ 0xDBFF then ⟨d.chars, some n, d.flawed⟩
      else if 0xDC00 ≤ n && n ≤ 0xDFFF then ⟨d.chars, none, true⟩
      else ⟨Char.ofNat n :: d.chars, none, d.flawed⟩

def close (d : Draft) : Except Failure String :=
  if d.flawed || d.half.isSome then .error .malformed else .ok (String.ofList d.chars.reverse)

def broken (d : Draft) (f : Failure) : Break :=
  let read := if d.flawed then .malformed else f
  ⟨read, f, read⟩

end Draft

/-- Reads a string after its opening quote: its text and what follows, or where it breaks. -/
def readChars (d : Draft) : List Char → Except Break (Except Failure String × List Char)
  | [] => .error (d.broken .truncated)
  | '"' :: rest => .ok (d.close, rest)
  | '\\' :: [] => .error (d.broken .truncated)
  | '\\' :: 'u' :: a :: b :: c :: e :: rest =>
      match hexValue4 a b c e with
      | some n => readChars (d.unit n) rest
      | none => .error (d.broken .malformed)
  | '\\' :: 'u' :: rest => .error (d.broken (hexFailure rest))
  | '\\' :: c :: rest =>
      match shortEscape c with
      | some e => readChars (d.char e) rest
      | none => .error (d.broken .malformed)
  | c :: rest =>
      if c.toNat < 0x20 then .error (d.broken .malformed) else readChars (d.char c) rest

/-! ## Values -/

/-- A list or object that breaks where an item or member, or its comma, should stand. -/
def cutAt (afterComma : Bool) (cs : List Char) : Tail :=
  .cut afterComma (.plain (unexpected cs))

mutual
/-- Reads a value: the document, and what follows it unless the text breaks. -/
def readValue : Nat → List Char → Document × Option (List Char)
  | 0, _ => (stop .malformed, none)
  | fuel + 1, cs =>
      match skipSpace cs with
      | [] => (stop .truncated, none)
      | 'n' :: rest => word .null ['u', 'l', 'l'] rest
      | 't' :: rest => word (.bool true) ['r', 'u', 'e'] rest
      | 'f' :: rest => word (.bool false) ['a', 'l', 's', 'e'] rest
      | '"' :: rest =>
          match readChars .start rest with
          | .ok (s, rest) => (.string s, some rest)
          | .error b => (.broken b, none)
      | '-' :: rest => numeral (readUnsigned true rest)
      | '[' :: rest =>
          match skipSpace rest with
          | ']' :: rest => (.array [] .closed, some rest)
          | [] => (.array [] (cutAt false []), none)
          | rest =>
              let (items, tail, rest) := readItems fuel rest
              (.array items tail, rest)
      | '\x7b' :: rest =>
          match skipSpace rest with
          | '\x7d' :: rest => (.object [] .closed, some rest)
          | rest =>
              let (members, tail, rest) := readMembers fuel rest
              (.object members tail, rest)
      | c :: rest =>
          if c.isDigit then numeral (readUnsigned false (c :: rest)) else (stop .malformed, none)
where
  word (d : Document) (w rest : List Char) : Document × Option (List Char) :=
    match readWord w rest with
    | .ok rest => (d, some rest)
    | .error f => (.broken ⟨f, f, .malformed⟩, none)
  numeral : Except Failure (Document × List Char) → Document × Option (List Char)
    | .ok (d, rest) => (d, some rest)
    | .error f => (.broken ⟨f, f, .malformed⟩, none)

def readItems : Nat → List Char → List Document × Tail × Option (List Char)
  | 0, _ => ([], .cut false (.plain .malformed), none)
  | fuel + 1, cs =>
      match readValue fuel cs with
      | (d, none) => ([d], .cut false (.plain .malformed), none)
      | (d, some rest) =>
          match skipSpace rest with
          | ']' :: rest => ([d], .closed, some rest)
          | ',' :: rest =>
              match skipSpace rest with
              | [] => ([d], cutAt true [], none)
              | ']' :: _ => ([d], .cut true (.plain .malformed), none)
              | rest =>
                  let (items, tail, rest) := readItems fuel rest
                  (d :: items, tail, rest)
          | rest => ([d], cutAt false rest, none)

def readMembers : Nat → List Char → List (Key × Document) × Tail × Option (List Char)
  | 0, _ => ([], .cut false (.plain .malformed), none)
  | fuel + 1, cs =>
      match skipSpace cs with
      | [] => ([], cutAt false [], none)
      | '"' :: rest =>
          match readChars .start rest with
          | .error b => ([], .cut false b, none)
          | .ok (s, rest) =>
              let key := match s with
                | .ok s => Key.text s
                | .error f => Key.flawed f
              match skipSpace rest with
              | ':' :: rest =>
                  match readValue fuel rest with
                  | (d, none) => ([(key, d)], .cut false (.plain .malformed), none)
                  | (d, some rest) =>
                      match skipSpace rest with
                      | '\x7d' :: rest => ([(key, d)], .closed, some rest)
                      | ',' :: rest =>
                          let (members, tail, rest) := readMembers fuel rest
                          ((key, d) :: members, tail, rest)
                      | rest => ([(key, d)], cutAt false rest, none)
              | rest => ([(key, stop (unexpected rest))], .cut false (.plain .malformed), none)
      | rest => ([(.absent, (readValue fuel rest).1)], .cut false (.plain .malformed), none)
end

def read (cs : List Char) : Document × Option (List Char) :=
  readValue (2 * cs.length + 2) cs

/-! ## Values as documents -/

mutual
def ofJson : Json → Document
  | .null => .null
  | .bool b => .bool b
  | .number n => .number (.ok n)
  | .string s => .string (.ok s)
  | .array items => .array (ofItems items) .closed
  | .object members => .object (ofMembers members) .closed

def ofItems : List Json → List Document
  | [] => []
  | v :: rest => ofJson v :: ofItems rest

def ofMembers : List (String × Json) → List (Key × Document)
  | [] => []
  | (k, v) :: rest => (.text k, ofJson v) :: ofMembers rest
end

end Document
end LeaseQueue
