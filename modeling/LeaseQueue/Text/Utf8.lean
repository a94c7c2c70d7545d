/-!
# Reading bytes as text

Bytes are read as UTF-8. Where they are not, each longest start of a character
that breaks off, and each byte that starts none, becomes one replacement
character.
-/

namespace LeaseQueue
namespace Text

def replacement : Char := '\uFFFD'

/-- What the first byte of a character asks of the next ones: how many follow, and the range the
second one lies in. -/
def continuation (b : UInt8) : Option (Nat × UInt8 × UInt8) :=
  if b < 0x80 then some (0, 0, 0)
  else if b < 0xC2 then none
  else if b < 0xE0 then some (1, 0x80, 0xBF)
  else if b = 0xE0 then some (2, 0xA0, 0xBF)
  else if b = 0xED then some (2, 0x80, 0x9F)
  else if b < 0xF0 then some (2, 0x80, 0xBF)
  else if b = 0xF0 then some (3, 0x90, 0xBF)
  else if b < 0xF4 then some (3, 0x80, 0xBF)
  else if b = 0xF4 then some (3, 0x80, 0x8F)
  else none

/-- The bits that the first byte of a character of `extra` further bytes gives to it. -/
def leadBits (extra : Nat) (b : UInt8) : Nat :=
  match extra with
  | 0 => b.toNat
  | 1 => b.toNat % 0x20
  | 2 => b.toNat % 0x10
  | _ => b.toNat % 0x08

structure Pending where
  /-- Bytes still to come. -/
  owed : Nat
  /-- Least value of the next byte. -/
  low : UInt8
  /-- Greatest value of the next byte. -/
  high : UInt8
  /-- The code point so far. -/
  bits : Nat

/-- Starts a character at a byte: what it gives at once, and what it then waits for. -/
def startChar (b : UInt8) : List Char × Option Pending :=
  match continuation b with
  | none => ([replacement], none)
  | some (0, _, _) => ([Char.ofNat b.toNat], none)
  | some (owed, low, high) => ([], some ⟨owed, low, high, leadBits owed b⟩)

/-- One byte of the text: the characters it completes and what is waited for after it. -/
def stepByte (pending : Option Pending) (b : UInt8) : List Char × Option Pending :=
  match pending with
  | none => startChar b
  | some p =>
      if p.low ≤ b && b ≤ p.high then
        let bits := p.bits * 0x40 + b.toNat % 0x40
        if p.owed ≤ 1 then ([Char.ofNat bits], none)
        else ([], some ⟨p.owed - 1, 0x80, 0xBF, bits⟩)
      else
        let (out, next) := startChar b
        (replacement :: out, next)

def readFrom : Option Pending → List UInt8 → List Char
  | none, [] => []
  | some _, [] => [replacement]
  | pending, b :: rest =>
      let (out, next) := stepByte pending b
      out ++ readFrom next rest

/-- Bytes as text, with a replacement character for what is not UTF-8. -/
def ofBytes (bytes : List UInt8) : String :=
  String.ofList (readFrom none bytes)

def toBytes (s : String) : List UInt8 :=
  s.toUTF8.toList

end Text
end LeaseQueue
