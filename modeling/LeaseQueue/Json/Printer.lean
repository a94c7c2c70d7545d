import LeaseQueue.Json.Value
/-!
# Writing JSON

The compact text of a value: no blanks, short escapes for the quote, the
backslash and five controls, and four hexadecimal digits for the other ones.
-/

namespace LeaseQueue
namespace Json

def escapeChar (c : Char) : List Char :=
  if c = '"' then ['\\', '"']
  else if c = '\\' then ['\\', '\\']
  else if c.toNat = 8 then ['\\', 'b']
  else if c = '\t' then ['\\', 't']
  else if c = '\n' then ['\\', 'n']
  else if c.toNat = 12 then ['\\', 'f']
  else if c = '\r' then ['\\', 'r']
  else if c.toNat < 0x20 then
    ['\\', 'u', '0', '0', Nat.digitChar (c.toNat / 16), Nat.digitChar (c.toNat % 16)]
  else [c]

def writeString (s : String) : List Char :=
  '"' :: (s.toList.flatMap escapeChar ++ ['"'])

def writeInt : Int → List Char
  | .ofNat n => Nat.toDigits 10 n
  | .negSucc n => '-' :: Nat.toDigits 10 (n + 1)

def writeNumber : Number → List Char
  | .whole n => writeInt n
  | .real x => x.render

mutual
def write : Json → List Char
  | .null => ['n', 'u', 'l', 'l']
  | .bool true => ['t', 'r', 'u', 'e']
  | .bool false => ['f', 'a', 'l', 's', 'e']
  | .number n => writeNumber n
  | .string s => writeString s
  | .array items => '[' :: (writeItems items ++ [']'])
  | .object members => '\x7b' :: (writeMembers members ++ ['\x7d'])

def writeItems : List Json → List Char
  | [] => []
  | v :: rest => write v ++ writeMoreItems rest

def writeMoreItems : List Json → List Char
  | [] => []
  | v :: rest => ',' :: (write v ++ writeMoreItems rest)

def writeMembers : List (String × Json) → List Char
  | [] => []
  | (k, v) :: rest => writeString k ++ ':' :: (write v ++ writeMoreMembers rest)

def writeMoreMembers : List (String × Json) → List Char
  | [] => []
  | (k, v) :: rest => ',' :: (writeString k ++ ':' :: (write v ++ writeMoreMembers rest))
end

def render (v : Json) : String := String.ofList (write v)

end Json
end LeaseQueue
