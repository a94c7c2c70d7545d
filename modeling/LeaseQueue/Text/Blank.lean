/-!
# Blank characters

The characters with the Unicode property `White_Space`. A text of nothing else
counts as empty, and times may be surrounded by them.
-/

namespace LeaseQueue
namespace Text

def isBlank (c : Char) : Bool :=
  let n := c.toNat
  (9 ≤ n && n ≤ 13) || n == 0x20 || n == 0x85 || n == 0xA0 || n == 0x1680 ||
    (0x2000 ≤ n && n ≤ 0x200A) || n == 0x2028 || n == 0x2029 || n == 0x202F ||
    n == 0x205F || n == 0x3000

def skipBlank (cs : List Char) : List Char :=
  cs.dropWhile isBlank

def allBlank (cs : List Char) : Bool :=
  cs.all isBlank

end Text
end LeaseQueue
