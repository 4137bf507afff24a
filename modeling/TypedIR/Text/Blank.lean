/-
  Blank characters and letter case, as names of levels, formats and the like
  are read: blanks around a name and the case of its letters do not matter.
-/

namespace TypedIR.Text

def isBlank (c : Char) : Bool :=
  let n := c.toNat
  (9 ≤ n && n ≤ 13) || n == 0x20 || n == 0x85 || n == 0xA0 || n == 0x1680 ||
    (0x2000 ≤ n && n ≤ 0x200A) || n == 0x2028 || n == 0x2029 || n == 0x202F || n == 0x205F ||
    n == 0x3000

def trimBlanks (s : String) : String :=
  String.ofList (((s.toList.dropWhile isBlank).reverse.dropWhile isBlank).reverse)

/-- Letters whose lower case is an ASCII letter or takes another number of bytes,
with that lower case. -/
def shiftedLetters : List (Nat × Nat) :=
  [(0x130, 0x69), (0x212A, 0x6B), (0x23A, 0x2C65), (0x23E, 0x2C66), (0x1E9E, 0xDF),
   (0x2126, 0x3C9), (0x212B, 0xE5), (0x2C62, 0x26B), (0x2C64, 0x27D), (0x2C6D, 0x251),
   (0x2C6E, 0x271), (0x2C6F, 0x250), (0x2C70, 0x252), (0x2C7E, 0x23F), (0x2C7F, 0x240),
   (0xA78D, 0x265), (0xA7AA, 0x266), (0xA7AB, 0x25C), (0xA7AC, 0x261), (0xA7AD, 0x26C),
   (0xA7AE, 0x26A), (0xA7B0, 0x29E), (0xA7B1, 0x287), (0xA7B2, 0x29D), (0xA7C5, 0x282),
   (0xA7CB, 0x264), (0xA7DC, 0x19B)]

/-- The lower case of a character, as far as that is an ASCII letter or takes
another number of bytes. Nothing else about it matters for names in ASCII. -/
def foldChar (c : Char) : Char :=
  if c.toNat < 0x80 then c.toLower else ((shiftedLetters.lookup c.toNat).map Char.ofNat).getD c

def foldCase (s : String) : String :=
  String.ofList (s.toList.map foldChar)

def normalName (s : String) : String :=
  foldCase (trimBlanks s)

end TypedIR.Text
