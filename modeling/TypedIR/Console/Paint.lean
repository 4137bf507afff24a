import TypedIR.Text.Numeral

/-
  Painting text on a terminal: codes that switch attributes on before a text
  and off behind it. Without colour a text stays as it is.
-/

namespace TypedIR.Console

open Text

/-- An attribute of text. -/
inductive Attribute where
  | bold
  | green
  | yellow
  | blue
  | cyan
  deriving DecidableEq, Repr

def Attribute.on : Attribute → Nat
  | .bold => 1
  | .green => 32
  | .yellow => 33
  | .blue => 34
  | .cyan => 36

/-- The code that switches an attribute off; colours go off together with all
others. -/
def Attribute.off : Attribute → Nat
  | .bold => 22
  | _ => 0

def codes (ns : List Nat) : String :=
  "\x1b[" ++ ";".intercalate (ns.map decimalNat) ++ "m"

def paint (color : Bool) (attrs : List Attribute) (s : String) : String :=
  if color then codes (attrs.map (·.on)) ++ s ++ codes (attrs.map (·.off)) else s

/-! ## Listings

Highlighting of listings: headers in bold, labels and jumps in colour.
-/

def isWordChar (c : Char) : Bool := c.isAlphanum || c == '_'

/-- Whether a line is a label and nothing else: blanks, an L, a number and a
colon. -/
def isLabelLine (line : List Char) : Bool :=
  match line.dropWhile fun c => c == ' ' || c == '\t' || c == '\r' || c.toNat == 12 with
  | 'L' :: rest =>
    !(rest.takeWhile Char.isDigit).isEmpty && rest.dropWhile Char.isDigit == [':']
  | _ => false

def jumpWords : List String := ["branch", "branch_if", "branch_if_not", "return"]

/-- The word that a line starts with, painted if it is a jump, in front of
what follows. -/
def closeWord (color : Bool) (word : List Char) (rest : List Char) : List Char :=
  let s := String.ofList word.reverse
  (if jumpWords.contains s then paint color [.yellow] s else s).toList ++ rest

/-- A line with its jumps painted; `word` are the characters of the word that
is being read, last first. -/
def paintJumps (color : Bool) (word : List Char) : List Char → List Char
  | [] => closeWord color word []
  | c :: cs =>
    if isWordChar c then paintJumps color (c :: word) cs
    else closeWord color word (c :: paintJumps color [] cs)

def highlightLine (color : Bool) (line : String) : String :=
  if line.startsWith "fn " then paint color [.bold] line
  else if isLabelLine line.toList then paint color [.cyan] line
  else String.ofList (paintJumps color [] line.toList)

def withoutReturn (line : String) : String :=
  if line.endsWith "\r" then (line.dropEnd 1).toString else line

def longestLine : Nat := 65535

/-- A listing with its parts painted, up to a line that is too long, and the
complaint about that line. -/
def highlight (color : Bool) (listing : String) : String × Option String :=
  let lines := listing.splitOn "\n"
  let short := lines.takeWhile fun l => l.utf8ByteSize ≤ longestLine
  let painted (ls : List String) : String :=
    String.join (ls.map fun l => highlightLine color (withoutReturn l) ++ "\n")
  if short.length < lines.length then (painted short, some "bufio.Scanner: token too long")
  else (painted (if lines.getLast? = some "" then lines.dropLast else lines), none)

end TypedIR.Console
