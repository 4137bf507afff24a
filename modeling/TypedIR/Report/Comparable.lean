import TypedIR.Report

/-
  Texts made comparable from run to run: identifiers that are drawn at random,
  durations and the directory worked in are replaced by marks.
-/

namespace TypedIR.Report

open Text

def identifierShape : List Nat := [8, 4, 4, 4, 12]

def isLowerHex (c : Char) : Bool := c.isDigit || ('a' ≤ c && c ≤ 'f')

def afterGroups? : List Nat → List Char → Option (List Char)
  | [], cs => some cs
  | n :: ns, cs =>
    if (cs.take n).length = n && (cs.take n).all isLowerHex then
      match ns, cs.drop n with
      | [], rest => some rest
      | _, '-' :: rest => afterGroups? ns rest
      | _, _ => none
    else none

/-- What follows a duration: spaces, a number with three places, and the
unit. -/
def afterDuration? (cs : List Char) : Option (List Char) :=
  let digits := cs.dropWhile (· == ' ')
  match digits.dropWhile Char.isDigit with
  | '.' :: a :: b :: c :: ' ' :: 'm' :: 's' :: rest =>
    if cs.head? = some ' ' && (digits.head?.map Char.isDigit).getD false && a.isDigit &&
      b.isDigit && c.isDigit then some rest else none
  | _ => none

def afterText? (s : String) (cs : List Char) : Option (List Char) :=
  if s.toList.isPrefixOf cs then some (cs.drop s.length) else none

/-- A text with what `after?` recognises replaced by a mark; `fuel` bounds the
number of characters. -/
def markWithin (after? : List Char → Option (List Char)) (mark : List Char) :
    Nat → List Char → List Char
  | 0, cs => cs
  | _ + 1, [] => []
  | n + 1, c :: cs =>
    match after? (c :: cs) with
    | some rest => mark ++ markWithin after? mark n rest
    | none => c :: markWithin after? mark n cs

def marked (after? : List Char → Option (List Char)) (mark s : String) : String :=
  String.ofList (markWithin after? mark.toList (s.length + 1) s.toList)

def maskIdentifiers : String → String := marked (afterGroups? identifierShape) "<uuid>"

def maskDurations : String → String := marked afterDuration? " <ms>"

def substituted (old new : String) : String → String := marked (afterText? old) new

/-- A report with its identifiers and the directory worked in replaced by
marks, as JSON. -/
def comparableJson (dir : String) (r : Report) : String :=
  r.jsonWith fun s => maskIdentifiers (substituted dir "<dir>" s)

end TypedIR.Report
