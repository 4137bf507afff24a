import TypedIR.Text.Quoted
import TypedIR.Decimal.Digits

/-
  Reading numbers, truth values and durations from words.

  A whole number has an optional mark for its base: `0x`, `0o` or a lone `0`,
  and `0b`. Underscores may stand between digits. A float is decimal or, after
  `0x`, hexadecimal with a binary exponent. A word is refused when it is no
  number, or when the number does not fit.
-/

namespace TypedIR.Text

/-- Why a word is refused. -/
inductive Misread where
  | malformed
  | outOfRange
  deriving DecidableEq, Repr, Inhabited

/-- What is said about a refused word; `reader` is the name of what was asked
of it. -/
def Misread.message (reader word : String) (m : Misread) : String :=
  "strconv.Parse" ++ reader ++ ": parsing " ++ quoted word ++ ": " ++ match m with
    | .malformed => "invalid syntax"
    | .outOfRange => "value out of range"

def digitValue? (c : Char) : Option Nat :=
  if c.isDigit then some (c.toNat - 48)
  else if 'a' ≤ c && c ≤ 'z' then some (c.toNat - 87)
  else if 'A' ≤ c && c ≤ 'Z' then some (c.toNat - 55)
  else none

def isMark (c mark : Char) : Bool := c.toLower == mark

def unsigned : List Char → List Char
  | '-' :: cs => cs
  | '+' :: cs => cs
  | cs => cs

/-- What stood before a place in a word, as far as underscores matter. -/
inductive Before where
  | start
  | digit
  | underscore
  | other
  deriving DecidableEq

def underscoresFrom (hex : Bool) : Before → List Char → Bool
  | before, [] => before != .underscore
  | before, c :: cs =>
    if c.isDigit || (hex && 'a' ≤ c.toLower && c.toLower ≤ 'f') then underscoresFrom hex .digit cs
    else if c == '_' then before == .digit && underscoresFrom hex .underscore cs
    else before != .underscore && underscoresFrom hex .other cs

/-- Whether every underscore in a word stands between digits, the mark of a
base counting as one. -/
def underscoresOk (word : List Char) : Bool :=
  match unsigned word with
  | '0' :: m :: rest =>
    if isMark m 'b' || isMark m 'o' || isMark m 'x' then
      underscoresFrom (isMark m 'x') .digit rest
    else underscoresFrom false .start ('0' :: m :: rest)
  | cs => underscoresFrom false .start cs

/-- Digits of a base up to a limit; underscores are passed over. The number is
refused as soon as it is too large. -/
def readDigits (base limit : Nat) : Nat → List Char → Except Misread Nat
  | n, [] => .ok n
  | n, c :: cs =>
    if c == '_' then readDigits base limit n cs
    else match digitValue? c with
      | none => .error .malformed
      | some d =>
        if base ≤ d then .error .malformed
        else if limit < n * base + d then .error .outOfRange
        else readDigits base limit (n * base + d) cs

def baseOf : List Char → Nat × List Char
  | '0' :: m :: d :: rest =>
    if isMark m 'b' then (2, d :: rest)
    else if isMark m 'o' then (8, d :: rest)
    else if isMark m 'x' then (16, d :: rest)
    else (8, m :: d :: rest)
  | '0' :: rest => (8, rest)
  | cs => (10, cs)

def readNat (word : List Char) : Except Misread Nat := do
  if word.isEmpty then throw .malformed
  let (base, digits) := baseOf word
  let n ← readDigits base (0x10000000000000000 - 1) 0 digits
  if word.contains '_' && !underscoresOk word then throw .malformed
  return n

def readInt (word : List Char) : Except Misread Int := do
  if word.isEmpty then throw .malformed
  let negative := word.head? == some '-'
  match readNat (unsigned word) with
  | .error .malformed => throw .malformed
  | .error .outOfRange => throw .outOfRange
  | .ok n =>
    if negative then
      if 0x8000000000000000 < n then throw .outOfRange else return -n
    else if 0x8000000000000000 ≤ n then throw .outOfRange
    else return n

/-! ## Floats -/

/-- The digits before an exponent: the number they make without their point,
how many stand after the point, how many there are, and what follows. -/
def readMantissa (base : Nat) : Bool → Nat → Nat → Nat → List Char → Nat × Nat × Nat × List Char
  | _, m, places, count, [] => (m, places, count, [])
  | point, m, places, count, c :: cs =>
    if c == '_' then readMantissa base point m places count cs
    else if c == '.' && !point then readMantissa base true m places count cs
    else match digitValue? c with
      | some d =>
        if d < base then
          readMantissa base point (m * base + d) (if point then places + 1 else places) (count + 1) cs
        else (m, places, count, c :: cs)
      | none => (m, places, count, c :: cs)

/-- The digits of an exponent, which stops growing when it is past all
floats, and what follows. -/
def readExponentDigits : Nat → List Char → Nat × List Char
  | e, [] => (e, [])
  | e, c :: cs =>
    if c == '_' then readExponentDigits e cs
    else if c.isDigit then
      readExponentDigits (if e < 10000 then e * 10 + (c.toNat - 48) else e) cs
    else (e, c :: cs)

def readExponent? (cs : List Char) : Option (Int × List Char) :=
  match unsigned cs with
  | c :: rest =>
    if c.isDigit then
      let (e, after) := readExponentDigits 0 (c :: rest)
      some (if cs.head? == some '-' then -(e : Int) else e, after)
    else none
  | [] => none

/-- The magnitude of a float: the quotient that a word without a sign stands
for. -/
def readQuotient? (cs : List Char) : Option Decimal.Quotient :=
  let hex := match cs with
    | '0' :: x :: _ :: _ => isMark x 'x'
    | _ => false
  let digits := if hex then cs.drop 2 else cs
  let (m, places, count, rest) := readMantissa (if hex then 16 else 10) false 0 0 0 digits
  if count = 0 then none
  else match rest with
    | [] => if hex then none else some (.decimal m (-(places : Int)))
    | mark :: after =>
      if isMark mark (if hex then 'p' else 'e') then
        match readExponent? after with
        | some (e, []) =>
          if hex then some (.binary m (e - 4 * places)) else some (.decimal m (e - places))
        | _ => none
      else none

/-- The word in lower case without its sign, if it stands for no number or an
infinite one. -/
def special? (cs : List Char) : Option String :=
  let s := String.ofList ((unsigned cs).map Char.toLower)
  if s = "inf" || s = "infinity" then some "inf"
  else if s = "nan" && unsigned cs == cs then some "nan"
  else none

def withSign (cs : List Char) (bits : UInt64) : UInt64 :=
  if cs.head? == some '-' then bits ||| 0x8000000000000000 else bits

def readFloat (cs : List Char) : Except Misread UInt64 :=
  match special? cs with
  | some "inf" => .ok (withSign cs 0x7ff0000000000000)
  | some _ => .ok 0x7ff8000000000001
  | none =>
    match readQuotient? (unsigned cs) with
    | none => .error .malformed
    | some q =>
      if cs.contains '_' && !underscoresOk cs then .error .malformed
      else match Decimal.nearestBits? q with
        | some b => .ok (withSign cs b)
        | none => .error .outOfRange

/-! ## Truth values and durations -/

def readBool (s : String) : Except Misread Bool :=
  if ["1", "t", "T", "TRUE", "true", "True"].contains s then .ok true
  else if ["0", "f", "F", "FALSE", "false", "False"].contains s then .ok false
  else .error .malformed

def durationChar (c : Char) : String :=
  if c == Char.ofNat 34 || c == '\\' then "\\" ++ String.singleton c
  else if c.toNat < 0x20 || 0x80 ≤ c.toNat then
    String.join ((bytesOfChar c).map fun b => "\\x" ++ hexByte b)
  else String.singleton c

def durationQuoted (s : String) : String :=
  "\"" ++ String.join (s.toList.map durationChar) ++ "\""

def durationUnits : List (String × Nat) :=
  [("ns", 1), ("us", 1000), ("µs", 1000), ("μs", 1000), ("ms", 1000000), ("s", 1000000000),
   ("m", 60000000000), ("h", 3600000000000)]

def durationLimit : Nat := 0x8000000000000000

/-- The digits after a point: the number that the first of them make, as many as
keep it in range, and ten to their count. -/
def readFraction : Nat → Nat → List Char → Nat × Nat
  | x, scale, [] => (x, scale)
  | x, scale, c :: cs =>
    let y := x * 10 + (c.toNat - 48)
    if (durationLimit - 1) / 10 < x || durationLimit < y then (x, scale)
    else readFraction y (scale * 10) cs

/-- The nanoseconds of `v` units and the part `x / scale` of one, if they are in
range. The part is that of floats. -/
def spanOf? (unit v x scale : Nat) : Option Nat :=
  if durationLimit / unit < v then none
  else
    let part := (Float.ofNat x * (Float.ofNat unit / Float.ofNat scale)).toUInt64.toNat
    let span := v * unit + part
    if durationLimit < span then none else some span

def readSpans (whole : String) : Nat → Nat → List Char → Except String Nat
  | _, total, [] => .ok total
  | 0, _, _ => .error ("time: invalid duration " ++ durationQuoted whole)
  | n + 1, total, cs => do
    let invalid := "time: invalid duration " ++ durationQuoted whole
    let digits := cs.takeWhile Char.isDigit
    let rest := cs.drop digits.length
    let value := digits.foldl (fun n c => n * 10 + (c.toNat - 48)) 0
    if durationLimit < value then throw invalid
    let fraction := match rest with
      | '.' :: after => after.takeWhile Char.isDigit
      | _ => []
    let rest := match rest with
      | '.' :: after => after.drop fraction.length
      | _ => rest
    if digits.isEmpty && fraction.isEmpty then throw invalid
    let unit := rest.takeWhile fun c => !(c.isDigit || c == '.')
    if unit.isEmpty then throw ("time: missing unit in duration " ++ durationQuoted whole)
    match durationUnits.lookup (String.ofList unit) with
    | none =>
      throw ("time: unknown unit " ++ durationQuoted (String.ofList unit) ++ " in duration " ++
        durationQuoted whole)
    | some u =>
      let (x, scale) := readFraction 0 1 fraction
      match spanOf? u value x scale with
      | none => throw invalid
      | some span =>
        let total := (total + span) % (2 * durationLimit)
        if durationLimit < total then throw invalid
        readSpans whole n total (rest.drop unit.length)

def readDuration (s : String) : Except String Int := do
  let cs := unsigned s.toList
  if cs == ['0'] then return 0
  if cs.isEmpty then throw ("time: invalid duration " ++ durationQuoted s)
  let n ← readSpans s cs.length 0 cs
  if s.startsWith "-" then return -n
  else if durationLimit ≤ n then throw ("time: invalid duration " ++ durationQuoted s)
  else return n

end TypedIR.Text
