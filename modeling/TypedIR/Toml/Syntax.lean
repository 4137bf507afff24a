import TypedIR.Text.Reading

/-
  The text of a settings file in TOML: headers and pairs, line by line.

  A header names a table, or one more table of a row of tables; a pair gives a
  key a value. Reading yields the statements in order. What the keys then mean
  together is not looked at here.
-/

namespace TypedIR.Toml

open Text

abbrev Key := List String

/-- A value as it is written. -/
inductive Literal where
  | text (s : String)
  | int (n : Int)
  | float
  | bool (b : Bool)
  | time
  | list (xs : List Literal)
  | table (pairs : List (Key × Literal))
  deriving Repr, Inhabited

/-- A line of the file that says something. -/
inductive Statement where
  | table (key : Key)
  | tables (key : Key)
  | pair (key : Key) (value : Literal)
  deriving Repr, Inhabited

abbrev Scan := StateT (List Char) Option

/-! ## Characters -/

def isBareChar (c : Char) : Bool :=
  c.isAlphanum || c == '_' || c == '-'

def isSpace (c : Char) : Bool := c == ' ' || c == '\t'

def isLineEnd (c : Char) : Bool := c == '\n' || c == '\r'

def isHexDigit (c : Char) : Bool :=
  c.isDigit || ('a' ≤ c && c ≤ 'f') || ('A' ≤ c && c ≤ 'F')

/-- Whether the characters may all stand in a file: no controls but tabs and
line ends, a carriage return only before a line feed, and no replacement
character, which stands for damaged text. -/
def plainText : List Char → Bool
  | [] => true
  | '\r' :: rest => rest.head? == some '\n' && plainText rest
  | c :: rest => (c == '\t' || c == '\n' || (0x20 ≤ c.toNat && c.toNat ≠ 0x7F && c.toNat ≠ 0xFFFD)) &&
    plainText rest

namespace Scan

def char : Scan Char := fun
  | [] => none
  | c :: rest => some (c, rest)

def peek : Scan (Option Char) := return (← get).head?

def span (p : Char → Bool) : Scan (List Char) := fun cs =>
  some (cs.takeWhile p, cs.dropWhile p)

def skip (p : Char → Bool) : Scan Unit := do
  let _ ← span p

def accept (s : String) : Scan Bool := fun cs =>
  if s.toList.isPrefixOf cs then some (true, cs.drop s.length) else some (false, cs)

def expect (c : Char) : Scan Unit := do
  if (← char) != c then failure

def comment : Scan Unit := skip fun c => !isLineEnd c

end Scan

/-! ## Texts -/

def charOf? (n : Nat) : Option Char :=
  if n < 0xD800 || (0xDFFF < n && n < 0x110000) then some (Char.ofNat n) else none

def hexValue? (ds : List Char) : Option Nat :=
  ds.foldlM (fun n c => if isHexDigit c then (digitValue? c).map (n * 16 + ·) else none) 0

/-- The character behind a backslash, and how many characters its escape
takes after the backslash. -/
def escape? : List Char → Option (Char × Nat)
  | 'b' :: _ => some (Char.ofNat 8, 1)
  | 't' :: _ => some ('\t', 1)
  | 'n' :: _ => some ('\n', 1)
  | 'f' :: _ => some (Char.ofNat 12, 1)
  | 'r' :: _ => some ('\r', 1)
  | '\\' :: _ => some ('\\', 1)
  | 'u' :: rest =>
    if rest.length < 4 then none
    else (hexValue? (rest.take 4)).bind charOf? |>.map (·, 5)
  | 'U' :: rest =>
    if rest.length < 8 then none
    else (hexValue? (rest.take 8)).bind charOf? |>.map (·, 9)
  | c :: _ => if c == Char.ofNat 34 then some (c, 1) else none
  | [] => none

def quotedText : Nat → Scan (List Char)
  | 0 => failure
  | n + 1 => do
    let c ← Scan.char
    if c == Char.ofNat 34 then return []
    else if isLineEnd c then failure
    else if c == '\\' then
      match escape? (← get) with
      | none => failure
      | some (x, k) =>
        modify (·.drop k)
        return x :: (← quotedText n)
    else return c :: (← quotedText n)

def rawText : Scan (List Char) := do
  let body ← Scan.span fun c => c != '\'' && !isLineEnd c
  Scan.expect '\''
  return body

/-- How many quotes in a row may end a text of several lines. The last three
close it and two more may stand before them; after a backslash that is part of
the text, three more may. -/
def closingLimit (escapes : Bool) (before : Option Char) : Nat :=
  if escapes && before == some '\\' then 6 else 5

/-- The characters up to three closing quotes; quotes before those belong to
the text. With `escapes` a backslash and what follows it are taken together.
`before` is the character that was taken last. -/
def blockBody (quote : Char) (escapes : Bool) : Option Char → Nat → Scan (List Char)
  | _, 0 => failure
  | before, n + 1 => do
    let cs ← get
    let run := (cs.takeWhile (· == quote)).length
    if closingLimit escapes before < run then failure
    else if 3 ≤ run then
      modify (·.drop run)
      return List.replicate (run - 3) quote
    else if 0 < run then
      modify (·.drop run)
      return List.replicate run quote ++ (← blockBody quote escapes (some quote) n)
    else
      let c ← Scan.char
      if escapes && c == '\\' then
        let d ← Scan.char
        return c :: d :: (← blockBody quote escapes (some d) n)
      else return c :: (← blockBody quote escapes (some c) n)

def dropFirstLineEnd : List Char → List Char
  | '\n' :: cs => cs
  | '\r' :: '\n' :: cs => cs
  | cs => cs

/-- Replaces the escapes of a text of several lines. A backslash at the end of
a line takes all blanks after it away. -/
def unescapeBlock : Nat → List Char → Option (List Char)
  | 0, _ => none
  | _ + 1, [] => some []
  | n + 1, '\\' :: cs =>
    let blanks := cs.takeWhile fun c => isSpace c || isLineEnd c
    if blanks.contains '\n' then unescapeBlock n (cs.drop blanks.length)
    else match escape? cs with
      | some (x, k) => (x :: ·) <$> unescapeBlock n (cs.drop k)
      | none => none
  | n + 1, c :: cs => (c :: ·) <$> unescapeBlock n cs

def lineText (quote : Char) : Scan String := do
  let n := (← get).length
  String.ofList <$> (if quote == '\'' then rawText else quotedText (n + 1))

def textLiteral (quote : Char) : Scan String := do
  let rest ← get
  if (List.replicate 2 quote).isPrefixOf rest then
    if (List.replicate 3 quote).isPrefixOf (quote :: rest) then
      modify (·.drop 2)
      let body := dropFirstLineEnd (← blockBody quote (quote != '\'') none (rest.length + 1))
      if quote == '\'' then return String.ofList body
      else match unescapeBlock (body.length + 1) body with
        | some cs => return String.ofList cs
        | none => failure
    else lineText quote
  else lineText quote

/-! ## Numbers and times -/

def underscoresPlaced : Bool → List Char → Bool
  | before, [] => before
  | before, c :: cs => (c != '_' || before) && underscoresPlaced (isHexDigit c) cs

def extraZero : List Char → Bool
  | '0' :: c :: _ => !(c == 'b' || c == 'o' || c == 'x')
  | '-' :: '0' :: _ :: _ => true
  | '+' :: '0' :: _ :: _ => true
  | _ => false

def intLiteral? (cs : List Char) : Option Literal :=
  if underscoresPlaced false cs && !extraZero cs then (readInt cs).toOption.map .int else none

def pointsFilled : List Char → Bool
  | [] => true
  | '.' :: cs => (cs.head?.map Char.isDigit).getD false && pointsFilled cs
  | _ :: cs => pointsFilled cs

/-- Parts of a text between characters that pass a test; empty parts are left
out. -/
def partsOf (p : Char → Bool) (cs : List Char) : List (List Char) :=
  let (parts, last) := cs.foldl (fun (parts, cur) c =>
    if p c then (parts ++ [cur], []) else (parts, cur ++ [c])) (([] : List (List Char)), [])
  (parts ++ [last]).filter (!·.isEmpty)

def floatLiteral? (cs : List Char) : Option Literal :=
  let parts := partsOf (fun c => c == '.' || c == 'e' || c == 'E') cs
  if parts.all (underscoresPlaced false) && !((parts.head?.map extraZero).getD false) &&
      pointsFilled cs then
    (readFloat (cs.filter (· != '_'))).toOption.map fun _ => .float
  else none

def twoDigits? (cs : List Char) : Option (Nat × List Char) :=
  match cs with
  | a :: b :: rest =>
    if a.isDigit && b.isDigit then some ((a.toNat - 48) * 10 + (b.toNat - 48), rest) else none
  | _ => none

def after (c : Char) : List Char → Option (List Char)
  | [] => none
  | d :: rest => if d == c then some rest else none

def daysIn (year month : Nat) : Nat :=
  if month = 2 then
    if year % 4 = 0 && (year % 100 ≠ 0 || year % 400 = 0) then 29 else 28
  else if [4, 6, 9, 11].contains month then 30 else 31

def date? (cs : List Char) : Option (List Char) := do
  let (y1, cs) ← twoDigits? cs
  let (y2, cs) ← twoDigits? cs
  let (month, cs) ← twoDigits? (← after '-' cs)
  let (day, cs) ← twoDigits? (← after '-' cs)
  if 1 ≤ month && month ≤ 12 && 1 ≤ day && day ≤ daysIn (y1 * 100 + y2) month then some cs else none

def clock? (cs : List Char) : Option (List Char) := do
  let (hour, cs) ← (twoDigits? cs).orElse fun _ => match cs with
    | c :: rest => if c.isDigit then some (c.toNat - 48, rest) else none
    | [] => none
  let (minute, cs) ← twoDigits? (← after ':' cs)
  let (second, cs) ← twoDigits? (← after ':' cs)
  if hour < 24 && minute < 60 && second < 60 then
    match cs with
    | '.' :: d :: rest => if d.isDigit then some (rest.dropWhile Char.isDigit) else none
    | _ => some cs
  else none

def zone? : List Char → Option (List Char)
  | 'Z' :: cs => some cs
  | sign :: cs =>
    if sign == '+' || sign == '-' then do
      let (hour, cs) ← twoDigits? cs
      let (minute, cs) ← twoDigits? (← after ':' cs)
      if hour ≤ 24 && minute ≤ 60 then some cs else none
    else none
  | [] => none

def isTime (cs : List Char) : Bool :=
  let cs := cs.map fun c => if c == ' ' || c == 't' then 'T' else if c == 'z' then 'Z' else c
  match date? cs with
  | some [] => true
  | some ('T' :: rest) =>
    match clock? rest with
    | some [] => true
    | some zone => zone? zone == some []
    | none => false
  | some _ => false
  | none => clock? cs == some []

def timeLiteral (front : List Char) : Scan Literal := do
  let more ← Scan.span fun c => c.isDigit || "-:Tt .Zz+".toList.contains c
  let cs := front ++ more
  let trimmed := ((cs.dropWhile isSpace).reverse.dropWhile isSpace).reverse
  if isTime trimmed then return .time else failure

def floatRest (front : List Char) : Scan Literal := do
  let more ← Scan.span fun c => c.isDigit || "_.-+eE".toList.contains c
  match floatLiteral? (front ++ more) with
  | some l => return l
  | none => failure

def given (l : Option Literal) : Scan Literal :=
  match l with
  | some l => pure l
  | none => failure

def decimalRest (front : List Char) : Scan Literal := do
  let digits := front ++ (← Scan.span fun c => c.isDigit || c == '_')
  match ← Scan.peek with
  | some c => if c == '.' || c == 'e' || c == 'E' then floatRest digits else given (intLiteral? digits)
  | none => given (intLiteral? digits)

def basedRest (isDigit : Char → Bool) : Scan Literal := do
  let mark ← Scan.char
  match ← Scan.peek with
  | some c =>
    if isDigit c then given (intLiteral? ('0' :: mark :: (← Scan.span fun c => isDigit c || c == '_')))
    else failure
  | none => failure

def numberOrTime : Scan Literal := do
  let digits ← Scan.span Char.isDigit
  match ← Scan.peek with
  | none => given (intLiteral? digits)
  | some c =>
    if digits == ['0'] then
      if c == 'b' then basedRest fun d => d == '0' || d == '1'
      else if c == 'o' then basedRest fun d => '0' ≤ d && d ≤ '7'
      else if c == 'x' then basedRest isHexDigit
      else if c == '_' || c == '.' || c == 'e' || c == 'E' then decimalRest digits
      else given (intLiteral? digits)
    else if c == '-' || c == ':' then timeLiteral digits
    else decimalRest digits

def signedNumber (sign : Char) : Scan Literal := do
  if (← Scan.accept "inf") || (← Scan.accept "nan") then return .float
  match ← get with
  | '0' :: c :: _ => if c == 'b' || c == 'o' || c == 'x' then failure
  | _ => pure ()
  match ← Scan.peek with
  | some c => if c.isDigit then decimalRest [sign] else failure
  | none => failure

/-! ## Keys and values -/

def name : Scan String := do
  Scan.skip isSpace
  match ← Scan.peek with
  | none => failure
  | some c =>
    if c == Char.ofNat 34 || c == '\'' then
      let _ ← Scan.char
      lineText c
    else
      let cs ← Scan.span isBareChar
      if cs.isEmpty then failure else return String.ofList cs

def names : Nat → Scan Key
  | 0 => failure
  | n + 1 => do
    let first ← name
    Scan.skip isSpace
    if ← Scan.accept "." then return first :: (← names n) else return [first]

def key : Scan Key := do names ((← get).length + 1)

def simple (c : Char) : Scan Literal := do
  if c == Char.ofNat 34 || c == '\'' then
    let _ ← Scan.char
    return .text (← textLiteral c)
  else if c.isDigit then numberOrTime
  else if c == '-' || c == '+' then
    let _ ← Scan.char
    signedNumber c
  else
    let word := String.ofList (← Scan.span fun c => c.isAlpha)
    match word with
    | "true" => return .bool true
    | "false" => return .bool false
    | "inf" | "nan" => return .float
    | _ => failure

def gap : Nat → Scan Unit
  | 0 => failure
  | n + 1 => do
    Scan.skip fun c => isSpace c || isLineEnd c
    if ← Scan.accept "#" then
      Scan.comment
      gap n

mutual

def value : Nat → Scan Literal
  | 0 => failure
  | n + 1 => do
    Scan.skip isSpace
    match ← Scan.peek with
    | none => failure
    | some c =>
      if c == '[' then
        let _ ← Scan.char
        return .list (← elements n)
      else if c.toNat == 0x7B then
        let _ ← Scan.char
        Scan.skip isSpace
        if ← Scan.accept "\x7d" then return .table []
        return .table (← pairs n)
      else simple c

def elements : Nat → Scan (List Literal)
  | 0 => failure
  | n + 1 => do
    gap ((← get).length + 1)
    if ← Scan.accept "]" then return []
    let first ← value n
    gap ((← get).length + 1)
    if ← Scan.accept "," then return first :: (← elements n)
    if ← Scan.accept "]" then return [first]
    failure

def pairs : Nat → Scan (List (Key × Literal))
  | 0 => failure
  | n + 1 => do
    let k ← key
    Scan.skip isSpace
    Scan.expect '='
    let v ← value n
    Scan.skip isSpace
    if ← Scan.accept "," then return (k, v) :: (← pairs n)
    if ← Scan.accept "\x7d" then return [(k, v)]
    failure

end

/-! ## Files -/

def lineEnd : Scan Unit := do
  Scan.skip isSpace
  if ← Scan.accept "#" then Scan.comment
  match ← Scan.peek with
  | none => pure ()
  | some c => if isLineEnd c then pure () else failure

def statement : Scan Statement := do
  if ← Scan.accept "[" then
    if ← Scan.accept "[" then
      let k ← key
      Scan.expect ']'
      Scan.expect ']'
      return .tables k
    let k ← key
    Scan.expect ']'
    return .table k
  let k ← key
  Scan.expect '='
  return .pair k (← value ((← get).length + 1))

def statements : Nat → Scan (List Statement)
  | 0 => failure
  | n + 1 => do
    gap ((← get).length + 1)
    if (← get).isEmpty then return []
    let s ← statement
    lineEnd
    return s :: (← statements n)

def dropMark (bs : Bytes) : Bytes :=
  match bs with
  | 0xFF :: 0xFE :: rest => rest
  | 0xFE :: 0xFF :: rest => rest
  | 0xEF :: 0xBB :: 0xBF :: rest => rest
  | _ => bs

def textOf? (bs : Bytes) : Option (List Char) :=
  let cs := (Text.pieces (dropMark bs)).mapM fun
    | .char c => some c
    | .stray _ => none
  cs.filter plainText

def parse? (bs : Bytes) : Option (List Statement) := do
  let cs ← textOf? bs
  let (stmts, _) ← statements (cs.length + 1) cs
  return stmts

end TypedIR.Toml
