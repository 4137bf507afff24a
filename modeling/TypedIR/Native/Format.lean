import TypedIR.Native.Call
import TypedIR.Text.Directive

/-
  The formats of the print natives.

  A format is text with conversions. A conversion is a percent sign, flags, a
  width, a precision, length letters that say nothing here, and a letter that
  names the conversion. A star in place of a width or precision takes an
  argument. Every conversion takes the next argument; a conversion that finds
  none, and one that is not known, fail the whole format.
-/

namespace TypedIR

open Text

namespace Format

/-- Why a format cannot be carried out. -/
inductive Malformed where
  | missingArgument (n : Nat)
  | trailingPercent
  | incomplete
  | unknown (letter : UInt8)
  deriving DecidableEq, Repr, Inhabited

def Malformed.message : Malformed → String
  | .missingArgument n => "malformed format: missing argument " ++ decimalNat n
  | .trailingPercent => "malformed format: trailing %"
  | .incomplete => "malformed format: incomplete conversion"
  | .unknown b =>
    "malformed format: unknown conversion %" ++ String.singleton (Char.ofNat b.toNat)

/-- A width or precision. -/
inductive Count where
  | digits (ds : List Char)
  | star
  deriving DecidableEq, Repr, Inhabited

/-- A conversion as it is written; the letter is missing if the format ends
before it. -/
structure Conversion where
  flags : List Char := []
  width : Count := .digits []
  prec : Option Count := none
  letter : Option UInt8 := none
  deriving DecidableEq, Repr, Inhabited

def isOneOf (chars : String) (b : UInt8) : Bool :=
  chars.toList.any fun c => c.toNat == b.toNat

def asciiChar (b : UInt8) : Char := Char.ofNat b.toNat

def readCount (bs : Bytes) : Count × Bytes :=
  match bs with
  | 42 :: rest => (.star, rest)
  | bs =>
    (.digits ((bs.takeWhile (isOneOf "0123456789")).map asciiChar),
      bs.dropWhile (isOneOf "0123456789"))

def readPrec (bs : Bytes) : Option Count × Bytes :=
  match bs with
  | 46 :: rest =>
    let (count, rest) := readCount rest
    (some count, rest)
  | bs => (none, bs)

def readConversion (bs : Bytes) : Conversion × Bytes :=
  let flags := (bs.takeWhile (isOneOf "-+ 0#")).map asciiChar
  let (width, rest) := readCount (bs.dropWhile (isOneOf "-+ 0#"))
  let (prec, rest) := readPrec rest
  match rest.dropWhile (isOneOf "hlLqjzt") with
  | [] => ({ flags, width, prec }, [])
  | letter :: rest => ({ flags, width, prec, letter := some letter }, rest)

/-- The arguments still to be used, and how many were used. -/
structure Supply where
  args : List NativeArg
  used : Nat := 0

abbrev FormatM := StateT Supply HostM

def refuse {α : Type} (m : Malformed) : FormatM α :=
  throw (.failed (.text m.message))

def next : FormatM NativeArg := do
  let s ← get
  match s.args with
  | [] => refuse (.missingArgument (s.used + 1))
  | a :: rest =>
    set { args := rest, used := s.used + 1 : Supply }
    pure a

def countChars : Count → FormatM (List Char)
  | .digits ds => pure ds
  | .star => do return (decimal (← next).int).toList

def isLetter (b : UInt8) : Bool :=
  isOneOf "diuxXocsfFeEgGp" b

def renderArg (spec : List Char) (letter : UInt8) (a : NativeArg) : HostM Bytes :=
  let letter := asciiChar letter
  match letter with
  | 'd' | 'i' => pure (writeDirective (spec ++ ['d']) (.int a.int))
  | 'u' => pure (writeDirective (spec ++ ['d']) (.uint a.uintOfWidth.toNat))
  | 'x' | 'X' | 'o' => pure (writeDirective (spec ++ [letter]) (.uint a.uintOfWidth.toNat))
  | 'c' => pure (writeDirective (spec ++ ['c']) (.rune (Word.ofInt a.int).toUInt8.toNat))
  | 's' => do return writeDirective (spec ++ ['s']) (.bytes (← a.string))
  | 'p' => pure (bytesOf (markedHex a.bits.toNat))
  | 'F' => pure (writeDirective (spec ++ ['f']) (.float a.double.toFloat))
  | _ => pure (writeDirective (spec ++ [letter]) (.float a.double.toFloat))

def convert (c : Conversion) : FormatM Bytes := do
  let width ← countChars c.width
  let prec ← match c.prec with
    | none => pure []
    | some count => ('.' :: ·) <$> countChars count
  match c.letter with
  | none => refuse .incomplete
  | some letter =>
    if !isLetter letter then refuse (.unknown letter)
    let a ← next
    renderArg (c.flags ++ width ++ prec) letter a

def renderWithin : Nat → Bytes → FormatM Bytes
  | 0, _ => pure []
  | _ + 1, [] => pure []
  | fuel + 1, 37 :: rest =>
    match rest with
    | [] => refuse .trailingPercent
    | 37 :: rest => do return 37 :: (← renderWithin fuel rest)
    | rest => do
      let (conversion, rest) := readConversion rest
      let text ← convert conversion
      return text ++ (← renderWithin fuel rest)
  | fuel + 1, b :: rest => do return b :: (← renderWithin fuel rest)

/-- The text of a format with its arguments. Every piece takes at least one
byte, so the length of the format is fuel enough. -/
def render (format : Bytes) (args : List NativeArg) : HostM Bytes := do
  let (text, _) ← (renderWithin format.length format).run { args }
  pure text

end Format

end TypedIR
