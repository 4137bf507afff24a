import TypedIR.Llvm.Module
import TypedIR.Decimal.Text
import TypedIR.Text.Utf8

/-
  The text of modules.

  Integers from 4096 on are written in hexadecimal if that shows far fewer
  different digits. Floating point numbers are written in decimal if their
  shortest decimal is exact, and as the bits of a double if not. Names with
  other than plain characters are quoted.
-/

namespace TypedIR.Llvm

open Text Decimal

def LType.text : LType → String
  | .void => "void"
  | .int bits => "i" ++ decimalNat bits
  | .float => "float"
  | .double => "double"
  | .pointer t => t.text ++ "*"
  | .bytes n => "[" ++ decimalNat n ++ " x i8]"

def Name.text : Name → String
  | .param i => "%p" ++ decimalNat i
  | .slot v => "%v" ++ decimalNat v
  | .temp n => "%" ++ decimalNat n

def digitKinds (base n : Nat) : Nat := (Nat.toDigits base n).eraseDups.length

def digitCount (base n : Nat) : Nat := (Nat.toDigits base n).length

def digitShare (base n : Nat) : Float :=
  Float.ofNat (digitKinds base n) / Float.ofNat (min (digitCount base n) base)

/-- Whether a number from 4096 on reads better in hexadecimal: its hexadecimal
digits repeat often enough, and the share of different digits is smaller by a
fifth than in decimal. -/
def prefersHex (n : Nat) : Bool :=
  let kinds := digitKinds 16 n
  2 * kinds * kinds < 3 * digitCount 16 n && digitShare 16 n + 0.2 ≤ digitShare 10 n

def integerText (n : Int) : String :=
  if 4096 ≤ n && prefersHex n.toNat then
    "u0x" ++ String.ofList ((Nat.toDigits 16 n.toNat).map Char.toUpper)
  else decimal n

def Digits.quotient (d : Digits) : Quotient :=
  .decimal (d.digits.foldl (fun n k => n * 10 + k) 0) (d.point - d.digits.length)

def isExactly (d : Digits) (b : Binary) : Bool :=
  let q := Digits.quotient d
  let r := Quotient.binary b.mantissa b.exponent
  q.le r && r.le q

def withPoint (s : String) : String :=
  if s.contains '.' then s
  else
    let head := s.toList.takeWhile (· != 'e')
    String.ofList (head ++ ['.', '0'] ++ s.toList.drop head.length)

def bitsText (bits : UInt64) : String :=
  "0x" ++ String.ofList ((Nat.toDigits 16 bits.toNat).map Char.toUpper)

def floatConstText (t : LType) (bits : UInt64) : String :=
  let x := Float.ofBits bits
  if x.isNaN then bitsText ((bits &&& Double.signBit) ||| 0x7FF8000000000000)
  else if x.isInf then bitsText bits
  else
    let b := Binary.ofBits bits
    let d := b.shortest true
    let own := if t = .float then (Binary.ofBits32 x.toFloat32.toBits).shortest true else d
    if x == 0 || isExactly own b then
      (if isNegative x then "-" else "") ++ withPoint (d.generalText 6 d.digits.length 'e')
    else bitsText bits

def isPlain (b : UInt8) : Bool :=
  let c := Char.ofNat b.toNat
  b < 128 && (c.isAlphanum || c == '$' || c == '-' || c == '.' || c == '_')

def isQuotable (b : UInt8) : Bool :=
  32 ≤ b && b < 127 && b != 34 && b != 92

def quotedByte (b : UInt8) : String :=
  if isQuotable b then String.singleton (Char.ofNat b.toNat)
  else
    let digits := (Nat.toDigits 16 b.toNat).map Char.toUpper
    "\\" ++ padLeft 2 '0' (String.ofList digits)

def quotedText (s : String) : String :=
  let quote := String.singleton (Char.ofNat 34)
  quote ++ String.join ((bytesOf s).map quotedByte) ++ quote

def digitsValue? (cs : List Char) : Option Nat :=
  if cs.isEmpty || !cs.all Char.isDigit then none
  else some (cs.foldl (fun n c => n * 10 + (c.toNat - 48)) 0)

def unsignedNumber? (name : String) : Option Nat :=
  (digitsValue? name.toList).filter (· < 0x10000000000000000)

def signedNumber? (name : String) : Option Int :=
  match name.toList with
  | '-' :: cs => ((digitsValue? cs).filter (· ≤ 0x8000000000000000)).map fun n => -(n : Int)
  | '+' :: cs => ((digitsValue? cs).filter (· < 0x8000000000000000)).map Int.ofNat
  | cs => ((digitsValue? cs).filter (· < 0x8000000000000000)).map Int.ofNat

/-- The text of the name of a function; the number of a function without a
name comes from its module. A name that is a number is quoted. -/
def functionText (name : String) (number : Nat) : String :=
  if name = "" then "@" ++ decimalNat number
  else if (unsignedNumber? name).isSome then "@" ++ quotedText name
  else if (bytesOf name).all isPlain then "@" ++ name
  else "@" ++ quotedText name

def Operand.text : Operand → String
  | .named x _ => x.text
  | .int _ n => integerText n
  | .float t bits => floatConstText t bits
  | .null => "null"
  | .address n => "inttoptr (i64 " ++ integerText n ++ " to i8*)"

def Operand.typedText (x : Operand) : String := x.type.text ++ " " ++ x.text

def BinaryOp.name : BinaryOp → String
  | .add => "add"
  | .sub => "sub"
  | .mul => "mul"
  | .sdiv => "sdiv"
  | .udiv => "udiv"
  | .srem => "srem"
  | .urem => "urem"
  | .and => "and"
  | .or => "or"
  | .xor => "xor"
  | .shl => "shl"
  | .ashr => "ashr"
  | .lshr => "lshr"
  | .fadd => "fadd"
  | .fsub => "fsub"
  | .fmul => "fmul"
  | .fdiv => "fdiv"
  | .frem => "frem"

def CastOp.name : CastOp → String
  | .trunc => "trunc"
  | .zext => "zext"
  | .sext => "sext"
  | .fptrunc => "fptrunc"
  | .fpext => "fpext"
  | .fptoui => "fptoui"
  | .fptosi => "fptosi"
  | .uitofp => "uitofp"
  | .sitofp => "sitofp"
  | .ptrtoint => "ptrtoint"
  | .inttoptr => "inttoptr"
  | .bitcast => "bitcast"

def Predicate.name : Predicate → String
  | .eq => "eq"
  | .ne => "ne"
  | .slt => "slt"
  | .sle => "sle"
  | .sgt => "sgt"
  | .sge => "sge"
  | .ult => "ult"
  | .ule => "ule"
  | .ugt => "ugt"
  | .uge => "uge"
  | .oeq => "oeq"
  | .olt => "olt"
  | .ole => "ole"
  | .ogt => "ogt"
  | .oge => "oge"
  | .une => "une"

def BlockName.text : BlockName → String
  | .entry => "entry"
  | .label l => "L" ++ decimalNat l
  | .before pc => "pc" ++ decimalNat pc

def Module.numberOf (m : Module) (i : Nat) : Nat :=
  ((m.functions.toList.take i).filter fun f => f.name = "").length

def Module.nameText (m : Module) (i : Nat) : String :=
  functionText ((m.functions[i]?.map (·.name)).getD "") (m.numberOf i)

/-- What a call says about its callee: the result, or the whole type of a
function with any number of arguments. -/
def Function.callText (f : Function) : String :=
  if f.variadic then
    f.ret.text ++ " (" ++ String.intercalate ", " (f.params.map LType.text ++ ["..."]) ++ ")"
  else f.ret.text

def Instr.text (m : Module) : Instr → String
  | .slot v t => (Name.slot v).text ++ " = alloca " ++ t.text
  | .alloca d n => result d ++ "alloca i8, " ++ n.typedText
  | .load d t p => result d ++ "load " ++ t.text ++ ", " ++ p.typedText
  | .store x p => "store " ++ x.typedText ++ ", " ++ p.typedText
  | .binary d op a b => result d ++ op.name ++ " " ++ a.typedText ++ ", " ++ b.text
  | .negate d a => result d ++ "fneg " ++ a.typedText
  | .compare d p a b =>
    result d ++ (if p.onFloats then "fcmp " else "icmp ") ++ p.name ++ " " ++ a.typedText ++
      ", " ++ b.text
  | .cast d op a t => result d ++ op.name ++ " " ++ a.typedText ++ " to " ++ t.text
  | .element d t p i =>
    result d ++ "getelementptr " ++ t.text ++ ", " ++ p.typedText ++ ", " ++ i.typedText
  | .call d f args =>
    (d.map result).getD "" ++ "call " ++
      ((m.functions[f]?.map (·.callText)).getD "") ++ " " ++ m.nameText f ++
      "(" ++ String.intercalate ", " (args.map Operand.typedText) ++ ")"
where
  /-- The result of an instruction, in front of it. -/
  result (d : Nat) : String := (Name.temp d).text ++ " = "

def Terminator.text : Terminator → String
  | .jump b => "br label %" ++ b.text
  | .branch c yes no => "br " ++ c.typedText ++ ", label %" ++ yes.text ++ ", label %" ++ no.text
  | .ret none => "ret void"
  | .ret (some x) => "ret " ++ x.typedText
  | .unreachable => "unreachable"

def Block.text? (m : Module) (b : Block) : Option String := do
  let t ← b.terminator
  some (b.name.text ++ ":\n" ++
    String.join (b.instrs.toList.map fun i => "\t" ++ i.text m ++ "\n") ++ "\t" ++ t.text ++ "\n")

/-- Whether a body can be written: blocks that are listed twice number no
results. -/
def Body.isWritable (b : Body) : Bool :=
  let twice := b.order.toList.filter fun i => 1 < b.order.toList.count i
  twice.all fun i => ((b.blocks[i]?).map fun k => k.instrs.all (·.temp?.isNone)).getD false

def Function.paramsText (f : Function) : String :=
  let name (i : Nat) : Name := if f.body.isSome then .param i else .temp i
  let params := (f.params.zipIdx).map fun (t, i) => t.text ++ " " ++ (name i).text
  String.intercalate ", " (if f.variadic then params ++ ["..."] else params)

def Module.functionText? (m : Module) (i : Nat) (f : Function) : Option String := do
  let head := f.ret.text ++ " " ++ m.nameText i ++ "(" ++ f.paramsText ++ ")"
  match f.body with
  | none => some ("declare " ++ head ++ "\n")
  | some b =>
    if !b.isWritable then none
    let blocks ← b.listed.mapM (·.text? m)
    some ("define " ++ head ++ " \x7b\n" ++ String.intercalate "\n" blocks ++ "\x7d\n")

/-- The text of a module; one with a function that was given up halfway has
none. -/
def Module.text? (m : Module) : Option String := do
  let fs ← (m.functions.toList.zipIdx).mapM fun (f, i) => m.functionText? i f
  let head := if m.triple = "" then "" else "target triple = " ++ quotedText m.triple ++ "\n"
  let gap := if head = "" || fs.isEmpty then "" else "\n"
  some (head ++ gap ++ String.intercalate "\n" fs)

end TypedIR.Llvm
