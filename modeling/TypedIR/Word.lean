/-
  Machine words.

  A register holds 64 bits. The same bits are read as an unsigned number, as a
  two's complement integer, or as an IEEE number; nothing in a register says
  which. Sizes and offsets are 64-bit integers whose sums wrap around.
-/

namespace TypedIR

/-! ## Powers

Powers of the two bases that numbers are written in.
-/

def twoTo (n : Nat) : Nat := Nat.pow 2 n

def tenTo (n : Nat) : Nat := Nat.pow 10 n

/-! ## Words -/

abbrev Word := UInt64

def wrap64 (i : Int) : Int :=
  Int.bmod i 0x10000000000000000

theorem wrap64_of_mem {i : Int} (lo : -0x8000000000000000 ≤ i) (hi : i < 0x8000000000000000) : wrap64 i = i := by
  unfold wrap64
  rw [Int.bmod_eq_of_le] <;> omega

namespace Word

def ofInt (i : Int) : Word :=
  UInt64.ofNat (i % 0x10000000000000000).toNat

def toInt (w : Word) : Int :=
  if w.toNat < 0x8000000000000000 then (w.toNat : Int) else (w.toNat : Int) - 0x10000000000000000

def ofBool (b : Bool) : Word :=
  if b then 1 else 0

def allOnes : Word := 0xFFFFFFFFFFFFFFFF

/-- The word with the low `bits` bits set; every width outside 1 to 63 means
the whole word. -/
def lowMask (bits : Int) : Word :=
  if bits ≤ 0 ∨ 64 ≤ bits then allOnes else UInt64.ofNat (twoTo bits.toNat - 1)

def signExtend (w : Word) (bits : Int) : Word :=
  if bits ≤ 0 ∨ 64 ≤ bits then w
  else
    let low := w &&& lowMask bits
    if low &&& UInt64.ofNat (twoTo (bits.toNat - 1)) = 0 then low
    else low ||| ~~~(lowMask bits)

def shiftLeft (w : Word) (count : Nat) : Word :=
  if count < 64 then w <<< UInt64.ofNat count else 0

def shiftRight (w : Word) (count : Nat) : Word :=
  if count < 64 then w >>> UInt64.ofNat count else 0

/-- A shift to the right that fills with the sign; counts from 63 on leave
nothing else. -/
def shiftRightSigned (w : Word) (count : Nat) : Word :=
  ofInt (w.toInt.shiftRight (min count 63))

def lowByte (w : Word) : UInt8 := w.toUInt8

end Word

def littleEndian : Nat → Word → List UInt8
  | 0, _ => []
  | n + 1, w => w.toUInt8 :: littleEndian n (w >>> 8)

def ofLittleEndian : List UInt8 → Word
  | [] => 0
  | b :: rest => b.toUInt64 ||| (ofLittleEndian rest <<< 8)

end TypedIR
