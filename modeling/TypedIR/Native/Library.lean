import TypedIR.Native.Format
import TypedIR.Types.Basic

/-
  The natives every runtime starts with: characters and strings to the output,
  formatted text, absolute values, the heap, strings, the clock and random
  numbers.
-/

namespace TypedIR

open Text

/-- A native of the library: its name, its parameters and result, whether it
takes further arguments, and what it does. -/
structure LibraryNative where
  name : String
  params : List Builtin := []
  ret : Builtin := .void
  variadic : Bool := false
  run : NativeFunc

namespace Library

/-- A size in bytes from an unsigned number; numbers past the largest signed
word are no sizes. -/
def sizeOfWord (n : Word) : HostM Int :=
  if n.toNat < 0x8000000000000000 then pure n.toNat else HostM.fail "out of range"

def putchar : NativeFunc := fun c => do
  let ch := (Word.ofInt (← c.arg 0).int).lowByte
  HostM.print [ch]
  return c.returnInt ch.toNat

def puts : NativeFunc := fun c => do
  let s ← (← c.arg 0).string
  HostM.print (s ++ [10])
  return c.returnInt (s.length + 1)

def printf : NativeFunc := fun c => do
  let format ← (← c.arg 0).string
  let text ← Format.render format (c.args.drop 1)
  HostM.print text
  return c.returnInt text.length

def sprintf : NativeFunc := fun c => do
  let format ← (← c.arg 1).string
  let text ← Format.render format (c.args.drop 2)
  HostM.request (Memory.write (← c.arg 0).bits (text ++ [0]))
  return c.returnInt text.length

def abs : NativeFunc := fun c => do
  let n := (← c.arg 0).int
  return c.returnInt (if n < 0 then -n else n)

def malloc : NativeFunc := fun c => do
  let n ← sizeOfWord (← c.arg 0).uint
  HostM.request (Memory.alloc n)

/-- A fresh block for a count of elements of a size; the product is taken
modulo 2^64. -/
def calloc : NativeFunc := fun c => do
  let n ← sizeOfWord ((← c.arg 0).uint * (← c.arg 1).uint)
  HostM.request (Memory.alloc n)

def realloc : NativeFunc := fun c => do
  let n ← sizeOfWord (← c.arg 1).uint
  HostM.request (Memory.realloc (← c.arg 0).bits n)

def free : NativeFunc := fun c => do
  HostM.request (Memory.free (← c.arg 0).bits)
  return 0

def strlen : NativeFunc := fun c => do
  return UInt64.ofNat (← (← c.arg 0).string).length

def memset : NativeFunc := fun c => do
  let n ← sizeOfWord (← c.arg 2).uint
  let dst := (← c.arg 0).bits
  HostM.request (Memory.fill dst (Word.ofInt (← c.arg 1).int).lowByte n)
  return dst

def time : NativeFunc := fun c => do
  let now := c.returnInt (← get).clock
  let dst := (← c.arg 0).bits
  if dst ≠ 0 then
    HostM.request (Memory.write dst (littleEndian c.ret.size.toNat now))
  return now

def rand : NativeFunc := fun c => do
  let (n, rng) := (← get).rng.nextInt31
  modify fun h => { h with rng }
  return c.returnInt n

def srand : NativeFunc := fun c => do
  let seed := (← c.arg 0).uint
  modify fun h => { h with rng := .seeded seed }
  return 0

def all : List LibraryNative :=
  [{ name := "putchar", params := [.int32], ret := .int32, run := putchar },
   { name := "puts", params := [.stringz], ret := .int32, run := puts },
   { name := "printf", params := [.stringz], ret := .int32, variadic := true, run := printf },
   { name := "sprintf", params := [.voidPtr, .stringz], ret := .int32, variadic := true,
     run := sprintf },
   { name := "abs", params := [.int32], ret := .int32, run := abs },
   { name := "labs", params := [.int64], ret := .int64, run := abs },
   { name := "malloc", params := [.nuint], ret := .voidPtr, run := malloc },
   { name := "calloc", params := [.nuint, .nuint], ret := .voidPtr, run := calloc },
   { name := "realloc", params := [.voidPtr, .nuint], ret := .voidPtr, run := realloc },
   { name := "free", params := [.voidPtr], run := free },
   { name := "strlen", params := [.stringz], ret := .nuint, run := strlen },
   { name := "memset", params := [.voidPtr, .int32, .nuint], ret := .voidPtr, run := memset },
   { name := "time", params := [.voidPtr], ret := .nint, run := time },
   { name := "rand", ret := .int32, run := rand },
   { name := "srand", params := [.uint32], run := srand }]

end Library

end TypedIR
