import TypedIR.Engine.Failure
import TypedIR.Arith

/-
  Calls of host functions.

  Compiled code reaches the host through natives. A native sees its arguments
  as registers with their representations, may use memory, write output, draw
  random numbers and look at the clock, and gives a register back. It fails
  with a cause of the engine or with a text of its own.
-/

namespace TypedIR

open Text

/-! ## Random numbers

The pseudo-random generator behind the `rand` native: a linear congruential
generator on 128 bits whose output is a scrambled high half.
-/

/-- The state of the generator, below 2^128. -/
structure Generator where
  state : Nat
  deriving DecidableEq, Repr, Inhabited

namespace Generator

def seeded (seed : UInt64) : Generator :=
  ⟨seed.toNat * 0x10000000000000000 + seed.toNat⟩

def multiplier : Nat := 2549297995355413924 * 0x10000000000000000 + 4865540595714422341

def increment : Nat := 6364136223846793005 * 0x10000000000000000 + 1442695040888963407

def step (g : Generator) : Generator :=
  ⟨(g.state * multiplier + increment) % 0x100000000000000000000000000000000⟩

/-- The number a state stands for: shifts and multiplications mix the low half
into the high one. -/
def output (g : Generator) : UInt64 :=
  let low := UInt64.ofNat (g.state % 0x10000000000000000)
  let high := UInt64.ofNat (g.state / 0x10000000000000000)
  let high := high ^^^ (high >>> 32)
  let high := high * 0xda942042e4dd58b5
  let high := high ^^^ (high >>> 48)
  high * (low ||| 1)

def nextInt31 (g : Generator) : Nat × Generator :=
  let g := g.step
  ((g.output >>> 33).toNat, g)

end Generator

/-! ## Calls -/

/-- What natives can reach: memory, the bytes written so far, the random
generator and the clock in seconds. -/
structure Host where
  memory : Memory
  output : Array UInt8 := #[]
  rng : Generator := .seeded 1
  clock : Int := 0
  deriving Inhabited

/-- Why a native fails. -/
inductive NativeError where
  | cause (c : Cause)
  | text (s : String)
  deriving DecidableEq, Repr, Inhabited

abbrev HostM := ExceptT (Halt NativeError) (StateM Host)

namespace HostM

def fail {α : Type} (s : String) : HostM α :=
  throw (.failed (.text s))

def request {α : Type} (r : Memory.Request α) : HostM α := do
  let h ← get
  -- memory is taken out of the host while it changes
  set { h with memory := {} }
  let (answer, memory) := (r.run h.memory : Except (Halt Fault) α × Memory)
  modify fun h => { h with memory }
  match answer with
  | .ok a => pure a
  | .error (.failed f) => throw (.failed (.cause (.memory f)))
  | .error .crashed => throw .crashed

def print (bs : Bytes) : HostM Unit :=
  modify fun h => { h with output := h.output ++ bs.toArray }

end HostM

/-- An argument of a native: a register and its representation. -/
structure NativeArg where
  rep : Rep
  bits : Word
  deriving DecidableEq, Repr, Inhabited

namespace NativeArg

def int (a : NativeArg) : Int :=
  if a.rep.cls = .float then (a.rep.toDouble a.bits).toSigned.toInt else a.bits.toInt

def uint (a : NativeArg) : Word :=
  if a.rep.cls = .float then (a.rep.toDouble a.bits).toUnsigned else a.bits

def double (a : NativeArg) : Double :=
  match a.rep.cls with
  | .float => a.rep.toDouble a.bits
  | .int => .ofSigned a.bits
  | _ => .ofUnsigned a.bits

def uintOfWidth (a : NativeArg) : Word :=
  if a.rep.cls = .int ∧ 0 < a.rep.size ∧ a.rep.size < 8 then
    a.bits &&& Word.lowMask (8 * a.rep.size)
  else a.uint

def string (a : NativeArg) : HostM Bytes :=
  HostM.request (Memory.readString a.bits)

end NativeArg

/-- One call of a native: its name, its arguments and the representation of
its result. -/
structure NativeCall where
  name : String
  args : List NativeArg
  ret : Rep
  deriving Repr, Inhabited

namespace NativeCall

def arg (c : NativeCall) (i : Nat) : HostM NativeArg :=
  match c.args[i]? with
  | some a => pure a
  | none => throw .crashed

def returnInt (c : NativeCall) (n : Int) : Word :=
  if c.ret.cls = .float then c.ret.ofDouble (.ofSigned (Word.ofInt n))
  else c.ret.normalize (Word.ofInt n)

def returnDouble (c : NativeCall) (x : Double) : Word :=
  if c.ret.cls = .float then c.ret.ofDouble x else c.ret.normalize x.toSigned

end NativeCall

abbrev NativeFunc := NativeCall → HostM Word

end TypedIR
