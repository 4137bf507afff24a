/-
  How a request can stop.

  A failure is reported to whoever asked. A crash is a request that the machine
  itself cannot carry out: an index outside a table, or an object larger than
  any that it can make.
-/

namespace TypedIR

/-- How a request can stop: with a failure, or with a crash of the machine. -/
inductive Halt (ε : Type) where
  | failed (e : ε)
  | crashed
  deriving DecidableEq, Repr, Inhabited

/-- The most bytes that one object takes: addresses have 48 bits. -/
def largestObject : Nat := 0x1000000000000

end TypedIR
