import TypedIR.Text.Numeral

/-
  Timers: the phases of a run and how long each took.
-/

namespace TypedIR.Console

open Text

/-- A phase that has ended. -/
structure Phase where
  name : String
  nanos : Nat
  note : String
  deriving DecidableEq, Repr, Inhabited

def millisText (nanos : Nat) : String :=
  let micros := (nanos + 500) / 1000
  decimalNat (micros / 1000) ++ "." ++ padLeft 3 '0' (decimalNat (micros % 1000))

def timeLine (name : String) (nanos : Nat) : String :=
  padRight 8 name ++ " " ++ padLeft 8 ' ' (millisText nanos) ++ " ms"

def timingSummary (phases : List Phase) : String :=
  String.join (phases.map fun p =>
    timeLine p.name p.nanos ++ (if p.note = "" then "" else "  " ++ p.note) ++ "\n") ++
  timeLine "total" (phases.foldl (fun n p => n + p.nanos) 0) ++ "\n"

end TypedIR.Console
