import TypedIR.Trace.Level
import TypedIR.Text.Json
import TypedIR.Text.Numeral

/-
  Trace events and how they are written, one line each.

  Notes are what the engine and the builder have to say; a tracer numbers
  them and turns them into events. Spans nest: a note that closes a span
  closes the one opened last.
-/

namespace TypedIR.Trace

open Text

/-! ## Points in time

Points in time: microseconds since the start of 1970 and the offset of a
time zone in seconds, written as date and time of day in that zone.
-/

/-- A point in time as it is seen in a time zone. -/
structure Timestamp where
  micros : Int := 0
  zone : Int := 0
  deriving DecidableEq, Repr, Inhabited

namespace Timestamp

def zero : Timestamp := { micros := -62135596800000000 }

/-- Year, month and day of a day counted from the start of 1970. Years are
counted from March, so that the leap day is the last of its year, and in eras
of 400 years. -/
def civilOfDay (day : Int) : Int × Nat × Nat :=
  let z := day + 719468
  let era := z.fdiv 146097
  let doe := (z.fmod 146097).toNat
  let yoe := (doe - doe / 1460 + doe / 36524 - doe / 146096) / 365
  let doy := doe - (365 * yoe + yoe / 4 - yoe / 100)
  let mp := (5 * doy + 2) / 153
  let d := doy - (153 * mp + 2) / 5 + 1
  let m := if mp < 10 then mp + 3 else mp - 9
  let y : Int := yoe + era * 400
  (if m ≤ 2 then y + 1 else y, m, d)

def twoDigits (n : Nat) : String := padLeft 2 '0' (decimalNat n)

def zoneText (zone : Int) : String :=
  if zone = 0 then "Z"
  else
    let minutes := (zone.tdiv 60).natAbs
    (if zone.tdiv 60 < 0 then "-" else "+") ++ twoDigits (minutes / 60) ++ ":" ++
      twoDigits (minutes % 60)

def yearText (y : Int) : String :=
  if y < 0 then "-" ++ padLeft 4 '0' (decimalNat y.natAbs)
  else padLeft 4 '0' (decimalNat y.natAbs)

def text (t : Timestamp) : String :=
  let shifted := t.micros + t.zone * 1000000
  let seconds := shifted.fdiv 1000000
  let micro := (shifted.fmod 1000000).toNat
  let (y, m, d) := civilOfDay (seconds.fdiv 86400)
  let sod := (seconds.fmod 86400).toNat
  yearText y ++ "-" ++ twoDigits m ++ "-" ++ twoDigits d ++ "T" ++ twoDigits (sod / 3600) ++ ":" ++
    twoDigits (sod / 60 % 60) ++ ":" ++ twoDigits (sod % 60) ++ "." ++
    padLeft 6 '0' (decimalNat micro) ++ zoneText t.zone

end Timestamp

/-! ## Events -/

/-- Something to trace, before it is numbered. -/
inductive Note where
  /-- An instant event. -/
  | point (scope : Scope) (name detail : String)
  /-- The start of a span. -/
  | opened (scope : Scope) (name : String)
  /-- The end of the span opened last. -/
  | closed (detail : String) (extra : List (String × String))
  deriving DecidableEq, Repr, Inhabited

/-- An event. The extra entries are in the order of their keys; if they are
`shared` they are those of the span, which can still get more. -/
structure Event where
  time : Timestamp := {}
  seq : Nat := 0
  kind : EventKind := .none
  scope : Scope := .none
  span : Nat := 0
  parent : Nat := 0
  gid : Nat := 0
  name : String := ""
  detail : String := ""
  extra : List (String × String) := []
  shared : Bool := false
  deriving DecidableEq, Repr, Inhabited

/-- Puts an entry into a list of entries ordered by key; an entry under the
same key is replaced. -/
def putExtra (key value : String) : List (String × String) → List (String × String)
  | [] => [(key, value)]
  | (k, v) :: rest =>
    if key == k then (key, value) :: rest
    else if key < k then (key, value) :: (k, v) :: rest
    else (k, v) :: putExtra key value rest

namespace Event

def text (e : Event) : String :=
  let extra :=
    if e.extra.isEmpty then ""
    else " \x7b" ++ String.intercalate ", " (e.extra.map fun p => p.1 ++ "=" ++ p.2) ++ "\x7d"
  "#" ++ padRight 6 (decimalNat e.seq) ++ " " ++ padRight 8 e.scope.name ++ " " ++
    (if e.parent = 0 then "" else "  ") ++ e.kind.mark ++ e.name ++
    (if e.detail = "" then "" else " (" ++ e.detail ++ ")") ++ extra ++ "\n"

def json (e : Event) : String :=
  let whenNot (b : Bool) (m : String × String) : List (String × String) := if b then [] else [m]
  jsonObject (
    [("time", jsonString e.time.text), ("seq", decimalNat e.seq), ("kind", jsonString e.kind.name),
     ("scope", jsonString e.scope.name), ("span_id", decimalNat e.span)] ++
    whenNot (e.parent == 0) ("parent_id", decimalNat e.parent) ++
    whenNot (e.gid == 0) ("gid", decimalNat e.gid) ++
    [("name", jsonString e.name)] ++
    whenNot (e.detail == "") ("detail", jsonString e.detail) ++
    whenNot e.extra.isEmpty
      ("extra", jsonObject (e.extra.map fun p => (p.1, jsonString p.2)))) ++ "\n"

def render (e : Event) (format : EventFormat) : String :=
  if format = .ndjson then e.json else e.text

/-- The number of a span in the order in which spans are seen, from 1; `seen`
are those seen before. No span stays 0. -/
def renumber (seen : List Nat) (span : Nat) : Nat × List Nat :=
  if span = 0 then (0, seen)
  else
    match seen.findIdx? (· == span) with
    | some i => (i + 1, seen)
    | none => (seen.length + 1, seen ++ [span])

/-- Events without what differs from run to run: times are left out, and spans
are numbered in the order in which they are seen. -/
def comparable (seen : List Nat) : List Event → List Event
  | [] => []
  | e :: rest =>
    let (parent, seen) := renumber seen e.parent
    let (span, seen) := renumber seen e.span
    { e with parent, span, time := .zero, gid := 0 } :: comparable seen rest

end Event

end TypedIR.Trace
