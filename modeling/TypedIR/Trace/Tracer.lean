import TypedIR.Trace.Event
import TypedIR.Disk
import TypedIR.Halt

/-
  Tracers: rings that keep the last events, streams that write each event, and
  tees that hand events on.

  All tracers of a session stand in one table, since a tee shares its sinks
  with whoever else uses them. A sink of a tee comes before the tee in the
  table. Events are numbered across all tracers in the order in which they are
  made, and so are spans.
-/

namespace TypedIR.Trace

open Text

/-- The name of a tracer: its position in the table. Position 0 is the tracer
that does nothing. -/
abbrev TracerId := Nat

/-- A ring: the last events it was given, at most `capacity` of them. The
event that came as number `n` (from 0) is at position `n % capacity`. -/
structure Ring where
  level : Level
  capacity : Nat
  total : Nat := 0
  buffer : Array Event := #[]
  deriving Inhabited

namespace Ring

def defaultCapacity : Nat := 4096

/-- The bytes that each event takes in a ring. -/
def placeSize : Nat := 104

/-- A ring with room for `capacity` events, or for the usual number of them if
that is not positive. The room is made at once: there is no ring if it would be
larger than any object can be. -/
def make? (capacity : Int) (level : Level) : Option Ring :=
  let capacity := if capacity ≤ 0 then defaultCapacity else capacity.toNat
  if placeSize * capacity ≤ largestObject then some { level, capacity } else none

/-- The ring with one more event, which takes the place of the oldest one when
the ring is full. -/
def push (r : Ring) (e : Event) : Ring :=
  { r with
    total := r.total + 1
    buffer :=
      if r.buffer.size < r.capacity then r.buffer.push e
      else r.buffer.setIfInBounds (r.total % r.capacity) e }

def events (r : Ring) : List Event :=
  if r.total ≤ r.capacity then r.buffer.toList
  else
    let head := r.total % r.capacity
    r.buffer.toList.drop head ++ r.buffer.toList.take head

def dropped (r : Ring) : Nat := r.total - r.capacity

def dump (r : Ring) (format : EventFormat) : String :=
  String.join (r.events.map (·.render format))

end Ring

/-- A stream: the text of the events it was given. A stream to a file keeps the
open file and how its path was written, and takes no more events once it is
closed. -/
structure Stream where
  level : Level
  format : EventFormat
  file : Option (OpenFile × String) := none
  text : String := ""
  closed : Bool := false
  deriving Inhabited

/-- A tracer. -/
inductive Tracer where
  | nop
  | ring (r : Ring)
  | stream (s : Stream)
  | tee (level : Level) (sinks : List TracerId)
  deriving Inhabited

namespace Tracer

def level : Tracer → Level
  | .nop => .off
  | .ring r => r.level
  | .stream s => s.level
  | .tee l _ => l

def enabled (t : Tracer) : Bool := t.level.enabled

end Tracer

def Level.keeps (l : Level) (e : Event) : Bool :=
  l.admits e.scope || e.kind == .heartbeat

/-- An open span; a span that is not traced has number 0. -/
structure Span where
  tracer : TracerId := 0
  id : Nat := 0
  parent : Nat := 0
  scope : Scope := .none
  name : String := ""
  extra : List (String × String) := []
  deriving DecidableEq, Repr, Inhabited

/-- All tracers, the numbers of the last event and the last span, and what
streams have for their files, last first. -/
structure Tracing where
  tracers : Array Tracer := #[.nop]
  seq : Nat := 0
  spans : Nat := 0
  now : Timestamp := .zero
  writes : List (TracerId × String) := []
  deriving Inhabited

namespace Tracing

def tracer (t : Tracing) (id : TracerId) : Tracer :=
  t.tracers.getD id .nop

def add (t : Tracing) (tr : Tracer) : TracerId × Tracing :=
  (t.tracers.size, { t with tracers := t.tracers.push tr })

def update (t : Tracing) (id : TracerId) (tr : Tracer) : Tracing :=
  { t with tracers := t.tracers.setIfInBounds id tr }

def addWrite (id : TracerId) (text : String) :
    List (TracerId × String) → List (TracerId × String)
  | (last, s) :: rest => if last = id then (id, s ++ text) :: rest else (id, text) :: (last, s) :: rest
  | [] => [(id, text)]

def writeEvent (t : Tracing) (id : TracerId) (s : Stream) (e : Event) : Tracing :=
  let text := e.render s.format
  if s.file.isNone then t.update id (.stream { s with text := s.text ++ text })
  else if s.closed then t
  else { t with writes := addWrite id text t.writes }

/-- Puts an event into tracer `id` and, through tees, into its sinks; `n`
bounds how deep tees are nested. -/
def deliverWithin : Nat → Tracing → TracerId → Event → Tracing
  | 0, t, _, _ => t
  | n + 1, t, id, e =>
    match t.tracer id with
    | .nop => t
    | .ring r => if r.level.keeps e then t.update id (.ring (r.push e)) else t
    | .stream s => if s.level.keeps e then t.writeEvent id s e else t
    | .tee _ sinks => sinks.foldl (fun t sink => deliverWithin n t sink e) t

def deliver (t : Tracing) (id : TracerId) (e : Event) : Tracing :=
  deliverWithin (t.tracers.size + 1) t id e

def wants (t : Tracing) (id : TracerId) (scope : Scope) : Bool :=
  (t.tracer id).enabled && (t.tracer id).level.admits scope

def point (t : Tracing) (id : TracerId) (scope : Scope) (name detail : String) (parent : Nat) :
    Tracing :=
  if t.wants id scope then
    let t := { t with seq := t.seq + 1 }
    t.deliver id { time := t.now, seq := t.seq, kind := .point, scope, parent, name, detail }
  else t

def spanEvent (t : Tracing) (s : Span) (kind : EventKind) (detail : String) : Event :=
  { time := t.now, seq := t.seq, kind, scope := s.scope, span := s.id, parent := s.parent,
    name := s.name, detail, extra := if kind = .spanEnd then s.extra else [], shared := true }

def openSpan (t : Tracing) (id : TracerId) (scope : Scope) (name : String) (parent : Nat) :
    Span × Tracing :=
  if t.wants id scope then
    let t := { t with seq := t.seq + 1, spans := t.spans + 1 }
    let s : Span := { tracer := id, id := t.spans, parent, scope, name }
    (s, t.deliver id (t.spanEvent s .spanBegin ""))
  else ({}, t)

def closeSpan (t : Tracing) (s : Span) (detail : String) : Tracing :=
  if s.id = 0 then t
  else
    let t := { t with seq := t.seq + 1 }
    t.deliver s.tracer (t.spanEvent s .spanEnd detail)

def ringWithin (ts : Array Tracer) : Nat → TracerId → Option Ring
  | 0, _ => none
  | n + 1, id =>
    match ts.getD id .nop with
    | .ring r => some r
    | .tee _ sinks => sinks.findSome? (ringWithin ts n)
    | _ => none

def ring? (t : Tracing) (id : TracerId) : Option Ring :=
  ringWithin t.tracers (t.tracers.size + 1) id

end Tracing

def Span.withExtra (s : Span) (key value : String) : Span :=
  if s.id = 0 then s else { s with extra := putExtra key value s.extra }

/-- The event with an entry that its span got after it. An event that came
before the first entry of its span has none. -/
def Event.withExtra (e : Event) (span : Nat) (key value : String) : Event :=
  if e.shared && e.span == span && !e.extra.isEmpty then
    { e with extra := putExtra key value e.extra }
  else e

def Tracing.addExtra (t : Tracing) (s : Span) (key value : String) : Tracing :=
  if s.id = 0 then t
  else { t with tracers := t.tracers.map fun
    | .ring r => .ring { r with buffer := r.buffer.map (·.withExtra s.id key value) }
    | tr => tr }

/-- Carries out a note for a tracer. The spans that are open, innermost first,
are passed along. -/
def Tracing.record (t : Tracing) (id : TracerId) (spans : List Span) (n : Note) :
    List Span × Tracing :=
  match n with
  | .point scope name detail => (spans, t.point id scope name detail 0)
  | .opened scope name =>
    let (s, t) := t.openSpan id scope name 0
    (s :: spans, t)
  | .closed detail extra =>
    match spans with
    | [] => ([], t)
    | s :: rest =>
      let s := extra.foldl (fun s p => s.withExtra p.1 p.2) s
      (rest, t.closeSpan s detail)

end TypedIR.Trace
