import TypedIR.Trace.Tracer
import TypedIR.Disk

/-
  Setting tracers up, and where what they write goes.

  A stream writes to a buffer or to a file. Text for files waits until it is
  flushed to the disk. Closing a stream closes its file, which can be done once.
-/

namespace TypedIR.Trace

open Text

/-- What tracer is wanted. -/
structure Config where
  level : Level := .off
  mode : Mode := .stream
  format : EventFormat := .auto
  path : String := ""
  ringSize : Int := 0
  deriving Repr, Inhabited

def pathEnding (path : String) : String :=
  let name := (path.splitOn "/").getLast?.getD ""
  match (name.splitOn ".").reverse with
  | last :: _ :: _ => "." ++ last
  | _ => ""

/-- The format of a stream: unless it is given, files that are called so hold
JSON, and everything else is text. -/
def Config.streamFormat (c : Config) : EventFormat :=
  if c.format ≠ .auto then c.format
  else if pathEnding c.path = ".ndjson" || pathEnding c.path = ".json" then .ndjson
  else .text

namespace Tracing

/-- Setting a tracer up: its parts are added to the table, and its file to the
disk. A crash leaves what was made before it. -/
abbrev SetupM := ExceptT (Halt String) (StateM (Tracing × Disk))

namespace SetupM

def place (tr : Tracer) : SetupM TracerId := modifyGet fun (t, d) =>
  let (id, t) := t.add tr
  (id, t, d)

def ring (c : Config) : SetupM TracerId :=
  match Ring.make? c.ringSize c.level with
  | some r => place (.ring r)
  | none => throw .crashed

/-- A stream to a buffer, or to a fresh file at the path. -/
def stream (cwd : Path) (c : Config) (toBuffer : Bool) : SetupM TracerId := do
  let s : Stream := { level := c.level, format := c.streamFormat }
  if toBuffer then return ← place (.stream s)
  let (t, d) ← get
  match d.create cwd c.path with
  | .ok (f, d) =>
    set (t, d)
    place (.stream { s with file := some (f, c.path) })
  | .error e => throw (.failed ("failed to open trace output: " ++ e.message))

def tracer (cwd : Path) (c : Config) (toBuffer : Bool) : SetupM TracerId := do
  if c.level = .off then return 0
  match c.mode with
  | .ring => ring c
  | .stream => stream cwd c toBuffer
  | .both =>
    let first ← stream cwd c toBuffer
    let second ← ring c
    place (.tee c.level [first, second])
  | m => throw (.failed ("unknown storage mode: " ++ m.name))

end SetupM

/-- Adds the tracer that is wanted. -/
def create (t : Tracing) (d : Disk) (cwd : Path) (c : Config) (toBuffer : Bool) :
    Except (Halt String) TracerId × Tracing × Disk :=
  ((SetupM.tracer cwd c toBuffer).run.run (t, d) :
    Except (Halt String) TracerId × Tracing × Disk)

def writeOut (t : Tracing) (d : Disk) (id : TracerId) (text : String) : Tracing × Disk :=
  match t.tracer id with
  | .stream s =>
    match s.file with
    | some (f, path) =>
      let (f, d) := d.write f (bytesOf text)
      (t.update id (.stream { s with file := some (f, path) }), d)
    | none => (t, d)
  | _ => (t, d)

def flush (t : Tracing) (d : Disk) : Tracing × Disk :=
  t.writes.reverse.foldl (fun (t, d) w => writeOut t d w.1 w.2) ({ t with writes := [] }, d)

/-- Closes tracer `id` and, through tees, its sinks; `n` bounds how deep tees
are nested. What goes wrong is told in order. -/
def closeWithin : Nat → Array Tracer → TracerId → List String × Array Tracer
  | 0, ts, _ => ([], ts)
  | n + 1, ts, id =>
    match ts.getD id .nop with
    | .stream s =>
      match s.file with
      | some (_, path) =>
        if s.closed then (["close " ++ path ++ ": file already closed"], ts)
        else ([], ts.setIfInBounds id (.stream { s with closed := true }))
      | none => ([], ts)
    | .tee _ sinks => sinks.foldl (fun (told, ts) sink =>
        let (more, ts) := closeWithin n ts sink
        (told ++ more, ts)) ([], ts)
    | _ => ([], ts)

def close (t : Tracing) (d : Disk) (id : TracerId) : List String × Tracing × Disk :=
  let (t, d) := t.flush d
  let (told, ts) := closeWithin (t.tracers.size + 1) t.tracers id
  (told, { t with tracers := ts }, d)

/-- The buffer of a tracer: its own stream, or that of the first sink that has
one. -/
def bufferWithin (ts : Array Tracer) : Nat → TracerId → Option (TracerId × Stream)
  | 0, _ => none
  | n + 1, id =>
    match ts.getD id .nop with
    | .stream s => if s.file.isSome then none else some (id, s)
    | .tee _ sinks => sinks.findSome? (bufferWithin ts n)
    | _ => none

def buffer? (t : Tracing) (id : TracerId) : Option (TracerId × Stream) :=
  bufferWithin t.tracers (t.tracers.size + 1) id

def takeBuffer (t : Tracing) (id : TracerId) : String × Tracing :=
  match t.buffer? id with
  | some (k, s) =>
    (s.text, { t with tracers := t.tracers.setIfInBounds k (.stream { s with text := "" }) })
  | none => ("", t)

end Tracing

end TypedIR.Trace
