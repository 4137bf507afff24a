import TypedIR.Report.Engine
import TypedIR.Command.Execute

/-
  Reports on what surrounds a session: settings, stored images, traces,
  versions and commands.
-/

namespace TypedIR

open Report Text

/-! ## Settings -/

def SettingsFault.told {α : Type} (f : α → Report) : Except SettingsFault α → Report
  | .ok a => f a
  | .error e => complaint e.message

def Trace.Config.report (c : Trace.Config) : Report :=
  .record [("level", c.level.name), ("mode", c.mode.name), ("format", c.format.name),
    ("path", c.path), ("ring", c.ringSize)]

def Settings.report (s : Settings) : Report :=
  let target (t : Target) : Report :=
    .record [("triple", t.triple), ("ptr_size", t.ptrSize), ("ptr_align", t.ptrAlign)]
  .record [("triple", s.triple), ("level", s.level), ("mode", s.mode), ("format", s.format),
    ("output", s.output), ("ring_size", s.ringSize), ("max_steps", numeral s.maxSteps),
    ("max_depth", s.maxDepth), ("cache", s.cacheDir), ("disabled", texts s.disabled),
    ("path", s.path), ("valid", SettingsFault.told (fun _ => "ok") s.validate),
    ("target", SettingsFault.told target s.target),
    ("trace", SettingsFault.told Trace.Config.report s.tracing)]

/-- The usual settings with those that a report gives; limits that it does not
give are none. -/
def Settings.ofReport (r : Report) : Settings :=
  let s : Settings := {}
  let given (k otherwise : String) : String := ((r.get? k).map string).getD otherwise
  { s with
    triple := given "triple" s.triple, level := given "level" s.level, mode := given "mode" s.mode
    format := given "format" s.format
    ringSize := ((r.get? "ring_size").map int).getD s.ringSize
    maxSteps := (r.get "max_steps").int, maxDepth := (r.get "max_depth").int }

def SettingsError.told : Except SettingsError Settings → Report
  | .ok s => s.report
  | .error (.unreadable ..) | .error (.malformed _) => .record [("error", "toml")]
  | .error e => complaint e.message

/-! ## The store -/

def StoreError.report : StoreError → Report
  | .otherSchema file n =>
    .record [("error", "schema"), ("message", (StoreError.otherSchema file n).message)]
  | .unreadable _ => .record [("error", "decode")]
  | e => complaint e.message

def StoreError.told {α : Type} (f : α → Report) : Except StoreError α → Report
  | .ok a => f a
  | .error e => e.report

def StoreInfo.report (i : StoreInfo) : Report :=
  .record [("key", i.key.text), ("label", i.label), ("name", i.name), ("target", i.target),
    ("size", i.size)]

def DiskError.told {α : Type} (f : α → Report) : Except DiskError α → Report
  | .ok a => f a
  | .error e => complaint e.message

/-! ## Traces -/

namespace Trace

/-- The report of what a level lets through, with the other names its code
has. -/
def Level.report (code : UInt8) : Report :=
  let level := Level.ofCode code
  let scopes := (List.range 7).map fun n =>
    let s := Scope.ofCode (UInt8.ofNat n)
    Report.list [s.name, level.admits s]
  .list (.text level.name :: scopes ++ [.text (EventKind.ofCode code).name,
    .text (Mode.ofCode code).name, .text (EventFormat.ofCode code).name])

def Ring.report (format : String) (r : Ring) : Report :=
  let format := (EventFormat.ofName? format).getD .auto
  .record [("events", each (fun e => ((e.render format).dropEnd 1).toString)
    (Event.comparable [] r.events)), ("dropped", r.dropped)]

def Ring.dumpReport (format : EventFormat) (r : Ring) : Report :=
  .record [("text", r.dump format), ("dropped", r.dropped), ("kept", r.events.length)]

def Event.ofReport (r : Report) : Event :=
  let extra := match r.get "extra" with
    | .record ms => ms.foldl (fun l m => putExtra m.1 m.2.string l) []
    | _ => []
  { time := { micros := (r.get "micros").int, zone := (r.get "zone").int }
    seq := (r.get "seq").nat, kind := .ofCode (r.get "kind").byte
    scope := .ofCode (r.get "scope").byte, span := (r.get "span").nat
    parent := (r.get "parent").nat, gid := (r.get "gid").nat, name := (r.get "name").string
    detail := (r.get "detail").string, extra }

/-- Whether a report can be an event that was written: nothing, or a record
whose numbers are numbers and whose texts are texts. -/
def isEvent (r : Report) : Bool :=
  let numbers := ["parent_id", "span_id", "seq"].map r.get
  let texts := ["name", "kind", "detail"].map r.get
  (match r with
    | .nothing | .record _ => true
    | _ => false) &&
  (numbers.all fun
    | .nothing | .number _ => true
    | _ => false) &&
  (texts.all fun
    | .nothing | .text _ => true
    | _ => false)

/-- The report of events that were read back; spans are numbered in the order
in which they are seen. -/
def eventLines (seen : List Nat) : List Report → List Report
  | [] => []
  | r :: rest =>
    let (parent, seen) := Event.renumber seen (r.get "parent_id").nat
    let (span, seen) := Event.renumber seen (r.get "span_id").nat
    .list [(r.get "seq").int, span, parent, (r.get "name").string,
      (r.get "kind").string ++ ":" ++ (r.get "detail").string] :: eventLines seen rest

/-- The report of what was read back, unless it is something else than
events. -/
def readBack (rs : Option (List Report)) : Report :=
  match rs.filter (·.all isEvent) with
  | some rs => .list (eventLines [] rs)
  | none => .record [("error", "json")]

end Trace

/-! ## Commands -/

def Console.highlighted (color : Bool) (listing : String) : Report :=
  match Console.highlight color listing with
  | (painted, none) => painted
  | (_, some problem) => .complaint problem

def Console.Version.report (color : Bool) (v : Version) : Report :=
  .record [("pretty", v.pretty color), ("json", v.json)]

/-- The report of a version as it is shown: tidied, and its JSON on lines of
their own. -/
def Console.Version.shown (v : Version) : Report :=
  .record [("pretty", v.tidied.pretty false), ("json", v.tidied.json ++ "\n")]

/-- The report of phases; their durations are in the summary, which is changed
by `f`. -/
def Console.Phase.reports (f : String → String) (phases : List Phase) : Report :=
  .record [("phases", phases.length), ("report", each (fun p => .list [p.name, p.note]) phases),
    ("summary", f (timingSummary phases))]

def Command.Outcome.told (o : Outcome) : Except Stop Report :=
  let done (ok : Bool) (message : Report) : Report :=
    known [("ok", ok), ("out", squeezedText o.out), ("err", o.err), ("message", message)]
  match o.stop with
  | none => .ok (done true .nothing)
  | some (.problem p) => .ok (done false p.message)
  | some stop => .error stop

end TypedIR
