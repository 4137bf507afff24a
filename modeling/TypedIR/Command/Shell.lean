import TypedIR.Command.Flags
import TypedIR.Command.Words
import TypedIR.Settings
import TypedIR.Store
import TypedIR.Console.Table

/-
  What a command works with: the workspace, the disk, what was printed, and the
  session that its flags and settings open.

  Opening a session reads the settings, sets colour, starts profiles and sets
  the tracer up, in this order. Closing it writes what the tracer kept and the
  profiles; a command that fails leaves its session open.
-/

namespace TypedIR.Command

open Text Console

/-- Where a command runs: the working directory, where caches and home are,
what contexts are called, and the time. -/
structure Surroundings where
  cwd : Path := []
  home : String := ""
  cacheHome : String := ""
  terminal : Bool := false
  uid : String := ""
  clock : Int := 0
  deriving Inhabited

/-- An open session. -/
structure Session where
  settings : Settings := {}
  color : Bool := false
  tracer : Trace.TracerId := 0
  tracing : Trace.Config := {}
  deriving Inhabited

/-- The state of a command. -/
structure Shell where
  work : Workspace := {}
  disk : Disk := {}
  session : Session := {}
  out : Array UInt8 := #[]
  err : String := ""
  deriving Inhabited

abbrev CommandM := ReaderT (Surroundings × Invocation) (ExceptT Stop (StateM Shell))

namespace CommandM

def fail {α : Type} (message : String) : CommandM α :=
  throw (.problem (.text message))

def build {α : Type} (act : BuildM α) : CommandM α := fun _ =>
  ExceptT.mk fun s =>
    let (answer, work) := (act.run s.work : Except Stop α × Workspace)
    (answer, { s with work })

def attempt {α : Type} (act : CommandM α) : CommandM (Except Problem α) :=
  tryCatch (.ok <$> act) fun
    | .problem p => pure (.error p)
    | stop => throw stop

def surroundings : CommandM Surroundings := return (← read).1

def textFlag (name initial : String) : CommandM String := do
  match (← read).2.values.lookup name with
  | some (.text s) => return s
  | _ => return initial

def intFlag (name : String) (initial : Int) : CommandM Int := do
  match (← read).2.values.lookup name with
  | some (.int n) => return n
  | _ => return initial

def switchFlag (name : String) : CommandM Bool := return isOn (← read).2.values name

def printBytes (bs : Bytes) : CommandM Unit :=
  modify fun s => { s with out := s.out ++ bs.toArray }

def print (text : String) : CommandM Unit := printBytes (bytesOf text)

def drainTrace : CommandM Unit := modify fun s =>
  let (text, tracing) := s.work.tracing.takeBuffer s.session.tracer
  { s with work := { s.work with tracing }, err := s.err ++ text }

def printError (text : String) : CommandM Unit := do
  drainTrace
  modify fun s => { s with err := s.err ++ text }

def drainOutput (rt : RuntimeId) : CommandM Unit := do
  printBytes (← build (BuildM.takeOutput rt))

def printTable (header : List String) (rows : List (List String)) : CommandM Unit := do
  match tableText? (← get).session.color header rows with
  | some text => print text
  | none => throw .crashed

def writeFile (path : String) (content : Bytes) : CommandM (Except DiskError Unit) := do
  match (← get).disk.writeFile (← surroundings).cwd path content with
  | .ok disk =>
    modify fun s => { s with disk }
    return .ok ()
  | .error e => return .error e

/-! ## Settings and colour -/

def loadSettings : CommandM Settings := do
  let disk := (← get).disk
  let cwd := (← surroundings).cwd
  let path ← textFlag "config" ""
  match if path ≠ "" then Settings.load disk cwd path else Settings.discover disk cwd "." with
  | .ok s => return s
  | .error e => fail e.message

def wantsColor : CommandM Bool := do
  let mode ← textFlag "color" "auto"
  match normalName mode with
  | "" | "auto" => return (← surroundings).terminal
  | "on" => return true
  | "off" => return false
  | _ => fail ("invalid --color value " ++ quoted mode ++ " (expected auto|on|off)")

/-! ## Profiles -/

def profileContent : Bytes := bytesOf "profile\n"

/-- Starts the profile of a flag, if it was given. A profile that is being taken
already, since a command failed that had started it, cannot be started again. -/
def startProfile (flag what busy : String) : CommandM Unit := do
  let path ← textFlag flag ""
  if path ≠ "" then
    match ← writeFile path [] with
    | .error e => fail (what ++ ": " ++ e.message)
    | .ok () =>
      if (← get).work.profiling.contains flag then fail (what ++ ": " ++ busy)
      modify fun s => { s with work := { s.work with profiling := flag :: s.work.profiling } }

/-- Ends the profiles of some flags and writes the last one; what goes wrong with
that. -/
def stopProfiles (flags : List String) : CommandM (Option String) := do
  for flag in flags do
    let path ← textFlag flag ""
    if path ≠ "" then
      let _ ← writeFile path profileContent
      modify fun s => { s with work := { s.work with profiling := s.work.profiling.erase flag } }
  let path ← textFlag "mem-profile" ""
  if path = "" then return none
  match ← writeFile path profileContent with
  | .ok () => return none
  | .error e => return some ("heap profile: " ++ e.message)

def profileFlags : List String := ["runtime-trace", "cpu-profile"]

/-- Starts the profiles that write while the command runs. If the second one
cannot be started, the first one ends. -/
def startProfiles : CommandM Unit := do
  startProfile "cpu-profile" "cpu profile" "cpu profiling already in use"
  match ← attempt (startProfile "runtime-trace" "runtime trace" "tracing is already enabled") with
  | .ok () => pure ()
  | .error p =>
    let _ ← stopProfiles ["cpu-profile"]
    throw (.problem p)

/-! ## Tracing -/

/-- The settings with what the flags say about tracing. A place for the trace
alone turns tracing on. -/
def traceSettings (s : Settings) : CommandM Settings := do
  let output ← textFlag "trace" ""
  let level ← textFlag "trace-level" ""
  let mode ← textFlag "trace-mode" ""
  let ring ← intFlag "trace-ring-size" 0
  return { s with
    output := if output ≠ "" then output else s.output
    level :=
      if level ≠ "" then level
      else if output ≠ "" && (s.level = "" || s.level = "off") then "phase"
      else s.level
    mode := if mode ≠ "" then mode else s.mode
    ringSize := if 0 < ring then ring else s.ringSize }

def toErrors (c : Trace.Config) : Bool := c.path = "" || c.path = "-"

def startTracing (s : Settings) : CommandM Unit := do
  match (← traceSettings s).tracing with
  | .error f => fail f.message
  | .ok c =>
    let shell ← get
    let (answer, tracing, disk) :=
      shell.work.tracing.create shell.disk (← surroundings).cwd c (toErrors c)
    set { shell with disk, work := { shell.work with tracing } }
    match answer with
    | .ok tracer =>
      modify fun s => { s with session := { s.session with tracer, tracing := c } }
    | .error (.failed e) => fail ("failed to create tracer: " ++ e)
    | .error .crashed => throw .crashed

def dumpRing (c : Trace.Config) : CommandM Unit := do
  match (← get).work.tracing.ring? (← get).session.tracer with
  | none => pure ()
  | some r =>
    let lost := if r.dropped = 0 then "" else "# " ++ decimalNat r.dropped ++ " older events dropped\n"
    let text := lost ++ r.dump c.format
    if toErrors c then printError text
    else match ← writeFile c.path (bytesOf text) with
      | .ok () => pure ()
      | .error e => printError ("trace: ring dump error: " ++ e.message ++ "\n")

def stopTracing : CommandM Unit := do
  let c := (← get).session.tracing
  if c.level ≠ .off then
    if c.mode = .ring then dumpRing c
    drainTrace
    let shell ← get
    let (told, tracing, disk) := shell.work.tracing.close shell.disk shell.session.tracer
    set { shell with disk, work := { shell.work with tracing } }
    unless told.isEmpty do
      printError ("trace: close error: " ++ "\n".intercalate told ++ "\n")

/-! ## Sessions -/

def openSession : CommandM Unit := do
  let settings ← loadSettings
  let color ← wantsColor
  startProfiles
  modify fun s => { s with session := { settings, color } }
  match ← attempt (startTracing settings) with
  | .ok () => pure ()
  | .error p =>
    let _ ← stopProfiles profileFlags
    throw (.problem p)

def closeSession : CommandM Unit := do
  stopTracing
  match ← stopProfiles profileFlags with
  | none => pure ()
  | some message => printError ("profile: " ++ message ++ "\n")

def newRuntime (seed : Word) : CommandM RuntimeId := do
  let s := (← get).session
  match s.settings.target with
  | .error f => fail f.message
  | .ok target =>
    build (BuildM.newRuntime
      { target, seed, tracer := s.tracer, maxSteps := s.settings.maxSteps
        maxDepth := s.settings.maxDepth, disabled := s.settings.disabled
        clock := (← surroundings).clock })

def openStore : CommandM Store := do
  let s ← surroundings
  let shell ← get
  let dir ← match shell.session.settings.cacheDir with
    | "" => match Store.defaultDir s.cacheHome s.home with
      | .ok dir => pure dir
      | .error e => fail e
    | dir => pure dir
  match Store.openAt shell.disk s.cwd dir with
  | .ok (store, disk) =>
    set { shell with disk }
    return store
  | .error e => fail e.message

end CommandM

end TypedIR.Command
