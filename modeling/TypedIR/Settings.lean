import TypedIR.Toml.Document
import TypedIR.Trace.Output
import TypedIR.Layout

/-
  The settings of a session, and the file they are read from.

  A file gives some of the settings; the others keep their usual values. Names
  in a file are found without regard to case. A name that stands for no setting
  is refused, and so is a value that a setting cannot have.
-/

namespace TypedIR

open Text

/-- The settings, names as they were written. -/
structure Settings where
  triple : String := Target.amd64.triple
  level : String := "off"
  mode : String := "stream"
  format : String := "auto"
  output : String := "-"
  ringSize : Int := 4096
  maxSteps : Int := 0
  maxDepth : Int := 0
  cacheDir : String := ""
  disabled : List String := []
  path : String := ""
  deriving Repr, Inhabited

/-- What can be wrong with settings. -/
inductive SettingsFault where
  | badTarget (name : String)
  | badLevel (name : String)
  | badMode (name : String)
  | badFormat (name : String)
  | negativeRing (n : Int)
  | negativeSteps (n : Int)
  | negativeDepth (n : Int)
  deriving DecidableEq, Repr, Inhabited

def SettingsFault.message : SettingsFault → String
  | .badTarget s => "[target].triple: " ++ Target.unsupportedMessage s
  | .badLevel s => "[trace].level: " ++ Trace.Level.invalidMessage s
  | .badMode s => "[trace].mode: " ++ Trace.Mode.invalidMessage s
  | .badFormat s => "[trace].format: " ++ Trace.EventFormat.invalidMessage s
  | .negativeRing n => "[trace].ring_size must not be negative, got " ++ decimal n
  | .negativeSteps n => "[engine].max_steps must not be negative, got " ++ decimal n
  | .negativeDepth n => "[engine].max_depth must not be negative, got " ++ decimal n

namespace Settings

def target (s : Settings) : Except SettingsFault Target :=
  match Target.ofName? s.triple with
  | some t => .ok t
  | none => .error (.badTarget s.triple)

def tracing (s : Settings) : Except SettingsFault Trace.Config :=
  match Trace.Level.ofName? s.level, Trace.Mode.ofName? s.mode, Trace.EventFormat.ofName? s.format with
  | none, _, _ => .error (.badLevel s.level)
  | _, none, _ => .error (.badMode s.mode)
  | _, _, none => .error (.badFormat s.format)
  | some level, some mode, some format =>
    if s.ringSize < 0 then .error (.negativeRing s.ringSize)
    else .ok { level, mode, format, path := s.output, ringSize := s.ringSize }

def validate (s : Settings) : Except SettingsFault Unit := do
  let _ ← s.target
  let _ ← s.tracing
  if s.maxSteps < 0 then throw (.negativeSteps s.maxSteps)
  if s.maxDepth < 0 then throw (.negativeDepth s.maxDepth)

end Settings

/-! ## Files of settings -/

/-- Why a file of settings is refused. -/
inductive SettingsError where
  | unreadable (path : String) (e : DiskError)
  | malformed (path : String)
  | unknownKeys (path : String) (keys : List Toml.Key)
  | emptyTarget (path : String)
  | fault (path : String) (f : SettingsFault)
  | noEntry (path : String) (reason : DiskReason)
  deriving Repr, Inhabited

def SettingsError.message : SettingsError → String
  | .unreadable path e => path ++ ": failed to parse TOML: " ++ e.message
  | .malformed path => path ++ ": failed to parse TOML: toml: the file is malformed"
  | .unknownKeys path keys =>
    path ++ ": unknown keys: " ++ ", ".intercalate (keys.map Toml.keyText)
  | .emptyTarget path => path ++ ": [target].triple is empty"
  | .fault path f => path ++ ": " ++ f.message
  | .noEntry path r =>
    "failed to stat " ++ quoted path ++ ": stat " ++ path ++ ": " ++ r.text

namespace Settings

/-- The lower case of a character, with the two letters outside ASCII that
have their lower case in it. -/
def foldLetter (c : Char) : Char :=
  if c.toNat = 0x212A then 'k' else if c.toNat = 0x17F then 's' else c.toLower

def sameName (a b : String) : Bool :=
  a.toList.map foldLetter == b.toList.map foldLetter

def nameAmong? (names : List String) (k : String) : Option String :=
  names.find? fun n => sameName n k

def text? : Toml.Value → Option String
  | .text s => some s
  | _ => none

def int? : Toml.Value → Option Int
  | .int n => some n
  | _ => none

def texts? : Toml.Value → Option (List String)
  | .list xs => xs.mapM text?
  | _ => none

def sections : List (String × List String) :=
  [("target", ["triple"]), ("trace", ["level", "mode", "format", "output", "ring_size"]),
   ("engine", ["max_steps", "max_depth"]), ("cache", ["dir"]), ("natives", ["disabled"])]

def set? (s : Settings) (section_ name : String) (v : Toml.Value) : Option Settings :=
  match section_, name with
  | "target", "triple" => (text? v).map fun x => { s with triple := x }
  | "trace", "level" => (text? v).map fun x => { s with level := x }
  | "trace", "mode" => (text? v).map fun x => { s with mode := x }
  | "trace", "format" => (text? v).map fun x => { s with format := x }
  | "trace", "output" => (text? v).map fun x => { s with output := x }
  | "trace", "ring_size" => (int? v).map fun x => { s with ringSize := x }
  | "engine", "max_steps" => (int? v).map fun x => { s with maxSteps := x }
  | "engine", "max_depth" => (int? v).map fun x => { s with maxDepth := x }
  | "cache", "dir" => (text? v).map fun x => { s with cacheDir := x }
  | "natives", "disabled" => (texts? v).map fun x => { s with disabled := x }
  | _, _ => some s

/-- The settings of a section read over those given, and the keys that stand
for settings. -/
def readSection (s : Settings) (k section_ : String) (names : List String) (t : Toml.Table) :
    Option (Settings × List Toml.Key) :=
  t.foldlM (fun (s, known) (n, v) => match nameAmong? names n with
    | none => some (s, known)
    | some name => (s.set? section_ name v).map fun s => (s, known ++ [[k, n]])) (s, [[k]])

/-- The settings of a document read over the usual ones, and the keys that
stand for settings. A value of another kind than its setting is refused. -/
def ofTable? (t : Toml.Table) : Option (Settings × List Toml.Key) :=
  t.foldlM (fun (s, known) (k, v) => match nameAmong? (sections.map (·.1)) k with
    | none => some (s, known)
    | some section_ => match v with
      | .table u =>
        (readSection s k section_ ((sections.lookup section_).getD []) u).map fun (s, more) =>
          (s, known ++ more)
      | _ => none) (({} : Settings), [])

def givesTarget (t : Toml.Table) : Bool :=
  match t.lookup "target" with
  | some (.table u) => (u.lookup "triple").isSome
  | _ => false

def load (d : Disk) (cwd : Path) (path : String) : Except SettingsError Settings :=
  match d.content cwd path with
  | .error e => .error (.unreadable path e)
  | .ok content =>
    match Toml.Document.ofBytes? content with
    | none => .error (.malformed path)
    | some doc =>
      match ofTable? doc.root with
      | none => .error (.malformed path)
      | some (s, known) =>
        let unknown := doc.keys.filter fun k => !known.contains k
        if !unknown.isEmpty then .error (.unknownKeys path unknown)
        else if givesTarget doc.root && trimBlanks s.triple = "" then .error (.emptyTarget path)
        else
          let s := { s with path }
          match s.validate with
          | .ok () => .ok s
          | .error f => .error (.fault path f)

def fileName : String := "jitkit.toml"

/-- The nearest file of settings in a directory or above; the names are those
of the directory, last first. -/
def findAbove (d : Disk) : List String → Except SettingsError (Option String)
  | [] => candidate [] (.ok none)
  | name :: rest => candidate (name :: rest) (findAbove d rest)
where
  /-- The file in this directory, or else what is found further up. -/
  candidate (names : List String) (further : Except SettingsError (Option String)) :
      Except SettingsError (Option String) :=
    let p := names.reverse ++ [fileName]
    match d.find [] (Path.text p) with
    | .ok _ => .ok (some (Path.text p))
    | .error .notFound => further
    | .error r => .error (.noEntry (Path.text p) r)

def find (d : Disk) (cwd : Path) (start : String) : Except SettingsError (Option String) :=
  findAbove d (Path.resolve cwd start).reverse

def discover (d : Disk) (cwd : Path) (start : String) : Except SettingsError Settings := do
  match ← find d cwd start with
  | some path => load d cwd path
  | none => return {}

end Settings

end TypedIR
