import TypedIR.Text.Reading
import TypedIR.Text.Blank

/-
  The command line: which commands and flags there are, and how the words of a
  call are told apart.

  Words that start with a dash are flags, wherever they stand; two dashes alone
  end the flags. Which command is meant is found first, from the words that are
  no flags, and then the flags of that command are read. A flag without an
  equals sign takes the next word as its value, unless it is a switch.
-/

namespace TypedIR.Command

open Text

/-- What a flag takes. -/
inductive FlagKind where
  | text
  | int
  | nat
  | switch
  | duration
  deriving DecidableEq, Repr

/-- A flag. -/
structure Flag where
  name : String
  kind : FlagKind := .text
  short : Option Char := none
  deriving Repr

/-- What was given for a flag. -/
inductive FlagValue where
  | text (s : String)
  | int (n : Int)
  | switch (b : Bool)
  deriving DecidableEq, Repr, Inhabited

/-- How many words a command takes besides its flags. -/
inductive Arity where
  | any
  | none
  | exactly (n : Nat)
  | atLeast (n : Nat)
  deriving DecidableEq, Repr

/-- What a command does. -/
inductive Verb where
  | usage
  | help
  | version
  | demos
  | run
  | dump
  | natives
  | cachePut
  | cacheGet
  | cacheList
  | cacheDrop
  deriving DecidableEq, Repr, Inhabited

/-- A command: its name, flags of its own, and what it does; a command that
only groups others shows how they are used. `offered` says whether it is named
when a name was mistyped. -/
structure Spec where
  name : String
  verb : Verb := .usage
  flags : List Flag := []
  arity : Arity := .any
  offered : Bool := true
  deriving Repr

def commonFlags : List Flag :=
  [{ name := "config" }, { name := "color" }, { name := "trace" }, { name := "trace-level" },
   { name := "trace-mode" }, { name := "trace-ring-size", kind := .int },
   { name := "trace-heartbeat", kind := .duration }, { name := "cpu-profile" },
   { name := "mem-profile" }, { name := "runtime-trace" }]

def helpFlag : Flag := { name := "help", kind := .switch, short := some 'h' }

def versionFlag : Flag := { name := "version", kind := .switch, short := some 'v' }

def root : Spec := { name := "jitkit" }

def commands : List Spec :=
  [{ name := "version", verb := .version, flags := [{ name := "format" }], arity := .none },
   { name := "demos", verb := .demos, arity := .none },
   { name := "run", verb := .run, arity := .atLeast 1,
     flags := [{ name := "parallel", kind := .int }, { name := "seed", kind := .nat },
               { name := "timings", kind := .switch }] },
   { name := "dump", verb := .dump, flags := [{ name := "llvm", kind := .switch }],
     arity := .exactly 1 },
   { name := "natives", verb := .natives, arity := .none },
   { name := "cache" },
   { name := "help", verb := .help, offered := false },
   { name := "completion" }]

def subcommands (s : Spec) : List Spec :=
  match s.name with
  | "jitkit" => commands
  | "cache" =>
    [{ name := "put", verb := .cachePut, arity := .atLeast 1 },
     { name := "get", verb := .cacheGet, arity := .atLeast 1 },
     { name := "ls", verb := .cacheList, arity := .none },
     { name := "drop", verb := .cacheDrop, arity := .none }]
  | "completion" =>
    ["bash", "zsh", "fish", "powershell"].map fun shell =>
      { name := shell, verb := .help, arity := .none
        flags := [{ name := "no-descriptions", kind := .switch }] }
  | _ => []

/-! ## Which command is meant -/

def takesNext (flags : List Flag) (word : String) : Bool :=
  let switch (f : Flag) : Bool := f.kind == .switch
  if word.contains '=' then false
  else if word.startsWith "--" then
    !(flags.any fun f => f.name == (word.drop 2).toString && switch f)
  else word.startsWith "-" && word.utf8ByteSize == 2 &&
    !(flags.any fun f => f.short == word.toList.getLast? && switch f)

def plainWords (flags : List Flag) : List String → List String
  | [] => []
  | word :: rest =>
    if word = "--" then []
    else if takesNext flags word then
      match rest with
      | _ :: x :: more => plainWords flags (x :: more)
      | _ => []
    else if word ≠ "" && !word.startsWith "-" then word :: plainWords flags rest
    else plainWords flags rest

/-- The words without the first that is `x` and neither a flag nor the value
of one. -/
def withoutFirst (flags : List Flag) (x : String) : List String → List String
  | [] => []
  | word :: rest =>
    if word = "--" then word :: rest
    else if takesNext flags word then
      match rest with
      | [] => [word]
      | value :: more => word :: value :: withoutFirst flags x more
    else if word = x then rest
    else word :: withoutFirst flags x rest

/-- One more row of the table of distances: `x` is the byte of the row, `left`
the distance before, `diagonal` the one above that, and the rest of the row
above follows with its bytes. -/
def distanceRow (x : UInt8) (left diagonal : Nat) : List (UInt8 × Nat) → List Nat
  | [] => []
  | (y, above) :: rest =>
    let d := min (min (left + 1) (above + 1)) (diagonal + if x == y then 0 else 1)
    d :: distanceRow x d above rest

def distanceRows (b : Bytes) : Nat → List Nat → Bytes → List Nat
  | _, row, [] => row
  | i, row, x :: a =>
    distanceRows b (i + 1) ((i + 1) :: distanceRow x (i + 1) i (b.zip row.tail)) a

/-- How far two byte strings are apart: how many bytes have to be changed, added
or dropped. -/
def distance (a b : Bytes) : Nat :=
  (distanceRows b 0 (List.range (b.length + 1)) a).getLast?.getD 0

def resembles (word : String) (s : Spec) : Bool :=
  s.offered && (distance (bytesOf (foldCase word)) (bytesOf (foldCase s.name)) ≤ 2 ||
    (foldCase s.name).startsWith (foldCase word))

def unknownCommand (word : String) : String :=
  let similar := commands.filter (resembles word)
  "unknown command " ++ quoted word ++ " for \"jitkit\"" ++
    (if similar.isEmpty then ""
     else "\n\nDid you mean this?\n" ++ String.join (similar.map fun s => "\t" ++ s.name ++ "\n"))

/-- The command that the words name, from a command on, the names on the way
to it and the words besides. `n` bounds how deep commands are nested. -/
def locate : Nat → List String → Spec → List String → Spec × List String × List String
  | 0, path, s, words => (s, path, words)
  | n + 1, path, s, words =>
    let flags := commonFlags ++ s.flags
    match plainWords flags words with
    | [] => (s, path, words)
    | first :: _ =>
      match (subcommands s).find? fun c => c.name == first with
      | some c => locate n (path ++ [c.name]) c (withoutFirst flags first words)
      | none => (s, path, words)

/-! ## Flags -/

def Flag.title (f : Flag) : String :=
  match f.short with
  | some c => "-" ++ String.singleton c ++ ", --" ++ f.name
  | none => "--" ++ f.name

def Flag.value (f : Flag) (s : String) : Except String FlagValue :=
  let refuse (why : String) : Except String FlagValue :=
    .error ("invalid argument " ++ quoted s ++ " for " ++ quoted f.title ++ " flag: " ++ why)
  match f.kind with
  | .text => .ok (.text s)
  | .int => match readInt s.toList with
    | .ok n => .ok (.int n)
    | .error m => refuse (m.message "Int" s)
  | .nat => match readNat s.toList with
    | .ok n => .ok (.int n)
    | .error m => refuse (m.message "Uint" s)
  | .switch => match readBool s with
    | .ok b => .ok (.switch b)
    | .error m => refuse (m.message "Bool" s)
  | .duration => match readDuration s with
    | .ok n => .ok (.int n)
    | .error m => refuse m

/-- The values given for flags, the latest first, and the other words. -/
structure Parsed where
  values : List (String × FlagValue) := []
  args : List String := []
  deriving Repr, Inhabited

def Parsed.withFlag (p : Parsed) (f : Flag) (s : String) : Except String Parsed := do
  return { p with values := (f.name, ← f.value s) :: p.values }

def longFlag (flags : List Flag) (word : String) (rest : List String) (p : Parsed) :
    Except String (Parsed × Bool) := do
  let body := (word.drop 2).toString
  if body.startsWith "-" || body.startsWith "=" then throw ("bad flag syntax: " ++ word)
  let name := (body.takeWhile (· != '=')).toString
  match flags.find? fun f => f.name == name with
  | none => throw ("unknown flag: --" ++ name)
  | some f =>
    if body.contains '=' then return (← p.withFlag f (body.drop (name.length + 1)).toString, false)
    if f.kind = .switch then return (← p.withFlag f "true", false)
    match rest with
    | next :: _ => return (← p.withFlag f next, true)
    | [] => throw ("flag needs an argument: --" ++ name)

/-- How an unknown short flag is named. Short flags are bytes: a character beyond
ASCII is known by its first byte, read as a character of its own, and that again
by its first byte. -/
def shortName (c : Char) : Char :=
  let lead (c : Char) : Char := Char.ofNat (((bytesOfChar c).headD 0).toNat)
  lead (lead c)

/-- Flags with short names, which are all switches. A row of flags that begins
with `test.` is left to others. -/
def shortFlags (flags : List Flag) : List Char → Parsed → Except String Parsed
  | [], p => .ok p
  | c :: cs, p =>
    if "test.".toList.isPrefixOf (c :: cs) then .ok p
    else match flags.find? fun f => f.short == some c with
    | none =>
      throw ("unknown shorthand flag: " ++ charQuoted (shortName c) ++ " in -" ++
        String.ofList (c :: cs))
    | some f => do
      match cs with
      | '=' :: x :: value => p.withFlag f (String.ofList (x :: value))
      | _ => shortFlags flags cs (← p.withFlag f "true")

def readFlags (flags : List Flag) : List String → Parsed → Except String Parsed
  | [], p => .ok p
  | word :: rest, p => do
    if word = "--" then return { p with args := p.args ++ rest }
    else if word.startsWith "--" then
      let (p, tookNext) ← longFlag flags word rest p
      if tookNext then
        match rest with
        | _ :: more => readFlags flags more p
        | [] => return p
      else readFlags flags rest p
    else if word.startsWith "-" && word ≠ "-" then
      readFlags flags rest (← shortFlags flags (word.toList.drop 1) p)
    else readFlags flags rest { p with args := p.args ++ [word] }

/-! ## Calls -/

/-- A call: what to do, with which flags and words. -/
structure Invocation where
  verb : Verb
  values : List (String × FlagValue) := []
  args : List String := []
  deriving Repr, Inhabited

/-- How a call can end before anything is done. -/
inductive Refusal where
  /-- No command can be made out. -/
  | noCommand (message : String)
  /-- The command is clear, but its words are wrong. -/
  | badUse (message : String)
  | showVersion
  deriving DecidableEq, Repr, Inhabited

def Arity.complaint? (a : Arity) (path : List String) (args : List String) : Option String :=
  match a, args with
  | .none, first :: _ =>
    some ("unknown command " ++ quoted first ++ " for " ++ quoted (" ".intercalate path))
  | .exactly n, _ =>
    if args.length = n then Option.none
    else some ("accepts " ++ decimalNat n ++ " arg(s), received " ++ decimalNat args.length)
  | .atLeast n, _ =>
    if n ≤ args.length then Option.none
    else some ("requires at least " ++ decimalNat n ++ " arg(s), only received " ++
      decimalNat args.length)
  | _, _ => Option.none

def isOn (values : List (String × FlagValue)) (name : String) : Bool :=
  values.lookup name == some (.switch true)

def parse (words : List String) : Except Refusal Invocation := do
  let (s, path, rest) := locate 3 [root.name] root words
  if s.name = root.name then
    match plainWords commonFlags rest with
    | first :: _ => throw (.noCommand (unknownCommand first))
    | [] => pure ()
  let own := if s.name = root.name then [helpFlag, versionFlag] else [helpFlag]
  match readFlags (commonFlags ++ s.flags ++ own) rest {} with
  | .error m => throw (.badUse m)
  | .ok p =>
    if isOn p.values "help" then return { verb := .usage }
    if s.name = root.name && isOn p.values "version" then throw .showVersion
    if s.verb = .usage then return { verb := .usage }
    match s.arity.complaint? path p.args with
    | some m => throw (.badUse m)
    | none => return { verb := s.verb, values := p.values, args := p.args }

end TypedIR.Command
