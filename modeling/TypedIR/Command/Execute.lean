import TypedIR.Command.Shell
import TypedIR.Console.Paint
import TypedIR.Console.Timer
import TypedIR.Console.Version
import TypedIR.Demo
import TypedIR.Llvm.Lower

/-
  The commands, and carrying out a command line.
-/

namespace TypedIR.Command

open Text Console CommandM

def demoNamed (name : String) : CommandM Demo :=
  match Demo.ofName? name with
  | some d => pure d
  | none => fail (Demo.unknownMessage name)

def buildDemo (d : Demo) (rt : RuntimeId) : CommandM FnId := do
  build (d.build rt (← surroundings).uid)

def resultLine (name words : String) (result : HostValue) : CommandM String := do
  let text ← build (resultText result)
  return name ++ "(" ++ words ++ ") = " ++ paint (← get).session.color [.green, .bold] text ++ "\n"

def callFunction {α : Type} (rt : RuntimeId) (act : BuildM α) : CommandM α := do
  let outcome ← attempt (build act)
  drainOutput rt
  match outcome with
  | .ok a => pure a
  | .error p => throw (.problem p)

/-- Calls a function with words as arguments, and prints its result if it has
one. -/
def callOnce (rt : RuntimeId) (f : FnId) (name : String) (words : List String) : CommandM Unit := do
  let args ← build (arguments f words)
  match ← callFunction rt (BuildM.call f args) with
  | .nothing => pure ()
  | result => print (← resultLine name (", ".intercalate words) result)

/-- Calls a function with each word as a set of arguments, and prints the
results. -/
def callSets (rt : RuntimeId) (f : FnId) (name : String) (words : List String) (parent : Nat) :
    CommandM Unit := do
  let sets ← build (argumentSets f words)
  let results ← callFunction rt (BuildM.callMany f sets parent)
  for (word, result) in words.zip results do
    print (← resultLine name word result)

def runWith (rt : RuntimeId) (d : Demo) (words : List String) (parallel : Int) (parent : Nat) :
    CommandM Unit := do
  let f ← buildDemo d rt
  let sig ← build (do BuildM.tyText (← BuildM.function f).sig)
  let words :=
    if !words.isEmpty then words
    else if 0 < parallel then [",".intercalate d.sample]
    else d.sample
  if 0 < parallel then callSets rt f d.name words parent else callOnce rt f d.name words
  if ← switchFlag "timings" then
    let sets := if 0 < parallel then words.length else 1
    printError (timingSummary [⟨"build", 0, sig⟩, ⟨"call", 0, decimalNat sets ++ " argument set(s)"⟩])

def run (name : String) (words : List String) : CommandM Unit := do
  let parallel ← intFlag "parallel" 0
  if parallel < 0 then fail "--parallel must not be negative"
  let d ← demoNamed name
  let rt ← newRuntime (Word.ofInt (← intFlag "seed" 1))
  let shell ← get
  let (span, tracing) := shell.work.tracing.openSpan shell.session.tracer .runtime "run" 0
  set { shell with work := { shell.work with tracing } }
  let span := span.withExtra "demo" name
  let outcome ← attempt (runWith rt d words parallel span.id)
  let detail := match outcome with
    | .ok () => "ok"
    | .error p => "error: " ++ p.message
  modify fun s => { s with work := { s.work with tracing := s.work.tracing.closeSpan span detail } }
  match outcome with
  | .ok () => pure ()
  | .error p => throw (.problem p)

def demos : CommandM Unit := do
  let rt ← newRuntime 1
  let rows ← Demo.all.mapM fun d => do
    let sig ← build (do BuildM.tyText (← d.signature rt))
    return [d.name, sig, d.summary]
  printTable ["NAME", "SIGNATURE", "SUMMARY"] rows

def dump (name : String) : CommandM Unit := do
  let d ← demoNamed name
  let rt ← newRuntime 1
  let f ← buildDemo d rt
  if ← switchFlag "llvm" then
    let r ← build (BuildM.runtime rt)
    let fn := (← build (BuildM.function f)).id
    let variadic (n : String) : Bool := ((r.natives.find? n).map (·.variadic)).getD false
    match Llvm.exportText r.engine fn { name := d.name, variadic } with
    | .ok text => print text
    | .error (.failed p) => throw (.problem p)
    | .error .crashed => throw .crashed
  else
    let (text, complaint) := highlight (← get).session.color (← build (BuildM.listing f))
    print text
    complaint.forM fun c => throw (.problem (.text c))

def natives : CommandM Unit := do
  let rt ← newRuntime 1
  let r ← build (BuildM.runtime rt)
  let rows ← r.natives.entries.mapM fun (name, e) => do
    return [name, ← build (BuildM.tyText e.sig), if e.variadic then "yes" else ""]
  printTable ["NAME", "SIGNATURE", "VARIADIC"] rows

def version : CommandM Unit := do
  let v := Version.tidied {}
  let format ← textFlag "format" "pretty"
  match foldCase format with
  | "pretty" => print (v.pretty (← get).session.color ++ "\n")
  | "json" => print (v.json ++ "\n")
  | _ => fail ("unsupported format " ++ quoted format ++ " (must be pretty or json)")

def ofStore {α : Type} : Except StoreError α → CommandM α
  | .ok a => pure a
  | .error e => fail e.message

def cachePut (names : List String) : CommandM Unit := do
  let store ← openStore
  let rt ← newRuntime 1
  for name in names do
    let d ← demoNamed name
    let f ← buildDemo d rt
    let img ← build (BuildM.image f)
    let (key, disk) ← ofStore (store.put (← get).disk name (some img))
    modify fun s => { s with disk }
    print (key.text ++ " " ++ name ++ "\n")

def storedImage (store : Store) (ref : String) : CommandM Image := do
  let disk := (← get).disk
  let byKey ← match Key.ofText ref with
    | .ok key => ofStore (store.get disk key)
    | .error _ => pure none
  match byKey with
  | some img => return img
  | none =>
    match ← ofStore (store.lookup disk ref) with
    | some (_, img) => return img
    | none => fail ("no cached image " ++ quoted ref ++ " in " ++ store.dir)

def cacheGet (ref : String) (words : List String) : CommandM Unit := do
  let store ← openStore
  let img ← storedImage store ref
  let rt ← newRuntime 1
  let uid := (← surroundings).uid
  let f ← build (do
    let c ← BuildM.newContext rt uid
    BuildM.withBuild c fun b => BuildM.loadImage b (some img))
  let words :=
    if !words.isEmpty then words else ((Demo.ofName? img.name).map (·.sample)).getD []
  callOnce rt f (← build (BuildM.functionName f)) words

def cacheList : CommandM Unit := do
  let store ← openStore
  let infos ← ofStore (store.list (← get).disk)
  printTable ["KEY", "LABEL", "TARGET", "BYTES"] (infos.map fun i =>
    [(i.key.text.take 16).toString, i.label, i.target, groupedDecimal i.size])

def cacheDrop : CommandM Unit := do
  let store ← openStore
  match store.dropAll (← get).disk with
  | .ok disk => modify fun s => { s with disk }
  | .error e => fail e.message

def helpText : String :=
  let shown := commands.filter fun c => c.verb ≠ .usage && c.verb ≠ .help
  "Typed IR builder over an interpreting code generator\n\nCommands:\n" ++
  String.join (shown.map fun c => "  jitkit " ++ c.name ++ "\n") ++
  "  jitkit cache put|get|ls|drop\n"

def perform (i : Invocation) : CommandM Unit :=
  match i.verb with
  | .usage | .help => print helpText
  | .version => version
  | .demos => demos
  | .run => run (i.args.headD "") i.args.tail
  | .dump => dump (i.args.headD "")
  | .natives => natives
  | .cachePut => cachePut i.args
  | .cacheGet => cacheGet (i.args.headD "") i.args.tail
  | .cacheList => cacheList
  | .cacheDrop => cacheDrop

def session (i : Invocation) : CommandM Unit := do
  if i.verb = .usage then perform i
  else
    openSession
    perform i
    closeSession

/-- What came of a command line. -/
structure Outcome where
  stop : Option Stop := none
  out : Bytes := []
  err : String := ""
  deriving Inhabited

def execute (s : Surroundings) (words : List String) (work : Workspace) (disk : Disk) :
    Outcome × Workspace × Disk :=
  match parse words with
  | .error .showVersion =>
    ({ out := bytesOf ("jitkit version " ++ ({} : Version).version ++ "\n") }, work, disk)
  | .error (.noCommand m) =>
    ({ stop := some (.problem (.text m))
       err := "Error: " ++ m ++ "\nRun 'jitkit --help' for usage.\n" }, work, disk)
  | .error (.badUse m) =>
    ({ stop := some (.problem (.text m)), err := "Error: " ++ m ++ "\n" }, work, disk)
  | .ok i =>
    let start : Shell := { work, disk }
    let (answer, shell) := (((session i).run (s, i)).run start : Except Stop Unit × Shell)
    let (text, tracing) := shell.work.tracing.takeBuffer shell.session.tracer
    let (tracing, disk) := tracing.flush shell.disk
    let (stop, last) := match answer with
      | .ok () => (none, "")
      | .error (.problem p) => (some (.problem p), "Error: " ++ p.message ++ "\n")
      | .error stop => (some stop, "")
    ({ stop, out := shell.out.toList, err := shell.err ++ text ++ last },
      { shell.work with tracing }, disk)

end TypedIR.Command
