import TypedIR.Command.Execute
import TypedIR.Command.Reach

/-
  The program: brings the files a command line can touch to a disk, carries the
  command line out on it, writes back what changed and prints what there is to
  print.
-/

open TypedIR TypedIR.Command

/-- The disk with what the file system has at a path, and with the directories
above it. -/
def fetchPath (d : Disk) (p : Path) : IO Disk := do
  let here ← IO.currentDir
  let mut d := d
  for n in List.range p.length do
    let q := p.take (n + 1)
    let place := here / Path.text q
    if ← place.isDir then
      d := d.put q .dir
    else if n + 1 = p.length && (← place.pathExists) then
      d := d.put q (.file (← IO.FS.readBinFile place).toList)
  return d

def fetchFolder (d : Disk) (p : Path) : IO Disk := do
  let mut d ← fetchPath d p
  let place := (← IO.currentDir) / Path.text p
  if ← place.isDir then
    for entry in ← place.readDir do
      d ← fetchPath d (p ++ [entry.fileName])
  return d

def writeBack (old new : Disk) : IO Unit := do
  let here ← IO.currentDir
  for (p, n) in old.nodes do
    if (new.node? p).isNone then
      let place := here / Path.text p
      match n with
      | .file _ => if ← place.pathExists then IO.FS.removeFile place
      | .dir => if ← place.isDir then IO.FS.removeDirAll place
  for (p, n) in new.nodes.mergeSort fun a b => a.1.length ≤ b.1.length do
    if old.node? p ≠ some n then
      let place := here / Path.text p
      match n with
      | .file content => IO.FS.writeBinFile place ⟨content.toArray⟩
      | .dir => IO.FS.createDirAll place

def freshUid : IO String := do
  let group (n : Nat) : IO String := do
    return Text.padLeft n '0' (Text.hexNat (← IO.rand 0 (twoTo (4 * n) - 1)))
  let version ← IO.rand 0x4000 0x4fff
  let variant ← IO.rand 0x8000 0xbfff
  return "-".intercalate
    [← group 8, ← group 4, Text.hexNat version, Text.hexNat variant, ← group 12]

def timeNow : IO Int := do
  let (_, place) ← IO.FS.createTempFile
  let info ← place.metadata
  IO.FS.removeFile place
  return info.modified.sec

def surroundingsNow : IO Surroundings := do
  let output ← IO.getStdout
  let plain := (← IO.getEnv "NO_COLOR").isSome
  return { cwd := Path.resolve [] (← IO.currentDir).toString
           home := (← IO.getEnv "HOME").getD ""
           cacheHome := (← IO.getEnv "XDG_CACHE_HOME").getD ""
           terminal := (← output.isTty) && !plain
           uid := ← freshUid
           clock := ← timeNow }

/-- Carries out the command line; a failed command ends with code 1, a crash
with code 2. -/
def main (words : List String) : IO UInt32 := do
  let s ← surroundingsNow
  let mut disk ← (settingsFiles s.cwd ++ namedPaths s.cwd words).foldlM fetchPath {}
  if let some settings := settingsOf? s words disk then
    disk ← (tracePaths s.cwd settings).foldlM fetchPath disk
    if let some images := imagesPath? s settings then
      disk ← fetchFolder disk images
  let (outcome, _, after) := execute s words {} disk
  writeBack disk after
  let output ← IO.getStdout
  output.write ⟨outcome.out.toArray⟩
  output.flush
  (← IO.getStderr).putStr outcome.err
  return match outcome.stop with
    | none => 0
    | some (.problem _) => 1
    | some _ => 2
