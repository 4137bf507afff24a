import TypedIR.Command.Shell

/-
  Which files a command line can touch, so that they can be brought to the disk
  it works on: files of settings, paths that its words name, and what the
  settings name in turn.
-/

namespace TypedIR.Command

def settingsFiles (cwd : Path) : List Path :=
  (List.range (cwd.length + 1)).map fun n => cwd.take n ++ [Settings.fileName]

def pathsAlong (cwd : Path) (s : String) : List Path :=
  (Path.upwards s).map (Path.resolve cwd)

/-- The paths that words could name: each word, and what follows the sign that
gives a flag its value. -/
def namedPaths (cwd : Path) (words : List String) : List Path :=
  words.flatMap fun w =>
    pathsAlong cwd w ++ pathsAlong cwd ("=".intercalate ((w.splitOn "=").drop 1))

def settingsOf? (s : Surroundings) (words : List String) (d : Disk) : Option Settings := do
  let i ← (parse words).toOption
  let found := match i.values.lookup "config" with
    | some (.text path) => if path = "" then Settings.discover d s.cwd "." else Settings.load d s.cwd path
    | _ => Settings.discover d s.cwd "."
  found.toOption

def tracePaths (cwd : Path) (s : Settings) : List Path := pathsAlong cwd s.output

def imagesPath? (s : Surroundings) (settings : Settings) : Option Path :=
  let dir := if settings.cacheDir ≠ "" then some settings.cacheDir
    else (Store.defaultDir s.cacheHome s.home).toOption
  dir.map fun d => Path.resolve s.cwd (Path.join d "images")

end TypedIR.Command
