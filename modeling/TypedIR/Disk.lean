import TypedIR.Text.Utf8

/-
  The files a session works on, as a tree of directories.

  A path is the list of names from the root. A disk says for each path what is
  there; what is below a file, or below a directory that is not there, is not
  there. A path as it is written is walked name by name from the root or from a
  working directory: every name but the last has to be that of a directory,
  also when two dots follow it. A file that was opened for writing stays the
  same file when something else takes its place, and is written to no more on
  the disk once it is removed.
-/

namespace TypedIR

open Text

abbrev Path := List String

namespace Path

/-- Follows one name: the dot stays, two dots go up, an empty name is no name.
The root is its own parent. -/
def follow (p : Path) (name : String) : Path :=
  if name = "" || name = "." then p
  else if name = ".." then p.dropLast
  else p ++ [name]

/-- The path that a text stands for in a working directory, if all names on the
way are those of directories. -/
def resolve (cwd : Path) (s : String) : Path :=
  (s.splitOn "/").foldl follow (if s.startsWith "/" then [] else cwd)

def text (p : Path) : String := "/" ++ "/".intercalate p

/-- The names of a path that is written relative to somewhere: two dots at the
start stay. -/
def followRelative (names : List String) (name : String) : List String :=
  if name = "" || name = "." then names
  else if name = ".." && !(names.isEmpty || names.getLast? = some "..") then names.dropLast
  else names ++ [name]

def clean (s : String) : String :=
  if s.startsWith "/" then text (resolve [] s)
  else
    let names := (s.splitOn "/").foldl followRelative []
    if names.isEmpty then "." else "/".intercalate names

def join (base name : String) : String :=
  if base = "" then clean name else clean (base ++ "/" ++ name)

/-- The directory and the last name in a text; without a slash, the directory is
the one where the walk starts. -/
def split (s : String) : String × String :=
  match (s.splitOn "/").reverse with
  | [] => (".", "")
  | [name] => (".", name)
  | name :: dirs =>
    let dir := "/".intercalate dirs.reverse
    (if dir = "" then "/" else dir, name)

def upwards (s : String) : List String :=
  let names := s.splitOn "/"
  ((List.range names.length).map fun n => "/".intercalate (names.take (n + 1))).reverse.filter (· ≠ "")

end Path

/-- What can be at a path. -/
inductive Node where
  | dir
  | file (content : Bytes)
  deriving DecidableEq, Repr, Inhabited

/-- Why a request to the disk is refused. -/
inductive DiskReason where
  | notFound
  | notDirectory
  | isDirectory
  | notEmpty
  | alreadyThere
  | nameTooLong
  | invalid
  deriving DecidableEq, Repr, Inhabited

def DiskReason.text : DiskReason → String
  | .notFound => "no such file or directory"
  | .notDirectory => "not a directory"
  | .isDirectory => "is a directory"
  | .notEmpty => "directory not empty"
  | .alreadyThere => "file exists"
  | .nameTooLong => "file name too long"
  | .invalid => "invalid argument"

/-- A refused request: what was asked, of which path as it was written, and
why not. -/
structure DiskError where
  op : String
  path : String
  reason : DiskReason
  deriving DecidableEq, Repr, Inhabited

def DiskError.message (e : DiskError) : String :=
  e.op ++ " " ++ e.path ++ ": " ++ e.reason.text

abbrev Folder := List (String × Node)

/-- A disk. The root is a directory without being listed. The files that were
opened for writing are listed by where they are, as long as they are there. -/
structure Disk where
  nodes : List (Path × Node) := []
  opened : List (Option Path) := []
  deriving DecidableEq, Repr, Inhabited

/-- A file that is open for writing: its number among those that were opened,
and where the next byte goes. -/
structure OpenFile where
  number : Nat
  offset : Nat := 0
  deriving DecidableEq, Repr, Inhabited

namespace Disk

def node? (d : Disk) (p : Path) : Option Node :=
  if p.isEmpty then some .dir else d.nodes.lookup p

def put (d : Disk) (p : Path) (n : Node) : Disk :=
  { d with nodes := (p, n) :: d.nodes.filter fun e => e.1 != p }

def removeAll (d : Disk) (p : Path) : Disk :=
  { nodes := d.nodes.filter fun e => !p.isPrefixOf e.1
    opened := d.opened.map fun place => place.filter fun q => !p.isPrefixOf q }

/-! ## Walking -/

def nameLimit : Nat := 255

def pathLimit : Nat := 4096

/-- Where a walk ends: at a directory that it came to by dots or by no name at
all, or before the last name, which a slash may follow. -/
inductive Spot where
  | here (dir : Path)
  | entry (dir : Path) (name : String) (slash : Bool)
  deriving DecidableEq, Repr, Inhabited

def entry? (d : Disk) (dir : Path) (name : String) : Except DiskReason (Option Node) :=
  if nameLimit < name.utf8ByteSize then .error .nameTooLong else .ok (d.node? (dir ++ [name]))

def descend (d : Disk) (dir : Path) (name : String) : Except DiskReason Path := do
  if name = "." || name = ".." then return Path.follow dir name
  match ← d.entry? dir name with
  | some .dir => return dir ++ [name]
  | some (.file _) => throw .notDirectory
  | none => throw .notFound

def walk (d : Disk) (slash : Bool) (dir : Path) : List String → Except DiskReason Spot
  | [] => .ok (.here dir)
  | [name] =>
    if name = "." || name = ".." then .ok (.here (Path.follow dir name))
    else .ok (.entry dir name slash)
  | name :: rest => do walk d slash (← d.descend dir name) rest

def spot (d : Disk) (cwd : Path) (path : String) : Except DiskReason Spot :=
  if path.toList.contains (Char.ofNat 0) then .error .invalid
  else if path = "" then .error .notFound
  else if pathLimit ≤ path.utf8ByteSize then .error .nameTooLong
  else
    let start := if path.startsWith "/" then [] else cwd
    match d.node? start with
    | some .dir => d.walk (path.endsWith "/") start ((path.splitOn "/").filter (· ≠ ""))
    | _ => .error .notFound

/-- What a written path leads to, and the path of that. Only a directory can
have a slash after its name. -/
def locate (d : Disk) (cwd : Path) (path : String) : Except DiskReason (Path × Node) := do
  match ← d.spot cwd path with
  | .here dir => return (dir, .dir)
  | .entry dir name slash =>
    match ← d.entry? dir name with
    | none => throw .notFound
    | some .dir => return (dir ++ [name], .dir)
    | some n => if slash then throw .notDirectory else return (dir ++ [name], n)

def find (d : Disk) (cwd : Path) (path : String) : Except DiskReason Node :=
  (·.2) <$> d.locate cwd path

/-! ## Files -/

def content (d : Disk) (cwd : Path) (path : String) : Except DiskError Bytes :=
  match d.find cwd path with
  | .ok (.file content) => .ok content
  | .ok .dir => .error ⟨"read", path, .isDirectory⟩
  | .error r => .error ⟨"open", path, r⟩

/-- The path of the file that a written path would give to a new file, or to the
one that is there. The directory it is in has to be there. -/
def target (d : Disk) (cwd : Path) (path : String) : Except DiskReason Path := do
  match ← d.spot cwd path with
  | .entry dir name false =>
    match ← d.entry? dir name with
    | some .dir => throw .isDirectory
    | _ => return dir ++ [name]
  | _ => throw .isDirectory

def writeFile (d : Disk) (cwd : Path) (path : String) (content : Bytes) : Except DiskError Disk :=
  match d.target cwd path with
  | .ok p => .ok (d.put p (.file content))
  | .error r => .error ⟨"open", path, r⟩

def create (d : Disk) (cwd : Path) (path : String) : Except DiskError (OpenFile × Disk) :=
  match d.target cwd path with
  | .ok p =>
    .ok (⟨d.opened.length, 0⟩, { d.put p (.file []) with opened := d.opened ++ [some p] })
  | .error r => .error ⟨"open", path, r⟩

/-- A content with bytes written over it from an offset on; zeros fill the gap
that may lie before them. -/
def overwrite (old : Bytes) (offset : Nat) (new : Bytes) : Bytes :=
  old.take offset ++ List.replicate (offset - old.length) 0 ++ new ++
    old.drop (offset + new.length)

def write (d : Disk) (f : OpenFile) (new : Bytes) : OpenFile × Disk :=
  let after := { f with offset := f.offset + new.length }
  match d.opened.getD f.number none with
  | none => (after, d)
  | some p =>
    match d.node? p with
    | some (.file old) =>
      if new.isEmpty then (after, d) else (after, d.put p (.file (overwrite old f.offset new)))
    | _ => (after, d)

/-! ## Directories -/

def makeDir (d : Disk) (cwd : Path) (path : String) : Except DiskReason Disk := do
  match ← d.spot cwd path with
  | .here _ => throw .alreadyThere
  | .entry dir name _ =>
    match ← d.entry? dir name with
    | some _ => throw .alreadyThere
    | none => return d.put (dir ++ [name]) .dir

/-- The disk with the first of some directories, of which each is in the next,
made where they are not there. -/
def makeEach (d : Disk) (cwd : Path) : List String → Except DiskError Disk
  | [] => .ok d
  | path :: above =>
    match d.find cwd path with
    | .ok .dir => .ok d
    | .ok (.file _) => .error ⟨"mkdir", path, .notDirectory⟩
    | .error _ => do
      let d ← makeEach d cwd above
      match d.makeDir cwd path, d.find cwd path with
      | .ok d, _ => return d
      | .error _, .ok .dir => return d
      | .error r, _ => throw ⟨"mkdir", path, r⟩

/-- The disk with a directory, and those on the way to it, made where they are
not there. -/
def makeDirs (d : Disk) (cwd : Path) (path : String) : Except DiskError Disk :=
  d.makeEach cwd (Path.upwards path)

def Folder.insert (name : String) (n : Node) : Folder → Folder
  | [] => [(name, n)]
  | (m, x) :: rest =>
    if name < m then (name, n) :: (m, x) :: rest
    else if name == m then (name, n) :: rest
    else (m, x) :: Folder.insert name n rest

def childName? (dir p : Path) : Option String :=
  if p.dropLast == dir then p.getLast? else none

def folder (d : Disk) (cwd : Path) (path : String) : Except DiskError Folder :=
  match d.locate cwd path with
  | .ok (p, .dir) => .ok (d.nodes.foldl (fun f e => match childName? p e.1 with
    | some name => Folder.insert name e.2 f
    | none => f) [])
  | .ok _ => .error ⟨"open", path, .notDirectory⟩
  | .error r => .error ⟨"open", path, r⟩

def remove (d : Disk) (cwd : Path) (path : String) : Except DiskError Disk :=
  match d.locate cwd path with
  | .ok (p, .dir) =>
    if d.nodes.any fun e => (childName? p e.1).isSome then .error ⟨"remove", path, .notEmpty⟩
    else .ok (d.removeAll p)
  | .ok (p, _) => .ok (d.removeAll p)
  | .error r => .error ⟨"remove", path, r⟩

/-- The disk without a file, or without a directory and what is in it; it need
not be there. -/
def removeTree (d : Disk) (cwd : Path) (path : String) : Except DiskError Disk :=
  match d.locate cwd path with
  | .ok (p, _) => .ok (d.removeAll p)
  | .error .notFound => .ok d
  | .error r =>
    let (dir, name) := Path.split path
    match d.find cwd dir with
    | .error .notFound => .ok d
    | .error s => .error ⟨"open", dir, s⟩
    | .ok _ => .error ⟨"unlinkat", dir ++ "/" ++ name, r⟩

end Disk

end TypedIR
