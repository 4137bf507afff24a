import TypedIR.Pack.Image
import TypedIR.Disk
import TypedIR.Text.Quoted

/-
  The store: images on disk under keys made from their content.

  The key of an image is the digest of its packed form. The store keeps one
  file for each key in its folder of images, with a label beside the image. A
  file whose name is no key is passed over, and so is one that was written in
  another schema. What the store does is given on folders; the last part
  carries it out on a disk.
-/

namespace TypedIR

open Text Pack

/-! ## Keys -/

/-- A key: 32 bytes. -/
structure Key where
  bytes : Bytes
  size_eq : bytes.length = 32
  deriving DecidableEq, Repr

theorem length_bigEndian : ∀ n x : Nat, (Digest.bigEndian n x).length = n
  | 0, _ => rfl
  | n + 1, x => by simp [Digest.bigEndian, length_bigEndian n]

theorem length_sha256 (msg : Bytes) : (Digest.sha256 msg).length = 32 := by
  simp [Digest.sha256, length_bigEndian]

/-- Why a text is no key. -/
inductive KeyError where
  | badByte (b : UInt8)
  | oddLength
  | wrongSize (n : Nat)
  deriving DecidableEq, Repr, Inhabited

namespace KeyError

def charText (c : Char) : String :=
  "U+" ++ padLeft 4 '0' ((hexNat c.toNat).map Char.toUpper) ++
    (if isPrintable c then " '" ++ String.singleton c ++ "'" else "")

def message (s : String) (e : KeyError) : String :=
  "irstore: bad key " ++ quoted s ++ ": " ++ match e with
    | .badByte b => "encoding/hex: invalid byte: " ++ charText (Char.ofNat b.toNat)
    | .oddLength => "encoding/hex: odd length hex string"
    | .wrongSize n => "want 32 bytes, got " ++ decimalNat n

end KeyError

namespace Key

def digit? (b : UInt8) : Option Nat :=
  let n := b.toNat
  if 48 ≤ n && n ≤ 57 then some (n - 48)
  else if 97 ≤ n && n ≤ 102 then some (n - 87)
  else if 65 ≤ n && n ≤ 70 then some (n - 55)
  else none

def digit (b : UInt8) : Except KeyError Nat :=
  match digit? b with
  | some n => .ok n
  | none => .error (.badByte b)

def ofHex : Bytes → Except KeyError Bytes
  | [] => .ok []
  | [a] => do
    let _ ← digit a
    throw .oddLength
  | a :: b :: rest => do
    let x ← digit a
    let y ← digit b
    return UInt8.ofNat (x * 16 + y) :: (← ofHex rest)

def ofText (s : String) : Except KeyError Key := do
  let bs ← ofHex (bytesOf s)
  if h : bs.length = 32 then return ⟨bs, h⟩ else throw (.wrongSize bs.length)

def text (k : Key) : String := hexBytes k.bytes

def ofImage (img : Option Image) : Key :=
  let item := match img with
    | some g => imageItem g
    | none => .null
  ⟨Digest.sha256 item.bytes, length_sha256 _⟩

def fileName (k : Key) : String := k.text ++ ".mp"

def ofFileName? (name : String) : Option Key :=
  if name.endsWith ".mp" then (ofText (name.dropEnd 3).toString).toOption else none

end Key

/-! ## Entries -/

/-- What a file of the store holds. -/
structure StoreEntry where
  schema : Nat := 0
  label : String := ""
  image : Option Image := none
  deriving DecidableEq, Repr, Inhabited

def StoreEntry.currentSchema : Nat := 1

def StoreEntry.current (label : String) (g : Image) : StoreEntry :=
  { schema := currentSchema, label, image := some g }

/-- Why the store cannot do what is asked. -/
inductive StoreError where
  | noImage
  | otherSchema (file : String) (schema : Nat)
  | unreadable (file : String)
  | disk (e : DiskError)
  deriving DecidableEq, Repr, Inhabited

def StoreError.message : StoreError → String
  | .noImage => "irstore: nil image"
  | .otherSchema file n =>
    "irstore: schema mismatch: " ++ file ++ " has schema " ++ decimalNat n
  | .unreadable file => "irstore: decode " ++ file
  | .disk e => e.message

namespace StoreEntry

def bytes (e : StoreEntry) : Bytes :=
  (record [always "schema" (.int .uint16 e.schema), always "label" (textItem e.label),
    always "image" ((e.image.map imageItem).getD .null)]).bytes

/-- An entry while it is read. -/
structure Draft where
  schema : Nat := 0
  label : String := ""
  image : Option ImageDraft := none
  deriving Inhabited

def Draft.finished (d : Draft) : StoreEntry :=
  { schema := d.schema, label := d.label, image := d.image.map (·.finished) }

def image? (old : Option ImageDraft) : Item → Option (Option ImageDraft)
  | .null => some none
  | x => some <$> x.imageDraft? (old.getD default)

def ofBytes? (bs : Bytes) : Option StoreEntry := do
  let item ← Item.ofBytes? bs
  let draft ← item.record? ["schema", "label", "image"] (fun k x e => match k with
    | "schema" => x.number?.map fun (n : Int) => { e with schema := (n % 65536).toNat }
    | "label" => x.text?.map fun s => { e with label := s }
    | "image" => (image? e.image x).map fun g => { e with image := g }
    | _ => some e) (default : Draft)
  return draft.finished

end StoreEntry

/-! ## Folders of images -/

/-- One line of a listing of the store. -/
structure StoreInfo where
  key : Key
  label : String
  name : String
  target : String
  size : Nat
  deriving DecidableEq, Repr

def StoreInfo.before (a b : StoreInfo) : Bool :=
  if a.label == b.label then a.key.text ≤ b.key.text else a.label < b.label

namespace Folder

def readEntry (file : String) : Node → Except StoreError (String × Image × Nat)
  | .dir => .error (.unreadable file)
  | .file content =>
    match StoreEntry.ofBytes? content with
    | none => .error (.unreadable file)
    | some e =>
      match e.image with
      | some g =>
        if e.schema = StoreEntry.currentSchema then .ok (e.label, g, content.length)
        else .error (.otherSchema file e.schema)
      | none => .error (.otherSchema file e.schema)

def image (f : Folder) (k : Key) : Except StoreError (Option Image) :=
  match f.lookup k.fileName with
  | none => .ok none
  | some n => (fun e => some e.2.1) <$> readEntry k.fileName n

def info (name : String) (n : Node) : Except StoreError (Option StoreInfo) :=
  match n, Key.ofFileName? name with
  | .file _, some key =>
    match readEntry name n with
    | .ok (label, g, size) => .ok (some { key, label, name := g.name, target := g.target, size })
    | .error (.otherSchema _ _) => .ok none
    | .error e => .error e
  | _, _ => .ok none

def listing (f : Folder) : Except StoreError (List StoreInfo) := do
  let infos ← f.mapM fun (name, n) => info name n
  return (infos.filterMap id).mergeSort StoreInfo.before

def labelled (f : Folder) (label : String) : Except StoreError (Option (Key × Image)) := do
  match (← listing f).find? fun i => i.label == label with
  | none => return none
  | some i => return (← image f i.key).map fun g => (i.key, g)

def store (f : Folder) (label : String) (g : Image) : Key × Folder :=
  let key := Key.ofImage (some g)
  (key, Disk.Folder.insert key.fileName (.file (StoreEntry.current label g).bytes) f)

def discard (f : Folder) (k : Key) : Folder :=
  f.filter fun e => e.1 != k.fileName

end Folder

/-! ## On a disk -/

/-- A store: the directory it was opened on, and where its images are. -/
structure Store where
  dir : String
  cwd : Path
  deriving DecidableEq, Repr, Inhabited

namespace Store

def imagesDir (s : Store) : String := Path.join s.dir "images"

def openAt (d : Disk) (cwd : Path) (dir : String) : Except DiskError (Store × Disk) := do
  let s : Store := { dir, cwd }
  return (s, ← d.makeDirs cwd s.imagesDir)

def fileOf (s : Store) (k : Key) : String := Path.join s.imagesDir k.fileName

def folder (s : Store) (d : Disk) : Except StoreError Folder :=
  match d.folder s.cwd s.imagesDir with
  | .ok f => .ok f
  | .error e => if e.reason = .notFound then .ok [] else .error (.disk e)

def get (s : Store) (d : Disk) (k : Key) : Except StoreError (Option Image) :=
  match s.folder d with
  | .ok f => Folder.image f k
  | .error (.disk e) => .error (.disk { e with path := s.fileOf k })
  | .error e => .error e

def list (s : Store) (d : Disk) : Except StoreError (List StoreInfo) := do
  Folder.listing (← s.folder d)

def lookup (s : Store) (d : Disk) (label : String) : Except StoreError (Option (Key × Image)) := do
  Folder.labelled (← s.folder d) label

def put (s : Store) (d : Disk) (label : String) : Option Image → Except StoreError (Key × Disk)
  | none => .error .noImage
  | some g =>
    let key := Key.ofImage (some g)
    match d.writeFile s.cwd (s.fileOf key) (StoreEntry.current label g).bytes with
    | .ok d => .ok (key, d)
    | .error e => .error (.disk e)

def delete (s : Store) (d : Disk) (k : Key) : Except DiskError Disk :=
  match d.remove s.cwd (s.fileOf k) with
  | .ok d => .ok d
  | .error e => if e.reason = .notFound then .ok d else .error e

def dropAll (s : Store) (d : Disk) : Except DiskError Disk := do
  (← d.removeTree s.cwd s.imagesDir).makeDirs s.cwd s.imagesDir

/-- The usual directory of the store: below that for caches, or else below the
home directory. -/
def defaultDir (cacheHome home : String) : Except String String :=
  if cacheHome ≠ "" then .ok (Path.join cacheHome "jitkit")
  else if home ≠ "" then .ok (Path.join (Path.join home ".cache") "jitkit")
  else .error "$HOME is not defined"

end Store

end TypedIR
