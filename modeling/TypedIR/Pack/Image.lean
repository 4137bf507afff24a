import TypedIR.Pack.Item
import TypedIR.Image

/-
  Images, and entries of the store, in packed form.

  A record is a map from short names to the values of its fields, in a fixed
  order. Some fields are left out when they are empty; the others are always
  there, and an absent list is null. Reading takes the fields in any order,
  passes over names it does not know, and wraps numbers to the width of their
  field. A field that comes again is read over what is there: a record keeps
  the fields that do not come again, and so do the records in a list, also
  those that a shorter list left behind.
-/

namespace TypedIR.Pack

open Text

/-! ## Writing -/

/-- A field of a record: its name and value, and whether it is left out when
it is empty. -/
structure Field where
  name : String
  value : Item
  optional : Bool

def Item.isEmpty : Item → Bool
  | .null => true
  | .bool b => !b
  | .int _ n => n == 0
  | .text s => s.isEmpty
  | .list xs => xs.isEmpty
  | _ => false

def record (fields : List Field) : Item :=
  .map ((fields.filter fun f => !(f.optional && f.value.isEmpty)).map fun f =>
    (.text (bytesOf f.name), f.value))

def always (name : String) (value : Item) : Field := ⟨name, value, false⟩

def unlessEmpty (name : String) (value : Item) : Field := ⟨name, value, true⟩

def listItem {α : Type} (f : α → Item) : Option (List α) → Item
  | none => .null
  | some l => .list (l.map f)

def number (n : Int) : Item := .int .shortest n

def byteItem (b : UInt8) : Item := .int .uint8 b.toNat

def natItem (n : Nat) : Item := .int .uint32 n

def textItem (s : String) : Item := .text (bytesOf s)

def typeItem (t : ImageType) : Item :=
  record [always "k" (byteItem t.kind), unlessEmpty "w" (byteItem t.width),
    unlessEmpty "e" (number t.elem), unlessEmpty "f" (listItem number t.fields),
    unlessEmpty "n" (listItem textItem t.names), unlessEmpty "abi" (byteItem t.abi),
    unlessEmpty "p" (listItem number t.params), unlessEmpty "r" (number t.result),
    unlessEmpty "t" (byteItem t.tag), unlessEmpty "d" (textItem t.data)]

def valueItem (v : ImageValue) : Item :=
  record [always "t" (number v.type), always "k" (byteItem v.origin),
    unlessEmpty "p" (number v.param), unlessEmpty "c" (.int .uint64 v.bits.toNat),
    unlessEmpty "a" (.bool v.addressable)]

def insnItem (i : ImageInsn) : Item :=
  record [always "op" (byteItem i.op), unlessEmpty "d" (natItem i.dest), unlessEmpty "a" (natItem i.a),
    unlessEmpty "b" (natItem i.b), unlessEmpty "args" (listItem natItem i.args),
    unlessEmpty "l" (natItem i.label), unlessEmpty "o" (.int .int64 i.offset),
    unlessEmpty "t" (number i.type), unlessEmpty "self" (.bool i.selfCall),
    unlessEmpty "n" (textItem i.native), unlessEmpty "m" (byteItem i.math),
    unlessEmpty "rc" (byteItem i.cls), unlessEmpty "rs" (number i.size),
    unlessEmpty "imp" (.bool i.implicit)]

def imageItem (g : Image) : Item :=
  record [always "version" (number g.version), always "target" (textItem g.target),
    always "name" (textItem g.name), always "sig" (number g.sig),
    always "types" (listItem typeItem g.types), always "values" (listItem valueItem g.values),
    always "params" (listItem natItem g.params), always "labels" (listItem number g.labels),
    always "insns" (listItem insnItem g.insns)]

/-! ## Reading -/

def Item.number? : Item → Option Int
  | .int _ n => some n
  | .null => some 0
  | _ => none

def Item.int? (x : Item) : Option Int := x.number?.map (Int.bmod · 0x10000000000000000)

def Item.byte? (x : Item) : Option UInt8 := x.number?.map fun n => UInt8.ofNat (n % 256).toNat

def Item.nat? (x : Item) : Option Nat := x.number?.map fun (n : Int) => (n % 4294967296).toNat

def Item.bool? : Item → Option Bool
  | .bool b => some b
  | .null => some false
  | _ => none

def Item.text? : Item → Option String
  | .text s => some (lossyText s)
  | .null => some ""
  | _ => none

def Item.list? {α : Type} (f : Item → Option α) : Item → Option (Option (List α))
  | .list xs => some <$> xs.mapM f
  | .null => some none
  | _ => none

def Item.texts? (old : Option (List String)) : Item → Option (Option (List String))
  | .null => some old
  | x => x.list? Item.text?

/-- A record, read over `old` field by field: `set` stores the field of a name,
and says nothing about names it does not know. The fields can also come as a
list, which then has all of them in the order of `names`. Null and the empty
list are the record in which every field is empty. -/
def Item.record? {α : Type} [Inhabited α] (names : List String)
    (set : String → Item → α → Option α) (old : α) : Item → Option α
  | .null => some default
  | .map es => es.foldlM (fun a (k, x) => do set (← k.text?) x a) old
  | .list xs =>
    if xs.isEmpty then some default
    else if xs.length = names.length then
      (names.zip xs).foldlM (fun a (k, x) => set k x a) old
    else none
  | _ => none

/-- A list of records while it is read: the records, if there is a list, and
those that are left from longer lists. -/
structure Slots (α : Type) where
  shown : Option (List α) := none
  spare : List α := []
  deriving Inhabited

def readOver {α : Type} [Inhabited α] (read : α → Item → Option α) :
    List α → List Item → Option (List α)
  | _, [] => some []
  | old, x :: xs => do
    let a ← read (old.headD default) x
    return a :: (← readOver read old.tail xs)

def Slots.read? {α : Type} [Inhabited α] (read : α → Item → Option α) (s : Slots α) :
    Item → Option (Slots α)
  | .null => some {}
  | .list xs => do
    let old := s.shown.getD [] ++ s.spare
    return { shown := some (← readOver read old xs), spare := old.drop xs.length }
  | _ => none

def Item.imageType? : ImageType → Item → Option ImageType :=
  Item.record? ["k", "w", "e", "f", "n", "abi", "p", "r", "t", "d"] fun k x t => match k with
    | "k" => x.byte?.map fun v => { t with kind := v }
    | "w" => x.byte?.map fun v => { t with width := v }
    | "e" => x.int?.map fun v => { t with elem := v }
    | "f" => (x.list? Item.int?).map fun v => { t with fields := v }
    | "n" => (x.texts? t.names).map fun v => { t with names := v }
    | "abi" => x.byte?.map fun v => { t with abi := v }
    | "p" => (x.list? Item.int?).map fun v => { t with params := v }
    | "r" => x.int?.map fun v => { t with result := v }
    | "t" => x.byte?.map fun v => { t with tag := v }
    | "d" => x.text?.map fun v => { t with data := v }
    | _ => some t

def Item.imageValue? : ImageValue → Item → Option ImageValue :=
  Item.record? ["t", "k", "p", "c", "a"] fun k x t => match k with
    | "t" => x.int?.map fun v => { t with type := v }
    | "k" => x.byte?.map fun v => { t with origin := v }
    | "p" => x.int?.map fun v => { t with param := v }
    | "c" => x.number?.map fun v => { t with bits := Word.ofInt v }
    | "a" => x.bool?.map fun v => { t with addressable := v }
    | _ => some t

def Item.imageInsn? : ImageInsn → Item → Option ImageInsn :=
  Item.record? ["op", "d", "a", "b", "args", "l", "o", "t", "self", "n", "m", "rc", "rs", "imp"]
    fun k x t => match k with
    | "op" => x.byte?.map fun v => { t with op := v }
    | "d" => x.nat?.map fun v => { t with dest := v }
    | "a" => x.nat?.map fun v => { t with a := v }
    | "b" => x.nat?.map fun v => { t with b := v }
    | "args" => (x.list? Item.nat?).map fun v => { t with args := v }
    | "l" => x.nat?.map fun v => { t with label := v }
    | "o" => x.int?.map fun v => { t with offset := v }
    | "t" => x.int?.map fun v => { t with type := v }
    | "self" => x.bool?.map fun v => { t with selfCall := v }
    | "n" => x.text?.map fun v => { t with native := v }
    | "m" => x.byte?.map fun v => { t with math := v }
    | "rc" => x.byte?.map fun v => { t with cls := v }
    | "rs" => x.int?.map fun v => { t with size := v }
    | "imp" => x.bool?.map fun v => { t with implicit := v }
    | _ => some t

/-- An image while it is read: its lists of records are kept apart. -/
structure ImageDraft where
  image : Image := {}
  types : Slots ImageType := {}
  values : Slots ImageValue := {}
  insns : Slots ImageInsn := {}
  deriving Inhabited

def ImageDraft.finished (d : ImageDraft) : Image :=
  { d.image with types := d.types.shown, values := d.values.shown, insns := d.insns.shown }

def Item.imageDraft? : ImageDraft → Item → Option ImageDraft :=
  Item.record? ["version", "target", "name", "sig", "types", "values", "params", "labels", "insns"]
    fun k x t => match k with
    | "version" => x.int?.map fun v => { t with image.version := v }
    | "target" => x.text?.map fun v => { t with image.target := v }
    | "name" => x.text?.map fun v => { t with image.name := v }
    | "sig" => x.int?.map fun v => { t with image.sig := v }
    | "types" => (t.types.read? Item.imageType? x).map fun v => { t with types := v }
    | "values" => (t.values.read? Item.imageValue? x).map fun v => { t with values := v }
    | "params" => (x.list? Item.nat?).map fun v => { t with image.params := v }
    | "labels" => (x.list? Item.int?).map fun v => { t with image.labels := v }
    | "insns" => (t.insns.read? Item.imageInsn? x).map fun v => { t with insns := v }
    | _ => some t

end TypedIR.Pack
