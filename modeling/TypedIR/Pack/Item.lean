import TypedIR.Word
import TypedIR.Digest

/-
  A compact binary form of structured data.

  An item says in its first byte what it is. Small numbers, short texts and
  short lists have their size in that byte; others have it in the bytes that
  follow, the most significant first. An item can be read without knowing what
  it stands for.

  Numbers have a form for writing: in as few bytes as possible, or always in
  the bytes of their type. Reading does not tell the forms apart.
-/

namespace TypedIR.Pack

open Text Digest

/-- How a number is written. -/
inductive IntForm where
  | shortest
  | uint8
  | uint16
  | uint32
  | uint64
  | int64
  deriving DecidableEq, Repr, Inhabited

/-- An item. What is neither a number, a text nor a collection of items is
only passed over. -/
inductive Item where
  | null
  | bool (b : Bool)
  | int (form : IntForm) (n : Int)
  | text (s : Bytes)
  | list (xs : List Item)
  | map (entries : List (Item × Item))
  | other
  deriving Repr, Inhabited

def sized (code : UInt8) (n x : Nat) : Bytes :=
  code :: bigEndian n x

def signedBytes (n : Nat) (x : Int) : Nat :=
  (x % (twoTo (8 * n) : Nat)).toNat

def shortestInt (x : Int) : Bytes :=
  if 0 ≤ x then
    if x < 128 then [UInt8.ofNat x.toNat]
    else if x < 0x100 then sized 0xcc 1 x.toNat
    else if x < 0x10000 then sized 0xcd 2 x.toNat
    else if x < 0x100000000 then sized 0xce 4 x.toNat
    else sized 0xcf 8 x.toNat
  else if -32 ≤ x then [UInt8.ofNat (signedBytes 1 x)]
  else if -0x80 ≤ x then sized 0xd0 1 (signedBytes 1 x)
  else if -0x8000 ≤ x then sized 0xd1 2 (signedBytes 2 x)
  else if -0x80000000 ≤ x then sized 0xd2 4 (signedBytes 4 x)
  else sized 0xd3 8 (signedBytes 8 x)

def intBytes (form : IntForm) (x : Int) : Bytes :=
  match form with
  | .shortest => shortestInt x
  | .uint8 => sized 0xcc 1 (signedBytes 1 x)
  | .uint16 => sized 0xcd 2 (signedBytes 2 x)
  | .uint32 => sized 0xce 4 (signedBytes 4 x)
  | .uint64 => sized 0xcf 8 (signedBytes 8 x)
  | .int64 => sized 0xd3 8 (signedBytes 8 x)

def textHead (n : Nat) : Bytes :=
  if n < 32 then [UInt8.ofNat (0xa0 + n)]
  else if n < 0x100 then sized 0xd9 1 n
  else if n < 0x10000 then sized 0xda 2 n
  else sized 0xdb 4 n

def listHead (n : Nat) : Bytes :=
  if n < 16 then [UInt8.ofNat (0x90 + n)]
  else if n < 0x10000 then sized 0xdc 2 n
  else sized 0xdd 4 n

def mapHead (n : Nat) : Bytes :=
  if n < 16 then [UInt8.ofNat (0x80 + n)]
  else if n < 0x10000 then sized 0xde 2 n
  else sized 0xdf 4 n

mutual

def Item.bytes : Item → Bytes
  | .null => [0xc0]
  | .bool b => [if b then 0xc3 else 0xc2]
  | .int form n => intBytes form n
  | .text s => textHead s.length ++ s
  | .list xs => listHead xs.length ++ Item.listBytes xs
  | .map es => mapHead es.length ++ Item.mapBytes es
  | .other => [0xc1]

def Item.listBytes : List Item → Bytes
  | [] => []
  | x :: xs => x.bytes ++ Item.listBytes xs

def Item.mapBytes : List (Item × Item) → Bytes
  | [] => []
  | (k, v) :: es => k.bytes ++ v.bytes ++ Item.mapBytes es

end

/-! ## Reading -/

abbrev Reader := StateT Bytes Option

namespace Reader

def byte : Reader UInt8 := fun
  | [] => none
  | b :: rest => some (b, rest)

def take (n : Nat) : Reader Bytes := fun bs =>
  if n ≤ bs.length then some (bs.splitAt n) else none

def nat (n : Nat) : Reader Nat := do
  return ofBigEndian (← take n)

def int (n : Nat) : Reader Int := do
  return Int.bmod (← nat n) (twoTo (8 * n))

def text (n : Nat) : Reader Item := do
  return .text (← take (← nat n))

def pass (n : Nat) : Reader Item := do
  let _ ← take n
  return .other

/-- The number of items of a list, or of entries of a map, or an item that has
no parts. -/
inductive Start where
  | item (x : Item)
  | list (n : Nat)
  | map (n : Nat)

def start : Reader Start := do
  let c ← byte
  let n := c.toNat
  if n < 0x80 then return .item (.int .shortest n)
  else if n < 0x90 then return .map (n - 0x80)
  else if n < 0xa0 then return .list (n - 0x90)
  else if n < 0xc0 then return .item (.text (← take (n - 0xa0)))
  else if 0xe0 ≤ n then return .item (.int .shortest (n - 256))
  else if c = 0xdc then return .list (← nat 2)
  else if c = 0xdd then return .list (← nat 4)
  else if c = 0xde then return .map (← nat 2)
  else if c = 0xdf then return .map (← nat 4)
  else return .item (← leaf c)
where
  /-- The rest of an item without parts. -/
  leaf : UInt8 → Reader Item
    | 0xc0 => pure .null
    | 0xc2 => pure (.bool false)
    | 0xc3 => pure (.bool true)
    | 0xc4 => text 1
    | 0xc5 => text 2
    | 0xc6 => text 4
    | 0xc7 => do pass (1 + (← nat 1))
    | 0xc8 => do pass (1 + (← nat 2))
    | 0xc9 => do pass (1 + (← nat 4))
    | 0xca => pass 4
    | 0xcb => pass 8
    | 0xcc => do return .int .shortest (← nat 1)
    | 0xcd => do return .int .shortest (← nat 2)
    | 0xce => do return .int .shortest (← nat 4)
    | 0xcf => do return .int .shortest (← nat 8)
    | 0xd0 => do return .int .shortest (← int 1)
    | 0xd1 => do return .int .shortest (← int 2)
    | 0xd2 => do return .int .shortest (← int 4)
    | 0xd3 => do return .int .shortest (← int 8)
    | 0xd4 => pass 2
    | 0xd5 => pass 3
    | 0xd6 => pass 5
    | 0xd7 => pass 9
    | 0xd8 => pass 17
    | 0xd9 => text 1
    | 0xda => text 2
    | 0xdb => text 4
    | _ => failure

mutual

def item : Nat → Reader Item
  | 0 => failure
  | n + 1 => do
    match ← start with
    | .item x => return x
    | .list k => return .list (← items n k)
    | .map k => return .map (← entries n k)

def items : Nat → Nat → Reader (List Item)
  | _, 0 => return []
  | 0, _ => failure
  | n + 1, k + 1 => do
    let x ← item n
    return x :: (← items n k)

def entries : Nat → Nat → Reader (List (Item × Item))
  | _, 0 => return []
  | 0, _ => failure
  | n + 1, k + 1 => do
    let key ← item n
    let value ← item n
    return (key, value) :: (← entries n k)

end

end Reader

/-- The item that the bytes start with. Every item has a byte, and every list
a start, so twice the number of bytes is enough. -/
def Item.ofBytes? (bs : Bytes) : Option Item :=
  (·.1) <$> Reader.item (2 * bs.length + 1) bs

end TypedIR.Pack
