import TypedIR.Halt
import TypedIR.Word
import TypedIR.Text.Utf8
import TypedIR.Text.Numeral

/-
  The address space of compiled code.

  Memory is a list of blocks that only grows. An address names a block in its
  high bits and a byte of that block in its low bits; the first block is block
  1, so address 0 names nothing. A freed block stays in the list without its
  bytes, and its number is never given out again.

  Reading and writing stop in one of two ways: a `Fault` is reported to the
  program that asked, a crash is a request the machine itself cannot carry
  out.

  What a write and a change of size do is said through the one view of a block,
  the byte at a position (`byte_putBytes`, `byte_resized`).
-/

namespace TypedIR

open Text

/-- Why memory refuses a request. -/
inductive Fault where
  | size (n : Int)
  | exhausted
  | null
  | invalid (addr : Word)
  | freed (addr : Word)
  | freeInside (addr : Word)
  | reallocInside (addr : Word)
  | readBounds (n : Int) (addr : Word)
  | writeBounds (n : Int) (addr : Word)
  | stringBounds (addr : Word)
  | unterminated (addr : Word)
  deriving DecidableEq, Repr, Inhabited

def Fault.message : Fault → String
  | .size n => "allocation size " ++ decimal n ++ " out of range"
  | .exhausted => "address space exhausted"
  | .null => "null pointer dereference"
  | .invalid a => "invalid address " ++ markedHex a.toNat
  | .freed a => "use-after-free at " ++ markedHex a.toNat
  | .freeInside a => "free of interior pointer " ++ markedHex a.toNat
  | .reallocInside a => "realloc of interior pointer " ++ markedHex a.toNat
  | .readBounds n a =>
    "read of " ++ decimal n ++ " bytes at " ++ markedHex a.toNat ++ " out of bounds"
  | .writeBounds n a =>
    "write of " ++ decimal n ++ " bytes at " ++ markedHex a.toNat ++ " out of bounds"
  | .stringBounds a => "string at " ++ markedHex a.toNat ++ " out of bounds"
  | .unterminated a => "unterminated string at " ++ markedHex a.toNat

def pageSize : Nat := 4096

/-- A live block: its size and the bytes written so far, in pages. Bytes that
are in no page are zero. -/
structure Block where
  size : Nat
  pages : Array (Array UInt8) := #[]
  deriving Inhabited

def grown {α : Type} (xs : Array α) (n : Nat) (x : α) : Array α :=
  if xs.size < n then xs ++ Array.replicate (n - xs.size) x else xs

/-- Growing an array changes no element of it. -/
theorem getD_grown {α : Type} (xs : Array α) (n : Nat) (x : α) (i : Nat) :
    (grown xs n x).getD i x = xs.getD i x := by
  unfold grown
  split
  · simp only [Array.getD_eq_getD_getElem?, Array.getElem?_append, Array.getElem?_replicate]
    split
    · rfl
    · split <;> simp_all
  · rfl

/-- A grown array is as long as it was asked to be. -/
theorem le_size_grown {α : Type} (xs : Array α) (n : Nat) (x : α) : n ≤ (grown xs n x).size := by
  unfold grown
  split
  · simp only [Array.size_append, Array.size_replicate]
    omega
  · omega

/-- The first elements of an array are those of the array. -/
theorem getElem?_take {α : Type} (xs : Array α) (n i : Nat) :
    (xs.take n)[i]? = if i < n then xs[i]? else none := by
  have hmin : i < min n xs.size ↔ i < n ∧ i < xs.size := by omega
  simp only [Array.take_eq_extract, Array.getElem?_extract, Nat.zero_add, Nat.sub_zero, hmin]
  by_cases hx : i < xs.size
  · simp only [hx, and_true]
  · rw [if_neg fun h => hx h.2, Array.getElem?_eq_none (by omega), ite_self]

namespace Block

def byte (b : Block) (i : Nat) : UInt8 :=
  (b.pages.getD (i / pageSize) #[]).getD (i % pageSize) 0

def window (b : Block) (off n : Nat) : List UInt8 :=
  (List.range n).map fun i => b.byte (off + i)

def setByte (pages : Array (Array UInt8)) (i : Nat) (x : UInt8) : Array (Array UInt8) :=
  (grown pages (i / pageSize + 1) #[]).modify (i / pageSize) fun page =>
    (grown page (i % pageSize + 1) 0).setIfInBounds (i % pageSize) x

/-- The page of a position after a byte was set: the page there before, with
the byte put in if it is of that page. -/
theorem getD_setByte (pages : Array (Array UInt8)) (i : Nat) (x : UInt8) (k : Nat) :
    (setByte pages i x).getD k #[] =
      if k = i / pageSize then
        (grown (pages.getD k #[]) (i % pageSize + 1) 0).setIfInBounds (i % pageSize) x
      else pages.getD k #[] := by
  have hp := le_size_grown pages (i / pageSize + 1) #[]
  rw [← getD_grown pages (i / pageSize + 1) #[] k]
  unfold setByte
  split
  · next h =>
    subst h
    have hi : i / pageSize < (grown pages (i / pageSize + 1) #[]).size := by omega
    simp [Array.getD_eq_getD_getElem?, hi, Array.getElem_modify]
  · next h =>
    simp [Array.getD_eq_getD_getElem?, Array.getElem?_modify, Ne.symm h]

/-- Setting a byte changes the byte at that position and no other. -/
theorem byte_setByte (size : Nat) (pages : Array (Array UInt8)) (i : Nat) (x : UInt8) (j : Nat) :
    byte ⟨size, setByte pages i x⟩ j = if j = i then x else byte ⟨size, pages⟩ j := by
  unfold byte
  rw [getD_setByte]
  split
  · next h =>
    have hs := le_size_grown (pages.getD (j / pageSize) #[]) (i % pageSize + 1) 0
    rw [← getD_grown (pages.getD (j / pageSize) #[]) (i % pageSize + 1) 0 (j % pageSize)]
    by_cases hj : j % pageSize = i % pageSize
    · have : j = i := by
        rw [← Nat.div_add_mod j pageSize, ← Nat.div_add_mod i pageSize, h, hj]
      rw [if_pos this, hj]
      generalize grown (pages.getD (j / pageSize) #[]) (i % pageSize + 1) 0 = page at hs
      simp [Array.getD_eq_getD_getElem?, show i % pageSize < page.size by omega]
    · have : j ≠ i := fun h => hj (by rw [h])
      rw [if_neg this]
      simp [Array.getD_eq_getD_getElem?, Ne.symm hj]
  · next h => rw [if_neg fun hj => h (by rw [hj])]

def putBytes : Array (Array UInt8) → Nat → List UInt8 → Array (Array UInt8)
  | pages, _, [] => pages
  | pages, i, x :: rest => putBytes (setByte pages i x) (i + 1) rest

/-- Writing changes the bytes of its range and no other. -/
theorem byte_putBytes (size : Nat) (data : List UInt8) (pages : Array (Array UInt8)) (i j : Nat) :
    byte ⟨size, putBytes pages i data⟩ j =
      if i ≤ j then data.getD (j - i) (byte ⟨size, pages⟩ j) else byte ⟨size, pages⟩ j := by
  induction data generalizing pages i with
  | nil => simp [putBytes]
  | cons x rest ih =>
    rw [putBytes, ih, byte_setByte]
    by_cases h : j = i
    · subst h
      simp [show ¬ j + 1 ≤ j by omega]
    · by_cases hij : i ≤ j
      · obtain ⟨k, hk⟩ : ∃ k, j - i = k + 1 := ⟨j - i - 1, by omega⟩
        simp [h, hij, show i + 1 ≤ j by omega, hk, show j - (i + 1) = k by omega]
      · simp [h, hij, show ¬ i + 1 ≤ j by omega]

def write (b : Block) (off : Nat) (data : List UInt8) : Block :=
  { b with pages := putBytes b.pages off data }

/-- The bytes from `i` up to the first zero byte among the next `n`, after
those of `acc`; `none` if there is no zero byte. -/
def stringWithin (b : Block) : Nat → Nat → List UInt8 → Option (List UInt8)
  | 0, _, _ => none
  | n + 1, i, acc =>
    let x := b.byte i
    if x = 0 then some acc.reverse else stringWithin b n (i + 1) (x :: acc)

/-- The bytes from `off` up to the first zero byte; `none` if there is no zero
byte before the end. -/
def stringFrom? (b : Block) (off : Nat) : Option (List UInt8) :=
  b.stringWithin (b.size - off) off []

def resized (b : Block) (size : Nat) : Block :=
  let pages := b.pages.take (size / pageSize + 1)
  { size, pages := pages.modify (size / pageSize) (·.take (size % pageSize)) }

/-- A block of another size has the same bytes as far as they fit. -/
theorem byte_resized (b : Block) (size j : Nat) :
    (b.resized size).byte j = if j < size then b.byte j else 0 := by
  have hdiv := Nat.div_add_mod j pageSize
  have hsize := Nat.div_add_mod size pageSize
  have hj : j % pageSize < pageSize := Nat.mod_lt _ (by decide)
  have hm : size % pageSize < pageSize := Nat.mod_lt _ (by decide)
  have hpages : (b.resized size).pages =
      (b.pages.take (size / pageSize + 1)).modify (size / pageSize) (·.take (size % pageSize)) := rfl
  simp only [byte, hpages, Array.getD_eq_getD_getElem?, Array.getElem?_modify, getElem?_take]
  rcases Nat.lt_trichotomy (j / pageSize) (size / pageSize) with h | h | h
  · have hle := Nat.mul_le_mul_left pageSize (Nat.succ_le_of_lt h)
    rw [Nat.mul_succ] at hle
    rw [if_neg (by omega), if_pos (by omega), if_pos (by omega)]
  · have hlt : j < size ↔ j % pageSize < size % pageSize := by
      rw [h] at hdiv
      omega
    rw [if_pos h.symm, if_pos (by omega), h]
    cases b.pages[size / pageSize]? with
    | none => simp
    | some page =>
      simp only [Option.map_some, Option.getD_some, getElem?_take, hlt]
      split <;> rfl
  · have hle := Nat.mul_le_mul_left pageSize (Nat.succ_le_of_lt h)
    rw [Nat.mul_succ] at hle
    rw [if_neg (by omega), if_neg (by omega), if_neg (by omega)]
    rfl

end Block

/-- The address space: how many low bits of an address are the offset, the
blocks, and how many of them are live; a freed block is `none`. The live blocks
are counted as they come and go. -/
structure Memory where
  offsetBits : Nat := 32
  blocks : Array (Option Block) := #[]
  live : Int := 0
  deriving Inhabited

namespace Memory

def forPointers (ptrSize : Int) : Memory :=
  { offsetBits := if ptrSize = 4 then 20 else 32 }

def handleOf (m : Memory) (addr : Word) : Nat :=
  addr.toNat / twoTo m.offsetBits

def offsetOf (m : Memory) (addr : Word) : Nat :=
  addr.toNat % twoTo m.offsetBits

def lastHandle (m : Memory) : Nat :=
  if m.offsetBits = 32 then 0x100000000 - 1 else twoTo (32 - m.offsetBits) - 1

def address (m : Memory) (handle : Nat) : Word :=
  UInt64.ofNat (handle * twoTo m.offsetBits)

abbrev Request := ExceptT (Halt Fault) (StateM Memory)

def refuse {α : Type} (f : Fault) : Request α :=
  throw (.failed f)

/-- One block more. -/
def add (m : Memory) (b : Block) : Memory :=
  { m with blocks := m.blocks.push (some b), live := m.live + 1 }

def alloc (size : Int) : Request Word := do
  let m ← get
  if size < 0 ∨ twoTo m.offsetBits ≤ size then refuse (.size size)
  let handle := m.blocks.size + 1
  if m.lastHandle < handle then refuse .exhausted
  modify (·.add { size := size.toNat })
  pure (m.address handle)

def resolve (m : Memory) (addr : Word) : Except Fault Block :=
  if addr = 0 then .error .null
  else
    let h := m.handleOf addr
    if h = 0 then .error (.invalid addr)
    else match m.blocks[h - 1]? with
      | none => .error (.invalid addr)
      | some none => .error (.freed addr)
      | some (some b) => .ok b

def blockAt (addr : Word) : Request Block := do
  match (← get).resolve addr with
  | .ok b => pure b
  | .error f => refuse f

def putBlock (m : Memory) (addr : Word) (b : Option Block) : Memory :=
  { m with blocks := m.blocks.setIfInBounds (m.handleOf addr - 1) b }

/-- One block less: the one at an address. -/
def release (m : Memory) (addr : Word) : Memory :=
  { m.putBlock addr none with live := m.live - 1 }

/-- Frees the block that starts at an address; freeing address 0 does
nothing. -/
def free (addr : Word) : Request Unit := do
  if addr = 0 then return
  let _ ← blockAt addr
  if (← get).offsetOf addr ≠ 0 then refuse (.freeInside addr)
  modify (·.release addr)

def realloc (addr : Word) (size : Int) : Request Word := do
  if addr = 0 then return ← alloc size
  let b ← blockAt addr
  if (← get).offsetOf addr ≠ 0 then refuse (.reallocInside addr)
  let next ← alloc size
  modify fun m => (m.putBlock next (some (b.resized size.toNat))).release addr
  pure next

/-- The bytes at an address. The end of the range is a 64-bit sum; a range
whose end wraps around passes the bounds check and crashes the machine. -/
def read (addr : Word) (n : Int) : Request (List UInt8) := do
  let b ← blockAt addr
  let off := (← get).offsetOf addr
  if n < 0 ∨ b.size < wrap64 (off + n) then refuse (.readBounds n addr)
  if wrap64 (off + n) < off then throw .crashed
  pure (b.window off n.toNat)

def write (addr : Word) (data : List UInt8) : Request Unit := do
  let b ← blockAt addr
  let off := (← get).offsetOf addr
  if b.size < off + data.length then refuse (.writeBounds data.length addr)
  -- the block is taken out while it changes, so its bytes are updated in place
  modify (·.putBlock addr none)
  modify (·.putBlock addr (some (b.write off data)))

def copy (dst src : Word) (n : Int) : Request Unit := do
  if n = 0 then return
  let data ← read src n
  write dst data

def fill (addr : Word) (b : UInt8) (n : Int) : Request Unit := do
  if n = 0 then return
  if n < 0 then throw .crashed
  let block ← blockAt addr
  let off := (← get).offsetOf addr
  if block.size < off + n then refuse (.writeBounds n addr)
  write addr (List.replicate n.toNat b)

def readString (addr : Word) : Request Bytes := do
  let b ← blockAt addr
  let off := (← get).offsetOf addr
  if b.size < off then refuse (.stringBounds addr)
  match b.stringFrom? off with
  | some s => pure s
  | none => refuse (.unterminated addr)

def writeString (s : Bytes) : Request Word := do
  let addr ← alloc (s.length + 1)
  write addr (s ++ [0])
  pure addr

def addressText (m : Memory) (addr : Word) : String :=
  if addr = 0 then "null"
  else "@" ++ decimalNat (m.handleOf addr) ++ "+" ++ decimalNat (m.offsetOf addr)

end Memory

end TypedIR
