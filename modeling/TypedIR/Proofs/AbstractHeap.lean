import TypedIR.Proofs.MemoryRuns

/-
  The heap that programs see.

  The heap has no block numbers, offsets or pages: it is a map from the addresses
  of live blocks to their bytes, with the list of all blocks that were ever
  handed out. `Heap.Step` says what each call may answer and do to it, and a call
  without a step is refused.

  The blocks of memory are lists of bytes, too: one lemma says what each operation
  on a block does to them (`Block.bytes_write`, `Block.bytes_resized`).
-/

namespace TypedIR

/-! ## The heap -/

/-- The blocks handed out so far with their sizes, oldest first, and the bytes of
those that are live. -/
structure Heap where
  given : List (Word × Nat) := []
  live : Word → Option (List UInt8) := fun _ => none

namespace Heap

/-- The calls. -/
inductive Call where
  | alloc (size : Nat)
  | free (addr : Word)
  | realloc (addr : Word) (size : Nat)
  | read (addr : Word) (n : Nat)
  | write (addr : Word) (data : List UInt8)
  | copy (dst src : Word) (n : Nat)
  | fill (addr : Word) (b : UInt8) (n : Nat)
  | readString (addr : Word)
  | writeString (s : List UInt8)

/-- What a call gives. -/
inductive Answer where
  | address (p : Word)
  | bytes (data : List UInt8)
  | done
  deriving DecidableEq

def sizeLimit (ptrSize : Int) : Nat := if ptrSize = 4 then 0x100000 else 0x100000000

def countLimit (ptrSize : Int) : Nat := if ptrSize = 4 then 0xFFF else 0xFFFFFFFF

variable (h : Heap)

def add (p : Word) (data : List UInt8) : Heap :=
  { given := h.given ++ [(p, data.length)]
    live := fun q => if q = p then some data else h.live q }

/-- The heap with other bytes under an address. -/
def put (p : Word) (data : List UInt8) : Heap :=
  { h with live := fun q => if q = p then some data else h.live q }

theorem put_add (p : Word) {data : List UInt8} (new : List UInt8)
    (hlen : data.length = new.length) : (h.add p data).put p new = h.add p new := by
  unfold put add
  rw [hlen]
  congr 1
  funext q
  by_cases hq : q = p <;> simp [hq]

def remove (p : Word) : Heap :=
  { h with live := fun q => if q = p then none else h.live q }

/-- The address `a` is `k` bytes into the live block `p`, or at its end. -/
structure At (a p : Word) (k : Nat) (data : List UInt8) : Prop where
  live : h.live p = some data
  inside : k ≤ data.length
  address : a.toNat = p.toNat + k

/-- The address `p` can be handed out for `n` bytes: it is not null, it was never
handed out, and the block lies within reach of pointers and meets no live
block, also not at its end. -/
structure Fresh (ptrSize : Int) (p : Word) (n : Nat) : Prop where
  notNull : p ≠ 0
  new : ∀ size, (p, size) ∉ h.given
  reach : p.toNat + n < Memory.reach ptrSize
  apart : ∀ {q data}, h.live q = some data →
    p.toNat + n < q.toNat ∨ q.toNat + data.length < p.toNat

/-- A block of `n` bytes can be given: neither its size nor the number of blocks is used up. -/
def Room (ptrSize : Int) (n : Nat) : Prop :=
  n < sizeLimit ptrSize ∧ h.given.length < countLimit ptrSize

def overwrite (data : List UInt8) (k : Nat) (new : List UInt8) : List UInt8 :=
  data.take k ++ new ++ data.drop (k + new.length)

/-- The bytes, cut or filled up with zeros to so many. -/
def fitted (data : List UInt8) (n : Nat) : List UInt8 :=
  data.take n ++ List.replicate (n - data.length) 0

/-- What the calls do: the heap before, the answer, and the heap after. -/
inductive Step (ptrSize : Int) (h : Heap) : Call → Answer → Heap → Prop
  | alloc {n p} (room : h.Room ptrSize n) (fresh : h.Fresh ptrSize p n) :
      Step ptrSize h (.alloc n) (.address p) (h.add p (List.replicate n 0))
  | freeNull : Step ptrSize h (.free 0) .done h
  | free {p data} (live : h.live p = some data) : Step ptrSize h (.free p) .done (h.remove p)
  | reallocNull {n p} (room : h.Room ptrSize n) (fresh : h.Fresh ptrSize p n) :
      Step ptrSize h (.realloc 0 n) (.address p) (h.add p (List.replicate n 0))
  | realloc {p n data q} (live : h.live p = some data) (room : h.Room ptrSize n)
      (fresh : h.Fresh ptrSize q n) :
      Step ptrSize h (.realloc p n) (.address q) ((h.add q (fitted data n)).remove p)
  | read {a n p k data} (at_ : h.At a p k data) (fits : k + n ≤ data.length) :
      Step ptrSize h (.read a n) (.bytes ((data.drop k).take n)) h
  | write {a new p k data} (at_ : h.At a p k data) (fits : k + new.length ≤ data.length) :
      Step ptrSize h (.write a new) .done (h.put p (overwrite data k new))
  | copyNone {dst src} : Step ptrSize h (.copy dst src 0) .done h
  | copy {dst src n p k data q j data'} (some : n ≠ 0) (source : h.At src p k data)
      (readable : k + n ≤ data.length) (target : h.At dst q j data')
      (fits : j + n ≤ data'.length) :
      Step ptrSize h (.copy dst src n) .done (h.put q (overwrite data' j ((data.drop k).take n)))
  | fillNone {a b} : Step ptrSize h (.fill a b 0) .done h
  | fill {a b n p k data} (some : n ≠ 0) (at_ : h.At a p k data) (fits : k + n ≤ data.length) :
      Step ptrSize h (.fill a b n) .done (h.put p (overwrite data k (List.replicate n b)))
  | readString {a p k data} (at_ : h.At a p k data) (ends : 0 ∈ data.drop k) :
      Step ptrSize h (.readString a) (.bytes ((data.drop k).takeWhile (· ≠ 0))) h
  | writeString {s p} (room : h.Room ptrSize (s.length + 1))
      (fresh : h.Fresh ptrSize p (s.length + 1)) :
      Step ptrSize h (.writeString s) (.address p) (h.add p (s ++ [0]))

/-- Logs of the heap: each call with its answer, or with the fault it was refused
with. -/
inductive Explains (ptrSize : Int) :
    List (Call × Except (Halt Fault) Answer) → Heap → Prop
  | start : Explains ptrSize [] {}
  | answered {log h c a h'} (before : Explains ptrSize log h) (step : h.Step ptrSize c a h') :
      Explains ptrSize (log ++ [(c, .ok a)]) h'
  | refused {log h c f} (before : Explains ptrSize log h)
      (none : ∀ a h', ¬ h.Step ptrSize c a h') :
      Explains ptrSize (log ++ [(c, .error (.failed f))]) h

namespace Call

/-- The sizes that a call names are those that a word can hold. -/
def InRange : Call → Prop
  | .alloc n | .realloc _ n | .read _ n | .copy _ _ n | .fill _ _ n => n ≤ 0x100000000
  | .write _ data | .writeString data => data.length ≤ 0x100000000
  | .free _ | .readString _ => True

instance : DecidablePred InRange
  | .alloc n | .realloc _ n | .read _ n | .copy _ _ n | .fill _ _ n =>
    inferInstanceAs (Decidable (n ≤ _))
  | .write _ data | .writeString data => inferInstanceAs (Decidable (data.length ≤ _))
  | .free _ | .readString _ => inferInstanceAs (Decidable True)

/-- The call reads, writes, frees or moves what is at an address. A copy or fill of
no bytes looks at no address. -/
def Touches (a : Word) : Call → Prop
  | .free b | .realloc b _ | .read b _ | .write b _ | .readString b => b = a
  | .copy dst src n => n ≠ 0 ∧ (dst = a ∨ src = a)
  | .fill b _ n => n ≠ 0 ∧ b = a
  | .alloc _ | .writeString _ => False

def request : Call → Memory.Request Answer
  | .alloc n => .address <$> Memory.alloc n
  | .free a => (fun _ => .done) <$> Memory.free a
  | .realloc a n => .address <$> Memory.realloc a n
  | .read a n => .bytes <$> Memory.read a n
  | .write a data => (fun _ => .done) <$> Memory.write a data
  | .copy dst src n => (fun _ => .done) <$> Memory.copy dst src n
  | .fill a b n => (fun _ => .done) <$> Memory.fill a b n
  | .readString a => .bytes <$> Memory.readString a
  | .writeString s => .address <$> Memory.writeString s

def run (c : Call) (m : Memory) : Except (Halt Fault) Answer × Memory :=
  c.request.run m

end Call

end Heap

/-- The calls made of a fresh memory so far, with what they gave. -/
inductive Memory.Log (ptrSize : Int) :
    List (Heap.Call × Except (Halt Fault) Heap.Answer) → Memory → Prop
  | start : Log ptrSize [] (.forPointers ptrSize)
  | call {log m c answer m'} (before : Log ptrSize log m) (range : c.InRange)
      (run : c.run m = (answer, m')) : Log ptrSize (log ++ [(c, answer)]) m'

/-! ## Blocks as bytes -/

namespace Block

def bytes (b : Block) : List UInt8 := b.window 0 b.size

/-- There are only zeros behind the end of the block. -/
def Clean (b : Block) : Prop := ∀ i, b.size ≤ i → b.byte i = 0

variable (b : Block)

@[simp] theorem length_window (off n : Nat) : (b.window off n).length = n := by
  simp [window]

@[simp] theorem length_bytes : b.bytes.length = b.size := b.length_window 0 b.size

theorem getElem?_window (off n i : Nat) :
    (b.window off n)[i]? = if i < n then some (b.byte (off + i)) else none := by
  by_cases hi : i < n <;> simp [window, hi]

theorem getElem?_bytes (i : Nat) : b.bytes[i]? = if i < b.size then some (b.byte i) else none := by
  rw [bytes, getElem?_window, Nat.zero_add]

theorem window_eq {off n : Nat} (hn : off + n ≤ b.size) :
    b.window off n = (b.bytes.drop off).take n := by
  apply List.ext_getElem?
  intro i
  rw [getElem?_window, List.getElem?_take, List.getElem?_drop, getElem?_bytes]
  by_cases hi : i < n
  · rw [if_pos hi, if_pos hi, if_pos (by omega)]
  · rw [if_neg hi, if_neg hi]

theorem byte_write (off : Nat) (data : List UInt8) (i : Nat) :
    (b.write off data).byte i = if off ≤ i then data.getD (i - off) (b.byte i) else b.byte i :=
  byte_putBytes b.size data b.pages off i

theorem bytes_write {off : Nat} {data : List UInt8} (hn : off + data.length ≤ b.size) :
    (b.write off data).bytes = Heap.overwrite b.bytes off data := by
  have hsize : (b.write off data).size = b.size := rfl
  apply List.ext_getElem?
  intro i
  unfold Heap.overwrite
  rw [getElem?_bytes, hsize, byte_write, List.append_assoc]
  by_cases hlow : i < off
  · rw [List.getElem?_append_left (by simp; omega), List.getElem?_take, if_pos hlow,
      if_neg (show ¬ off ≤ i by omega), getElem?_bytes]
  · rw [List.getElem?_append_right (by simp; omega), if_pos (show off ≤ i by omega)]
    have hoff : (b.bytes.take off).length = off := by simp; omega
    rw [hoff]
    by_cases hin : i - off < data.length
    · rw [List.getElem?_append_left hin, if_pos (by omega), List.getD_eq_getElem?_getD,
        List.getElem?_eq_getElem hin]
      rfl
    · rw [List.getElem?_append_right (by omega), List.getElem?_drop, getElem?_bytes,
        List.getD_eq_getElem?_getD, List.getElem?_eq_none (by omega)]
      rw [show off + data.length + (i - off - data.length) = i by omega]
      rfl

theorem clean_write {off : Nat} {data : List UInt8} (hc : b.Clean)
    (hn : off + data.length ≤ b.size) : (b.write off data).Clean := by
  intro i hi
  have hi' : b.size ≤ i := hi
  rw [byte_write]
  split
  · rw [List.getD_eq_getElem?_getD, List.getElem?_eq_none (by omega)]
    exact hc i hi'
  · exact hc i hi'

theorem bytes_fresh (n : Nat) : ({ size := n } : Block).bytes = List.replicate n 0 := by
  apply List.ext_getElem?
  intro i
  rw [getElem?_bytes, List.getElem?_replicate]
  rfl

theorem clean_fresh (n : Nat) : ({ size := n } : Block).Clean := fun _ _ => rfl

theorem bytes_resized (hc : b.Clean) (n : Nat) :
    (b.resized n).bytes = Heap.fitted b.bytes n := by
  have hsize : (b.resized n).size = n := rfl
  apply List.ext_getElem?
  intro i
  unfold Heap.fitted
  rw [getElem?_bytes, hsize, byte_resized]
  by_cases hi : i < n
  · rw [if_pos hi, if_pos hi]
    by_cases hb : i < b.size
    · rw [List.getElem?_append_left (by simp; omega), List.getElem?_take, if_pos hi, getElem?_bytes,
        if_pos hb]
    · rw [List.getElem?_append_right (by simp; omega), List.getElem?_replicate,
        if_pos (by simp; omega), hc i (by omega)]
  · rw [if_neg hi, List.getElem?_eq_none]
    simp
    omega

theorem clean_resized (n : Nat) : (b.resized n).Clean := by
  intro i hi
  have hi' : n ≤ i := hi
  rw [byte_resized, if_neg (by omega)]

theorem stringWithin_eq (n i : Nat) (acc : List UInt8) :
    b.stringWithin n i acc =
      if 0 ∈ b.window i n then some (acc.reverse ++ (b.window i n).takeWhile (· ≠ 0)) else none := by
  induction n generalizing i acc with
  | zero => simp [stringWithin, window]
  | succ n ih =>
    have hcons : b.window i (n + 1) = b.byte i :: b.window (i + 1) n := by
      unfold window
      rw [List.range_succ_eq_map, List.map_cons, List.map_map]
      congr 1
      refine List.map_congr_left fun j _ => ?_
      show b.byte (i + (j + 1)) = b.byte (i + 1 + j)
      congr 1
      omega
    rw [hcons]
    unfold stringWithin
    by_cases hz : b.byte i = 0
    · simp [hz]
    · simp only [hz, if_false, ih]
      have hne : (0 : UInt8) ≠ b.byte i := fun h => hz h.symm
      simp [hz, hne]

theorem stringFrom_eq {off : Nat} (hoff : off ≤ b.size) :
    b.stringFrom? off =
      if 0 ∈ b.bytes.drop off then some ((b.bytes.drop off).takeWhile (· ≠ 0)) else none := by
  have hrest : b.window off (b.size - off) = b.bytes.drop off := by
    rw [b.window_eq (by omega), List.take_of_length_le (by simp)]
  unfold stringFrom?
  rw [stringWithin_eq, hrest]
  rfl

end Block

/-! ## The remaining requests, run -/

namespace Memory

variable (m : Memory)

theorem run_realloc (addr : Word) (size : Int) :
    ((realloc addr size).run m : Except (Halt Fault) Word × Memory) =
      if addr = 0 then (alloc size).run m
      else match m.resolve addr with
        | .error f => (.error (.failed f), m)
        | .ok b =>
          if m.offsetOf addr ≠ 0 then (.error (.failed (.reallocInside addr)), m)
          else match ((alloc size).run m : Except (Halt Fault) Word × Memory) with
            | (.error h, m') => (.error h, m')
            | (.ok next, m') =>
              (.ok next, (m'.putBlock next (some (b.resized size.toNat))).release addr) := by
  unfold realloc
  split
  · rfl
  · rw [run_bind, run_blockAt]
    rcases m.resolve addr with f | b
    · rfl
    · simp only
      rw [run_bind]
      show ((ite _ _ _ : Request Word).run m : Except (Halt Fault) _ × Memory) = _
      split
      · rfl
      · rw [run_bind]
        rcases ((alloc size).run m : Except (Halt Fault) Word × Memory) with ⟨_ | _, _⟩ <;> rfl

theorem run_fill (addr : Word) (b : UInt8) (n : Nat) :
    ((fill addr b n).run m : Except (Halt Fault) Unit × Memory) =
      if n = 0 then (.ok (), m) else (write addr (List.replicate n b)).run m := by
  unfold fill
  by_cases h0 : n = 0
  · rw [if_pos (by omega), if_pos h0]
    rfl
  · rw [if_neg (by omega), if_neg h0, if_neg (by omega), run_bind, run_blockAt, run_write]
    rcases hres : m.resolve addr with f | block
    · rfl
    · simp only
      rw [run_bind]
      show ((ite _ _ _ : Request Unit).run m : Except (Halt Fault) _ × Memory) = _
      have hlen : (block.size : Int) < m.offsetOf addr + (n : Int) ↔
          block.size < m.offsetOf addr + (List.replicate n b).length := by
        rw [List.length_replicate]
        omega
      by_cases hb : (block.size : Int) < m.offsetOf addr + (n : Int)
      · rw [if_pos hb, if_pos (hlen.mp hb), List.length_replicate]
        rfl
      · rw [if_neg hb, if_neg fun h => hb (hlen.mpr h)]
        show ((write addr (List.replicate n b)).run m : Except (Halt Fault) Unit × Memory) = _
        rw [run_write, hres]
        simp only
        rw [if_neg fun h => hb (hlen.mpr h)]

theorem run_readString (addr : Word) :
    ((readString addr).run m : Except (Halt Fault) (List UInt8) × Memory) =
      match m.resolve addr with
      | .error f => (.error (.failed f), m)
      | .ok b =>
        if b.size < m.offsetOf addr then (.error (.failed (.stringBounds addr)), m)
        else match b.stringFrom? (m.offsetOf addr) with
          | some s => (.ok s, m)
          | none => (.error (.failed (.unterminated addr)), m) := by
  unfold readString
  rw [run_bind, run_blockAt]
  rcases m.resolve addr with f | b
  · rfl
  · simp only
    rw [run_bind]
    show ((ite _ _ _ : Request (List UInt8)).run m : Except (Halt Fault) _ × Memory) = _
    split
    · rfl
    · show ((match b.stringFrom? (m.offsetOf addr) with
        | some s => pure s
        | none => refuse (.unterminated addr) : Request (List UInt8)).run m :
          Except (Halt Fault) _ × Memory) = _
      rcases b.stringFrom? (m.offsetOf addr) with _ | s <;> rfl

theorem run_writeString (s : List UInt8) :
    ((writeString s).run m : Except (Halt Fault) Word × Memory) =
      match ((alloc (s.length + 1)).run m : Except (Halt Fault) Word × Memory) with
      | (.error h, m') => (.error h, m')
      | (.ok addr, m') =>
        match ((write addr (s ++ [0])).run m' : Except (Halt Fault) Unit × Memory) with
        | (.error h, m'') => (.error h, m'')
        | (.ok (), m'') => (.ok addr, m'') := by
  unfold writeString
  rw [run_bind]
  rcases ((alloc (s.length + 1)).run m : Except (Halt Fault) Word × Memory) with ⟨_ | addr, m'⟩
  · rfl
  · simp only
    rw [run_bind]
    rcases ((write addr (s ++ [0])).run m' : Except (Halt Fault) Unit × Memory) with ⟨_ | _, _⟩ <;>
      rfl

end Memory

end TypedIR
