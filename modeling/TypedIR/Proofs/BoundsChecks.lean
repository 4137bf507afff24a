import TypedIR.Engine.Failure
import TypedIR.Proofs.HeapRefinement

/-
  The bounds checks of memory.

  A range is `n` bytes from an address on. It is held if the address is not null, its
  block is live, and the exact end of the range lies in the block (`Memory.Holding`).
  Reading gives bytes exactly for the ranges that are held, and copying moves them
  exactly between two of them (`Memory.Reached.checks_bounds`).

  The check itself adds offset and length in 64 bits. A range whose end passes 2^63 gets
  by it and crashes the machine: there is no such range below a length of 2^63 - 2^32,
  and none that starts at a block (`wrapped_range_crashes`).
-/

namespace TypedIR

namespace Memory

/-! ## Memory that programs can have -/

/-- The requests that can change memory. -/
inductive Action where
  | alloc (size : Int)
  | free (addr : Word)
  | realloc (addr : Word) (size : Int)
  | write (addr : Word) (data : List UInt8)
  | copy (dst src : Word) (n : Int)
  | fill (addr : Word) (b : UInt8) (n : Int)
  | writeString (s : List UInt8)

def Action.after (m : Memory) : Action → Memory
  | .alloc size => ((Memory.alloc size).run m : Except (Halt Fault) Word × Memory).2
  | .free addr => ((Memory.free addr).run m : Except (Halt Fault) Unit × Memory).2
  | .realloc addr size => ((Memory.realloc addr size).run m : Except (Halt Fault) Word × Memory).2
  | .write addr data => ((Memory.write addr data).run m : Except (Halt Fault) Unit × Memory).2
  | .copy dst src n => ((Memory.copy dst src n).run m : Except (Halt Fault) Unit × Memory).2
  | .fill addr b n => ((Memory.fill addr b n).run m : Except (Halt Fault) Unit × Memory).2
  | .writeString s => ((Memory.writeString s).run m : Except (Halt Fault) Word × Memory).2

/-- The memories for pointers of a size that any requests, refused ones included, lead to. -/
inductive Reached (ptrSize : Int) : Memory → Prop
  | start : Reached ptrSize (.forPointers ptrSize)
  | after {m : Memory} (h : Reached ptrSize m) (a : Action) : Reached ptrSize (a.after m)

/-! ## Blocks and addresses -/

/-- The address lies in a block that is live. -/
def Live (m : Memory) (addr : Word) (b : Block) : Prop :=
  addr ≠ 0 ∧ ∃ i, m.handleOf addr = i + 1 ∧ m.blocks[i]? = some (some b)

theorem live_iff {m : Memory} {addr : Word} {b : Block} :
    m.resolve addr = .ok b ↔ m.Live addr b := by
  constructor
  · intro hr
    refine ⟨?_, Shows.of_resolve hr⟩
    rintro rfl
    cases hr
  · rintro ⟨-, i, hi, hb⟩
    rw [Shows.resolve_eq hi, hb]

theorem alloc_ok {m m' : Memory} {size : Int} {p : Word}
    (h : ((alloc size).run m : Except (Halt Fault) Word × Memory) = (.ok p, m')) :
    0 ≤ size ∧ size < twoTo m.offsetBits ∧ m.blocks.size < m.lastHandle ∧
      p = m.address (m.blocks.size + 1) ∧
      m' = m.add { size := size.toNat } := by
  rw [run_alloc] at h
  split at h
  · cases h
  · split at h
    · cases h
    · injection h with hp hm
      exact ⟨by omega, by omega, by omega, (Except.ok.inj hp).symm, hm.symm⟩

theorem alloc_error {m m' : Memory} {size : Int} {e : Halt Fault}
    (h : ((alloc size).run m : Except (Halt Fault) Word × Memory) = (.error e, m')) : m' = m := by
  rw [run_alloc] at h
  split at h
  · exact (Prod.mk.inj h).2.symm
  · split at h
    · exact (Prod.mk.inj h).2.symm
    · cases h

/-- Every live block is smaller than the offsets that addresses have room for, and every
block has a number that addresses have room for. -/
structure Bounded (ptrSize : Int) (m : Memory) : Prop where
  serves : m.Serves ptrSize
  size_lt : ∀ {i : Nat} {b : Block}, m.blocks[i]? = some (some b) → b.size < twoTo m.offsetBits
  count_le : m.blocks.size ≤ m.lastHandle

variable {ptrSize : Int} {m : Memory}

namespace Bounded

theorem start (ptrSize : Int) : (forPointers ptrSize).Bounded ptrSize where
  serves := rfl
  size_lt h := by simp [forPointers] at h
  count_le := Nat.zero_le _

theorem offset_lt (addr : Word) (m : Memory) : m.offsetOf addr < twoTo m.offsetBits :=
  Nat.mod_lt _ (Nat.two_pow_pos _)

theorem twoTo_le (h : m.Bounded ptrSize) : twoTo m.offsetBits ≤ 0x100000000 := by
  have hserves := h.serves
  unfold Serves forPointers at hserves
  rw [hserves]
  dsimp only
  split <;> decide

theorem put (h : m.Bounded ptrSize) (addr : Word) {x : Option Block}
    (hx : ∀ b, x = some b → b.size < twoTo m.offsetBits) : (m.putBlock addr x).Bounded ptrSize where
  serves := h.serves
  size_lt {i b} hb := by
    unfold putBlock at hb
    rw [Array.getElem?_setIfInBounds] at hb
    split at hb
    · split at hb
      · exact hx b (Option.some.inj hb)
      · cases hb
    · exact h.size_lt hb
  count_le := by
    unfold putBlock
    rw [Array.size_setIfInBounds]
    exact h.count_le

theorem release (h : m.Bounded ptrSize) (addr : Word) : (m.release addr).Bounded ptrSize :=
  have hput := h.put addr (x := none) nofun
  ⟨hput.serves, hput.size_lt, hput.count_le⟩

theorem resolve_lt (h : m.Bounded ptrSize) {addr : Word} {b : Block} (hb : m.resolve addr = .ok b) :
    b.size < twoTo m.offsetBits := by
  obtain ⟨-, i, -, hi⟩ := live_iff.mp hb
  exact h.size_lt hi

theorem alloc (h : m.Bounded ptrSize) (size : Int) :
    ((Memory.alloc size).run m : Except (Halt Fault) Word × Memory).2.Bounded ptrSize := by
  rcases hr : ((Memory.alloc size).run m : Except (Halt Fault) Word × Memory) with ⟨e | p, m'⟩
  · obtain rfl := alloc_error hr
    exact h
  · obtain ⟨h0, hsize, hcount, -, rfl⟩ := alloc_ok hr
    refine ⟨h.serves, fun {i b} hb => ?_, ?_⟩
    · change (m.blocks.push _)[i]? = _ at hb
      rw [Array.getElem?_push] at hb
      split at hb
      · obtain rfl := Option.some.inj (Option.some.inj hb)
        show size.toNat < twoTo m.offsetBits
        omega
      · exact h.size_lt hb
    · show (m.blocks.push _).size ≤ m.lastHandle
      rw [Array.size_push]
      exact hcount

theorem write (h : m.Bounded ptrSize) (addr : Word) (data : List UInt8) :
    ((Memory.write addr data).run m : Except (Halt Fault) Unit × Memory).2.Bounded ptrSize := by
  rw [run_write]
  cases hr : m.resolve addr with
  | error f => exact h
  | ok b =>
    dsimp only
    split
    · exact h
    · refine h.put addr fun b' hb' => ?_
      obtain rfl := Option.some.inj hb'
      have hlt := h.resolve_lt hr
      exact hlt

theorem free (h : m.Bounded ptrSize) (addr : Word) :
    ((Memory.free addr).run m : Except (Halt Fault) Unit × Memory).2.Bounded ptrSize := by
  rw [run_free]
  split
  · exact h
  · split
    · exact h
    · split
      · exact h
      · exact h.release addr

theorem realloc (h : m.Bounded ptrSize) (addr : Word) (size : Int) :
    ((Memory.realloc addr size).run m : Except (Halt Fault) Word × Memory).2.Bounded ptrSize := by
  have halloc := h.alloc size
  rw [run_realloc]
  split
  · exact halloc
  · split
    · exact h
    · split
      · exact h
      · rcases hr : ((Memory.alloc size).run m : Except (Halt Fault) Word × Memory) with ⟨e | p, m'⟩ <;>
          rw [hr] at halloc
        · exact halloc
        · obtain ⟨h0, hsize, -, -, rfl⟩ := alloc_ok hr
          refine (halloc.put p fun b hb => ?_).release addr
          obtain rfl := Option.some.inj hb
          show size.toNat < twoTo m.offsetBits
          omega

theorem copy (h : m.Bounded ptrSize) (dst src : Word) (n : Int) :
    ((Memory.copy dst src n).run m : Except (Halt Fault) Unit × Memory).2.Bounded ptrSize := by
  rw [run_copy]
  split
  · exact h
  · split
    · exact h
    · exact h.write dst _

theorem fill (h : m.Bounded ptrSize) (addr : Word) (b : UInt8) (n : Int) :
    ((Memory.fill addr b n).run m : Except (Halt Fault) Unit × Memory).2.Bounded ptrSize := by
  by_cases hn : 0 ≤ n
  · obtain ⟨k, rfl⟩ := Int.eq_ofNat_of_zero_le hn
    have hfill : ((Memory.fill addr b (k : Int)).run m : Except (Halt Fault) Unit × Memory) = _ :=
      m.run_fill addr b k
    rw [hfill]
    split
    · exact h
    · exact h.write addr _
  · unfold Memory.fill
    rw [if_neg (by omega), if_pos (by omega)]
    exact h

theorem writeString (h : m.Bounded ptrSize) (s : List UInt8) :
    ((Memory.writeString s).run m : Except (Halt Fault) Word × Memory).2.Bounded ptrSize := by
  have halloc := h.alloc (s.length + 1)
  rw [run_writeString]
  rcases hr : ((Memory.alloc (s.length + 1)).run m : Except (Halt Fault) Word × Memory) with
    ⟨e | p, m'⟩ <;> rw [hr] at halloc
  · exact halloc
  · have hwrite := Bounded.write halloc p (s ++ [0])
    dsimp only at hwrite ⊢
    split
    · next hw => rwa [hw] at hwrite
    · next hw => rwa [hw] at hwrite

theorem after (h : m.Bounded ptrSize) (a : Action) : (a.after m).Bounded ptrSize := by
  cases a with
  | alloc size => exact h.alloc size
  | free addr => exact h.free addr
  | realloc addr size => exact h.realloc addr size
  | write addr data => exact h.write addr data
  | copy dst src n => exact h.copy dst src n
  | fill addr b n => exact h.fill addr b n
  | writeString s => exact h.writeString s

end Bounded

theorem Reached.bounded (h : m.Reached ptrSize) : m.Bounded ptrSize := by
  induction h with
  | start => exact .start ptrSize
  | after _ a ih => exact ih.after a

/-! ## Ranges -/

/-- The `n` bytes from the address on lie in the live block. -/
structure Holding (m : Memory) (addr : Word) (n : Int) (b : Block) : Prop where
  live : m.Live addr b
  nonneg : 0 ≤ n
  fits : m.offsetOf addr + n ≤ b.size

/-- The bytes of the block from the address on, at most `n` of them. -/
def part (m : Memory) (addr : Word) (n : Int) (b : Block) : List UInt8 :=
  (b.bytes.drop (m.offsetOf addr)).take n.toNat

def IsLength (n : Int) : Prop := -0x8000000000000000 ≤ n ∧ n < 0x8000000000000000

/-- The end of a range that starts in a live block passes the largest 64-bit number. -/
def Overruns (m : Memory) (addr : Word) (n : Int) : Prop :=
  (∃ b, m.Live addr b) ∧ 0x8000000000000000 ≤ m.offsetOf addr + n

theorem Live.unique {addr : Word} {b c : Block} (h : m.Live addr b) (h' : m.Live addr c) : b = c := by
  have heq := live_iff.mpr h
  rw [live_iff.mpr h'] at heq
  exact (Except.ok.inj heq).symm

namespace Bounded

variable (h : m.Bounded ptrSize)
include h

theorem offset_le (addr : Word) : (m.offsetOf addr : Int) < 0x100000000 := by
  have := offset_lt addr m
  have := h.twoTo_le
  omega

theorem run_read_live {addr : Word} {b : Block} (hb : m.Live addr b) {n : Int} (hn : IsLength n) :
    ((read addr n).run m : Except (Halt Fault) (List UInt8) × Memory) =
      if 0x8000000000000000 ≤ m.offsetOf addr + n then (.error .crashed, m)
      else if 0 ≤ n ∧ m.offsetOf addr + n ≤ b.size then (.ok (m.part addr n b), m)
      else (.error (.failed (.readBounds n addr)), m) := by
  have hoff := h.offset_le addr
  have hsize := h.resolve_lt (live_iff.mpr hb)
  have hbits := h.twoTo_le
  obtain ⟨hlo, hhi⟩ := hn
  rw [run_read, live_iff.mpr hb]
  dsimp only
  by_cases hwrap : 0x8000000000000000 ≤ m.offsetOf addr + n
  · have hw : wrap64 (m.offsetOf addr + n) = m.offsetOf addr + n - 0x10000000000000000 := by
      unfold wrap64
      rw [← Int.sub_bmod_right, Int.bmod_eq_of_le] <;> omega
    rw [hw, if_pos hwrap, if_neg (by omega), if_pos (by omega)]
  · have hw : wrap64 (m.offsetOf addr + n) = m.offsetOf addr + n :=
      wrap64_of_mem (by omega) (by omega)
    rw [hw, if_neg hwrap]
    by_cases hfits : 0 ≤ n ∧ m.offsetOf addr + n ≤ b.size
    · rw [if_pos hfits, if_neg (by omega), if_neg (by omega), b.window_eq (by omega)]
      rfl
    · rw [if_neg hfits, if_pos (by omega)]

theorem read_ok_iff (addr : Word) {n : Int} (hn : IsLength n) {data : List UInt8} {m' : Memory} :
    ((read addr n).run m : Except (Halt Fault) (List UInt8) × Memory) = (.ok data, m') ↔
      m' = m ∧ ∃ b, m.Holding addr n b ∧ data = m.part addr n b := by
  constructor
  · intro hr
    cases hb : m.resolve addr with
    | error f =>
      rw [run_read, hb] at hr
      cases hr
    | ok b =>
      have hlive := live_iff.mp hb
      rw [h.run_read_live hlive hn] at hr
      split at hr
      · cases hr
      · split at hr
        · next hfits =>
          injection hr with hdata hm
          exact ⟨hm.symm, b, ⟨hlive, hfits.1, hfits.2⟩, (Except.ok.inj hdata).symm⟩
        · cases hr
  · rintro ⟨rfl, b, hb, rfl⟩
    have hsize := h.resolve_lt (live_iff.mpr hb.live)
    have hbits := h.twoTo_le
    have hfits := hb.fits
    rw [h.run_read_live hb.live hn, if_neg (by omega), if_pos ⟨hb.nonneg, hb.fits⟩]

theorem read_error (addr : Word) {n : Int} (hn : IsLength n) {e : Halt Fault} {m' : Memory}
    (hr : ((read addr n).run m : Except (Halt Fault) (List UInt8) × Memory) = (.error e, m')) :
    m' = m ∧ ((∃ f, e = .failed f) ∨ e = .crashed ∧ m.Overruns addr n) := by
  cases hb : m.resolve addr with
  | error f =>
    rw [run_read, hb] at hr
    injection hr with he hm
    exact ⟨hm.symm, .inl ⟨f, (Except.error.inj he).symm⟩⟩
  | ok b =>
    have hlive := live_iff.mp hb
    rw [h.run_read_live hlive hn] at hr
    split at hr
    · next hover =>
      injection hr with he hm
      exact ⟨hm.symm, .inr ⟨(Except.error.inj he).symm, ⟨b, hlive⟩, hover⟩⟩
    · split at hr
      · cases hr
      · injection hr with he hm
        exact ⟨hm.symm, .inl ⟨_, (Except.error.inj he).symm⟩⟩

omit h in
theorem run_write_live {addr : Word} {c : Block} (hc : m.Live addr c) (data : List UInt8) :
    ((Memory.write addr data).run m : Except (Halt Fault) Unit × Memory) =
      if c.size < m.offsetOf addr + data.length then
        (.error (.failed (.writeBounds data.length addr)), m)
      else (.ok (), m.putBlock addr (some (c.write (m.offsetOf addr) data))) := by
  rw [run_write, live_iff.mpr hc]

end Bounded

theorem length_part {addr : Word} {n : Int} {b : Block} (h : m.Holding addr n b) :
    (m.part addr n b).length = n.toNat := by
  have hfits := h.fits
  have hnonneg := h.nonneg
  unfold part
  rw [List.length_take, List.length_drop, Block.length_bytes]
  omega

/-! ## Copies -/

/-- Data was put over the bytes at an address, and every other block is what it was. -/
structure Overwritten (m : Memory) (addr : Word) (data : List UInt8) (m' : Memory) : Prop where
  bytes : ∃ c c', m.Live addr c ∧ m'.Live addr c' ∧
    c'.bytes = Heap.overwrite c.bytes (m.offsetOf addr) data
  others : ∀ a, m.handleOf a ≠ m.handleOf addr → m'.resolve a = m.resolve a

theorem overwritten_write {addr : Word} {c : Block} (hc : m.Live addr c) {data : List UInt8}
    (hfits : m.offsetOf addr + data.length ≤ c.size) :
    m.Overwritten addr data (m.putBlock addr (some (c.write (m.offsetOf addr) data))) where
  bytes := by
    obtain ⟨hne, i, hi, hb⟩ := hc
    refine ⟨c, _, ⟨hne, i, hi, hb⟩, ⟨hne, i, hi, ?_⟩, c.bytes_write hfits⟩
    have hlt := lt_of_getElem? hb
    unfold putBlock
    rw [hi, Nat.add_sub_cancel, Array.getElem?_setIfInBounds, if_pos rfl, if_pos hlt]
  others a ha := by
    obtain ⟨-, i, hi, -⟩ := hc
    rcases hk : m.handleOf a with _ | k
    · have hk' : (m.putBlock addr (some (c.write (m.offsetOf addr) data))).handleOf a = 0 := hk
      unfold resolve
      rw [hk, hk']
      rfl
    · have hk' : (m.putBlock addr (some (c.write (m.offsetOf addr) data))).handleOf a = k + 1 := hk
      have hik : i ≠ k := fun h => ha (by rw [hk, hi, h])
      rw [Shows.resolve_eq hk, Shows.resolve_eq hk']
      unfold putBlock
      dsimp only
      rw [hi, Nat.add_sub_cancel, Array.getElem?_setIfInBounds, if_neg hik]

namespace Bounded

variable (h : m.Bounded ptrSize)
include h

theorem run_copy_held {dst src : Word} {n : Int} (hn : IsLength n) (h0 : n ≠ 0) {b : Block}
    (hb : m.Holding src n b) :
    ((Memory.copy dst src n).run m : Except (Halt Fault) Unit × Memory) =
      (Memory.write dst (m.part src n b)).run m := by
  have hread := (h.read_ok_iff src hn).mpr ⟨rfl, b, hb, rfl⟩
  rw [run_copy, if_neg h0, hread]

theorem run_copy_not_held (dst : Word) {src : Word} {n : Int} (hn : IsLength n) (h0 : n ≠ 0)
    (hno : ¬ ∃ b, m.Holding src n b) :
    ∃ e, ((read src n).run m : Except (Halt Fault) (List UInt8) × Memory) = (.error e, m) ∧
      ((Memory.copy dst src n).run m : Except (Halt Fault) Unit × Memory) = (.error e, m) := by
  rcases hr : ((read src n).run m : Except (Halt Fault) (List UInt8) × Memory) with ⟨e | data, m'⟩
  · obtain ⟨rfl, -⟩ := h.read_error src hn hr
    exact ⟨e, rfl, by rw [run_copy, if_neg h0, hr]⟩
  · obtain ⟨-, b, hb, -⟩ := (h.read_ok_iff src hn).mp hr
    exact absurd ⟨b, hb⟩ hno

theorem copy_ok_iff (dst src : Word) {n : Int} (hn : IsLength n) (h0 : n ≠ 0) :
    (∃ m', ((Memory.copy dst src n).run m : Except (Halt Fault) Unit × Memory) = (.ok (), m')) ↔
      (∃ b, m.Holding src n b) ∧ ∃ c, m.Holding dst n c := by
  constructor
  · rintro ⟨m', hr⟩
    by_cases hsrc : ∃ b, m.Holding src n b
    · obtain ⟨b, hb⟩ := hsrc
      rw [h.run_copy_held hn h0 hb] at hr
      cases hc : m.resolve dst with
      | error f =>
        rw [run_write, hc] at hr
        cases hr
      | ok c =>
        have hlive := live_iff.mp hc
        have hnonneg := hb.nonneg
        rw [run_write_live hlive] at hr
        split at hr
        · cases hr
        · next hfits =>
          rw [length_part hb] at hfits
          exact ⟨⟨b, hb⟩, c, hlive, hb.nonneg, by omega⟩
    · obtain ⟨e, -, he⟩ := h.run_copy_not_held dst hn h0 hsrc
      rw [he] at hr
      cases hr
  · rintro ⟨⟨b, hb⟩, c, hc⟩
    have hfits := hc.fits
    have hnonneg := hb.nonneg
    rw [h.run_copy_held hn h0 hb, run_write_live hc.live, length_part hb, if_neg (by omega)]
    exact ⟨_, rfl⟩

theorem copy_overwrites {dst src : Word} {n : Int} (hn : IsLength n) (h0 : n ≠ 0) {m' : Memory}
    (hr : ((Memory.copy dst src n).run m : Except (Halt Fault) Unit × Memory) = (.ok (), m'))
    {b : Block} (hb : m.Holding src n b) : m.Overwritten dst (m.part src n b) m' := by
  obtain ⟨-, c, hc⟩ := (h.copy_ok_iff dst src hn h0).mp ⟨m', hr⟩
  have hfits : m.offsetOf dst + (m.part src n b).length ≤ c.size := by
    have := hc.fits
    have := hc.nonneg
    rw [length_part hb]
    omega
  rw [h.run_copy_held hn h0 hb, run_write_live hc.live, if_neg (by omega)] at hr
  obtain rfl := (Prod.mk.inj hr).2
  exact overwritten_write hc.live hfits

theorem copy_error {dst src : Word} {n : Int} (hn : IsLength n) (h0 : n ≠ 0) {e : Halt Fault}
    {m' : Memory}
    (hr : ((Memory.copy dst src n).run m : Except (Halt Fault) Unit × Memory) = (.error e, m')) :
    m' = m ∧ ((∃ f, e = .failed f) ∨ e = .crashed ∧ m.Overruns src n) := by
  by_cases hsrc : ∃ b, m.Holding src n b
  · obtain ⟨b, hb⟩ := hsrc
    rw [h.run_copy_held hn h0 hb, run_write] at hr
    split at hr
    · next f _ =>
      injection hr with he hm
      exact ⟨hm.symm, .inl ⟨f, (Except.error.inj he).symm⟩⟩
    · split at hr
      · injection hr with he hm
        exact ⟨hm.symm, .inl ⟨_, (Except.error.inj he).symm⟩⟩
      · cases hr
  · obtain ⟨e', hread, hcopy⟩ := h.run_copy_not_held dst hn h0 hsrc
    rw [hcopy] at hr
    injection hr with he hm
    obtain rfl := Except.error.inj he
    exact ⟨hm.symm, (h.read_error src hn hread).2⟩

end Bounded

/-- Reading gives bytes exactly for the ranges that lie in a live block, and exactly
theirs; copying goes through exactly between two of them and puts the bytes of the one
over the other. Everything else is refused with the code of bad accesses and changes
nothing, unless the end of the range to be read passes the largest 64-bit number: that
one crashes. -/
theorem Reached.checks_bounds (hm : m.Reached ptrSize) (addr dst : Word) {n : Int}
    (hn : IsLength n) :
    (∀ data m', ((read addr n).run m : Except (Halt Fault) (List UInt8) × Memory) = (.ok data, m') ↔
      m' = m ∧ ∃ b, m.Holding addr n b ∧ data = m.part addr n b) ∧
    (∀ e m', ((read addr n).run m : Except (Halt Fault) (List UInt8) × Memory) = (.error e, m') →
      m' = m ∧ ((∃ f, e = .failed f ∧ (Cause.memory f).code = 2002) ∨
        e = .crashed ∧ m.Overruns addr n)) ∧
    (n ≠ 0 →
      ((∃ m', ((copy dst addr n).run m : Except (Halt Fault) Unit × Memory) = (.ok (), m')) ↔
        (∃ b, m.Holding addr n b) ∧ ∃ c, m.Holding dst n c) ∧
      (∀ m' b, ((copy dst addr n).run m : Except (Halt Fault) Unit × Memory) = (.ok (), m') →
        m.Holding addr n b → m.Overwritten dst (m.part addr n b) m') ∧
      ∀ e m', ((copy dst addr n).run m : Except (Halt Fault) Unit × Memory) = (.error e, m') →
        m' = m ∧ ((∃ f, e = .failed f ∧ (Cause.memory f).code = 2002) ∨
          e = .crashed ∧ m.Overruns addr n)) := by
  have hbounded := hm.bounded
  have hcode : ∀ {e : Halt Fault}, ((∃ f, e = .failed f) ∨ e = .crashed ∧ m.Overruns addr n) →
      (∃ f, e = .failed f ∧ (Cause.memory f).code = 2002) ∨ e = .crashed ∧ m.Overruns addr n :=
    fun h => h.imp_left fun hf => ⟨hf.choose, hf.choose_spec, rfl⟩
  refine ⟨fun data m' => hbounded.read_ok_iff addr hn, fun e m' hr => ?_, fun h0 =>
    ⟨hbounded.copy_ok_iff dst addr hn h0, fun m' b hr hb => hbounded.copy_overwrites hn h0 hr hb,
      fun e m' hr => ?_⟩⟩
  · exact (hbounded.read_error addr hn hr).imp_right hcode
  · exact (hbounded.copy_error hn h0 hr).imp_right hcode

def eightBytes : Memory := (Action.alloc 8).after (.forPointers 8)

/-- Four bytes inside the block are read; four from the middle to the end are copied, and
five are not read. -/
theorem eight_bytes_checked :
    eightBytes.Reached 8 ∧
      ((read 0x100000002 4).run eightBytes : Except (Halt Fault) (List UInt8) × Memory) =
        (.ok [0, 0, 0, 0], eightBytes) ∧
      (∃ m', ((copy 0x100000004 0x100000002 4).run eightBytes : Except (Halt Fault) Unit × Memory) =
        (.ok (), m')) ∧
      ∀ data m', ((read 0x100000004 5).run eightBytes : Except (Halt Fault) (List UInt8) × Memory) ≠
        (.ok data, m') := by
  have hm : eightBytes.Reached 8 := .after .start _
  have hlive : ∀ addr : Word, addr ≠ 0 → eightBytes.handleOf addr = 1 →
      eightBytes.Live addr { size := 8 } := fun addr h0 h1 => ⟨h0, 0, h1, rfl⟩
  have hfour := hm.checks_bounds 0x100000002 0x100000004 (n := 4) ⟨by decide, by decide⟩
  have hfive := hm.checks_bounds 0x100000004 0 (n := 5) ⟨by decide, by decide⟩
  have hheld : eightBytes.Holding 0x100000002 4 { size := 8 } :=
    ⟨hlive _ (by decide) (by decide), by decide, by decide⟩
  refine ⟨hm, (hfour.1 _ _).mpr ⟨rfl, _, hheld, by decide⟩, ?_, fun data m' hr => ?_⟩
  · exact (hfour.2.2 (by decide)).1.mpr
      ⟨⟨_, hheld⟩, _, hlive _ (by decide) (by decide), by decide, by decide⟩
  · obtain ⟨-, b, hb, -⟩ := (hfive.1 _ _).mp hr
    obtain rfl := hb.live.unique (hlive _ (by decide) (by decide))
    exact absurd hb.fits (by decide)

/-- A range that starts inside the block and is as long as lengths can be is neither read
nor refused. -/
theorem wrapped_range_crashes :
    eightBytes.Reached 8 ∧ IsLength 0x7FFFFFFFFFFFFFFF ∧
      (¬ ∃ b, eightBytes.Holding 0x100000001 0x7FFFFFFFFFFFFFFF b) ∧
      ((read 0x100000001 0x7FFFFFFFFFFFFFFF).run eightBytes :
        Except (Halt Fault) (List UInt8) × Memory) = (.error .crashed, eightBytes) := by
  have hlive : eightBytes.Live 0x100000001 { size := 8 } := ⟨by decide, 0, by decide, rfl⟩
  have hm : eightBytes.Reached 8 := .after .start _
  have hn : IsLength 0x7FFFFFFFFFFFFFFF := ⟨by decide, by decide⟩
  refine ⟨hm, hn, ?_, by rw [hm.bounded.run_read_live hlive hn, if_pos (by decide)]⟩
  rintro ⟨b, hb⟩
  obtain rfl := hb.live.unique hlive
  exact absurd hb.fits (by decide)

end Memory

end TypedIR
