import TypedIR.Proofs.Soundness

/-
  What the values of a frame are.

  A scalar is in its register or, as bytes, in its slot; `Frame.cell` is the word
  it stands for either way. Reading a scalar gives its cell. Writing a canonical
  scalar sets its cell and leaves every other cell alone, those of waiting frames
  included: the slots of a frame lie apart, and so do the blocks of two frames.
-/

namespace TypedIR

/-! ## Scalars in memory -/

theorem length_littleEndian (n : Nat) (w : Word) : (littleEndian n w).length = n := by
  induction n generalizing w with
  | zero => rfl
  | succ n ih => exact congrArg (· + 1) (ih _)

theorem toNat_ofLittleEndian_littleEndian {n : Nat} (hn : n ≤ 8) (w : Word) :
    (ofLittleEndian (littleEndian n w)).toNat = w.toNat % 2 ^ (8 * n) := by
  induction n generalizing w with
  | zero => simp [littleEndian, ofLittleEndian, Nat.mod_one]
  | succ n ih =>
    have hrest := ih (Nat.le_of_succ_le hn) (w >>> 8)
    have hlow : w.toUInt8.toUInt64.toNat = w.toNat % 256 := by simp
    have hshift : (w >>> 8).toNat = w.toNat / 256 := by
      rw [UInt64.toNat_shiftRight, Nat.shiftRight_eq_div_pow]
      rfl
    rw [hshift] at hrest
    rw [littleEndian, ofLittleEndian, UInt64.toNat_or, UInt64.toNat_shiftLeft, hlow]
    have hbound : (ofLittleEndian (littleEndian n (w >>> 8))).toNat < 2 ^ 56 := by
      rw [hrest]
      refine Nat.lt_of_lt_of_le (Nat.mod_lt _ (Nat.two_pow_pos _)) ?_
      exact Nat.pow_le_pow_right (by decide) (by omega)
    generalize (ofLittleEndian (littleEndian n (w >>> 8))).toNat = x at hrest hbound
    have hx : x <<< ((8 : UInt64).toNat % 64) % 2 ^ 64 = 2 ^ 8 * x := by
      rw [show (8 : UInt64).toNat % 64 = 8 from rfl, Nat.shiftLeft_eq]
      omega
    have hsplit : w.toNat % 2 ^ (8 * (n + 1)) = w.toNat % 256 + 256 * x := by
      rw [hrest, show 8 * (n + 1) = 8 + 8 * n by omega, Nat.pow_add, Nat.mod_mul]
    rw [hx, Nat.or_comm, ← Nat.two_pow_add_eq_or_of_lt (Nat.mod_lt _ (by decide)), hsplit]
    omega

namespace Word

theorem and_lowMask_congr {x w : Word} {n : Nat} (h0 : 0 < n) (hn : n < 64)
    (h : x.toNat % 2 ^ n = w.toNat % 2 ^ n) : x &&& lowMask n = w &&& lowMask n := by
  have hlt : 2 ^ n < 2 ^ 64 := Nat.pow_lt_pow_right (by decide) hn
  have hmask : (lowMask n).toNat = 2 ^ n - 1 := by
    unfold lowMask
    rw [if_neg (by omega), UInt64.toNat_ofNat']
    show (2 ^ n - 1) % 2 ^ 64 = _
    exact Nat.mod_eq_of_lt (by omega)
  apply UInt64.toNat_inj.mp
  rw [UInt64.toNat_and, UInt64.toNat_and, hmask, Nat.and_two_pow_sub_one_eq_mod,
    Nat.and_two_pow_sub_one_eq_mod, h]

theorem signExtend_congr {x w : Word} {n : Nat} (h0 : 0 < n) (hn : n < 64)
    (h : x.toNat % 2 ^ n = w.toNat % 2 ^ n) : x.signExtend n = w.signExtend n := by
  have hin : ¬((n : Int) ≤ 0 ∨ 64 ≤ (n : Int)) := by omega
  unfold signExtend
  rw [if_neg hin, if_neg hin, and_lowMask_congr h0 hn h]

end Word

namespace Rep

theorem decode_encode {r : Rep} (hv : r.Valid) (hs : r.isScalar = true) {w : Word}
    (hc : r.Canonical w) : r.decode (r.encode w) = w := by
  obtain ⟨cls, size⟩ := r
  have hlow := fun {n : Nat} (hn : n ≤ 8) => toNat_ofLittleEndian_littleEndian hn w
  have hwhole : ofLittleEndian (littleEndian 8 w) = w := by
    apply UInt64.toNat_inj.mp
    rw [hlow (Nat.le_refl 8)]
    exact Nat.mod_eq_of_lt w.toNat_lt
  have hpart : ∀ {n : Nat}, n ≤ 8 →
      (ofLittleEndian (littleEndian n w)).toNat % 2 ^ (8 * n) = w.toNat % 2 ^ (8 * n) := by
    intro n hn
    rw [hlow hn, Nat.mod_mod]
  unfold Canonical at hc
  unfold decode encode
  refine Eq.trans ?_ hc
  by_cases h8 : size = 8
  · subst h8
    exact congrArg _ hwhole
  · have h1 := @hpart 1 (by decide)
    have h2 := @hpart 2 (by decide)
    have h4 := @hpart 4 (by decide)
    cases cls with
    | void | struct => cases hs
    | other => exact hv.elim
    | int =>
      rcases hv with rfl | rfl | rfl | rfl
      · exact Word.signExtend_congr (n := 8) (by decide) (by decide) h1
      · exact Word.signExtend_congr (n := 16) (by decide) (by decide) h2
      · exact Word.signExtend_congr (n := 32) (by decide) (by decide) h4
      · exact absurd rfl h8
    | uint =>
      rcases hv with rfl | rfl | rfl | rfl
      · exact Word.and_lowMask_congr (n := 8) (by decide) (by decide) h1
      · exact Word.and_lowMask_congr (n := 16) (by decide) (by decide) h2
      · exact Word.and_lowMask_congr (n := 32) (by decide) (by decide) h4
      · exact absurd rfl h8
    | float | pointer =>
      rcases hv with rfl | rfl
      · exact Word.and_lowMask_congr (n := 32) (by decide) (by decide) h4
      · exact absurd rfl h8

end Rep

/-! ## Blocks -/

namespace Memory

/-- A live block that starts at an address and is within its reach. -/
structure Holds (mem : Memory) (base : Word) (b : Block) : Prop where
  handle : 0 < mem.handleOf base
  start : mem.offsetOf base = 0
  block : mem.blocks[mem.handleOf base - 1]? = some (some b)
  small : b.size ≤ twoTo mem.offsetBits
  low : base.toNat + b.size ≤ 0x10000000000000000

variable {mem : Memory} {base : Word} {b : Block}

theorem Holds.address (h : mem.Holds base b) {k : Nat} (hk : k < b.size) :
    (base + UInt64.ofNat k).toNat = base.toNat + k := by
  have := h.low
  rw [UInt64.toNat_add, UInt64.toNat_ofNat']
  omega

theorem Holds.resolve (h : mem.Holds base b) {k : Nat} (hk : k < b.size) :
    mem.handleOf (base + UInt64.ofNat k) = mem.handleOf base ∧
    mem.offsetOf (base + UInt64.ofNat k) = k ∧
    mem.resolve (base + UInt64.ofNat k) = .ok b := by
  have hpos : 0 < twoTo mem.offsetBits := Nat.two_pow_pos _
  have hlt : k < twoTo mem.offsetBits := Nat.lt_of_lt_of_le hk h.small
  have hstart := h.start
  have hhandle := h.handle
  have haddr := h.address hk
  unfold offsetOf at hstart
  unfold handleOf at hhandle
  have hsplit : base.toNat = twoTo mem.offsetBits * (base.toNat / twoTo mem.offsetBits) := by
    have := Nat.div_add_mod base.toNat (twoTo mem.offsetBits)
    omega
  have hh : mem.handleOf (base + UInt64.ofNat k) = mem.handleOf base := by
    unfold handleOf
    rw [haddr]
    generalize base.toNat / twoTo mem.offsetBits = q at hsplit
    rw [hsplit, Nat.mul_add_div hpos, Nat.div_eq_of_lt hlt, Nat.add_zero]
  have ho : mem.offsetOf (base + UInt64.ofNat k) = k := by
    unfold offsetOf
    rw [haddr]
    generalize base.toNat / twoTo mem.offsetBits = q at hsplit
    rw [hsplit, Nat.mul_add_mod, Nat.mod_eq_of_lt hlt]
  refine ⟨hh, ho, ?_⟩
  have hne : base + UInt64.ofNat k ≠ 0 := by
    intro h0
    have hbase : base.toNat + k = 0 := by rw [← haddr, h0]; rfl
    have := Nat.div_eq_of_lt (a := base.toNat) (b := twoTo mem.offsetBits) (by omega)
    omega
  unfold Memory.resolve
  rw [if_neg hne, hh]
  dsimp only
  rw [if_neg (Nat.ne_of_gt h.handle), h.block]

theorem Holds.unique {b' : Block} (h : mem.Holds base b) (h' : mem.Holds base b') : b' = b := by
  have hb := h'.block.symm.trans h.block
  simpa using hb

theorem Holds.put (h : mem.Holds base b) {addr : Word}
    (ha : mem.handleOf addr = mem.handleOf base) {b' : Block} (hs : b'.size = b.size) :
    (mem.putBlock addr (some b')).Holds base b' := by
  refine ⟨h.handle, h.start, ?_, hs ▸ h.small, hs ▸ h.low⟩
  have hlt := lt_of_getElem? h.block
  show (mem.blocks.setIfInBounds (mem.handleOf addr - 1) (some b'))[mem.handleOf base - 1]? = _
  rw [ha, Array.getElem?_setIfInBounds, if_pos rfl, if_pos hlt]

theorem Holds.put_other (h : mem.Holds base b) {addr : Word} (h0 : 0 < mem.handleOf addr)
    (ha : mem.handleOf addr ≠ mem.handleOf base) (x : Option Block) (n : Int) :
    Holds { mem.putBlock addr x with live := n } base b := by
  refine ⟨h.handle, h.start, ?_, h.small, h.low⟩
  have := h.handle
  show (mem.blocks.setIfInBounds (mem.handleOf addr - 1) x)[mem.handleOf base - 1]? = _
  rw [Array.getElem?_setIfInBounds, if_neg (by omega)]
  exact h.block

theorem holds_alloc {ptrSize : Int} (hs : mem.Serves ptrSize) {size : Int} {mem' : Memory}
    (h : ((alloc size).run mem : Except (Halt Fault) Word × Memory) = (.ok base, mem')) :
    mem'.Holds base { size := size.toNat } ∧ mem'.offsetBits = mem.offsetBits ∧ 0 ≤ size ∧
    ∀ {base' b'}, mem.Holds base' b' →
      mem'.Holds base' b' ∧ mem'.handleOf base ≠ mem'.handleOf base' := by
  rw [run_alloc] at h
  split at h
  · cases h
  · next hrange =>
    split at h
    · cases h
    · next hlast =>
      obtain ⟨rfl, rfl⟩ := Prod.mk.inj h |>.imp Except.ok.inj id
      have h0 : 0 ≤ size := by omega
      have hfree : mem.blocks.size + 1 ≤ mem.lastHandle := by omega
      obtain ⟨haddr, hreach, -, -⟩ := address_alloc hs h0 (by omega) hfree
      have hpos : 0 < twoTo mem.offsetBits := Nat.two_pow_pos _
      have hhandle : mem.handleOf (mem.address (mem.blocks.size + 1)) = mem.blocks.size + 1 := by
        unfold handleOf
        rw [haddr, Nat.mul_div_cancel _ hpos]
      have hreach' : reach ptrSize ≤ 0x10000000000000000 := by
        unfold reach
        split <;> omega
      refine ⟨⟨?_, ?_, ?_, ?_, ?_⟩, rfl, h0, fun {base' b'} hb => ?_⟩
      · exact Nat.lt_of_lt_of_eq (Nat.succ_pos _) hhandle.symm
      · show mem.offsetOf _ = 0
        unfold offsetOf
        rw [haddr, Nat.mul_mod_left]
      · show (mem.blocks.push _)[mem.handleOf _ - 1]? = _
        rw [hhandle]
        simp
      · show size.toNat ≤ twoTo mem.offsetBits
        omega
      · show (mem.address _).toNat + size.toNat ≤ _
        omega
      · have hlt := lt_of_getElem? hb.block
        have := hb.handle
        refine ⟨⟨hb.handle, hb.start, ?_, hb.small, hb.low⟩, ?_⟩
        · show (mem.blocks.push _)[mem.handleOf base' - 1]? = _
          rw [Array.getElem?_push_lt hlt, ← Array.getElem?_eq_getElem hlt]
          exact hb.block
        · show mem.handleOf _ ≠ mem.handleOf base'
          rw [hhandle]
          omega

end Memory

namespace Block

theorem window_write_same (b : Block) (off : Nat) (data : List UInt8) :
    (b.write off data).window off data.length = data := by
  unfold window write
  apply List.ext_getElem
  · simp
  · intro i hi hi'
    simp [byte_putBytes, hi']

theorem window_write_apart (b : Block) {off n : Nat} {off' : Nat} {data : List UInt8}
    (h : off + n ≤ off' ∨ off' + data.length ≤ off) :
    (b.write off' data).window off n = b.window off n := by
  unfold window write
  refine List.map_congr_left fun i hi => ?_
  have := List.mem_range.mp hi
  rw [byte_putBytes]
  split
  · rw [List.getD_eq_getElem?_getD, List.getElem?_eq_none (by omega)]
    rfl
  · rfl

end Block

/-! ## Slots -/

def Target.Aligned (target : Target) : Prop := target.ptrAlign < 0x8000000000000000
  deriving Decidable

theorem Target.Usual.alignBound_lt {target : Target} (hu : target.Usual) (ha : target.Aligned) :
    Layout.alignBound target < 0x8000000000000000 := by
  unfold Aligned at ha
  unfold Layout.alignBound Layout.pointerLayout
  rcases hu with h | h <;> rw [h] <;> dsimp only <;> split <;> omega

theorem Func.Ready.apart {sc : Scope} {f : Func} (h : f.Ready False sc) (hfits : f.FrameFits)
    (ha : Layout.alignBound sc.target < 0x8000000000000000) {u v : ValueId} {i j : ValueInfo}
    (hu : f.value? u = some i) (hv : f.value? v = some j) (huv : u ≠ v) {s s' : Int}
    (hs : i.slot = some s) (hs' : j.slot = some s') :
    s + max i.rep.size 1 ≤ s' ∨ s' + max j.rep.size 1 ≤ s := by
  have hbound : ∀ id a, Layout.AlignOf sc.target sc.types False id a → a < 0x8000000000000000 :=
    fun id a hid => Int.lt_of_le_of_lt hid.bound.2 ha
  obtain ⟨-, hpairs⟩ := h.frame.apart (Int.le_refl 0) (by decide) hbound hfits
  have hget : ∀ {w : Nat} {info}, f.value? w = some info →
      0 < w ∧ (f.values.toList.drop 1)[w - 1]? = some info := by
    intro w info hw
    obtain ⟨hpos, hget, -⟩ := value?_lt hw
    rw [List.getElem?_drop, Nat.add_sub_cancel' hpos]
    exact ⟨hpos, by simpa using hget⟩
  obtain ⟨hu0, hu⟩ := hget hu
  obtain ⟨hv0, hv⟩ := hget hv
  obtain ⟨hul, rfl⟩ := List.getElem?_eq_some_iff.mp hu
  obtain ⟨hvl, rfl⟩ := List.getElem?_eq_some_iff.mp hv
  rw [List.pairwise_iff_getElem] at hpairs
  rcases Nat.lt_or_gt_of_ne huv with hlt | hlt
  · exact .inl (hpairs (u - 1) (v - 1) hul hvl (by omega) s hs s' hs')
  · exact .inr (hpairs (v - 1) (u - 1) hvl hul (by omega) s' hs' s hs)

/-! ## Cells -/

def Memory.block? (mem : Memory) (base : Word) : Option Block :=
  (mem.blocks[mem.handleOf base - 1]?).join

theorem Memory.Holds.block?_eq {mem : Memory} {base : Word} {b : Block} (h : mem.Holds base b) :
    mem.block? base = some b := by
  rw [block?, h.block]
  rfl

def Frame.cell (mem : Memory) (fr : Frame) (v : ValueId) : Word :=
  match fr.func.value? v with
  | none => 0
  | some info =>
    match info.slot with
    | none => fr.regs.getD v 0
    | some slot =>
      match mem.block? fr.base with
      | none => 0
      | some b => info.rep.decode (b.window slot.toNat info.rep.size.toNat)

/-- The block of a frame is there and holds all of it; nothing else was
reserved. -/
structure Frame.Housed (mem : Memory) (fr : Frame) : Prop where
  allocas : fr.allocas = []
  none : fr.func.frameSize ≤ 0 → fr.base = 0
  block : 0 < fr.func.frameSize → ∃ b, mem.Holds fr.base b ∧ (b.size : Int) = fr.func.frameSize

def Frame.Apart (mem : Memory) (fr fr' : Frame) : Prop :=
  0 < fr.func.frameSize → 0 < fr'.func.frameSize → mem.handleOf fr.base ≠ mem.handleOf fr'.base

/-- Every frame has its block, and no two have the same. -/
structure Stack.Housed (mem : Memory) (frames : List Frame) : Prop where
  each : ∀ fr ∈ frames, fr.Housed mem
  apart : frames.Pairwise (Frame.Apart mem)


/-- What a run of `root` needs so that frames keep their values. -/
structure Engine.Keeps (e : Engine) (root : Func) : Prop extends e.Runs root where
  aligned : e.target.Aligned

namespace Machine

variable {e : Engine} {root : Func} {fr : Frame} {rest : List Frame} {m : Machine}

/-- A machine that runs `root` and is in the frame `fr`, with every frame in a
block of its own. -/
structure Housed (e : Engine) (root : Func) (fr : Frame) (rest : List Frame) (m : Machine) :
    Prop extends m.Sound e root where
  frames : m.frames = fr :: rest
  housed : Stack.Housed m.host.memory m.frames

theorem Housed.running (h : m.Housed e root fr rest) : m.Running e root fr.func :=
  ⟨h.toSound, fr, rest, h.frames, rfl⟩

theorem Housed.top (h : m.Housed e root fr rest) : fr.Sound e root ∧ fr.Housed m.host.memory := by
  have hs := h.stack
  rw [h.frames] at hs
  exact ⟨hs.top, h.housed.each fr (h.frames ▸ List.mem_cons_self)⟩

theorem Housed.slot (hk : e.Keeps root) (h : m.Housed e root fr rest) {v : ValueId}
    {info : ValueInfo} {slot : Int} (hv : fr.func.value? v = some info)
    (hslot : info.slot = some slot) :
    0 ≤ slot ∧ 0 ≤ info.rep.size ∧ ∃ b, m.host.memory.Holds fr.base b ∧
      slot + max info.rep.size 1 ≤ b.size ∧ b.size < 0x100000000 ∧
      StepM.slotAddress fr slot = fr.base + UInt64.ofNat slot.toNat := by
  obtain ⟨h0, hsize, hend⟩ := (h.running.typed hk.toRuns).2.2 info (Func.mem_values hv) slot hslot
  obtain ⟨b, hb, hbs⟩ := h.top.2.block (by omega)
  have hlt := (h.top.1.base (by omega)).2
  refine ⟨h0, hsize, b, hb, by omega, by omega, ?_⟩
  unfold StepM.slotAddress Word.ofInt
  rw [Int.emod_eq_of_lt h0 (by omega)]

end Machine

namespace StepM

variable {e : Engine} {root : Func} {fr : Frame} {rest : List Frame} {m : Machine}

theorem run_read_block {mem : Memory} {base : Word} {b : Block} (hb : mem.Holds base b)
    (hbig : b.size < 0x100000000) {off : Nat} {n : Int} (h0 : 0 ≤ n)
    (hend : off + max n 1 ≤ b.size) :
    ((Memory.read (base + UInt64.ofNat off) n).run mem :
      Except (Halt Fault) (List UInt8) × Memory) = (.ok (b.window off n.toNat), mem) := by
  obtain ⟨-, hoff, hres⟩ := hb.resolve (k := off) (by omega)
  have hwrap : wrap64 ((off : Int) + n) = off + n := by
    apply wrap64_of_mem <;> omega
  rw [Memory.run_read, hres]
  dsimp only
  rw [hoff, hwrap, if_neg (by omega), if_neg (by omega)]

theorem run_write_block {mem : Memory} {base : Word} {b : Block} (hb : mem.Holds base b)
    {off : Nat} {data : List UInt8} (hoff : off < b.size) (hend : off + data.length ≤ b.size) :
    ((Memory.write (base + UInt64.ofNat off) data).run mem :
      Except (Halt Fault) Unit × Memory) =
      (.ok (), mem.putBlock (base + UInt64.ofNat off) (some (b.write off data))) := by
  obtain ⟨-, hoff, hres⟩ := hb.resolve hoff
  rw [Memory.run_write, hres]
  dsimp only
  rw [hoff, if_neg (by omega)]

theorem run_read_value (hk : e.Keeps root) (h : m.Housed e root fr rest) {v : ValueId}
    {info : ValueInfo} (hv : fr.func.value? v = some info) (hns : info.rep.cls ≠ .struct) :
    ((read v).run m : Except (Halt Failure) Word × Machine) =
      (.ok (fr.cell m.host.memory v), m) := by
  obtain ⟨-, hget, hlt⟩ := Func.value?_lt hv
  unfold read
  rw [run_bind, run_frame h.frames]
  dsimp only
  rw [hget]
  dsimp only
  rw [(h.running.typed hk.toRuns).2.2.place?_eq hv]
  unfold Frame.cell
  rw [hv]
  dsimp only
  rcases hslot : info.slot with _ | slot
  · have hreg : v < fr.regs.size := h.top.1.regs ▸ hlt
    dsimp only
    rw [Array.getD_eq_getD_getElem?, Array.getElem?_eq_getElem hreg]
    rfl
  · obtain ⟨h0, hsize, b, hb, hend, hbig, haddr⟩ := h.slot hk hv hslot
    have hfits := (h.running.valid hk.toRuns hv).fitsRegister hns
    dsimp only
    unfold load
    rw [if_neg hns, run_bind, run_request, haddr, run_read_block hb hbig hsize (by omega),
      hb.block?_eq]
    dsimp only
    rw [if_pos hfits]
    rfl

end StepM

/-! ## Writing -/

namespace Stack

variable {e : Engine} {root : Func} {fr : Frame} {rest : List Frame} {mem : Memory}

theorem Sound.each {frames : List Frame} (h : Stack.Sound e root frames) :
    ∀ g ∈ frames, g.Sound e root := by
  induction h with
  | outer h _ => exact List.forall_mem_singleton.mpr h
  | inner h _ _ ih => exact List.forall_mem_cons.mpr ⟨h, ih⟩

theorem cell_eq_of_block (g : Frame) (hfits : g.func.FrameFits) {mem mem' : Memory}
    (hb : 0 < g.func.frameSize → mem'.block? g.base = mem.block? g.base) (u : ValueId) :
    g.cell mem' u = g.cell mem u := by
  unfold Frame.cell
  rcases hu : g.func.value? u with _ | info
  · rfl
  · dsimp only
    rcases hslot : info.slot with _ | slot
    · rfl
    · have := hfits info (Func.mem_values hu) slot hslot
      dsimp only
      rw [hb (by omega)]

theorem Housed.replace (h : Housed mem (fr :: rest)) {fr' : Frame} (hf : fr'.func = fr.func)
    (hb : fr'.base = fr.base) (ha : fr'.allocas = fr.allocas) : Housed mem (fr' :: rest) := by
  obtain ⟨heach, hapart⟩ := h
  obtain ⟨hfr, hrest⟩ := List.forall_mem_cons.mp heach
  obtain ⟨hfirst, hpairs⟩ := List.pairwise_cons.mp hapart
  refine ⟨List.forall_mem_cons.mpr ⟨⟨ha.trans hfr.allocas, ?_, ?_⟩, hrest⟩,
    List.pairwise_cons.mpr ⟨fun g hg => ?_, hpairs⟩⟩
  · rw [hf, hb]
    exact hfr.none
  · rw [hf, hb]
    exact hfr.block
  · unfold Frame.Apart
    rw [hf, hb]
    exact hfirst g hg

theorem Housed.put (h : Housed mem (fr :: rest)) {b b' : Block} (hb : mem.Holds fr.base b)
    (hpos : 0 < fr.func.frameSize) {addr : Word} (ha : mem.handleOf addr = mem.handleOf fr.base)
    (hs : b'.size = b.size) :
    Housed (mem.putBlock addr (some b')) (fr :: rest) ∧
    ∀ g ∈ rest, 0 < g.func.frameSize →
      (mem.putBlock addr (some b')).block? g.base = mem.block? g.base := by
  have hapart := (List.pairwise_cons.mp h.apart).1
  have hother : ∀ g ∈ rest, 0 < g.func.frameSize → ∀ {c}, mem.Holds g.base c →
      (mem.putBlock addr (some b')).Holds g.base c := by
    intro g hg hgpos c hc
    refine hc.put_other (ha ▸ hb.handle) ?_ _ _
    rw [ha]
    exact hapart g hg hpos hgpos
  refine ⟨⟨List.forall_mem_cons.mpr ⟨?_, fun g hg => ?_⟩, h.apart⟩, fun g hg hgpos => ?_⟩
  · have hfr := h.each fr List.mem_cons_self
    refine ⟨hfr.allocas, hfr.none, fun _ => ⟨b', hb.put ha hs, ?_⟩⟩
    obtain ⟨c, hc, hcs⟩ := hfr.block hpos
    rw [hs, ← hb.unique hc]
    exact hcs
  · have hgh := h.each g (List.mem_cons_of_mem fr hg)
    refine ⟨hgh.allocas, hgh.none, fun hgpos => ?_⟩
    obtain ⟨c, hc, hcs⟩ := hgh.block hgpos
    exact ⟨c, hother g hg hgpos hc, hcs⟩
  · obtain ⟨c, hc, -⟩ := (h.each g (List.mem_cons_of_mem fr hg)).block hgpos
    rw [(hother g hg hgpos hc).block?_eq, hc.block?_eq]

end Stack

/-- A value of the running frame is set; nothing else of the machine changes,
and no other cell. -/
structure Machine.Sets (fr : Frame) (rest : List Frame) (v : ValueId) (m : Machine) (fr' : Frame)
    (m' : Machine) : Prop where
  frame : ∃ regs, fr' = { fr with regs }
  machine : m' = { m.withMemory m'.host.memory with frames := fr' :: rest }
  housed : Stack.Housed m'.host.memory (fr' :: rest)
  others : ∀ u ≠ v, (fr.func.value? u).isSome → fr'.cell m'.host.memory u = fr.cell m.host.memory u
  waiting : ∀ g ∈ rest, ∀ u, g.cell m'.host.memory u = g.cell m.host.memory u

namespace StepM

variable {e : Engine} {root : Func} {fr : Frame} {rest : List Frame} {m : Machine}

theorem sets_slot (hk : e.Keeps root) (h : m.Housed e root fr rest) {v : ValueId}
    {info : ValueInfo} {slot : Int} (hv : fr.func.value? v = some info)
    (hslot : info.slot = some slot) {b : Block} (hb : m.host.memory.Holds fr.base b)
    {data : List UInt8} (hdata : (data.length : Int) ≤ info.rep.size) :
    Machine.Sets fr rest v m fr (m.withMemory (m.host.memory.putBlock
      (fr.base + UInt64.ofNat slot.toNat) (some (b.write slot.toNat data)))) := by
  obtain ⟨h0, hsize, b', hb', hend, -, -⟩ := h.slot hk hv hslot
  obtain rfl := hb'.unique hb
  obtain ⟨htyped, hready, hfits⟩ := h.running.typed hk.toRuns
  have hpos : 0 < fr.func.frameSize := by
    have := hfits info (Func.mem_values hv) slot hslot
    omega
  have hhandle := (hb.resolve (k := slot.toNat) (by omega)).1
  have hhoused := h.housed
  rw [h.frames] at hhoused
  have hsame : (b.write slot.toNat data).size = b.size := rfl
  obtain ⟨hnew, hblocks⟩ := hhoused.put hb hpos hhandle hsame
  have hnewblock := (hb.put hhandle hsame).block?_eq
  refine ⟨⟨fr.regs, rfl⟩, ?_, hnew, fun u huv hu => ?_, fun g hg u => ?_⟩
  · rw [← h.frames]
    rfl
  · obtain ⟨info', hu⟩ := Option.isSome_iff_exists.mp hu
    unfold Frame.cell
    rw [hu]
    dsimp only
    rcases hslot' : info'.slot with _ | slot'
    · rfl
    · have hbound := hk.usual.alignBound_lt hk.aligned
      have hapart := hready.apart hfits hbound hu hv huv hslot' hslot
      have := hfits info' (Func.mem_values hu) slot' hslot'
      dsimp only
      rw [Machine.withMemory_memory, hnewblock, hb.block?_eq]
      dsimp only
      rw [Block.window_write_apart b (by omega)]
  · refine Stack.cell_eq_of_block g ?_ (hblocks g hg) u
    have hg' := h.stack.each g (h.frames ▸ List.mem_cons_of_mem fr hg)
    exact hk.fits g.func hg'.reached hg'.compiled

theorem run_write_value (hk : e.Keeps root) (h : m.Housed e root fr rest) {v : ValueId}
    {info : ValueInfo} (hv : fr.func.value? v = some info) (hns : info.rep.cls ≠ .struct)
    {w : Word} (hc : info.rep.Canonical w) :
    ∃ fr' m', ((write v w).run m : Except (Halt Failure) Unit × Machine) = (.ok (), m') ∧
      Machine.Sets fr rest v m fr' m' ∧
      (info.rep.isScalar = true → fr'.cell m'.host.memory v = w) := by
  obtain ⟨-, hget, hlt⟩ := Func.value?_lt hv
  unfold write
  rw [run_bind, run_frame h.frames]
  dsimp only
  rw [hget]
  dsimp only
  rw [(h.running.typed hk.toRuns).2.2.place?_eq hv]
  rcases hslot : info.slot with _ | slot
  · have hreg : v < fr.regs.size := h.top.1.regs ▸ hlt
    have hhoused := h.housed
    rw [h.frames] at hhoused
    dsimp only
    rw [run_modifyFrame h.frames]
    refine ⟨{ fr with regs := fr.regs.setIfInBounds v w }, _, rfl,
      ⟨⟨_, rfl⟩, rfl, hhoused.replace rfl rfl rfl, fun u huv _ => ?_, fun _ _ _ => rfl⟩, fun _ => ?_⟩
    · unfold Frame.cell
      rcases fr.func.value? u with _ | info'
      · rfl
      · dsimp only
        rcases info'.slot with _ | slot
        · simp [Array.getD_eq_getD_getElem?, Ne.symm huv]
        · rfl
    · unfold Frame.cell
      rw [hv]
      dsimp only
      rw [hslot]
      simp [Array.getD_eq_getD_getElem?, hreg]
  · obtain ⟨h0, hsize, b, hb, hend, hbig, haddr⟩ := h.slot hk hv hslot
    have hvalid := h.running.valid hk.toRuns hv
    have hfits := hvalid.fitsRegister hns
    have hlen : (info.rep.encode w).length = info.rep.size.toNat := length_littleEndian _ w
    have hdata : ((info.rep.encode w).length : Int) ≤ info.rep.size := by omega
    have hsets := sets_slot hk h hv hslot hb hdata
    dsimp only
    unfold store
    rw [if_neg hns, if_pos hfits, run_request, haddr, run_write_block hb (by omega) (by omega)]
    refine ⟨_, _, rfl, hsets, fun hs => ?_⟩
    unfold Frame.cell
    rw [hv]
    dsimp only
    have hsame : (b.write slot.toNat (info.rep.encode w)).size = b.size := rfl
    have hhandle := (hb.resolve (k := slot.toNat) (by omega)).1
    rw [hslot, Machine.withMemory_memory, (hb.put hhandle hsame).block?_eq]
    dsimp only
    rw [← hlen, Block.window_write_same]
    exact Rep.decode_encode hvalid hs hc

theorem struct_slot (hk : e.Keeps root) (h : m.Housed e root fr rest) {v : ValueId}
    {info : ValueInfo} (hv : fr.func.value? v = some info) (hs : info.rep.cls = .struct) :
    ∃ slot, info.slot = some slot := by
  apply Option.isSome_iff_exists.mp
  rw [(h.running.typed hk.toRuns).2.1.slot hv]
  simp [ValueInfo.needsSlot, hs]

theorem run_copy_struct (hk : e.Keeps root) (h : m.Housed e root fr rest) {d v : ValueId}
    {r : Rep} (hd : fr.func.rep? d = some r) (hv : fr.func.rep? v = some r)
    (hs : r.cls = .struct) :
    ∃ m', ((do write d (← read v) : StepM Unit).run m : Except (Halt Failure) Unit × Machine) =
      (.ok (), m') ∧ Machine.Sets fr rest d m fr m' := by
  obtain ⟨di, hdi, rfl⟩ := Func.value?_of_rep? hd
  obtain ⟨vi, hvi, hrep⟩ := Func.value?_of_rep? hv
  obtain ⟨dslot, hdslot⟩ := struct_slot hk h hdi hs
  obtain ⟨vslot, hvslot⟩ := struct_slot hk h hvi (hrep ▸ hs)
  obtain ⟨hd0, hsize, b, hb, hdend, hbig, hdaddr⟩ := h.slot hk hdi hdslot
  obtain ⟨hv0, -, b', hb', hvend, -, hvaddr⟩ := h.slot hk hvi hvslot
  obtain rfl := hb'.unique hb
  rw [hrep] at hvend
  have hfits := (h.running.typed hk.toRuns).2.2
  have hread : ((read v).run m : Except (Halt Failure) Word × Machine) =
      (.ok (fr.base + UInt64.ofNat vslot.toNat), m) := by
    unfold read
    rw [run_bind, run_frame h.frames]
    dsimp only
    rw [(Func.value?_lt hvi).2.1]
    dsimp only
    rw [hfits.place?_eq hvi, hvslot]
    dsimp only
    unfold load
    rw [if_pos (hrep ▸ hs), hvaddr]
    rfl
  rw [run_bind, hread]
  dsimp only
  unfold write
  rw [run_bind, run_frame h.frames]
  dsimp only
  rw [(Func.value?_lt hdi).2.1]
  dsimp only
  rw [hfits.place?_eq hdi, hdslot]
  dsimp only
  unfold store
  rw [if_pos hs, run_request, hdaddr, Memory.run_copy]
  by_cases hn : di.rep.size = 0
  · rw [if_pos hn]
    refine ⟨_, rfl, ⟨_, rfl⟩, ?_, ?_, fun _ _ _ => rfl, fun _ _ _ => rfl⟩
    · rw [← h.frames]
      rfl
    · rw [← h.frames]
      exact h.housed
  · rw [if_neg hn, run_read_block hb hbig hsize (by omega)]
    dsimp only
    have hlen : (b.window vslot.toNat di.rep.size.toNat).length = di.rep.size.toNat := by
      simp [Block.window]
    rw [run_write_block hb (by omega) (by omega)]
    exact ⟨_, rfl, sets_slot hk h hdi hdslot hb (by omega)⟩

end StepM

/-! ## Entering and leaving -/

def Halt.isNoRoom : Halt Failure → Bool
  | .failed err =>
    match err.cause with
    | .memory (.size _) | .memory .exhausted => true
    | _ => false
  | .crashed => false

theorem Failure.isNoRoom_within {err : Failure} (name : String)
    (h : Halt.isNoRoom (.failed err) = true) :
    Halt.isNoRoom (.failed (err.within name)) = true := by
  unfold Failure.within
  split <;> exact h

/-- A machine all of whose frames wait, each in a block of its own. -/
structure Machine.Waiting (e : Engine) (root : Func) (m : Machine) : Prop where
  memory : m.host.memory.Serves e.target.ptrSize
  each : ∀ fr ∈ m.frames, fr.Sound e root
  housed : Stack.Housed m.host.memory m.frames

theorem Machine.Waiting.start {e : Engine} {root : Func} {host : Host}
    (h : host.memory.Serves e.target.ptrSize) : Machine.Waiting e root { host } :=
  ⟨h, List.forall_mem_nil _, List.forall_mem_nil _, .nil⟩

theorem Machine.Housed.waiting {e : Engine} {root : Func} {fr : Frame} {rest : List Frame}
    {m : Machine} (h : m.Housed e root fr rest) : m.Waiting e root :=
  ⟨h.memory, h.stack.each, h.housed⟩

namespace StepM

variable {e : Engine} {root : Func} {fr : Frame} {rest : List Frame} {m : Machine}

theorem ofLittleEndian_replicate (n : Nat) : ofLittleEndian (List.replicate n 0) = 0 := by
  induction n with
  | zero => rfl
  | succ n ih =>
    rw [List.replicate_succ, ofLittleEndian, ih]
    rfl

theorem decode_window_fresh (r : Rep) (size off n : Nat) :
    r.decode (({ size } : Block).window off n) = 0 := by
  have hzero : ({ size } : Block).window off n = List.replicate n 0 := by
    unfold Block.window Block.byte
    simp
  unfold Rep.decode
  rw [hzero, ofLittleEndian_replicate]
  exact r.canonical_zero

/-- The cells of a frame that was just entered: constants are set, all else is
zero. -/
theorem cell_fresh {strict : Prop} {sc : Scope} {f : Func} {mem : Memory} (ht : f.Typed sc)
    (hready : f.Ready strict sc) (hfr : fr.func = f) (hregs : fr.regs = initialRegs f)
    (hfits : f.FrameFits)
    (hblock : 0 < f.frameSize → mem.block? fr.base = some { size := f.frameSize.toNat })
    {v : ValueId} {info : ValueInfo} (hv : f.value? v = some info)
    (hs : info.rep.isScalar = true) :
    fr.cell mem v = if info.origin = .const then info.bits else 0 := by
  unfold Frame.cell
  rw [hfr, hv]
  dsimp only
  rcases hslot : info.slot with _ | slot
  · dsimp only
    rw [hregs, initialRegs, Array.getD_eq_getD_getElem?, Array.getElem?_map,
      (Func.value?_lt hv).2.1]
    rfl
  · have hneeds := hready.slot hv
    have hpos := hfits info (Func.mem_values hv) slot hslot
    have hconst : info.origin ≠ .const := by
      intro hc
      have := ((ht.value hv).const hc).2.2
      simp only [Rep.isScalar, Bool.and_eq_true, bne_iff_ne] at hs
      simp [hslot, ValueInfo.needsSlot, this, hs] at hneeds
    dsimp only
    rw [hblock (by omega), if_neg hconst]
    exact decode_window_fresh _ _ _ _

theorem run_releaseFrame (hk : e.Keeps root) (h : m.Housed e root fr rest) :
    ∃ mem, ((releaseFrame fr).run m : Except (Halt Failure) Unit × Machine) =
      (.ok (), m.withMemory mem) ∧ mem.offsetBits = m.host.memory.offsetBits ∧
      Stack.Housed mem rest ∧ ∀ g ∈ rest, ∀ u, g.cell mem u = g.cell m.host.memory u := by
  obtain ⟨hsound, hhouse⟩ := h.top
  have hstack := h.housed
  rw [h.frames] at hstack
  have heach := (List.forall_mem_cons.mp hstack.each).2
  obtain ⟨hfirst, hpairs⟩ := List.pairwise_cons.mp hstack.apart
  unfold releaseFrame
  rw [hhouse.allocas]
  have hrun : ((do ([] : List Word).reverse.forM release; release fr.base : StepM Unit).run m :
      Except (Halt Failure) Unit × Machine) = (release fr.base).run m := rfl
  rw [hrun]
  unfold release
  by_cases hsize : 0 < fr.func.frameSize
  · obtain ⟨b, hb, hbs⟩ := hhouse.block hsize
    have hne : fr.base ≠ 0 := by
      intro h0
      have := hb.handle
      simp [Memory.handleOf, h0] at this
    have hres : m.host.memory.resolve fr.base = .ok b := by
      simpa using (hb.resolve (k := 0) (by omega)).2.2
    have hother : ∀ g ∈ rest, 0 < g.func.frameSize → ∀ {c}, m.host.memory.Holds g.base c →
        (m.host.memory.release fr.base).Holds g.base c :=
      fun g hg hgpos c hc => hc.put_other hb.handle (hfirst g hg hsize hgpos) _ _
    rw [if_neg hne, run_tryCatch, run_request, Memory.run_free, if_neg hne, hres]
    dsimp only
    rw [if_neg (fun h => h hb.start)]
    refine ⟨_, rfl, rfl, ⟨fun g hg => ?_, hpairs⟩, fun g hg u => ?_⟩
    · obtain ⟨ha, hn, hblock⟩ := heach g hg
      refine ⟨ha, hn, fun hgpos => ?_⟩
      obtain ⟨c, hc, hcs⟩ := hblock hgpos
      exact ⟨c, hother g hg hgpos hc, hcs⟩
    · have hg' := h.stack.each g (h.frames ▸ List.mem_cons_of_mem fr hg)
      refine Stack.cell_eq_of_block g (hk.fits g.func hg'.reached hg'.compiled) (fun hgpos => ?_) u
      obtain ⟨c, hc, -⟩ := (heach g hg).block hgpos
      rw [(hother g hg hgpos hc).block?_eq, hc.block?_eq]
  · rw [if_pos (hhouse.none (by omega))]
    exact ⟨m.host.memory, rfl, rfl, ⟨heach, hpairs⟩, fun _ _ _ => rfl⟩

def entryFrame (f : Func) (depth : Nat) (base : Word) (dest : ValueId) : Frame :=
  { func := f, depth, regs := initialRegs f, base, dest }

def reserve (f : Func) : StepM Word :=
  if 0 < f.frameSize then inFunction f.name (request (Memory.alloc f.frameSize)) else pure 0

theorem enter_eq (e : Engine) (f : Func) (args : List Word) (depth : Nat) (caller : String)
    (dest : ValueId) :
    enter e f args depth caller dest = (do
      if !f.compiled then inFunction f.name (fail .notCompiled)
      if e.maxDepth ≤ depth then inFunction f.name (fail (.depthLimit e.maxDepth))
      let base ← reserve f
      modify fun m => { m with frames := entryFrame f (depth + 1) base dest :: m.frames }
      inFunction caller (setParams f f.params args)) := by
  unfold enter reserve entryFrame
  by_cases h : 0 < f.frameSize
  · simp only [if_pos h]
  · simp only [if_neg h]

theorem run_reserve (hk : e.Keeps root) (hw : m.Waiting e root) (f : Func) :
    (∃ h m₁, ((reserve f).run m : Except (Halt Failure) Word × Machine) = (.error h, m₁) ∧
      h.isNoRoom = true) ∨
    ∃ base mem, ((reserve f).run m : Except (Halt Failure) Word × Machine) =
        (.ok base, m.withMemory mem) ∧
      mem.offsetBits = m.host.memory.offsetBits ∧
      (0 < f.frameSize → mem.block? base = some { size := f.frameSize.toNat } ∧
        (base.toNat : Int) + f.frameSize ≤ Memory.reach e.target.ptrSize ∧
        f.frameSize < 0x100000000) ∧
      (∀ fr : Frame, fr.func = f → fr.base = base → fr.allocas = [] →
        Stack.Housed mem (fr :: m.frames)) ∧
      ∀ g ∈ m.frames, ∀ u, g.cell mem u = g.cell m.host.memory u := by
  unfold reserve
  by_cases hsize : 0 < f.frameSize
  · rw [if_pos hsize, run_inFunction, run_request]
    have hends := ends_alloc hw.memory f.frameSize
    unfold Ends at hends
    rcases hr : ((Memory.alloc f.frameSize).run m.host.memory :
      Except (Halt Fault) Word × Memory) with ⟨(fault | _) | base, mem⟩ <;> rw [hr] at hends
    · refine .inl ⟨_, _, rfl, Failure.isNoRoom_within f.name ?_⟩
      rw [Memory.run_alloc] at hr
      split at hr
      · obtain ⟨⟨⟩, -⟩ := hr
        rfl
      · split at hr
        · obtain ⟨⟨⟩, -⟩ := hr
          rfl
        · cases hr
    · exact (hends rfl).elim
    · obtain ⟨hblock, hbits, -, hothers⟩ := Memory.holds_alloc hw.memory hr
      refine .inr ⟨base, mem, rfl, hbits, fun _ => ⟨hblock.block?_eq, hends.2.2.1, hends.2.2.2.1⟩,
        fun fr hf hb ha => ?_, fun g hg u => ?_⟩
      · refine ⟨List.forall_mem_cons.mpr ⟨⟨ha, fun h => ?_, fun _ => ⟨_, hb ▸ hblock, ?_⟩⟩,
          fun g hg => ?_⟩, List.pairwise_cons.mpr ⟨fun g hg _ hgpos => ?_, ?_⟩⟩
        · rw [hf] at h
          omega
        · rw [hf]
          exact Int.toNat_of_nonneg (Int.le_of_lt hsize)
        · obtain ⟨hga, hgn, hgb⟩ := hw.housed.each g hg
          refine ⟨hga, hgn, fun hpos => ?_⟩
          obtain ⟨b, hb, hbs⟩ := hgb hpos
          exact ⟨b, (hothers hb).1, hbs⟩
        · obtain ⟨b, hbg, -⟩ := (hw.housed.each g hg).block hgpos
          rw [hb]
          exact (hothers hbg).2
        · have hsame : ∀ addr, mem.handleOf addr = m.host.memory.handleOf addr := by
            intro addr
            unfold Memory.handleOf
            rw [hbits]
          refine hw.housed.apart.imp fun hap hpos hpos' => ?_
          rw [hsame, hsame]
          exact hap hpos hpos'
      · have hs := hw.each g hg
        refine Stack.cell_eq_of_block g (hk.fits g.func hs.reached hs.compiled) (fun hpos => ?_) u
        obtain ⟨b, hbg, -⟩ := (hw.housed.each g hg).block hpos
        rw [(hothers hbg).1.block?_eq, hbg.block?_eq]
  · rw [if_neg hsize]
    refine .inr ⟨0, m.host.memory, rfl, rfl, fun h => absurd h hsize, fun fr hf hb ha => ?_,
      fun _ _ _ => rfl⟩
    refine ⟨List.forall_mem_cons.mpr ⟨⟨ha, fun _ => hb, fun h => ?_⟩, hw.housed.each⟩,
      List.pairwise_cons.mpr ⟨fun g _ h => ?_, hw.housed.apart⟩⟩
    · exact absurd (hf ▸ h) hsize
    · exact absurd (hf ▸ h) hsize


end StepM

end TypedIR
