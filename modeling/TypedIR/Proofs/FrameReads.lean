import TypedIR.Proofs.FrameCells

/-
  Straight code in any frame.

  A value of the running frame is in a register or in a slot, and the slot may be
  gone: whoever has its address can free the memory of the frame. So what a value is
  can only be said as long as it can be read (`Machine.Reads`). An instruction that
  computes a value leaves the values of the frame readable as they were, whichever of
  them are in slots, or its step fails because of the step limit or, if its value is in
  a slot, because of memory (`Machine.InFrame.computes`). Code of such instructions is put together with
  `Machine.Leads`.
-/

namespace TypedIR

/-! ## Reading after writing -/

namespace Memory

variable {mem mem' : Memory} {addr addr' : Word} {b : Block} {data : List UInt8} {n : Int}

def Gives (mem : Memory) (addr : Word) (n : Int) (data : List UInt8) : Prop :=
  ((read addr n).run mem : Except (Halt Fault) (List UInt8) × Memory) = (.ok data, mem)

theorem gives_iff : mem.Gives addr n data ↔ ∃ b, mem.resolve addr = .ok b ∧ 0 ≤ n ∧
    wrap64 (mem.offsetOf addr + n) ≤ b.size ∧ mem.offsetOf addr ≤ wrap64 (mem.offsetOf addr + n) ∧
    data = b.window (mem.offsetOf addr) n.toNat := by
  unfold Gives
  rw [run_read]
  rcases mem.resolve addr with f | b
  · exact ⟨nofun, nofun⟩
  dsimp only
  generalize wrap64 (mem.offsetOf addr + n) = last
  split
  · next hbounds =>
    refine ⟨nofun, fun h => ?_⟩
    obtain ⟨_, ⟨⟩, hn, hlast, -⟩ := h
    omega
  split
  · next hover =>
    refine ⟨nofun, fun h => ?_⟩
    obtain ⟨_, ⟨⟩, -, -, hlast, -⟩ := h
    omega
  · next hbounds hover =>
    constructor
    · intro h
      cases h
      exact ⟨b, rfl, by omega, by omega, by omega, rfl⟩
    · intro h
      obtain ⟨_, ⟨⟩, -, -, -, rfl⟩ := h
      rfl

theorem run_read_same (mem : Memory) (addr : Word) (n : Int) :
    ∃ answer, ((read addr n).run mem : Except (Halt Fault) (List UInt8) × Memory) = (answer, mem) := by
  rw [run_read]
  rcases mem.resolve addr with f | b
  · exact ⟨_, rfl⟩
  · dsimp only
    split
    · exact ⟨_, rfl⟩
    · split
      · exact ⟨_, rfl⟩
      · exact ⟨_, rfl⟩

theorem resolve_eq_ok : mem.resolve addr = .ok b ↔
    addr ≠ 0 ∧ mem.handleOf addr ≠ 0 ∧ mem.blocks[mem.handleOf addr - 1]? = some (some b) := by
  unfold resolve
  split
  · next h =>
    subst h
    exact ⟨nofun, fun h => absurd rfl h.1⟩
  · next h =>
    dsimp only
    split
    · next hzero => exact ⟨nofun, fun h => absurd hzero h.2.1⟩
    · next hzero =>
      rcases mem.blocks[mem.handleOf addr - 1]? with _ | _ | b'
      · exact ⟨nofun, fun h => nomatch h.2.2⟩
      · exact ⟨nofun, fun h => nomatch h.2.2⟩
      · constructor
        · rintro ⟨⟩
          exact ⟨h, hzero, rfl⟩
        · rintro ⟨-, -, ⟨⟩⟩
          rfl

theorem resolve_put_same (h : mem.resolve addr = .ok b) (h' : addr' ≠ 0)
    (hsame : mem.handleOf addr' = mem.handleOf addr) (b' : Block) :
    (mem.putBlock addr (some b')).resolve addr' = .ok b' := by
  obtain ⟨-, hpos, hget⟩ := resolve_eq_ok.mp h
  have hhandle : (mem.putBlock addr (some b')).handleOf addr' = mem.handleOf addr := hsame
  refine resolve_eq_ok.mpr ⟨h', hhandle ▸ hpos, ?_⟩
  rw [hhandle]
  exact Array.getElem?_setIfInBounds_self_of_lt (lt_of_getElem? hget)

theorem resolve_put_other (h : mem.resolve addr = .ok b) {b' : Block}
    (h' : mem.resolve addr' = .ok b') (hother : mem.handleOf addr' ≠ mem.handleOf addr)
    (x : Option Block) : (mem.putBlock addr x).resolve addr' = .ok b' := by
  obtain ⟨-, hpos, -⟩ := resolve_eq_ok.mp h
  obtain ⟨hne, hpos', hget⟩ := resolve_eq_ok.mp h'
  refine resolve_eq_ok.mpr ⟨hne, hpos', ?_⟩
  have hindex : mem.handleOf addr - 1 ≠ mem.handleOf addr' - 1 := by omega
  exact (Array.getElem?_setIfInBounds_ne hindex).trans hget

theorem write_ok (h : ((write addr data).run mem : Except (Halt Fault) Unit × Memory) =
    (.ok (), mem')) : ∃ b, mem.resolve addr = .ok b ∧ mem.offsetOf addr + data.length ≤ b.size ∧
      mem' = mem.putBlock addr (some (b.write (mem.offsetOf addr) data)) := by
  rw [run_write] at h
  cases hres : mem.resolve addr with
  | error f =>
    rw [hres] at h
    cases h
  | ok b =>
    rw [hres] at h
    dsimp only at h
    split at h
    · cases h
    · next hend =>
      obtain ⟨-, rfl⟩ := Prod.mk.inj h
      exact ⟨b, rfl, Nat.not_lt.mp hend, rfl⟩

theorem gives_written (h : ((write addr data).run mem : Except (Halt Fault) Unit × Memory) =
      (.ok (), mem')) (hoff : mem.offsetOf addr < 0x100000000) (hlen : data.length ≤ 8) :
    mem'.Gives addr data.length data := by
  obtain ⟨b, hres, hend, rfl⟩ := write_ok h
  have hne := (resolve_eq_ok.mp hres).1
  have hwrap : wrap64 ((mem.offsetOf addr : Int) + (data.length : Int)) =
      mem.offsetOf addr + data.length := by
    apply wrap64_of_mem <;> omega
  have hlast : wrap64 ((mem.offsetOf addr : Int) + (data.length : Int)) ≤ b.size := by omega
  refine gives_iff.mpr ⟨_, resolve_put_same hres hne rfl _, Int.natCast_nonneg _, hlast, ?_, ?_⟩
  · show (mem.offsetOf addr : Int) ≤ wrap64 ((mem.offsetOf addr : Int) + (data.length : Int))
    omega
  · exact (Block.window_write_same b _ data).symm

theorem gives_apart (h : ((write addr data).run mem : Except (Halt Fault) Unit × Memory) =
      (.ok (), mem')) {data' : List UInt8} (hread : mem.Gives addr' n data')
    (hapart : addr.toNat + data.length ≤ addr'.toNat ∨ addr'.toNat + n.toNat ≤ addr.toNat) :
    mem'.Gives addr' n data' := by
  obtain ⟨b, hres, hend, rfl⟩ := write_ok h
  obtain ⟨b', hres', hn, hlow, hhigh, rfl⟩ := gives_iff.mp hread
  by_cases hsame : mem.handleOf addr' = mem.handleOf addr
  · obtain ⟨-, -, hget⟩ := resolve_eq_ok.mp hres
    obtain ⟨hne, -, hget'⟩ := resolve_eq_ok.mp hres'
    rw [hsame, hget] at hget'
    obtain rfl := Option.some.inj (Option.some.inj hget')
    refine gives_iff.mpr ⟨_, resolve_put_same hres hne hsame _, hn, hlow, hhigh, ?_⟩
    -- addresses in one block differ as their offsets do
    have hsplit := Nat.div_add_mod addr.toNat (twoTo mem.offsetBits)
    have hsplit' := Nat.div_add_mod addr'.toNat (twoTo mem.offsetBits)
    have hdiv : addr'.toNat / twoTo mem.offsetBits = addr.toNat / twoTo mem.offsetBits := hsame
    rw [hdiv] at hsplit'
    refine (Block.window_write_apart b ?_).symm
    unfold offsetOf
    omega
  · exact gives_iff.mpr ⟨b', resolve_put_other hres hres' hsame _, hn, hlow, hhigh, rfl⟩

end Memory

/-- The value has a slot. -/
def Func.Spilled (f : Func) (v : ValueId) : Prop :=
  ∃ info slot, f.value? v = some info ∧ info.place? = some slot

/-! ## Values of the running frame -/

namespace Machine

/-- Reading the value gives the word and changes nothing. -/
def Reads (m : Machine) (v : ValueId) (w : Word) : Prop :=
  ((StepM.read v).run m : Except (Halt Failure) Word × Machine) = (.ok w, m)

variable {e : Engine} {root : Func} {fr fr' : Frame} {rest rest' : List Frame} {m m' : Machine}
  {v : ValueId} {info : ValueInfo} {w : Word}

theorem reads_register (hm : m.frames = fr :: rest) (hv : fr.func.value? v = some info)
    (hslot : info.place? = none) : m.Reads v w ↔ fr.regs[v]? = some w := by
  unfold Reads StepM.read
  rw [run_bind, StepM.run_frame hm]
  dsimp only
  rw [(Func.value?_lt hv).2.1]
  dsimp only
  rw [hslot]
  dsimp only
  cases fr.regs[v]? with
  | none => exact ⟨nofun, nofun⟩
  | some x =>
    constructor
    · rintro ⟨⟩
      rfl
    · rintro ⟨⟩
      rfl

theorem reads_slot (hm : m.frames = fr :: rest) (hv : fr.func.value? v = some info) {slot : Int}
    (hslot : info.place? = some slot) : m.Reads v w ↔
      if info.rep.cls = .struct then w = StepM.slotAddress fr slot
      else info.rep.fitsRegister = true ∧ ∃ data,
        m.host.memory.Gives (StepM.slotAddress fr slot) info.rep.size data ∧
          w = info.rep.decode data := by
  have hread : ((StepM.read v).run m : Except (Halt Failure) Word × Machine) =
      (StepM.load info.rep (StepM.slotAddress fr slot)).run m := by
    unfold StepM.read
    rw [run_bind, StepM.run_frame hm]
    dsimp only
    rw [(Func.value?_lt hv).2.1]
    dsimp only
    rw [hslot]
  unfold Reads
  rw [hread]
  unfold StepM.load
  by_cases hs : info.rep.cls = .struct
  · rw [if_pos hs, if_pos hs]
    constructor
    · rintro ⟨⟩
      rfl
    · rintro rfl
      rfl
  · rw [if_neg hs, if_neg hs, run_bind, StepM.run_request]
    unfold Memory.Gives
    obtain ⟨answer, hanswer⟩ :=
      m.host.memory.run_read_same (StepM.slotAddress fr slot) info.rep.size
    rw [hanswer]
    rcases answer with (f | _) | data
    · exact ⟨nofun, nofun⟩
    · exact ⟨nofun, nofun⟩
    · dsimp only
      constructor
      · intro h
        split at h
        · next hfits =>
          cases h
          exact ⟨hfits, data, rfl, rfl⟩
        · cases h
      · rintro ⟨hfits, _, ⟨⟩, rfl⟩
        rw [if_pos hfits]
        rfl

theorem Reads.transfer (h : m.Reads v w) (hm : m.frames = fr :: rest)
    (hm' : m'.frames = fr' :: rest') (hfunc : fr'.func = fr.func) (hbase : fr'.base = fr.base)
    (hv : fr.func.value? v = some info)
    (hreg : info.place? = none → fr'.regs[v]? = fr.regs[v]?)
    (hslot : ∀ slot, info.place? = some slot → ∀ data,
      m.host.memory.Gives (StepM.slotAddress fr slot) info.rep.size data →
        m'.host.memory.Gives (StepM.slotAddress fr slot) info.rep.size data) : m'.Reads v w := by
  have hv' : fr'.func.value? v = some info := hfunc ▸ hv
  rcases hs : info.place? with _ | slot
  · rw [reads_register hm hv hs] at h
    rw [reads_register hm' hv' hs, hreg hs, h]
  · have haddr : StepM.slotAddress fr' slot = StepM.slotAddress fr slot := by
      unfold StepM.slotAddress
      rw [hbase]
    rw [reads_slot hm hv hs] at h
    rw [reads_slot hm' hv' hs, haddr]
    split at h
    · next hstruct => rwa [if_pos hstruct]
    · next hstruct =>
      obtain ⟨hfits, data, hdata, rfl⟩ := h
      rw [if_neg hstruct]
      exact ⟨hfits, data, hslot slot hs data hdata, rfl⟩

/-- All values read as before, but for those that are `changed`. -/
def Keeps (m : Machine) (f : Func) (changed : ValueId → Prop) (m' : Machine) : Prop :=
  ∀ {v w}, (f.value? v).isSome → ¬ changed v → m.Reads v w → m'.Reads v w

/-- The machine runs `root` and is in the frame `fr`, at the position `pc`. -/
structure InFrame (e : Engine) (root : Func) (fr : Frame) (rest : List Frame) (pc : Nat)
    (m : Machine) : Prop extends m.Sound e root where
  frames : ∃ regs, m.frames = { fr with pc, regs } :: rest

theorem InFrame.running {pc : Nat} (h : m.InFrame e root fr rest pc) : m.Running e root fr.func := by
  obtain ⟨regs, hm⟩ := h.frames
  exact ⟨h.toSound, _, rest, hm, rfl⟩

theorem InFrame.toNat_slotAddress {pc : Nat} (hr : e.Runs root) (h : m.InFrame e root fr rest pc)
    (hv : fr.func.value? v = some info) {slot : Int} (hslot : info.slot = some slot) :
    0 ≤ slot ∧ ((StepM.slotAddress fr slot).toNat : Int) = fr.base.toNat + slot := by
  obtain ⟨regs, hm⟩ := h.frames
  obtain ⟨h0, hsize, hend⟩ := (h.running.typed hr).2.2 info (Func.mem_values hv) slot hslot
  have hs := h.stack
  rw [hm] at hs
  obtain ⟨hreach, hframe⟩ := hs.top.base (show 0 < fr.func.frameSize by omega)
  have hle : Memory.reach e.target.ptrSize ≤ 0x10000000000000000 := by
    unfold Memory.reach
    split <;> omega
  refine ⟨h0, ?_⟩
  dsimp only at hreach hframe
  unfold StepM.slotAddress Word.ofInt
  rw [UInt64.toNat_add, Int.emod_eq_of_lt h0 (by omega), UInt64.toNat_ofNat']
  omega

/-- Writing a scalar sets the value and leaves the others alone, unless its place is
lost. -/
theorem InFrame.ends_write {pc : Nat} (hr : e.Runs root) (ha : e.target.Aligned)
    (h : m.InFrame e root fr rest pc) (hv : fr.func.value? v = some info)
    (hs : info.rep.isScalar = true) (hc : info.rep.Canonical w) :
    Ends (StepM.write v w) m
      (fun _ m' => m'.InFrame e root fr rest pc ∧ m'.Reads v w ∧ m.Keeps fr.func (· = v) m' ∧
        (¬ fr.func.Spilled v → m'.host = m.host))
      fun halt _ => fr.func.Spilled v ∧ ∃ fault, halt = .failed { cause := .memory fault } := by
  obtain ⟨regs, hm⟩ := h.frames
  obtain ⟨-, hget, hlt⟩ := Func.value?_lt hv
  have hstruct := Rep.ne_struct hs
  have hsound := StepM.ends_write hr h.running (Func.rep?_of_value? hv) hc
  unfold Ends at hsound ⊢
  unfold StepM.write at hsound ⊢
  rw [run_bind, StepM.run_frame hm] at hsound ⊢
  dsimp only at hsound ⊢
  rw [hget] at hsound ⊢
  dsimp only at hsound ⊢
  rcases hslot : info.place? with _ | slot
  · rw [hslot] at hsound
    dsimp only at hsound ⊢
    rw [StepM.run_modifyFrame hm] at hsound ⊢
    have hregs : regs.size = fr.func.values.size := by
      have hstack := h.stack
      rw [hm] at hstack
      exact hstack.top.regs
    let next : Frame := { fr with pc, regs := regs.setIfInBounds v w }
    have hframes : ({ m with frames := next :: rest } : Machine).frames = next :: rest := rfl
    refine ⟨⟨hsound.toSound, _, rfl⟩, ?_, fun {u x} hu hne hread => ?_, fun _ => rfl⟩
    · rw [reads_register hframes hv hslot]
      exact Array.getElem?_setIfInBounds_self_of_lt (hregs ▸ hlt)
    · obtain ⟨other, hu⟩ := Option.isSome_iff_exists.mp hu
      refine hread.transfer hm rfl rfl rfl hu (fun _ => ?_) fun _ _ _ hdata => hdata
      exact Array.getElem?_setIfInBounds_ne (Ne.symm hne)
  · have hfits := (h.running.valid hr hv).fitsRegister hstruct
    have hlen : (info.rep.encode w).length = info.rep.size.toNat := length_littleEndian _ w
    have hsize : 0 ≤ info.rep.size ∧ info.rep.size ≤ 8 := by
      simpa [Rep.fitsRegister] using hfits
    rw [hslot] at hsound
    dsimp only at hsound ⊢
    unfold StepM.store at hsound ⊢
    have hsame : StepM.slotAddress { fr with pc, regs } slot = StepM.slotAddress fr slot := rfl
    rw [if_neg hstruct, if_pos hfits, StepM.run_request, hsame] at hsound ⊢
    rcases hrun : ((Memory.write (StepM.slotAddress fr slot) (info.rep.encode w)).run m.host.memory :
      Except (Halt Fault) Unit × Memory) with ⟨(f | _) | _, mem⟩ <;> rw [hrun] at hsound
    · exact ⟨⟨info, slot, hv, hslot⟩, f, rfl⟩
    · exact absurd rfl hsound
    · dsimp only at hsound ⊢
      have hframes : (m.withMemory mem).frames = { fr with pc, regs } :: rest := hm
      have hoff := StepM.offsetOf_lt h.memory (StepM.slotAddress fr slot)
      have hwritten := Memory.gives_written hrun hoff (by omega)
      refine ⟨⟨hsound.toSound, regs, hframes⟩, ?_, fun {u x} hu hne hread => ?_,
        fun hreg => absurd ⟨info, slot, hv, hslot⟩ hreg⟩
      · rw [reads_slot hframes hv hslot, if_neg hstruct]
        refine ⟨hfits, info.rep.encode w, ?_, (Rep.decode_encode (h.running.valid hr hv) hs hc).symm⟩
        rwa [hlen, Int.toNat_of_nonneg hsize.1] at hwritten
      · obtain ⟨other, hu⟩ := Option.isSome_iff_exists.mp hu
        refine hread.transfer hm hframes rfl rfl hu (fun _ => rfl) fun slot' hslot' data hdata => ?_
        obtain ⟨-, hready, hframefits⟩ := h.running.typed hr
        rw [hframefits.place?_eq hv] at hslot
        rw [hframefits.place?_eq hu] at hslot'
        have hapart := hready.apart hframefits (hr.usual.alignBound_lt ha) hu hv hne hslot' hslot
        have haddr := (h.toNat_slotAddress hr hv hslot).2
        have haddr' := (h.toNat_slotAddress hr hu hslot').2
        refine Memory.gives_apart hrun hdata ?_
        have hend := (hframefits other (Func.mem_values hu) slot' hslot').2.1
        rw [hlen]
        show _ ≤ (StepM.slotAddress fr slot').toNat ∨ (StepM.slotAddress fr slot').toNat + _ ≤ _
        omega

end Machine

/-! ## Steps -/

namespace Machine

/-- At most so many steps come to a machine of a kind, or one of them fails: because of the
step limit, or, where values are spilled, because of memory. -/
inductive Leads (e : Engine) (spilled : Prop) : Nat → (Machine → Prop) → Machine → Prop
  | here {n : Nat} {post : Machine → Prop} {m : Machine} (h : post m) : Leads e spilled n post m
  | stepped {n : Nat} {post : Machine → Prop} {m m' : Machine}
      (h : ((StepM.step e).run m : Except (Halt Failure) (Option Word) × Machine) = (.ok none, m'))
      (h' : Leads e spilled n post m') : Leads e spilled (n + 1) post m
  | stopped {n : Nat} {post : Machine → Prop} {m m' : Machine} {err : Failure}
      (h : ((StepM.step e).run m : Except (Halt Failure) (Option Word) × Machine) =
        (.error (.failed err), m'))
      (hcause : (spilled ∧ ∃ fault, err.cause = .memory fault) ∨
        0 < e.maxSteps ∧ err.cause = .stepLimit e.maxSteps) : Leads e spilled (n + 1) post m

namespace Leads

variable {e : Engine} {spilled spilled' : Prop} {n k : Nat} {mid post post' : Machine → Prop}
  {m : Machine}

theorem within (h : m.Leads e spilled n post) (hle : n ≤ k) : m.Leads e spilled k post := by
  induction h generalizing k with
  | here h => exact .here h
  | stepped h _ ih =>
    obtain ⟨k, rfl⟩ := Nat.exists_eq_add_of_le' hle
    exact .stepped h (ih (Nat.le_add_left ..))
  | stopped h hcause =>
    obtain ⟨k, rfl⟩ := Nat.exists_eq_add_of_le' hle
    exact .stopped h hcause

theorem trans (h : m.Leads e spilled n mid) (h' : ∀ m', mid m' → m'.Leads e spilled k post) :
    m.Leads e spilled (n + k) post := by
  induction h with
  | here h => exact (h' _ h).within (Nat.le_add_left ..)
  | stepped h _ ih =>
    rw [Nat.succ_add]
    exact .stepped h (ih h')
  | stopped h hcause =>
    rw [Nat.succ_add]
    exact .stopped h hcause

theorem mono (h : m.Leads e spilled n post) (himp : ∀ m', post m' → post' m') :
    m.Leads e spilled n post' :=
  h.trans (k := 0) fun m' hm' => .here (himp m' hm')

theorem weaken (h : m.Leads e spilled n post) (himp : spilled → spilled') :
    m.Leads e spilled' n post := by
  induction h with
  | here h => exact .here h
  | stepped h _ ih => exact .stepped h ih
  | stopped h hcause => exact .stopped h (hcause.imp_left fun h => ⟨himp h.1, h.2⟩)

end Leads

variable {e : Engine} {root : Func} {fr : Frame} {rest : List Frame} {m : Machine} {pc : Nat}
  {i : Insn} {info : ValueInfo} {w : Word}

/-- The machine is in the frame `fr`, at the position `pc`, with a register for each
value. -/
def Inside (fr : Frame) (rest : List Frame) (pc : Nat) (m : Machine) : Prop :=
  ∃ regs, m.frames = { fr with pc, regs } :: rest ∧ regs.size = fr.func.values.size

theorem InFrame.inside (h : m.InFrame e root fr rest pc) : m.Inside fr rest pc := by
  obtain ⟨regs, hm⟩ := h.frames
  have hstack := h.stack
  rw [hm] at hstack
  exact ⟨regs, hm, hstack.top.regs⟩

def counted (m : Machine) (fr : Frame) (rest : List Frame) : Machine :=
  { m with steps := m.steps + 1, frames := fr :: rest }

theorem keeps_counted {regs : Array Word} (hm : m.frames = { fr with pc, regs } :: rest) :
    m.Keeps fr.func (fun _ => False) (m.counted { fr with pc := pc + 1, regs } rest) := by
  intro u x hu _ hread
  obtain ⟨other, hu⟩ := Option.isSome_iff_exists.mp hu
  exact hread.transfer hm rfl rfl rfl hu (fun _ => rfl) fun _ _ _ hdata => hdata

theorem Inside.leads {spilled : Prop} {post : Machine → Prop} (h : m.Inside fr rest pc)
    (hi : fr.func.insns[pc]? = some i) (hplain : i.op.isPlain = true)
    (hexec : ∀ regs, m.frames = { fr with pc, regs } :: rest →
      Ends (StepM.execute e fr.func fr.depth i) (m.counted { fr with pc := pc + 1, regs } rest)
        (fun _ m' => post m') fun halt _ =>
          spilled ∧ ∃ fault, halt = .failed { cause := .memory fault }) :
    m.Leads e spilled 1 post := by
  obtain ⟨regs, hm, -⟩ := h
  have hends : Ends (StepM.step e) m (fun a m' => a = none ∧ post m')
      fun halt _ => ∃ err, halt = .failed err ∧
        ((spilled ∧ ∃ fault, err.cause = .memory fault) ∨
        0 < e.maxSteps ∧ err.cause = .stepLimit e.maxSteps) := by
    unfold StepM.step
    refine .bind' (StepM.ends_frame hm) ?_
    rintro _ _ ⟨rfl, rfl⟩
    dsimp only
    rw [hi]
    refine .bind_modify (StepM.ends_inFunction _ (.bind_get (.ite' (fun hover => ?_) fun _ => ?_)))
    · exact .bind_throw ⟨_, rfl, .inr ⟨hover.1, Failure.cause_within _ _⟩⟩
    · refine .bind' (StepM.ends_modifyFrame (m := { m with steps := m.steps + 1 }) hm) ?_
      rintro _ _ rfl
      rw [StepM.dispatch_plain hplain]
      refine .bind' ((hexec regs hm).imp_stop ?_) fun _ m' hpost => .pure' ⟨rfl, hpost⟩
      rintro _ _ ⟨hspilled, fault, rfl⟩
      exact ⟨_, rfl, .inl ⟨hspilled, fault, Failure.cause_within _ _⟩⟩
  unfold Ends at hends
  rcases hstep : ((StepM.step e).run m : Except (Halt Failure) (Option Word) × Machine) with
    ⟨halt | answer, m'⟩ <;> rw [hstep] at hends
  · obtain ⟨err, rfl, hcause⟩ := hends
    exact .stopped hstep hcause
  · obtain ⟨rfl, hpost⟩ := hends
    exact .stepped hstep (.here hpost)

theorem Inside.ends_write (h : m.Inside fr rest pc) (hv : fr.func.value? v = some info)
    (hreg : info.place? = none) (w : Word) {stop : Halt Failure → Machine → Prop} :
    Ends (StepM.write v w) m (fun _ m' => m'.Inside fr rest pc ∧ m'.Reads v w ∧
      m.Keeps fr.func (· = v) m' ∧ m'.host = m.host) stop := by
  obtain ⟨regs, hm, hsize⟩ := h
  obtain ⟨-, hget, hlt⟩ := Func.value?_lt hv
  unfold Ends StepM.write
  rw [run_bind, StepM.run_frame hm]
  dsimp only
  rw [hget]
  dsimp only
  rw [hreg]
  dsimp only
  rw [StepM.run_modifyFrame hm]
  let next : Frame := { fr with pc, regs := regs.setIfInBounds v w }
  have hframes : ({ m with frames := next :: rest } : Machine).frames = next :: rest := rfl
  refine ⟨⟨_, rfl, by rw [Array.size_setIfInBounds, hsize]⟩, ?_, fun {u x} hu hne hread => ?_, rfl⟩
  · rw [reads_register hframes hv hreg]
    exact Array.getElem?_setIfInBounds_self_of_lt (hsize ▸ hlt)
  · obtain ⟨other, hu⟩ := Option.isSome_iff_exists.mp hu
    refine hread.transfer hm hframes rfl rfl hu (fun _ => ?_) fun _ _ _ hdata => hdata
    exact Array.getElem?_setIfInBounds_ne (Ne.symm hne)

/-- An instruction that computes a value into its register leaves everything else
alone. -/
theorem Inside.computes (h : m.Inside fr rest pc) (hi : fr.func.insns[pc]? = some i)
    (hplain : i.op.isPlain = true) (hv : fr.func.value? i.dest = some info)
    (hreg : info.place? = none)
    (hexec : ∀ m' depth, m.Keeps fr.func (fun _ => False) m' → m'.host = m.host →
      ((StepM.execute e fr.func depth i).run m' : Except (Halt Failure) Unit × Machine) =
        (StepM.write i.dest w).run m') :
    m.Leads e False 1 fun m' => m'.Inside fr rest (pc + 1) ∧ m'.Reads i.dest w ∧
      m.Keeps fr.func (· = i.dest) m' ∧ m'.host = m.host := by
  refine h.leads hi hplain fun regs hm => ?_
  have hsize : regs.size = fr.func.values.size := by
    obtain ⟨regs', hm', hsize⟩ := h
    rw [hm'] at hm
    cases hm
    exact hsize
  have hkept : m.Keeps fr.func (fun _ => False)
      (m.counted { fr with pc := pc + 1, regs } rest) := keeps_counted hm
  have hin : (m.counted { fr with pc := pc + 1, regs } rest).Inside fr rest (pc + 1) :=
    ⟨regs, rfl, hsize⟩
  unfold Ends
  rw [hexec _ fr.depth hkept rfl]
  refine Ends.mono (hin.ends_write hv hreg w) ?_ fun _ _ h => h
  rintro _ m' ⟨hin', hread, hkept', hhost⟩
  exact ⟨hin', hread, fun hu hne hread => hkept' hu hne (hkept hu id hread), hhost⟩

theorem InFrame.computes (hr : e.Runs root) (ha : e.target.Aligned)
    (h : m.InFrame e root fr rest pc) (hi : fr.func.insns[pc]? = some i)
    (hplain : i.op.isPlain = true) (hv : fr.func.value? i.dest = some info)
    (hs : info.rep.isScalar = true) (hc : info.rep.Canonical w)
    (hexec : ∀ m' depth, m.Keeps fr.func (fun _ => False) m' →
      ((StepM.execute e fr.func depth i).run m' : Except (Halt Failure) Unit × Machine) =
        (StepM.write i.dest w).run m') :
    m.Leads e (fr.func.Spilled i.dest) 1 fun m' => m'.InFrame e root fr rest (pc + 1) ∧
      m'.Reads i.dest w ∧ m.Keeps fr.func (· = i.dest) m' ∧
      (¬ fr.func.Spilled i.dest → m'.host = m.host) := by
  refine h.inside.leads hi hplain fun regs hm => ?_
  have hkept : m.Keeps fr.func (fun _ => False)
      (m.counted { fr with pc := pc + 1, regs } rest) := keeps_counted hm
  have hin : (m.counted { fr with pc := pc + 1, regs } rest).InFrame e root fr rest (pc + 1) := by
    have hstack := h.stack
    rw [hm] at hstack
    refine ⟨⟨h.memory, hstack.replace ?_ rfl rfl⟩, regs, rfl⟩
    have hf := hstack.top
    exact ⟨hf.known, hf.compiled, hf.reached, lt_of_getElem? hi, hf.regs,
      hf.canonical, hf.base⟩
  have hwrite := hin.ends_write hr ha hv hs hc
  have hexecute : Ends (StepM.execute e fr.func fr.depth i)
      (m.counted { fr with pc := pc + 1, regs } rest)
      (fun _ m' => m'.InFrame e root fr rest (pc + 1) ∧ m'.Reads i.dest w ∧
        (m.counted { fr with pc := pc + 1, regs } rest).Keeps fr.func (· = i.dest) m' ∧
        (¬ fr.func.Spilled i.dest → m'.host = m.host))
      fun halt _ => fr.func.Spilled i.dest ∧
        ∃ fault, halt = .failed { cause := .memory fault } := by
    unfold Ends at hwrite ⊢
    rwa [hexec _ fr.depth hkept]
  refine hexecute.imp ?_
  rintro _ m' ⟨hin', hread, hkept', hhost⟩
  exact ⟨hin', hread, fun hu hne hread' => hkept' hu hne (hkept hu id hread'), hhost⟩

end Machine

end TypedIR
