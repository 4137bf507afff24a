import Mathlib.Logic.Relation
import TypedIR.Proofs.History
import TypedIR.Proofs.MachineRuns

/-
  Runs of emitted code are sound.

  A machine is sound when every frame runs a typed, compiled function with
  canonical registers, and every frame but the outermost returns into a value of
  its caller that has the representation it returns. One step of a sound machine
  leaves a sound machine or stops with a failure, never with a crash; so does a
  run.

  The frame of a function has to be a real one: slots that lie inside the frame.
  Sizes are 64-bit sums, so the frame of a function with structs of many exabytes
  is not; `FrameFits` says of a function that its frame is.
-/

namespace TypedIR

/-- A native that always gives an answer or a failure, and leaves the shape of
addresses alone. -/
def NativeFunc.Total (run : NativeFunc) : Prop :=
  ∀ (c : NativeCall) (h : Host), Ends (run c) h
    (fun _ h' => h'.memory.offsetBits = h.memory.offsetBits)
    (fun err h' => err ≠ .crashed ∧ h'.memory.offsetBits = h.memory.offsetBits)

namespace Engine

/-- One function has a call of the other. -/
def Calls (e : Engine) (f g : Func) : Prop :=
  ∃ i ∈ f.insns, i.op = .call ∧ e.findFunc i.callee = .ok g

/-- Calls lead from one function to the other. -/
def Reaches (e : Engine) : Func → Func → Prop := Relation.ReflTransGen e.Calls

/-- What a run of `root` relies on. -/
structure Runs (e : Engine) (root : Func) : Prop where
  typed : e.Typed False
  usual : e.target.Usual
  fits : ∀ g, e.Reaches root g → g.compiled = true → g.FrameFits
  total : ∀ g, e.Reaches root g → ∀ i ∈ g.insns, i.op = .callNative →
    ∀ run, e.natives.find? i.native = some run → NativeFunc.Total run

end Engine

/-- A frame that runs a function `root` reaches. -/
structure Frame.Sound (e : Engine) (root : Func) (fr : Frame) : Prop where
  known : ∃ fn, e.func? fn = some fr.func
  compiled : fr.func.compiled = true
  reached : e.Reaches root fr.func
  pc : fr.pc ≤ fr.func.insns.size
  regs : fr.regs.size = fr.func.values.size
  canonical : ∀ {v info w}, fr.func.value? v = some info → fr.regs[v]? = some w →
    info.rep.Canonical w
  base : 0 < fr.func.frameSize →
    (fr.base.toNat : Int) + fr.func.frameSize ≤ Memory.reach e.target.ptrSize ∧
      fr.func.frameSize < 0x100000000

/-- Frames that return into each other, down to the frame of `root`. -/
inductive Stack.Sound (e : Engine) (root : Func) : List Frame → Prop
  | outer {fr} (h : fr.Sound e root) (hroot : fr.func = root) : Sound e root [fr]
  | inner {fr caller rest} (h : fr.Sound e root)
      (hdest : fr.func.ret.cls ≠ .void → caller.func.rep? fr.dest = some fr.func.ret)
      (hrest : Sound e root (caller :: rest)) : Sound e root (fr :: caller :: rest)

/-- A machine that runs `root`. -/
structure Machine.Sound (e : Engine) (root : Func) (m : Machine) : Prop where
  memory : m.host.memory.Serves e.target.ptrSize
  stack : Stack.Sound e root m.frames

/-- A machine that runs `root` and is in a frame of `f`. -/
structure Machine.Running (e : Engine) (root f : Func) (m : Machine) : Prop extends
    m.Sound e root where
  top : ∃ fr rest, m.frames = fr :: rest ∧ fr.func = f

def NoCrash (halt : Halt Failure) (_ : Machine) : Prop := halt ≠ .crashed

theorem noCrash_failed (err : Failure) (m : Machine) : NoCrash (.failed err) m := nofun

namespace Stack.Sound

variable {e : Engine} {root : Func} {fr : Frame} {rest : List Frame}

theorem top (h : Stack.Sound e root (fr :: rest)) : fr.Sound e root := by
  cases h with
  | outer h _ => exact h
  | inner h _ _ => exact h

/-- The running frame may change, as long as it stays sound and returns to the
same place. -/
theorem replace (h : Stack.Sound e root (fr :: rest)) {fr' : Frame} (hf : fr'.Sound e root)
    (hfunc : fr'.func = fr.func) (hdest : fr'.dest = fr.dest) :
    Stack.Sound e root (fr' :: rest) := by
  cases h with
  | outer _ hroot => exact .outer hf (hfunc.trans hroot)
  | inner _ hd hrest => exact .inner hf (by rw [hfunc, hdest]; exact hd) hrest

end Stack.Sound

def Opcode.isPlain : Opcode → Bool
  | .nop | .label | .branch | .branchIf | .branchIfNot | .ret | .call => false
  | _ => true

theorem Opcode.isPlain_of_binary {op : Opcode} (h : op.isBinary = true) : op.isPlain = true := by
  cases op <;> first | rfl | exact (Bool.false_ne_true h).elim

theorem Opcode.isPlain_of_compare {op : Opcode} (h : op.isCompare = true) : op.isPlain = true := by
  cases op <;> first | rfl | exact (Bool.false_ne_true h).elim

theorem canonical_pointerRep {target : Target} (hu : target.Usual) {w : Word}
    (hw : w.toNat < Memory.reach target.ptrSize) : target.pointerRep.Canonical w := by
  unfold Rep.Canonical Rep.normalize Target.pointerRep
  rw [hu.addressSize]
  unfold Memory.reach at hw
  rcases hu with h | h
  · rw [if_pos h] at hw
    rw [h]
    exact Word.and_eq_of_lt (n := 32) rfl hw
  · rw [h]
    exact Word.and_eq_of_lt (n := 64) rfl w.toNat_lt

namespace StepM

variable {e : Engine} {root f : Func} {m : Machine}

/-! ## Loads and stores -/

theorem offsetOf_lt {mem : Memory} {ptrSize : Int} (hs : mem.Serves ptrSize) (addr : Word) :
    mem.offsetOf addr < 0x100000000 := by
  unfold Memory.offsetOf
  unfold Memory.Serves Memory.forPointers at hs
  rw [hs]
  dsimp only
  split
  · exact Nat.lt_trans (Nat.mod_lt _ (by decide)) (by decide)
  · exact Nat.mod_lt _ (by decide)

theorem ends_memoryRead {mem : Memory} {ptrSize : Int} (hs : mem.Serves ptrSize) (addr : Word)
    {n : Int} (hn : n ≤ Memory.largestRange) :
    Ends (Memory.read addr n) mem (fun _ mem' => mem' = mem ∧ 0 ≤ n)
      (fun halt _ => halt ≠ .crashed) := by
  have hoff := offsetOf_lt hs addr
  unfold Memory.largestRange at hn
  unfold Ends
  rw [Memory.run_read]
  rcases mem.resolve addr with fault | b
  · exact nofun
  · simp only
    by_cases h : n < 0 ∨ (b.size : Int) < wrap64 (mem.offsetOf addr + n)
    · rw [if_pos h]
      exact nofun
    · have hwrap : wrap64 (mem.offsetOf addr + n) = mem.offsetOf addr + n := by
        apply wrap64_of_mem <;> omega
      rw [if_neg h, if_neg (by omega)]
      exact ⟨rfl, by omega⟩

theorem ends_memoryWrite (mem : Memory) (addr : Word) (data : List UInt8) :
    Ends (Memory.write addr data) mem (fun _ mem' => mem'.offsetBits = mem.offsetBits)
      (fun halt _ => halt ≠ .crashed) := by
  unfold Ends
  rw [Memory.run_write]
  rcases mem.resolve addr with fault | b
  · exact nofun
  · simp only
    by_cases h : b.size < mem.offsetOf addr + data.length
    · rw [if_pos h]
      exact nofun
    · rw [if_neg h]
      rfl

theorem ends_memoryCopy {mem : Memory} {ptrSize : Int} (hs : mem.Serves ptrSize) (dst src : Word)
    {n : Int} (hn : n ≤ Memory.largestRange) :
    Ends (Memory.copy dst src n) mem (fun _ mem' => mem'.offsetBits = mem.offsetBits)
      (fun halt _ => halt ≠ .crashed) := by
  unfold Memory.copy
  refine .ite' (fun _ => .pure' rfl) fun _ => ?_
  refine .bind' (ends_memoryRead hs src hn) ?_
  rintro data mem' ⟨rfl, -⟩
  exact ends_memoryWrite mem' dst data

theorem ends_memoryFree (mem : Memory) (addr : Word) :
    Ends (Memory.free addr) mem (fun _ mem' => mem'.offsetBits = mem.offsetBits)
      (fun halt mem' => halt ≠ .crashed ∧ mem' = mem) := by
  unfold Ends
  rw [Memory.run_free]
  by_cases h0 : addr = 0
  · rw [if_pos h0]
  · rw [if_neg h0]
    rcases mem.resolve addr with fault | b
    · exact ⟨nofun, rfl⟩
    · simp only
      by_cases h : mem.offsetOf addr ≠ 0
      · rw [if_pos h]
        exact ⟨nofun, rfl⟩
      · rw [if_neg h]
        rfl

/-- A request that only changes bytes and blocks changes nothing else of the
machine. -/
theorem ends_request_noCrash {α : Type} {r : Memory.Request α} {ok : α → Memory → Prop}
    (h : Ends r m.host.memory ok (fun halt _ => halt ≠ .crashed)) :
    Ends (request r) m (fun a m' => ∃ mem, ok a mem ∧ m' = m.withMemory mem) NoCrash := by
  refine .mono (ends_request m h fun _ hc => hc rfl) (fun _ _ h => h) ?_
  rintro _ _ ⟨fault, mem, rfl, -, -⟩
  exact nofun

theorem ends_load {r : Rep} (hr : r.Valid) {ptrSize : Int}
    (hs : m.host.memory.Serves ptrSize) (addr : Word) :
    Ends (load r addr) m (fun w m' => m' = m ∧ r.Canonical w) NoCrash := by
  unfold load
  refine .ite' (fun hc => .pure' ⟨rfl, ?_⟩) fun hc => ?_
  · unfold Rep.Canonical Rep.normalize
    rw [hc]
  · have hfits := hr.fitsRegister hc
    have hsize : r.size ≤ Memory.largestRange := by
      simp only [Rep.fitsRegister, Bool.and_eq_true, decide_eq_true_eq] at hfits
      unfold Memory.largestRange
      omega
    refine .bind' (ends_request_noCrash (ends_memoryRead hs addr hsize)) ?_
    rintro data _ ⟨_, ⟨rfl, -⟩, rfl⟩
    rw [if_pos hfits]
    exact .pure' ⟨rfl, r.canonical_decode data⟩

theorem ends_store {r : Rep} (hr : r.Valid) (hstruct : r.cls = .struct → r.size < 0x100000000)
    {ptrSize : Int} (hs : m.host.memory.Serves ptrSize) (addr bits : Word) :
    Ends (store r addr bits) m
      (fun _ m' => ∃ mem : Memory, mem.offsetBits = m.host.memory.offsetBits ∧
        m' = m.withMemory mem) NoCrash := by
  unfold store
  refine .ite' (fun hc => ?_) fun hc => ?_
  · have hsize : r.size ≤ Memory.largestRange := Int.le_of_lt (Int.lt_trans (hstruct hc) (by decide))
    exact ends_request_noCrash (ends_memoryCopy hs addr bits hsize)
  · rw [if_pos (hr.fitsRegister hc)]
    exact ends_request_noCrash (ends_memoryWrite _ addr _)

/-! ## Values of the running frame -/

theorem run_modifyFrame {fr : Frame} {rest : List Frame} (h : m.frames = fr :: rest)
    (g : Frame → Frame) :
    ((modifyFrame g).run m : Except (Halt Failure) Unit × Machine) =
      (.ok (), { m with frames := g fr :: rest }) := by
  obtain ⟨host, steps, frames⟩ := m
  subst h
  rfl

theorem ends_modifyFrame {fr : Frame} {rest : List Frame} (h : m.frames = fr :: rest)
    {g : Frame → Frame} {stop : Halt Failure → Machine → Prop} :
    Ends (modifyFrame g) m (fun _ m' => { m with frames := g fr :: rest } = m') stop := by
  unfold Ends
  rw [run_modifyFrame h]

end StepM

namespace Machine

variable {e : Engine} {root f : Func} {m : Machine}

theorem Sound.running (h : m.Sound e root) : ∃ f, m.Running e root f := by
  rcases hframes : m.frames with _ | ⟨fr, rest⟩
  · have hs := h.stack
    rw [hframes] at hs
    cases hs
  · exact ⟨fr.func, h, fr, rest, hframes, rfl⟩

theorem Running.withMemory (h : m.Running e root f) {mem : Memory}
    (hmem : mem.offsetBits = m.host.memory.offsetBits) : (m.withMemory mem).Running e root f :=
  ⟨⟨hmem.trans h.memory, h.stack⟩, h.top⟩

theorem Running.typed (hr : e.Runs root) (h : m.Running e root f) :
    f.Typed e.scope ∧ f.Ready False e.scope ∧ f.FrameFits := by
  obtain ⟨fr, rest, hframes, rfl⟩ := h.top
  have hs := h.stack
  rw [hframes] at hs
  obtain ⟨fn, hfn⟩ := hs.top.known
  exact ⟨hr.typed.func hfn, hr.typed.ready hfn hs.top.compiled,
    hr.fits _ hs.top.reached hs.top.compiled⟩

theorem Running.reached (h : m.Running e root f) : e.Reaches root f := by
  obtain ⟨fr, rest, hframes, rfl⟩ := h.top
  have hs := h.stack
  rw [hframes] at hs
  exact hs.top.reached

theorem Running.valid (hr : e.Runs root) (h : m.Running e root f) {v : ValueId} {info : ValueInfo}
    (hv : f.value? v = some info) : info.rep.Valid :=
  ((h.typed hr).1.value hv).rep.valid hr.usual

theorem Running.slot (hr : e.Runs root) (h : m.Running e root f) {fr : Frame} {rest : List Frame}
    (hframes : m.frames = fr :: rest) {v : ValueId} {info : ValueInfo} {slot : Int}
    (hv : fr.func.value? v = some info) (hslot : info.slot = some slot) :
    info.rep.size < 0x100000000 ∧
      (StepM.slotAddress fr slot).toNat < Memory.reach e.target.ptrSize := by
  obtain ⟨fr', rest', hframes', rfl⟩ := h.top
  obtain ⟨rfl, -⟩ := List.cons.inj (hframes.symm.trans hframes')
  obtain ⟨h0, hsize, hend⟩ := (h.typed hr).2.2 info (Func.mem_values hv) slot hslot
  have hs := h.stack
  rw [hframes] at hs
  obtain ⟨hreach, hframe⟩ := hs.top.base (by omega)
  refine ⟨by omega, ?_⟩
  have hle : Memory.reach e.target.ptrSize ≤ 0x10000000000000000 := by
    unfold Memory.reach
    split <;> omega
  have hadd : (StepM.slotAddress fr slot).toNat = fr.base.toNat + slot.toNat := by
    unfold StepM.slotAddress Word.ofInt
    rw [UInt64.toNat_add, Int.emod_eq_of_lt h0 (by omega)]
    rw [UInt64.toNat_ofNat']
    omega
  omega

theorem Running.struct_size (hr : e.Runs root) (h : m.Running e root f) {v : ValueId} {r : Rep}
    (hv : f.rep? v = some r) (hc : r.cls = .struct) : r.size < 0x100000000 := by
  obtain ⟨info, hinfo, rfl⟩ := Func.value?_of_rep? hv
  have hneeds : info.slot.isSome = true := by
    rw [(h.typed hr).2.1.slot hinfo]
    simp [ValueInfo.needsSlot, hc]
  obtain ⟨slot, hslot⟩ := Option.isSome_iff_exists.mp hneeds
  obtain ⟨fr, rest, hframes, rfl⟩ := h.top
  exact (h.slot hr hframes hinfo hslot).1

theorem Running.replace (h : m.Running e root f) {fr fr' : Frame} {rest : List Frame}
    (hframes : m.frames = fr :: rest) (hf : fr.Sound e root → fr'.Sound e root)
    (hfunc : fr'.func = fr.func) (hdest : fr'.dest = fr.dest) :
    ({ m with frames := fr' :: rest } : Machine).Running e root f := by
  have hs := h.stack
  rw [hframes] at hs
  refine ⟨⟨h.memory, hs.replace (hf hs.top) hfunc hdest⟩, fr', rest, rfl, ?_⟩
  obtain ⟨fr₀, rest₀, hframes₀, rfl⟩ := h.top
  obtain ⟨rfl, -⟩ := List.cons.inj (hframes.symm.trans hframes₀)
  exact hfunc

end Machine

namespace StepM

variable {e : Engine} {root f : Func} {m : Machine}

theorem ends_read (hr : e.Runs root) (h : m.Running e root f) {v : ValueId} {r : Rep}
    (hrep : f.rep? v = some r) :
    Ends (read v) m (fun w m' => m = m' ∧ r.Canonical w) NoCrash := by
  obtain ⟨info, hv, rfl⟩ := Func.value?_of_rep? hrep
  have hvalid := h.valid hr hv
  obtain ⟨fr, rest, hframes, rfl⟩ := h.top
  obtain ⟨-, hget, hlt⟩ := Func.value?_lt hv
  have hs := h.stack
  rw [hframes] at hs
  unfold read
  refine .bind' (ends_frame hframes) ?_
  rintro _ _ ⟨rfl, rfl⟩
  rw [hget]
  dsimp only
  rw [(h.typed hr).2.2.place?_eq hv]
  rcases hslot : info.slot with _ | slot
  · dsimp only
    have hreg : v < fr.regs.size := hs.top.regs ▸ hlt
    have hsome : fr.regs[v]? = some fr.regs[v] := Array.getElem?_eq_getElem hreg
    rw [hsome]
    exact .pure' ⟨rfl, hs.top.canonical hv hsome⟩
  · exact .mono (ends_load hvalid h.memory _) (fun _ _ hw => ⟨hw.1.symm, hw.2⟩) fun _ _ hw => hw

theorem ends_write (hr : e.Runs root) (h : m.Running e root f) {v : ValueId} {r : Rep}
    (hrep : f.rep? v = some r) {bits : Word} (hc : r.Canonical bits) :
    Ends (write v bits) m (fun _ m' => m'.Running e root f) NoCrash := by
  obtain ⟨info, hv, rfl⟩ := Func.value?_of_rep? hrep
  have hvalid := h.valid hr hv
  obtain ⟨fr, rest, hframes, rfl⟩ := h.top
  obtain ⟨-, hget, hlt⟩ := Func.value?_lt hv
  have hs := h.stack
  rw [hframes] at hs
  unfold write
  refine .bind' (ends_frame hframes) ?_
  rintro _ _ ⟨rfl, rfl⟩
  rw [hget]
  dsimp only
  rw [(h.typed hr).2.2.place?_eq hv]
  rcases hslot : info.slot with _ | slot
  · refine .mono (ends_modifyFrame hframes) ?_ fun _ _ h => h
    rintro _ _ rfl
    refine h.replace hframes (fun hf => ?_) rfl rfl
    refine ⟨hf.known, hf.compiled, hf.reached, hf.pc, by simp [hf.regs], ?_, hf.base⟩
    intro u info' w hu hw
    rw [Array.getElem?_setIfInBounds] at hw
    split at hw
    · next huv =>
      subst huv
      obtain rfl := Option.mem_unique hv hu
      split at hw
      · exact Option.some.inj hw ▸ hc
      · cases hw
    · exact hf.canonical hu hw
  · have hsize := (h.slot hr hframes hv hslot).1
    refine .mono (ends_store hvalid (fun _ => hsize) h.memory _ bits) ?_ fun _ _ h => h
    rintro _ _ ⟨mem, hmem, rfl⟩
    exact h.withMemory hmem

theorem ends_readAll (hr : e.Runs root) (h : m.Running e root f) {vs : List ValueId}
    (hvs : ∀ v ∈ vs, ∃ r, f.rep? v = some r) :
    Ends (readAll vs) m (fun ws m' => m = m' ∧ ws.length = vs.length) NoCrash := by
  induction vs with
  | nil => exact .pure' ⟨rfl, rfl⟩
  | cons v vs ih =>
    obtain ⟨r, hrep⟩ := hvs v List.mem_cons_self
    refine .bind' (ends_read hr h hrep) ?_
    rintro w _ ⟨rfl, -⟩
    refine .bind' (ih fun u hu => hvs u (List.mem_cons_of_mem v hu)) ?_
    rintro ws _ ⟨rfl, hlen⟩
    exact .pure' ⟨rfl, congrArg (· + 1) hlen⟩

/-! ## Calls and returns -/

theorem ends_setParams (hr : e.Runs root) (h : m.Running e root f) {params : List ValueId}
    (hp : ∀ p ∈ params, ∃ info, f.value? p = some info) {args : List Word}
    (hlen : args.length = params.length) :
    Ends (setParams f params args) m (fun _ m' => m'.Running e root f) NoCrash := by
  induction params generalizing args m with
  | nil =>
    unfold setParams
    exact .pure' h
  | cons p params ih =>
    rcases args with _ | ⟨a, args⟩
    · cases hlen
    · obtain ⟨info, hinfo⟩ := hp p List.mem_cons_self
      unfold setParams
      rw [(Func.value?_lt hinfo).2.1]
      refine .bind' (ends_write hr h (Func.rep?_of_value? hinfo)
        (info.rep.canonical_normalize a)) fun _ m' h' => ?_
      exact ih h' (fun q hq => hp q (List.mem_cons_of_mem p hq)) (Nat.succ.inj hlen)

theorem ends_fail {α : Type} {name : String} (c : Cause) :
    Ends (inFunction name (fail c : StepM α)) m (fun _ _ => False) NoCrash := by
  exact ends_inFunction m (.throw' nofun)

theorem ends_inFunction_noCrash {α : Type} {name : String} {act : StepM α}
    {ok : α → Machine → Prop} (h : Ends act m ok NoCrash) :
    Ends (inFunction name act) m ok NoCrash := by
  refine ends_inFunction m (.mono h (fun _ _ h => h) ?_)
  rintro (err | _) m' hc
  · exact nofun
  · exact hc

theorem canonical_initialRegs {sc : Scope} (hf : f.Typed sc) {v : ValueId} {info : ValueInfo}
    (hv : f.value? v = some info) {w : Word} (hw : (initialRegs f)[v]? = some w) :
    info.rep.Canonical w := by
  unfold initialRegs at hw
  rw [Array.getElem?_map, (Func.value?_lt hv).2.1] at hw
  obtain rfl := Option.some.inj hw
  by_cases hc : info.origin = .const
  · simpa [hc] using ((hf.value hv).const hc).2.1
  · simpa [hc] using info.rep.canonical_zero

theorem sound_entered (hr : e.Runs root) {gn : FuncId} {g : Func} (hg : e.func? gn = some g)
    (hc : g.compiled = true) (hreach : e.Reaches root g) {base : Word}
    (hbase : 0 < g.frameSize → (base.toNat : Int) + g.frameSize ≤ Memory.reach e.target.ptrSize ∧
      g.frameSize < 0x100000000) (depth : Nat) (dest : ValueId) :
    Frame.Sound e root { func := g, depth, regs := initialRegs g, base, dest } := by
  refine ⟨⟨gn, hg⟩, hc, hreach, Nat.zero_le _, ?_, ?_, hbase⟩
  · simp [initialRegs]
  · exact fun hv hw => canonical_initialRegs (hr.typed.func hg) hv hw

theorem ends_alloc {mem : Memory} {ptrSize : Int} (hs : mem.Serves ptrSize) (size : Int) :
    Ends (Memory.alloc size) mem
      (fun base mem' => mem'.offsetBits = mem.offsetBits ∧ 0 ≤ size ∧
        (base.toNat : Int) + size ≤ Memory.reach ptrSize ∧ size < 0x100000000 ∧
        base.toNat < Memory.reach ptrSize)
      (fun halt _ => halt ≠ .crashed) := by
  unfold Ends
  rw [Memory.run_alloc]
  by_cases hsize : size < 0 ∨ (twoTo mem.offsetBits : Int) ≤ size
  · rw [if_pos hsize]
    exact nofun
  · rw [if_neg hsize]
    by_cases hlast : mem.lastHandle < mem.blocks.size + 1
    · rw [if_pos hlast]
      exact nofun
    · rw [if_neg hlast]
      have h0 : 0 ≤ size := by omega
      have hlt : size < twoTo mem.offsetBits := by omega
      have hhandle : mem.blocks.size + 1 ≤ mem.lastHandle := by omega
      exact ⟨rfl, h0, (Memory.address_alloc hs h0 hlt hhandle).2⟩

theorem ends_enter (hr : e.Runs root) {gn : FuncId} {g : Func} (hg : e.findFunc gn = .ok g)
    (hreach : e.Reaches root g) {args : List Word} (hlen : args.length = g.params.length)
    (hmem : m.host.memory.Serves e.target.ptrSize) {depth : Nat} {caller : String}
    {dest : ValueId}
    (hstack : ∀ fr : Frame, fr.Sound e root → fr.func = g → fr.dest = dest →
      Stack.Sound e root (fr :: m.frames)) :
    Ends (enter e g args depth caller dest) m (fun _ m' => m'.Running e root g) NoCrash := by
  have hfn := (EngineM.findFunc_ok hg).1
  have htyped := hr.typed.func hfn
  have hparams : ∀ p ∈ g.params, ∃ info, g.value? p = some info := by
    intro p hp
    obtain ⟨info, hinfo, -⟩ := htyped.param hp
    exact ⟨info, hinfo⟩
  unfold enter
  extract_lets start alloc check
  refine .ite' (fun _ => .bind' (ends_fail _) fun _ _ => False.elim) fun hcompiled => ?_
  refine .ite' (fun _ => .bind' (ends_fail _) fun _ _ => False.elim) fun _ => ?_
  have hstart : ∀ base m', m'.frames = m.frames → m'.host.memory.Serves e.target.ptrSize →
      (0 < g.frameSize → (base.toNat : Int) + g.frameSize ≤ Memory.reach e.target.ptrSize ∧
        g.frameSize < 0x100000000) →
      Ends (start base) m' (fun _ m' => m'.Running e root g) NoCrash := by
    intro base m' hframes hmem' hbase
    refine .bind_modify ?_
    refine ends_inFunction_noCrash (ends_setParams hr ?_ hparams hlen)
    refine ⟨⟨hmem', ?_⟩, _, _, rfl, rfl⟩
    dsimp only
    rw [hframes]
    exact hstack _ (sound_entered hr hfn (by simpa using hcompiled) hreach hbase _ dest) rfl rfl
  refine .ite' (fun _ => ?_) fun hno => ?_
  · refine .bind' (ends_inFunction_noCrash (ends_request_noCrash (ends_alloc hmem _))) ?_
    rintro base _ ⟨mem, ⟨hbits, -, hend, hlt, -⟩, rfl⟩
    exact hstart base _ rfl (hbits.trans hmem) fun _ => ⟨hend, hlt⟩
  · exact .bind_pure (hstart _ _ rfl hmem fun h => absurd h hno)

theorem ends_release (addr : Word) :
    Ends (release addr) m
      (fun _ m' => ∃ mem : Memory, mem.offsetBits = m.host.memory.offsetBits ∧
        m' = m.withMemory mem) (fun _ _ => False) := by
  unfold release
  refine .ite' (fun _ => .pure' ⟨_, rfl, rfl⟩) fun _ => .tryCatch' ?_
  refine .mono (ends_request m (ends_memoryFree _ addr) fun _ h => h.1 rfl) (fun _ _ h => h) ?_
  rintro _ _ ⟨fault, mem, rfl, ⟨-, rfl⟩, rfl⟩
  exact .pure' ⟨_, rfl, rfl⟩

theorem ends_releaseAll (addrs : List Word) :
    Ends (addrs.forM release) m
      (fun _ m' => ∃ mem : Memory, mem.offsetBits = m.host.memory.offsetBits ∧
        m' = m.withMemory mem) (fun _ _ => False) := by
  induction addrs generalizing m with
  | nil => exact .pure' ⟨_, rfl, rfl⟩
  | cons a addrs ih =>
    refine .bind' (ends_release a) ?_
    rintro _ _ ⟨mem, hmem, rfl⟩
    refine .mono ih ?_ fun _ _ h => h
    rintro _ _ ⟨mem', hmem', rfl⟩
    exact ⟨mem', hmem'.trans hmem, rfl⟩

theorem ends_releaseFrame (fr : Frame) :
    Ends (releaseFrame fr) m
      (fun _ m' => ∃ mem : Memory, mem.offsetBits = m.host.memory.offsetBits ∧
        m' = m.withMemory mem) (fun _ _ => False) := by
  unfold releaseFrame
  refine .bind' (ends_releaseAll _) ?_
  rintro _ _ ⟨mem, hmem, rfl⟩
  refine .mono (ends_release _) ?_ fun _ _ h => h
  rintro _ _ ⟨mem', hmem', rfl⟩
  exact ⟨mem', hmem'.trans hmem, rfl⟩

/-- What a step leaves: a sound machine, or a result that is canonical for the
function that was called. -/
def Goes (e : Engine) (root : Func) : Option Word → Machine → Prop
  | none, m => m.Sound e root
  | some w, _ => root.ret.Canonical w

theorem ends_leave (hr : e.Runs root) (h : m.Running e root f) {bits : Word}
    (hbits : f.ret.Canonical bits) : Ends (leave bits) m (Goes e root) NoCrash := by
  obtain ⟨fr, rest, hframes, rfl⟩ := h.top
  have hs := h.stack
  rw [hframes] at hs
  unfold leave
  refine .bind' (ends_frame hframes) ?_
  rintro _ _ ⟨rfl, rfl⟩
  refine .bind' (.mono (ends_releaseFrame fr) (fun _ _ h => h) fun _ _ h => h.elim) ?_
  rintro _ _ ⟨mem, hmem, rfl⟩
  refine .bind_modify (.bind_get ?_)
  dsimp only [Machine.withMemory_frames]
  rw [hframes]
  cases hs with
  | outer _ hroot => exact .pure' (hroot ▸ hbits)
  | @inner _ caller rest _ hdest hrest =>
    simp only [List.drop_succ_cons, List.drop_zero]
    have hcaller : Machine.Sound e root
        ⟨(m.withMemory mem).host, (m.withMemory mem).steps, caller :: rest⟩ :=
      ⟨hmem.trans h.memory, hrest⟩
    refine .ite' (fun hv => ?_) fun _ => .pure' hcaller
    refine .bind' (ends_inFunction_noCrash
      (ends_write hr ⟨hcaller, caller, rest, rfl, rfl⟩ (hdest hv) hbits)) ?_
    exact fun _ _ h' => .pure' h'.toSound

/-! ## Instructions -/

theorem ends_jump (hr : e.Runs root) (h : m.Running e root f) {i : Insn}
    (hi : (f.target? i).isSome) :
    Ends (jump f i) m (fun _ m' => m'.Running e root f) NoCrash := by
  obtain ⟨pc, hpc⟩ := Option.isSome_iff_exists.mp hi
  obtain ⟨fr, rest, hframes, rfl⟩ := h.top
  unfold jump
  rw [hpc]
  refine .mono (ends_modifyFrame hframes) ?_ fun _ _ h => h
  rintro _ _ rfl
  refine h.replace hframes (fun hf => ?_) rfl rfl
  refine ⟨hf.known, hf.compiled, hf.reached, ?_, hf.regs, hf.canonical, hf.base⟩
  exact Nat.le_of_lt ((h.typed hr).1.target_lt hpc)

theorem ends_callNative (hr : e.Runs root) (h : m.Running e root f) {i : Insn}
    (hi : i ∈ f.insns) (hop : i.op = .callNative) (hd : f.rep? i.dest = some i.rep)
    (hargs : ∀ v ∈ i.args, ∃ r, f.rep? v = some r) :
    Ends (callNative e f i) m (fun _ m' => m'.Running e root f) NoCrash := by
  unfold callNative
  rcases hn : e.natives.find? i.native with _ | run
  · exact .throw' nofun
  · refine .bind' (ends_readAll hr h hargs) ?_
    rintro bits _ ⟨rfl, -⟩
    extract_lets args
    refine .bind_get (.bind_set ?_)
    have htotal := hr.total f h.reached i hi hop run hn { name := i.native, args, ret := i.rep } m.host
    unfold Ends at htotal
    rcases hrun : ((run { name := i.native, args, ret := i.rep }).run m.host
      : Except (Halt NativeError) Word × Host) with ⟨answer, host⟩
    rw [hrun] at htotal
    dsimp only
    refine .bind_modify ?_
    rcases answer with (c | _) | res
    · cases c <;> exact .throw' nofun
    · exact (htotal.1 rfl).elim
    · have hrun' : Machine.Running e root f { m with host } :=
        ⟨⟨htotal.trans h.memory, h.stack⟩, h.top⟩
      refine .ite' (fun _ => .pure' hrun') fun _ => ?_
      exact ends_write hr hrun' hd (i.rep.canonical_normalize res)

theorem ends_allocaSize (n : Word) : Ends (allocaSize n) m (fun _ m' => m = m') NoCrash := by
  unfold allocaSize
  exact .ite' (fun _ => .pure' rfl) fun _ => .throw' nofun

theorem ends_onTwo (hr : e.Runs root) (h : m.Running e root f) {a b : ValueId} {ra rb : Rep}
    (ha : f.rep? a = some ra) (hb : f.rep? b = some rb) {k : Word → Word → StepM Unit}
    (hk : ∀ x y, Ends (k x y) m (fun _ m' => m'.Running e root f) NoCrash) :
    Ends (do
      let x ← read a
      let y ← read b
      k x y) m (fun _ m' => m'.Running e root f) NoCrash := by
  refine .bind' (ends_read hr h ha) ?_
  rintro x _ ⟨rfl, -⟩
  refine .bind' (ends_read hr h hb) ?_
  rintro y _ ⟨rfl, -⟩
  exact hk x y

theorem execute_binary {op : Opcode} (hop : op.isBinary = true) (depth : Nat) (dest a b : ValueId)
    (rep : Rep) :
    execute e f depth { op, dest, a, b, rep } = (do
      let x ← read a
      let y ← read b
      match evalBinary op rep x y with
      | .ok z => write dest z
      | .error c => fail c) := by
  cases op <;> first | exact (Bool.false_ne_true hop).elim | rfl

theorem execute_compare {op : Opcode} (hop : op.isCompare = true) (depth : Nat)
    (dest a b : ValueId) (rep : Rep) :
    execute e f depth { op, dest, a, b, rep } = (do
      let x ← read a
      let y ← read b
      write dest (evalCompare op rep x y)) := by
  cases op <;> first | exact (Bool.false_ne_true hop).elim | rfl

theorem ends_execute (hr : e.Runs root) (h : m.Running e root f) {i : Insn}
    (hi : i ∈ f.insns) (hplain : i.op.isPlain = true) (depth : Nat) :
    Ends (execute e f depth i) m (fun _ m' => m'.Running e root f) NoCrash := by
  obtain ⟨htyped, hready, -⟩ := h.typed hr
  cases htyped.insn i hi with
  | @binary op dest a b rep ra rb hop hd ha hb =>
    rw [execute_binary hop]
    refine ends_onTwo hr h ha hb fun x y => ?_
    rcases hz : evalBinary op rep x y with c | z
    · exact .throw' nofun
    · exact ends_write hr h hd (canonical_evalBinary hz)
  | compare hop hd ha hb _ =>
    rw [execute_compare hop]
    exact ends_onTwo hr h ha hb fun x y => ends_write hr h hd (canonical_evalCompare _ _ x y)
  | unary hop hd ha =>
    rcases hop with rfl | rfl <;>
    · refine .bind' (ends_read hr h ha) ?_
      rintro x _ ⟨rfl, -⟩
      exact ends_write hr h hd (canonical_evalUnary _ _ x)
  | test hop hd ha =>
    rcases hop with rfl | rfl <;>
    · refine .bind' (ends_read hr h ha) ?_
      rintro x _ ⟨rfl, -⟩
      exact ends_write hr h hd (Rep.canonical_ofBool _)
  | convert ht hd ha =>
    refine .bind' (ends_read hr h ha) ?_
    rintro x _ ⟨rfl, -⟩
    obtain ⟨info, hinfo, rfl⟩ := Func.value?_of_rep? hd
    rw [(Func.value?_lt hinfo).2.1]
    exact ends_write hr h hd (canonical_convertWord _ _ x)
  | copy hd ha hc =>
    refine .bind' (ends_read hr h ha) ?_
    rintro x _ ⟨rfl, hx⟩
    exact ends_write hr h hd hx
  | @addressOf dest a info ha hm hd =>
    obtain ⟨fr, rest, hframes, hfunc⟩ := h.top
    have hneeds : info.slot.isSome = true := by
      rw [hready.slot ha]
      simp [ValueInfo.needsSlot, hm]
    obtain ⟨slot, hslot⟩ := Option.isSome_iff_exists.mp hneeds
    unfold execute
    dsimp only
    rw [(Func.value?_lt ha).2.1]
    refine .bind' (ends_frame hframes) ?_
    rintro _ _ ⟨rfl, rfl⟩
    rw [hslot]
    have hlt := (h.slot hr hframes (hfunc ▸ ha) hslot).2
    exact ends_write hr h hd (canonical_pointerRep hr.usual hlt)
  | loadRel ht hv hd ha =>
    refine .bind' (ends_read hr h ha) ?_
    rintro p _ ⟨rfl, -⟩
    refine .bind' (ends_load (ht.valid hr.usual) h.memory _) ?_
    rintro x _ ⟨rfl, hx⟩
    exact ends_write hr h hd hx
  | storeRel ht ha hb =>
    refine .mono (ends_onTwo hr h ha hb fun p x => ?_) (fun _ _ h => h) fun _ _ h => h
    refine .mono (ends_store (ht.valid hr.usual) (h.struct_size hr hb) h.memory _ x) ?_
      fun _ _ h => h
    rintro _ _ ⟨mem, hmem, rfl⟩
    exact h.withMemory hmem
  | loadElem ht hv hd ha hb =>
    refine ends_onTwo hr h ha hb fun p index => ?_
    refine .bind' (ends_load (ht.valid hr.usual) h.memory _) ?_
    rintro x _ ⟨rfl, hx⟩
    exact ends_write hr h hd hx
  | storeElem ht ha hb hv =>
    refine ends_onTwo hr h ha hb fun p index => ?_
    refine .bind' (ends_read hr h hv) ?_
    rintro x _ ⟨rfl, -⟩
    refine .mono (ends_store (ht.valid hr.usual) (h.struct_size hr hv) h.memory _ x) ?_
      fun _ _ h => h
    rintro _ _ ⟨mem, hmem, rfl⟩
    exact h.withMemory hmem
  | alloca hd ha =>
    refine .bind' (ends_read hr h ha) ?_
    rintro n _ ⟨rfl, -⟩
    refine .bind' (ends_allocaSize n) ?_
    rintro size _ rfl
    refine .bind' (ends_request_noCrash (ends_alloc h.memory size)) ?_
    rintro p _ ⟨mem, ⟨hmem, -, -, -, hp⟩, rfl⟩
    have h' := h.withMemory hmem
    obtain ⟨fr, rest, hframes, -⟩ := h'.top
    refine .bind' (ends_modifyFrame hframes) ?_
    rintro _ _ rfl
    have hkept : fr.Sound e root → Frame.Sound e root { fr with allocas := p :: fr.allocas } :=
      fun hf => ⟨hf.known, hf.compiled, hf.reached, hf.pc, hf.regs, hf.canonical, hf.base⟩
    exact ends_write hr (h'.replace hframes hkept rfl rfl) hd (canonical_pointerRep hr.usual hp)
  | callNative _ hd =>
    refine ends_callNative hr h hi rfl hd fun v hv => ?_
    exact (htyped.insn _ hi).operands v (List.mem_cons_of_mem _ hv)
  | @math dest args op rep hop hc hd hl hargs =>
    refine .bind' (ends_readAll hr h fun v hv => ⟨rep, hargs v hv⟩) ?_
    rintro ws _ ⟨rfl, hlen⟩
    obtain ⟨z, hz⟩ := evalMath_of_arity rep (hlen.trans hl).ge
    dsimp only
    rw [hz]
    exact ends_write hr h hd (canonical_evalMath hc hz)
  | branchOn hop => rcases hop with rfl | rfl <;> cases hplain
  | label | branch | ret | retNone | call => cases hplain

theorem ends_call (hr : e.Runs root) (h : m.Running e root f) {i : Insn} (hi : i ∈ f.insns)
    (hop : i.op = .call) (depth : Nat) :
    Ends (execute e f depth i) m (fun _ m' => m'.Sound e root) NoCrash := by
  obtain ⟨htyped, -, -⟩ := h.typed hr
  obtain ⟨fr, rest, hframes, hfunc⟩ := h.top
  have hs := h.stack
  rw [hframes] at hs
  cases htyped.insn i hi with
  | @call dest args callee type hd ht hh hdest hargs =>
    unfold execute
    dsimp only
    rcases hg : e.findFunc callee with err | g
    · exact .throw' nofun
    · have hfn := (EngineM.findFunc_ok hg).1
      obtain rfl := Engine.head_eq hh hfn
      refine .bind' (ends_readAll hr h fun v hv => ?_) ?_
      · exact (htyped.insn _ hi).operands v (List.mem_cons_of_mem dest hv)
      · rintro ws _ ⟨rfl, hlen⟩
        have hcalls : e.Reaches root g :=
          (hfunc ▸ hs.top.reached).tail ⟨_, hi, rfl, hg⟩
        refine .mono (ends_enter hr hg hcalls ?_ h.memory ?_) (fun _ _ h => h.toSound)
          fun _ _ h => h
        · rw [hlen, hargs.length_eq, (hr.typed.func hfn).length_head_params]
        · intro fr' hfr' hfunc' hdest'
          rw [hframes]
          refine .inner hfr' (fun _ => ?_) hs
          rw [hfunc, hfunc', hdest']
          exact hdest
  | binary hop' | compare hop' => simp only at hop; subst hop; cases hop'
  | unary hop' | test hop' | branchOn hop' => simp only at hop; subst hop; simp at hop'
  | _ => cases hop

theorem dispatch_plain {i : Insn} (hplain : i.op.isPlain = true) (depth : Nat) :
    dispatch e f depth i = (do
      execute e f depth i
      pure none) := by
  obtain ⟨op⟩ := i
  cases op <;> first | exact (Bool.false_ne_true hplain).elim | rfl

theorem ends_dispatch (hr : e.Runs root) (h : m.Running e root f) {i : Insn} (hi : i ∈ f.insns)
    (depth : Nat) : Ends (dispatch e f depth i) m (Goes e root) NoCrash := by
  obtain ⟨htyped, hready, -⟩ := h.typed hr
  have hgoes : ∀ {act : StepM Unit}, Ends act m (fun _ m' => m'.Running e root f) NoCrash →
      Ends (do act; pure none) m (Goes e root) NoCrash :=
    fun hact => .bind' hact fun _ _ h' => .pure' h'.toSound
  have hplain : i.op.isPlain = true → Ends (dispatch e f depth i) m (Goes e root) NoCrash := by
    intro hop
    rw [dispatch_plain hop]
    exact hgoes (ends_execute hr h hi hop depth)
  cases htyped.insn i hi with
  | label => exact .pure' h.toSound
  | branch => exact hgoes (ends_jump hr h (hready.placed _ hi rfl))
  | branchOn hop _ ha =>
    rcases hop with rfl | rfl <;>
    · refine .bind' (ends_read hr h ha) ?_
      rintro c _ ⟨rfl, -⟩
      exact .ite' (fun _ => hgoes (ends_jump hr h (hready.placed _ hi rfl)))
        fun _ => .pure' h.toSound
  | @ret a ha =>
    have h0 : a ≠ 0 := by
      rintro rfl
      cases ha
    show Ends (if a = 0 then leave 0 else do leave (← read a)) m _ _
    rw [if_neg h0]
    refine .bind' (ends_read hr h ha) ?_
    rintro w _ ⟨rfl, hw⟩
    exact ends_leave hr h hw
  | retNone hv => exact ends_leave hr h f.ret.canonical_zero
  | call =>
    exact .bind' (ends_call hr h hi rfl depth) fun _ _ h' => .pure' h'
  | binary hop => exact hplain (Opcode.isPlain_of_binary hop)
  | compare hop => exact hplain (Opcode.isPlain_of_compare hop)
  | unary hop | test hop => rcases hop with rfl | rfl <;> exact hplain rfl
  | convert | copy | addressOf | loadRel | storeRel | loadElem | storeElem | alloca | callNative
  | math => exact hplain rfl

/-- One step of a sound machine leaves a sound machine or a canonical result, or
it fails; it never crashes. -/
theorem ends_step (hr : e.Runs root) (h : m.Sound e root) :
    Ends (step e) m (Goes e root) NoCrash := by
  obtain ⟨f, hrun⟩ := h.running
  obtain ⟨fr, rest, hframes, rfl⟩ := hrun.top
  unfold step
  refine .bind' (ends_frame hframes) ?_
  rintro _ _ ⟨rfl, rfl⟩
  dsimp only
  rcases hi : fr.func.insns[fr.pc]? with _ | i
  · exact ends_leave hr hrun fr.func.ret.canonical_zero
  · obtain ⟨hlt, hget⟩ := Array.getElem?_eq_some_iff.mp hi
    refine .bind_modify (ends_inFunction_noCrash (.bind_get ?_))
    refine .ite' (fun _ => .bind_throw nofun) fun _ => ?_
    have hcounted : Machine.Running e root fr.func { m with steps := m.steps + 1 } :=
      ⟨⟨hrun.memory, hrun.stack⟩, hrun.top⟩
    have htop : ({ m with steps := m.steps + 1 } : Machine).frames = fr :: rest := hframes
    have hnext : fr.Sound e root → Frame.Sound e root { fr with pc := fr.pc + 1 } :=
      fun hf => ⟨hf.known, hf.compiled, hf.reached, hlt, hf.regs, hf.canonical, hf.base⟩
    refine .bind' (ends_modifyFrame htop) ?_
    rintro _ _ rfl
    exact ends_dispatch hr (hcounted.replace htop hnext rfl rfl)
      (hget ▸ Array.getElem_mem hlt) fr.depth

end StepM

end TypedIR
