import TypedIR.Proofs.AlikeRuns
import TypedIR.Proofs.CallMemory

/-
  What a run does to blocks that are not its own.

  Several calls share one memory. A call whose code is local reads and writes the
  blocks of its frames and no others: a slot lies in the block of its frame, and what
  a frame frees is what it reserved. So a block that was live before the call and that
  none of its frames has reserved stays as it is, byte for byte (`Machine.Spares`),
  whatever the code computes and however the call ends.
-/

namespace TypedIR

namespace Memory

variable {mem mem' : Memory} {a addr : Word} {b : Block}

def Touches (addr : Word) (mem mem' : Memory) : Prop :=
  mem' = mem ∨ 0 < mem.handleOf addr ∧ ∃ x n, mem' = { mem.putBlock addr x with live := n }

theorem Touches.bits (h : Touches addr mem mem') : mem'.offsetBits = mem.offsetBits := by
  obtain rfl | ⟨-, x, n, rfl⟩ := h
  · rfl
  · rfl

theorem Touches.holds (h : Touches addr mem mem') (hne : mem.handleOf addr ≠ mem.handleOf a)
    (hb : mem.Holds a b) : mem'.Holds a b := by
  obtain rfl | ⟨h0, x, n, rfl⟩ := h
  · exact hb
  · exact hb.put_other h0 hne x n

theorem handle_pos (h : mem.resolve addr = .ok b) : 0 < mem.handleOf addr := by
  obtain ⟨i, hi, -⟩ := Shows.of_resolve h
  omega

theorem touches_write (addr : Word) (data : List UInt8) : Leaves (Touches addr) (write addr data) := by
  intro mem
  rw [run_write]
  cases hr : mem.resolve addr with
  | error f => exact .inl rfl
  | ok b =>
    dsimp only
    split
    · exact .inl rfl
    · exact .inr ⟨handle_pos hr, _, _, rfl⟩

theorem touches_copy (dst src : Word) (n : Int) : Leaves (Touches dst) (copy dst src n) := by
  intro mem
  rw [run_copy]
  split
  · exact .inl rfl
  · cases ((read src n).run mem : Except (Halt Fault) (List UInt8) × Memory).1 with
    | error h => exact .inl rfl
    | ok data => exact touches_write dst data mem

theorem touches_free (addr : Word) : Leaves (Touches addr) (free addr) := by
  intro mem
  rw [run_free]
  split
  · exact .inl rfl
  · cases hr : mem.resolve addr with
    | error f => exact .inl rfl
    | ok b =>
      dsimp only
      split
      · exact .inl rfl
      · exact .inr ⟨handle_pos hr, _, _, rfl⟩

end Memory

/-! ## Frames and machines -/

/-- Neither the slots of a frame nor what it has reserved is in the block of an
address. -/
structure Frame.Spares (mem : Memory) (a : Word) (fr : Frame) : Prop where
  written : ∀ x ∈ fr.written, x = 0 ∨ mem.handleOf x ≠ mem.handleOf a
  slots : ∀ info ∈ fr.func.values.toList, ∀ slot, info.place? = some slot →
    mem.handleOf (StepM.slotAddress fr slot) ≠ mem.handleOf a

/-- The slots of a function lie in its frame; the placeholder stands at the start
of it, also if there is none. -/
def Func.SlotsInside (f : Func) : Prop :=
  ∀ info ∈ f.values.toList, ∀ slot, info.place? = some slot → 0 ≤ slot ∧ slot < max f.frameSize 1

theorem Func.Typed.slotsInside {sc : Scope} {f : Func} (h : f.Typed sc) (hfits : f.FrameFits) :
    f.SlotsInside := by
  intro info hi slot hs
  obtain ⟨v, hv, rfl⟩ := List.mem_iff_getElem.mp hi
  by_cases h0 : v = 0
  · subst h0
    have hfirst := h.first
    rw [Array.getElem?_eq_getElem (by simpa using hv)] at hfirst
    have hplace : f.values.toList[0] = .placeholder := by simpa using hfirst
    rw [hplace] at hs
    obtain rfl : 0 = slot := Option.some.inj hs
    omega
  · have hvalue : f.value? v = some f.values.toList[v] := by
      unfold Func.value?
      rw [if_neg h0, Array.getElem?_eq_getElem (by simpa using hv)]
      simp
    rw [hfits.place?_eq hvalue] at hs
    have := hfits _ (Func.mem_values hvalue) slot hs
    omega

theorem Frame.Housed.spares {mem : Memory} {fr : Frame} (h : fr.Housed mem)
    (hslots : fr.func.SlotsInside) {a : Word} {b : Block} (hb : mem.Holds a b)
    (hapart : 0 < fr.func.frameSize → mem.handleOf fr.base ≠ mem.handleOf a) :
    fr.Spares mem a := by
  have hwritten : ∀ x ∈ fr.written, x = fr.base := fun x hx => by
    simpa [Frame.written, h.allocas] using hx
  by_cases hsize : 0 < fr.func.frameSize
  · obtain ⟨c, hc, hcs⟩ := h.block hsize
    refine ⟨fun x hx => .inr (hwritten x hx ▸ hapart hsize), fun info hi slot hs => ?_⟩
    obtain ⟨h0, hend⟩ := hslots info hi slot hs
    have hlow := hc.low
    have haddr : StepM.slotAddress fr slot = fr.base + UInt64.ofNat slot.toNat := by
      unfold StepM.slotAddress Word.ofInt
      rw [Int.emod_eq_of_lt h0 (by omega)]
    rw [haddr, (hc.resolve (k := slot.toNat) (by omega)).1]
    exact hapart hsize
  · have hbase := h.none (by omega)
    refine ⟨fun x hx => .inl ((hwritten x hx).trans hbase), fun info hi slot hs => ?_⟩
    -- only the placeholder stands here, at address 0
    obtain ⟨h0, hend⟩ := hslots info hi slot hs
    obtain rfl : slot = 0 := by omega
    have hzero : StepM.slotAddress fr 0 = 0 := by
      unfold StepM.slotAddress
      rw [hbase]
      rfl
    have hpos := hb.handle
    rw [hzero]
    simp only [Memory.handleOf, UInt64.toNat_zero, Nat.zero_div] at hpos ⊢
    omega

def Engine.SlotsInside (e : Engine) (root : Func) : Prop :=
  ∀ g, e.Reaches root g → g.compiled = true → g.SlotsInside

/-- The machine runs code that `root` reaches, blocks of others are as `foreign` has
them, and no frame has to do with them. -/
structure Machine.Spares (e : Engine) (root : Func) (foreign : Word → Block → Prop) (m : Machine) :
    Prop where
  reached : ∀ fr ∈ m.frames, e.Reaches root fr.func
  serves : m.host.memory.Serves e.target.ptrSize
  holds : ∀ a b, foreign a b → m.host.memory.Holds a b
  apart : ∀ a b, foreign a b → ∀ fr ∈ m.frames, fr.Spares m.host.memory a

section

variable {e : Engine} {root : Func} {foreign : Word → Block → Prop} {m : Machine}

theorem Frame.Spares.congr {mem mem' : Memory} {a : Word} {fr fr' : Frame} (h : fr.Spares mem a)
    (hm : mem'.offsetBits = mem.offsetBits) (hf : fr'.func = fr.func) (hb : fr'.base = fr.base)
    (ha : fr'.allocas = fr.allocas) : fr'.Spares mem' a := by
  have hhandle : ∀ x, mem'.handleOf x = mem.handleOf x := fun x => by
    unfold Memory.handleOf
    rw [hm]
  refine ⟨fun x hx => ?_, fun info hi slot hs => ?_⟩
  · unfold Frame.written at hx
    rw [hb, ha] at hx
    rw [hhandle, hhandle]
    exact h.written x hx
  · rw [hf] at hi
    unfold StepM.slotAddress
    rw [hb, hhandle, hhandle]
    exact h.slots info hi slot hs

namespace Machine.Spares

theorem frames (h : m.Spares e root foreign) {fr : Frame} {rest : List Frame}
    (hm : m.frames = fr :: rest) {fr' : Frame} (hf : fr'.func = fr.func) (hb : fr'.base = fr.base)
    (ha : fr'.allocas = fr.allocas) (steps : Nat) :
    Spares e root foreign { m with steps, frames := fr' :: rest } := by
  refine ⟨?_, h.serves, h.holds, fun a b hab => ?_⟩
  · have hr := h.reached
    rw [hm] at hr
    obtain ⟨hfr, hrest⟩ := List.forall_mem_cons.mp hr
    exact List.forall_mem_cons.mpr ⟨hf ▸ hfr, hrest⟩
  · have hall := h.apart a b hab
    rw [hm] at hall
    obtain ⟨hfr, hrest⟩ := List.forall_mem_cons.mp hall
    exact List.forall_mem_cons.mpr ⟨hfr.congr rfl hf hb ha, hrest⟩

theorem touched (h : m.Spares e root foreign) {addr : Word} {mem : Memory}
    (ht : Memory.Touches addr m.host.memory mem)
    (hne : ∀ a b, foreign a b → m.host.memory.handleOf addr ≠ m.host.memory.handleOf a) :
    (m.withMemory mem).Spares e root foreign := by
  refine ⟨h.reached, ht.bits.trans h.serves, fun a b hab => ?_, fun a b hab fr hfr => ?_⟩
  · exact ht.holds (hne a b hab) (h.holds a b hab)
  · exact (h.apart a b hab fr hfr).congr ht.bits rfl rfl rfl

theorem dropped (h : m.Spares e root foreign) (n : Nat) :
    Spares e root foreign { m with frames := m.frames.drop n } :=
  ⟨fun fr hfr => h.reached fr (List.mem_of_mem_drop hfr), h.serves, h.holds,
    fun a b hab fr hfr => h.apart a b hab fr (List.mem_of_mem_drop hfr)⟩

end Machine.Spares

namespace StepM

open Machine

variable {α : Type} {f : Func}

/-! ## Reading and writing -/

theorem onward_request {r : Memory.Request α} {addr : Word} (hr : Leaves (Memory.Touches addr) r)
    (h : m.Spares e root foreign)
    (hne : ∀ a b, foreign a b → m.host.memory.handleOf addr ≠ m.host.memory.handleOf a) :
    Ends (request r) m (fun _ m' => m'.Spares e root foreign)
      fun _ m' => m'.Spares e root foreign := by
  have hmem := hr m.host.memory
  unfold Ends
  rw [run_request]
  rcases hrun : (r.run m.host.memory : Except (Halt Fault) α × Memory) with ⟨(_ | _) | _, mem⟩ <;>
  · rw [hrun] at hmem
    exact h.touched hmem hne

theorem onward_store (h : m.Spares e root foreign) (r : Rep) {addr : Word} (bits : Word)
    (hne : ∀ a b, foreign a b → m.host.memory.handleOf addr ≠ m.host.memory.handleOf a) :
    Ends (store r addr bits) m (fun _ m' => m'.Spares e root foreign)
      fun _ m' => m'.Spares e root foreign :=
  .ite' (fun _ => onward_request (Memory.touches_copy _ _ _) h hne)
    fun _ => .ite' (fun _ => onward_request (Memory.touches_write _ _) h hne) fun _ => .throw' h

theorem onward_write (v : ValueId) (bits : Word) :
    Leaves (Onward (Spares e root foreign)) (write v bits) := by
  intro m h
  refine Ends.state ?_
  cases hframes : m.frames with
  | nil => exact (ends_noFrame hframes).mono (fun _ _ h => h.elim) fun _ _ hm => hm ▸ h
  | cons fr rest =>
    refine .bind' (ends_frame hframes) ?_
    rintro _ _ ⟨rfl, rfl⟩
    cases hv : fr.func.values[v]? with
    | none => exact .throw' h
    | some info =>
      cases hslot : info.place? with
      | some slot =>
        simp only [hslot]
        have hmem : info ∈ fr.func.values.toList := by
          obtain ⟨hlt, rfl⟩ := Array.getElem?_eq_some_iff.mp hv
          exact Array.mem_toList_iff.mpr (Array.getElem_mem hlt)
        refine onward_store h _ _ fun a b hab => ?_
        exact (h.apart a b hab fr (hframes ▸ List.mem_cons_self)).slots info hmem slot hslot
      | none =>
        simp only [hslot]
        refine (ends_modifyFrame hframes).imp ?_
        rintro _ _ rfl
        refine h.frames hframes ?_ ?_ ?_ m.steps
        all_goals rfl

/-! ## Entering and leaving -/

theorem onward_enter (hslots : e.SlotsInside root) (hreach : e.Reaches root f) (args : List Word)
    (depth : Nat) (caller : String) (dest : ValueId) :
    Leaves (Onward (Spares e root foreign)) (enter e f args depth caller dest) := by
  intro m h
  refine Ends.state ?_
  have hstop : ∀ {c : Cause} {k : PUnit → StepM Unit}, Ends (inFunction f.name (fail c) >>= k) m
      (fun _ m' => m'.Spares e root foreign) fun _ m' => m'.Spares e root foreign :=
    Ends.stopped (ends_inFunction m (.throw' h))
  have hparams : ∀ {m' : Machine}, m'.Spares e root foreign →
      Ends (inFunction caller (setParams f f.params args)) m'
        (fun _ m' => m'.Spares e root foreign) fun _ m' => m'.Spares e root foreign :=
    fun h' => .of_state (leaves_inFunction (leaves_setParams args fun p _ => onward_write p) _ h')
  rw [enter_eq]
  refine .ite' (fun _ => hstop) fun hc => .ite' (fun _ => hstop) fun _ => ?_
  have hinside := hslots f hreach (by simpa using hc)
  unfold reserve
  by_cases hsize : 0 < f.frameSize
  · rw [if_pos hsize]
    have halloc := ends_alloc h.serves f.frameSize
    unfold Ends at halloc
    have hreserve : Ends (inFunction f.name (request (Memory.alloc f.frameSize))) m
        (fun base m' => Spares e root foreign
          { m' with frames := entryFrame f (depth + 1) base dest :: m'.frames })
        fun _ m' => m'.Spares e root foreign := by
      unfold Ends
      rw [run_inFunction, run_request]
      rcases hr : ((Memory.alloc f.frameSize).run m.host.memory :
        Except (Halt Fault) Word × Memory) with ⟨(fault | _) | base, mem⟩ <;> rw [hr] at halloc
      · rw [Memory.run_alloc] at hr
        obtain rfl : m.host.memory = mem := by
          split at hr
          · exact (Prod.mk.inj hr).2
          · split at hr
            · exact (Prod.mk.inj hr).2
            · cases hr
        exact h
      · exact (halloc rfl).elim
      · obtain ⟨hblock, hbits, h0, hothers⟩ := Memory.holds_alloc h.serves hr
        refine ⟨?_, hbits.trans h.serves, fun a b hab => (hothers (h.holds a b hab)).1,
          fun a b hab => List.forall_mem_cons.mpr ⟨?_, fun fr hfr => ?_⟩⟩
        · exact List.forall_mem_cons.mpr ⟨hreach, h.reached⟩
        · have hown : (entryFrame f (depth + 1) base dest).Housed mem :=
            ⟨rfl, fun hno => absurd hsize (Int.not_lt.mpr hno),
              fun _ => ⟨_, hblock, Int.toNat_of_nonneg h0⟩⟩
          obtain ⟨hb, hne⟩ := hothers (h.holds a b hab)
          exact hown.spares hinside hb fun _ => hne
        · exact (h.apart a b hab fr hfr).congr hbits rfl rfl rfl
    exact .bind' hreserve fun base m' h' => .bind_modify (hparams h')
  · rw [if_neg hsize]
    refine .bind_pure (.bind_modify (hparams ?_))
    refine ⟨List.forall_mem_cons.mpr ⟨hreach, h.reached⟩, h.serves, h.holds, fun a b hab => ?_⟩
    have hown : (entryFrame f (depth + 1) 0 dest).Housed m.host.memory :=
      ⟨rfl, fun _ => rfl, fun hyes => absurd hyes hsize⟩
    exact List.forall_mem_cons.mpr ⟨hown.spares hinside (h.holds a b hab)
      fun hyes => absurd hyes hsize, h.apart a b hab⟩

theorem onward_release {a : Word} (h : m.Spares e root foreign)
    (ha : a = 0 ∨ ∀ c b, foreign c b → m.host.memory.handleOf a ≠ m.host.memory.handleOf c) :
    Ends (release a) m (fun _ m' => m'.Spares e root foreign ∧ m'.frames = m.frames ∧
      m'.host.memory.offsetBits = m.host.memory.offsetBits) fun _ _ => False := by
  unfold Ends
  rw [run_release]
  obtain rfl | hne := ha
  · exact ⟨h, rfl, rfl⟩
  · have htouch := Memory.touches_free a m.host.memory
    exact ⟨h.touched htouch hne, rfl, htouch.bits⟩

theorem onward_releaseAll (as : List Word) (h : m.Spares e root foreign)
    (ha : ∀ a ∈ as, ∀ c b, foreign c b →
      a = 0 ∨ m.host.memory.handleOf a ≠ m.host.memory.handleOf c) :
    Ends (as.forM release) m (fun _ m' => m'.Spares e root foreign ∧ m'.frames = m.frames ∧
      m'.host.memory.offsetBits = m.host.memory.offsetBits) fun _ _ => False := by
  induction as generalizing m with
  | nil => exact .pure' ⟨h, rfl, rfl⟩
  | cons a as ih =>
    obtain ⟨hfirst, hrest⟩ := List.forall_mem_cons.mp ha
    have hzero : a = 0 ∨ ∀ c b, foreign c b →
        m.host.memory.handleOf a ≠ m.host.memory.handleOf c := by
      by_cases h0 : a = 0
      · exact .inl h0
      · exact .inr fun c b hcb => (hfirst c b hcb).resolve_left h0
    refine .bind' (onward_release h hzero) fun _ m₁ ⟨h₁, hframes, hbits⟩ => ?_
    have hhandle : ∀ x, m₁.host.memory.handleOf x = m.host.memory.handleOf x := fun x => by
      unfold Memory.handleOf
      rw [hbits]
    refine (ih h₁ fun x hx c b hcb => ?_).imp fun _ m₂ ⟨h₂, hframes₂, hbits₂⟩ => ?_
    · rw [hhandle, hhandle]
      exact hrest x hx c b hcb
    · exact ⟨h₂, hframes₂.trans hframes, hbits₂.trans hbits⟩

theorem onward_releaseFrame {fr : Frame} (h : m.Spares e root foreign) (hfr : fr ∈ m.frames) :
    Ends (releaseFrame fr) m (fun _ m' => m'.Spares e root foreign ∧ m'.frames = m.frames ∧
      m'.host.memory.offsetBits = m.host.memory.offsetBits) fun _ _ => False := by
  have hwritten : ∀ x ∈ fr.written, ∀ c b, foreign c b →
      x = 0 ∨ m.host.memory.handleOf x ≠ m.host.memory.handleOf c :=
    fun x hx c b hcb => (h.apart c b hcb fr hfr).written x hx
  have hallocas := onward_releaseAll fr.allocas.reverse h fun x hx =>
    hwritten x (List.mem_cons_of_mem _ (List.mem_reverse.mp hx))
  refine .bind' hallocas fun _ m₁ ⟨h₁, hframes, hbits⟩ => ?_
  have hzero : fr.base = 0 ∨ ∀ c b, foreign c b →
      m₁.host.memory.handleOf fr.base ≠ m₁.host.memory.handleOf c := by
    by_cases h0 : fr.base = 0
    · exact .inl h0
    · refine .inr fun c b hcb => ?_
      unfold Memory.handleOf
      rw [hbits]
      exact (hwritten _ List.mem_cons_self c b hcb).resolve_left h0
  refine (onward_release h₁ hzero).imp fun _ m₂ ⟨h₂, hframes₂, hbits₂⟩ => ?_
  exact ⟨h₂, hframes₂.trans hframes, hbits₂.trans hbits⟩

theorem onward_leave (bits : Word) : Leaves (Onward (Spares e root foreign)) (leave bits) :=
  leaves_leave bits (fun h hframes =>
    (onward_releaseFrame h (hframes ▸ List.mem_cons_self)).imp fun _ _ h' => h'.1.dropped 1)
    fun v => onward_write v bits

/-! ## Steps -/

theorem onward_goto (pc : Nat) :
    Leaves (Onward (Spares e root foreign)) (modifyFrame fun fr => { fr with pc }) := by
  refine .modify' fun m h => ?_
  rcases m with ⟨host, steps, _ | ⟨fr, rest⟩⟩
  · exact h
  · have hmoved : ∀ fr' : Frame, fr'.func = fr.func → fr'.base = fr.base →
        fr'.allocas = fr.allocas → Spares e root foreign ⟨host, steps, fr' :: rest⟩ :=
      fun fr' hf hb ha => h.frames rfl hf hb ha steps
    exact hmoved { fr with pc } rfl rfl rfl

theorem onward_execute (hslots : e.SlotsInside root) (hf : e.Reaches root f) {i : Insn}
    (hi : i ∈ f.insns) (hlocal : i.op.isLocal = true) (depth : Nat) :
    Leaves (Onward (Spares e root foreign)) (execute e f depth i) := by
  have hnot : ∀ {o : Opcode}, i.op = o → o.isLocal = false → False := by
    rintro _ rfl h
    rw [hlocal] at h
    cases h
  refine leaves_execute (onward_write _) (fun hop => ?_) (fun hop => (hnot hop rfl).elim)
    (fun hop => ?_) fun hop => (hnot hop rfl).elim
  · exact hop.elim (fun hop => (hnot hop rfl).elim) fun hop => (hnot hop rfl).elim
  · exact leaves_call hop fun _ hg args =>
      onward_enter hslots (hf.tail ⟨i, hi, hop, hg⟩) args depth f.name i.dest

theorem onward_step (hslots : e.SlotsInside root) (hlocal : e.StaysLocal root) :
    Leaves (Onward (Spares e root foreign)) (step e) := by
  refine leaves_step (fun _ h => ⟨h.reached, h.serves, h.holds, h.apart⟩) onward_goto onward_leave ?_
  intro m fr rest h hframes i hi depth
  have hreach : e.Reaches root fr.func := h.reached fr (hframes ▸ List.mem_cons_self)
  exact onward_execute hslots hreach hi (hlocal _ hreach i hi) depth

end StepM

theorem Machine.Spares.unwound (h : m.Spares e root foreign) :
    m.unwound.Spares e root foreign := by
  have hall : ∀ (frames : List Frame) {m : Machine}, m.Spares e root foreign →
      (∀ fr ∈ frames, fr ∈ m.frames) →
      Ends (frames.forM StepM.releaseFrame) m (fun _ m' => m'.Spares e root foreign)
        fun _ m' => m'.Spares e root foreign := by
    intro frames
    induction frames with
    | nil => exact fun h _ => .pure' h
    | cons fr frames ih =>
      intro m h hsub
      obtain ⟨hfr, hrest⟩ := List.forall_mem_cons.mp hsub
      refine .bind' (StepM.onward_releaseFrame h hfr).total ?_
      rintro _ m₁ ⟨h₁, hframes, -⟩
      exact ih h₁ fun g hg => hframes ▸ hrest g hg
  have hends : Ends StepM.unwind m (fun _ m' => m'.Spares e root foreign)
      fun _ m' => m'.Spares e root foreign := by
    refine .bind_get (.bind' (hall m.frames h fun _ h => h) fun _ m₁ h₁ => .modify' ?_)
    exact ⟨List.forall_mem_nil _, h₁.serves, h₁.holds, fun _ _ _ => List.forall_mem_nil _⟩
  exact hends.state

end

end TypedIR
