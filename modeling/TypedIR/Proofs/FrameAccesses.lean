import TypedIR.Proofs.FrameEmitting

/-
  Loads and stores in a frame.

  A load or a store is the last instruction of some straight code that computes an
  address. What it comes to is decided by memory and the address alone
  (`Memory.loads`, `Memory.stores`). Code that ends with one is described by that
  outcome, in any frame of any function that was built from there on
  (`Func.Answers`): it goes on with the answer, or fails with the fault, and only the
  step limit can come first.
-/

namespace TypedIR

/-! ## What memory answers -/

namespace Memory

def loads (m : Memory) (r : Rep) (addr : Word) : Except Fault Word :=
  match m.resolve addr with
  | .error fault => .error fault
  | .ok b =>
    if b.size < m.offsetOf addr + r.size.toNat then .error (.readBounds r.size addr)
    else .ok (r.decode (b.window (m.offsetOf addr) r.size.toNat))

def stores (m : Memory) (r : Rep) (w addr : Word) : Except Fault Memory :=
  match m.resolve addr with
  | .error fault => .error fault
  | .ok b =>
    if b.size < m.offsetOf addr + r.size.toNat then .error (.writeBounds r.size.toNat addr)
    else .ok (m.putBlock addr (some (b.write (m.offsetOf addr) (r.encode w))))

/-- What a load of a scalar gives, and the memory that it leaves where the scalar is
given a place there. -/
def fetches (m : Memory) (r : Rep) (addr : Word) : Option Word → Except Fault (Word × Memory)
  | none => do
    let w ← m.loads r addr
    pure (w, m)
  | some place => do
    let w ← m.loads r addr
    let m' ← m.stores r w place
    pure (w, m')

theorem fetches_error {m : Memory} {r : Rep} {addr : Word} {fault : Fault}
    (h : m.loads r addr = .error fault) (place : Option Word) :
    m.fetches r addr place = .error fault := by
  unfold fetches
  rw [h]
  cases place <;> rfl

theorem fetches_ok {m : Memory} {r : Rep} {addr w : Word} (h : m.loads r addr = .ok w)
    (place : Option Word) : m.fetches r addr place =
      match place with
      | none => .ok (w, m)
      | some place => (m.stores r w place).map ((w, ·)) := by
  unfold fetches
  cases place with
  | none =>
    dsimp only
    rw [h]
    rfl
  | some place =>
    dsimp only
    rw [h]
    show (m.stores r w place >>= fun m' => pure (w, m')) = _
    cases m.stores r w place <;> rfl

theorem canonical_of_loads {m : Memory} {r : Rep} {addr w : Word} (h : m.loads r addr = .ok w) :
    r.Canonical w := by
  unfold loads at h
  split at h
  · cases h
  · split at h
    · cases h
    · cases h
      exact r.canonical_decode _

theorem resolve_of_loads {m : Memory} {r : Rep} {addr w : Word} (h : m.loads r addr = .ok w) :
    ∃ b, m.resolve addr = .ok b := by
  unfold loads at h
  cases hres : m.resolve addr with
  | ok b => exact ⟨b, rfl⟩
  | error fault => simp [hres] at h

theorem resolve_of_stores {m m' : Memory} {r : Rep} {addr w : Word}
    (h : m.stores r w addr = .ok m') : ∃ b, m.resolve addr = .ok b := by
  unfold stores at h
  cases hres : m.resolve addr with
  | ok b => exact ⟨b, rfl⟩
  | error fault => simp [hres] at h

theorem resolve_of_fetches {m : Memory} {r : Rep} {addr : Word} {place : Option Word}
    {a : Word × Memory} (h : m.fetches r addr place = .ok a) : ∃ b, m.resolve addr = .ok b := by
  cases hload : m.loads r addr with
  | ok w => exact resolve_of_loads hload
  | error fault =>
    rw [fetches_error hload] at h
    cases h

theorem run_write_encode (m : Memory) (r : Rep) (w addr : Word) :
    ((write addr (r.encode w)).run m : Except (Halt Fault) Unit × Memory) =
      match m.stores r w addr with
      | .ok m' => (.ok (), m')
      | .error fault => (.error (.failed fault), m) := by
  have hlen : (r.encode w).length = r.size.toNat := length_littleEndian _ w
  unfold stores
  rw [run_write, hlen]
  cases m.resolve addr with
  | error fault => rfl
  | ok b =>
    dsimp only
    by_cases hend : b.size < m.offsetOf addr + r.size.toNat
    · rw [if_pos hend, if_pos hend]
    · rw [if_neg hend, if_neg hend]

theorem gives_stored {m m' : Memory} {r : Rep} {w addr : Word} (hr : r.Valid)
    (hscalar : r.isScalar = true) (h : m.stores r w addr = .ok m')
    (hoff : m.offsetOf addr < 0x100000000) : m'.Gives addr r.size (r.encode w) := by
  have hlen : (r.encode w).length = r.size.toNat := length_littleEndian _ w
  have hfits := hr.fitsRegister (Rep.ne_struct hscalar)
  have hsize : 0 ≤ r.size ∧ r.size ≤ 8 := by simpa [Rep.fitsRegister] using hfits
  have hrun := run_write_encode m r w addr
  rw [h] at hrun
  have hgives := gives_written hrun hoff (by omega)
  rwa [hlen, Int.toNat_of_nonneg hsize.1] at hgives

/-- There are no more blocks than there are addresses for, as no more are handed out. -/
structure Room (ptrSize : Int) (m : Memory) : Prop where
  serves : m.Serves ptrSize
  room : m.blocks.size ≤ m.lastHandle

theorem Room.lt_reach {ptrSize : Int} {m : Memory} (h : m.Room ptrSize) {addr : Word} {b : Block}
    (hres : m.resolve addr = .ok b) : addr.toNat < reach ptrSize := by
  obtain ⟨-, hpos, hget⟩ := resolve_eq_ok.mp hres
  have hblock := lt_of_getElem? hget
  have hroom := h.room
  have hbits := h.serves
  have hword := addr.toNat_lt
  unfold Serves forPointers at hbits
  unfold reach
  split
  · next h4 =>
    simp only [h4, if_true] at hbits
    unfold handleOf lastHandle at *
    rw [hbits] at hblock hroom
    simp [twoTo] at hblock hroom
    omega
  · omega

end Memory

namespace StepM

variable {m : Machine} {ptrSize : Int} {r : Rep}

theorem run_load (hs : m.host.memory.Serves ptrSize) (hr : r.Valid) (hscalar : r.isScalar = true)
    (addr : Word) : ((load r addr).run m : Except (Halt Failure) Word × Machine) =
      match m.host.memory.loads r addr with
      | .ok w => (.ok w, m)
      | .error fault => (.error (.failed { cause := .memory fault }), m) := by
  have hstruct := Rep.ne_struct hscalar
  have hfits := hr.fitsRegister hstruct
  have hsize : 0 ≤ r.size ∧ r.size ≤ 8 := by simpa [Rep.fitsRegister] using hfits
  have hoff := offsetOf_lt hs addr
  have hwrap : wrap64 (m.host.memory.offsetOf addr + r.size) =
      m.host.memory.offsetOf addr + r.size := by
    apply wrap64_of_mem <;> omega
  unfold load Memory.loads
  rw [if_neg hstruct, run_bind, run_request, Memory.run_read, hwrap]
  cases m.host.memory.resolve addr with
  | error fault => rfl
  | ok b =>
    dsimp only
    by_cases hend : b.size < m.host.memory.offsetOf addr + r.size.toNat
    · rw [if_pos (by omega), if_pos hend]
      rfl
    · rw [if_neg (by omega), if_neg (by omega), if_neg hend]
      dsimp only
      rw [if_pos hfits]
      rfl

theorem run_store (hr : r.Valid) (hscalar : r.isScalar = true) (addr w : Word) :
    ((store r addr w).run m : Except (Halt Failure) Unit × Machine) =
      match m.host.memory.stores r w addr with
      | .ok mem => (.ok (), m.withMemory mem)
      | .error fault => (.error (.failed { cause := .memory fault }), m) := by
  have hstruct := Rep.ne_struct hscalar
  unfold store
  rw [if_neg hstruct, if_pos (hr.fitsRegister hstruct), run_request, Memory.run_write_encode]
  cases m.host.memory.stores r w addr with
  | ok mem => rfl
  | error fault => rfl

theorem run_write_slot {fr : Frame} {rest : List Frame} {pc : Nat} {regs : Array Word}
    (hm : m.frames = { fr with pc, regs } :: rest) {v : ValueId} {info : ValueInfo}
    (hv : fr.func.value? v = some info) (hr : info.rep.Valid) (hscalar : info.rep.isScalar = true)
    {slot : Int} (hslot : info.place? = some slot) (w : Word) :
    ((write v w).run m : Except (Halt Failure) Unit × Machine) =
      match m.host.memory.stores info.rep w (slotAddress fr slot) with
      | .ok mem => (.ok (), m.withMemory mem)
      | .error fault => (.error (.failed { cause := .memory fault }), m) := by
  unfold write
  rw [run_bind, run_frame hm]
  dsimp only
  rw [(Func.value?_lt hv).2.1]
  dsimp only
  rw [hslot]
  exact run_store hr hscalar _ w

end StepM

/-! ## Outcomes in a frame -/

def Frame.place? (fr : Frame) (v : ValueId) : Option Word :=
  ((fr.func.value? v).bind (·.place?)).map (StepM.slotAddress fr)

namespace Machine

variable {e : Engine} {fr : Frame} {rest : List Frame} {m : Machine} {pc : Nat} {i : Insn}

/-- The next step ends with this fault of memory, in the function of that name. -/
def Faults (e : Engine) (name : String) (fault : Fault) (m : Machine) : Prop :=
  ∃ m', ((StepM.step e).run m : Except (Halt Failure) (Option Word) × Machine) =
    (.error (.failed { cause := .memory fault, function := name }), m') ∧ m'.host = m.host

/-- At most so many steps come to a machine that goes on with the answer, or to one whose
next step is refused; the step limit may come first. -/
def Answers {α : Type} (e : Engine) (name : String) (n : Nat) (post : α → Machine → Prop)
    (answer : Except Fault α) (m : Machine) : Prop :=
  m.Leads e False n fun m' =>
    match answer with
    | .ok a => post a m'
    | .error fault => m'.Faults e name fault ∧ m'.host = m.host

theorem Answers.after {α : Type} {name : String} {n k : Nat} {post : α → Machine → Prop}
    {answer : Except Fault α} {mid : Machine → Prop} (h : m.Leads e False n mid)
    (h' : ∀ m', mid m' → m'.host = m.host ∧ m'.Answers e name k post answer) :
    m.Answers e name (n + k) post answer := by
  apply h.trans
  intro m' hm'
  obtain ⟨hhost, hanswers⟩ := h' m' hm'
  apply hanswers.mono
  intro m'' hm''
  cases answer with
  | ok a => exact hm''
  | error fault => exact ⟨hm''.1, hm''.2.trans hhost⟩

theorem Inside.faults (h : m.Inside fr rest pc) (hi : fr.func.insns[pc]? = some i)
    (hplain : i.op.isPlain = true) {fault : Fault}
    (hexec : ∀ regs, m.frames = { fr with pc, regs } :: rest →
      let m' := m.counted { fr with pc := pc + 1, regs } rest
      ((StepM.execute e fr.func fr.depth i).run m' : Except (Halt Failure) Unit × Machine) =
        (.error (.failed { cause := .memory fault }), m')) :
    m.Leads e False 1 fun m' => m'.Faults e fr.func.name fault ∧ m'.host = m.host := by
  obtain ⟨regs, hm, -⟩ := h
  have hends : Ends (StepM.step e) m (fun _ _ => False) fun halt m' =>
      (halt = .failed { cause := .memory fault, function := fr.func.name } ∧ m'.host = m.host) ∨
        ∃ err, halt = .failed err ∧ 0 < e.maxSteps ∧ err.cause = .stepLimit e.maxSteps := by
    unfold StepM.step
    refine .bind' (StepM.ends_frame hm) ?_
    rintro _ _ ⟨rfl, rfl⟩
    dsimp only
    rw [hi]
    refine .bind_modify (StepM.ends_inFunction _ (.bind_get (.ite' (fun hover => ?_) fun _ => ?_)))
    · exact .bind_throw (.inr ⟨_, rfl, hover.1, rfl⟩)
    · refine .bind' (StepM.ends_modifyFrame (m := { m with steps := m.steps + 1 }) hm) ?_
      rintro _ _ rfl
      rw [StepM.dispatch_plain hplain]
      have hrun := hexec regs hm
      have hexecute : Ends (StepM.execute e fr.func fr.depth i)
          (m.counted { fr with pc := pc + 1, regs } rest) (fun _ _ => False) fun halt m' =>
            halt = .failed { cause := .memory fault } ∧ m'.host = m.host := by
        unfold Ends
        rw [hrun]
        exact ⟨rfl, rfl⟩
      refine .bind' (hexecute.imp_stop ?_) fun _ _ h => h.elim
      rintro _ m' ⟨rfl, hhost⟩
      exact .inl ⟨rfl, hhost⟩
  unfold Ends at hends
  rcases hstep : ((StepM.step e).run m : Except (Halt Failure) (Option Word) × Machine) with
    ⟨halt | answer, m'⟩ <;> rw [hstep] at hends
  · rcases hends with ⟨rfl, hhost⟩ | ⟨err, rfl, hlimit⟩
    · exact .here ⟨⟨m', hstep, hhost⟩, rfl⟩
    · exact .stopped hstep (.inr hlimit)
  · exact hends.elim

theorem Answers.map {α β : Type} {name : String} {n : Nat} {post : α → Machine → Prop}
    {post' : β → Machine → Prop} {answer : Except Fault α} (h : m.Answers e name n post answer)
    {g : α → β} (himp : ∀ a m', post a m' → post' (g a) m') :
    m.Answers e name n post' (answer.map g) := by
  cases answer with
  | ok a => exact Leads.mono h (himp a)
  | error fault => exact h

theorem Inside.effects (h : m.Inside fr rest pc) (hi : fr.func.insns[pc]? = some i)
    (hplain : i.op.isPlain = true) {outcome : Except Fault Memory}
    (hexec : ∀ m' depth regs, m'.frames = { fr with pc := pc + 1, regs } :: rest →
      m.Keeps fr.func (fun _ => False) m' → m'.host = m.host →
        ((StepM.execute e fr.func depth i).run m' : Except (Halt Failure) Unit × Machine) =
          match outcome with
          | .ok mem => (.ok (), m'.withMemory mem)
          | .error fault => (.error (.failed { cause := .memory fault }), m')) :
    m.Answers e fr.func.name 1 (fun mem m' => outcome = .ok mem ∧ m'.Inside fr rest (pc + 1) ∧
      m'.host = { m.host with memory := mem }) outcome := by
  have hcounted := fun regs hframes => hexec (m.counted { fr with pc := pc + 1, regs } rest)
    fr.depth regs rfl (keeps_counted hframes) rfl
  cases outcome with
  | error fault => exact h.faults hi hplain hcounted
  | ok mem =>
    obtain ⟨regs, hframes, hregs⟩ := h
    refine Inside.leads ⟨regs, hframes, hregs⟩ hi hplain fun regs' hframes' => ?_
    rw [hframes] at hframes'
    cases hframes'
    unfold Ends
    rw [hcounted regs hframes]
    exact ⟨rfl, ⟨regs, rfl, hregs⟩, rfl⟩

end Machine

namespace Func

variable {f f' f'' : Func} {α : Type} {out : Option ValueId}
  {post : α → Host → Machine → Prop} {p q : Frame → Machine → Except Fault α → Prop} {u : ValueId}

/-- Nothing that the code from `f` to `f'` computes has a place in the frame of `g`, but
for the value `out`. -/
def SpillsOnly (f f' : Func) (out : Option ValueId) (g : Func) : Prop :=
  ∀ v, f.Gains f' v → g.Spilled v → out = some v

/-- What the code from `f` to `f'` comes to in a frame of a function that was built on
from there and has the fresh values in registers, but for `out`: it goes on with the
answer that `p` tells, or is refused by memory. -/
def Answers (f f' : Func) (out : Option ValueId) (post : α → Host → Machine → Prop)
    (p : Frame → Machine → Except Fault α → Prop) : Prop :=
  ∀ ⦃e : Engine⦄ ⦃fr : Frame⦄ ⦃rest : List Frame⦄ ⦃m : Machine⦄ ⦃answer : Except Fault α⦄,
    f'.Extends fr.func → f.SpillsOnly f' out fr.func → m.Inside fr rest f.insns.size →
    p fr m answer →
    m.Answers e fr.func.name (f'.insns.size - f.insns.size)
      (fun a m' => m'.Inside fr rest f'.insns.size ∧ post a m.host m') answer

theorem Brings.answers {s : Machine → Word → Prop} (h : f.Brings f' u s)
    (h' : f'.Answers f'' out post q) (hf : f.Extends f') (hf' : f'.Extends f'')
    (hout : ∀ v ∈ out, f'.value? v = none) (hspec : ∀ fr m a, p fr m a → ∃ x, s m x ∧ ∀ m',
      m'.Reads u x → m.Keeps f'' (f.Gains f') m' → m'.host = m.host → q fr m' a) :
    f.Answers f'' out post p := by
  intro e fr rest m answer hext honly hm hp
  obtain ⟨x, hs, hq⟩ := hspec fr m answer hp
  have hreg : ¬ f.Spills f' fr.func := by
    rintro ⟨v, hgains, hspilled⟩
    have hnone := hout v (honly v (hgains.later hf') hspilled)
    have hsome := hgains.2
    rw [hnone] at hsome
    cases hsome
  have hfirst := h (e := e) (hf'.trans hext) hm (fun hsp => absurd hsp hreg) hs
  rw [← hf.sub_size hf']
  apply Machine.Answers.after (hfirst.weaken hreg)
  intro m' hm'
  obtain ⟨hin, hread, hkept, -, hhost⟩ := hm'
  have hsame := hhost hreg
  refine ⟨hsame, ?_⟩
  rw [← hsame]
  apply h' hext (fun v hv => honly v (hv.earlier hf)) hin
  exact hq m' hread (fun hu => hkept (hext.isSome_value? hu)) hsame

theorem Answers.of_load (hf : 0 < f.values.size) {info : ValueInfo} {i : Insn} {ptrSize : Int}
    {p : Machine → Word → Prop} (hdest : i.dest = f.values.size) (hplain : i.op.isPlain = true)
    (hr : info.rep.Valid) (hs : info.rep.isScalar = true)
    (hexec : ∀ {e : Engine} {g : Func} {m : Machine} {addr : Word}, f.Extends g → p m addr →
      ∀ m' depth, m.Keeps g (fun _ => False) m' →
        ((StepM.execute e g depth i).run m' : Except (Halt Failure) Unit × Machine) =
          (do let w ← StepM.load info.rep addr; StepM.write f.values.size w : StepM Unit).run m') :
    f.Answers ((f.addValue info).2.push i) (some f.values.size)
      (fun a host m' => m'.Reads f.values.size a.1 ∧ m'.host = { host with memory := a.2 })
      fun fr m answer => m.host.memory.Serves ptrSize ∧ ∃ addr, p m addr ∧
        answer = m.host.memory.fetches info.rep addr (fr.place? f.values.size) := by
  intro e fr rest m answer hext honly hm hp
  obtain ⟨hserves, addr, hp, rfl⟩ := hp
  obtain ⟨hi, hg, d, hd, hrep⟩ := at_computed hf hext
  have hrun : ∀ m' depth, m.Keeps fr.func (fun _ => False) m' → m'.host = m.host →
      ((StepM.execute e fr.func depth i).run m' : Except (Halt Failure) Unit × Machine) =
        match m.host.memory.loads info.rep addr with
        | .ok w => (StepM.write f.values.size w).run m'
        | .error fault => (.error (.failed { cause := .memory fault }), m') := by
    intro m' depth hkept hhost
    rw [hexec (e := e) hg hp m' depth hkept, run_bind,
      StepM.run_load (hhost ▸ hserves) hr hs, hhost]
    cases m.host.memory.loads info.rep addr with
    | ok w => rfl
    | error fault => rfl
  have hplace : fr.place? f.values.size = d.place?.map (StepM.slotAddress fr) := by
    unfold Frame.place?
    rw [hd]
    rfl
  rw [size_computed, hplace, Nat.add_sub_cancel_left]
  cases hload : m.host.memory.loads info.rep addr with
  | error fault =>
    rw [hload] at hrun
    rw [Memory.fetches_error hload]
    exact hm.faults hi hplain fun _ hframes => hrun _ fr.depth (Machine.keeps_counted hframes) rfl
  | ok w =>
    rw [hload] at hrun
    rw [Memory.fetches_ok hload]
    cases hslot : d.place? with
    | none =>
      rw [← hdest] at hd hrun
      apply (hm.computes hi hplain hd hslot hrun).mono
      intro m' hm'
      obtain ⟨hin, hread, -, hhost⟩ := hm'
      exact ⟨hin, hdest ▸ hread, hhost⟩
    | some slot =>
      have hcanonical := Memory.canonical_of_loads hload
      rw [← hrep] at hr hs hcanonical
      have heffects : m.Answers e _ 1 _
          (m.host.memory.stores d.rep w (StepM.slotAddress fr slot)) :=
        hm.effects hi hplain fun m' depth regs hframes hkept hhost => by
          rw [hrun m' depth hkept hhost, ← hhost]
          exact StepM.run_write_slot hframes hd hr hs hslot w
      rw [← hrep]
      refine heffects.map fun mem m' hm' => ?_
      obtain ⟨hstore, hin, hhost⟩ := hm'
      refine ⟨hin, ?_, hhost⟩
      obtain ⟨regs, hframes, -⟩ := hin
      have hgives := Memory.gives_stored hr hs hstore (StepM.offsetOf_lt hserves _)
      rw [Machine.reads_slot hframes hd hslot, hhost, if_neg (Rep.ne_struct hs)]
      refine ⟨hr.fitsRegister (Rep.ne_struct hs), _, hgives, ?_⟩
      exact (Rep.decode_encode hr hs hcanonical).symm

theorem Answers.of_store {i : Insn} {p : Frame → Machine → Except Fault Memory → Prop}
    (hplain : i.op.isPlain = true)
    (hexec : ∀ {e : Engine} {fr : Frame} {m : Machine} {answer : Except Fault Memory},
      f.Extends fr.func → p fr m answer → ∀ m' depth, m.Keeps fr.func (fun _ => False) m' →
        m'.host = m.host →
          ((StepM.execute e fr.func depth i).run m' : Except (Halt Failure) Unit × Machine) =
            match answer with
            | .ok mem => (.ok (), m'.withMemory mem)
            | .error fault => (.error (.failed { cause := .memory fault }), m')) :
    f.Answers (f.push i) none (fun mem host m' => m'.host = { host with memory := mem }) p := by
  intro e fr rest m answer hext _ hm hp
  have hg : f.Extends fr.func := (extends_push i).trans hext
  have hi : fr.func.insns[f.insns.size]? = some i :=
    hext.insn (show (f.insns.push i)[f.insns.size]? = some i by simp)
  have hsize : (f.push i).insns.size = f.insns.size + 1 := by simp [push]
  rw [hsize, Nat.add_sub_cancel_left]
  have heffects := hm.effects (e := e) hi hplain fun m' depth _ _ => hexec hg hp m' depth
  cases answer with
  | error fault => exact heffects
  | ok mem => exact Machine.Leads.mono heffects fun _ hm' => hm'.2

/-! ### Accesses at an address -/

/-- The code loads a scalar into the fresh value `d`, from the address that `p` tells. -/
def LoadsAt (f f' : Func) (ptrSize : Int) (r : Rep) (d : ValueId) (p : Machine → Word → Prop) :
    Prop :=
  f.Answers f' (some d) (fun a host m' => m'.Reads d a.1 ∧ m'.host = { host with memory := a.2 })
    fun fr m answer => m.host.memory.Serves ptrSize ∧ ∃ addr, p m addr ∧
      answer = m.host.memory.fetches r addr (fr.place? d)

def StoresAt (f f' : Func) (r : Rep) (y : ValueId) (p : Machine → Word → Prop) : Prop :=
  f.Answers f' none (fun mem host m' => m'.host = { host with memory := mem })
    fun _ m answer => ∃ addr w, p m addr ∧ m.Reads y w ∧ answer = m.host.memory.stores r w addr

section

variable {s p q : Machine → Word → Prop} {ptrSize : Int} {r : Rep} {d y : ValueId}

theorem Brings.loadsAt (h : f.Brings f' u s) (h' : f'.LoadsAt f'' ptrSize r d q)
    (hf : f.Extends f') (hf' : f'.Extends f'') (hd : f'.value? d = none)
    (hspec : ∀ m addr, p m addr → ∃ x, s m x ∧ ∀ m', m'.Reads u x →
      m.Keeps f'' (f.Gains f') m' → q m' addr) : f.LoadsAt f'' ptrSize r d p := by
  refine h.answers h' hf hf' (fun v hv => Option.some.inj hv ▸ hd) ?_
  rintro fr m _ ⟨hserves, addr, hp, rfl⟩
  obtain ⟨x, hs, hq⟩ := hspec m addr hp
  refine ⟨x, hs, fun m' hread hkept hhost => ?_⟩
  rw [← hhost] at hserves ⊢
  exact ⟨hserves, addr, hq m' hread hkept, rfl⟩

theorem Brings.storesAt (h : f.Brings f' u s) (h' : f'.StoresAt f'' r y q) (hf : f.Extends f')
    (hf' : f'.Extends f'') (hy : (f.value? y).isSome) (hspec : ∀ m addr, p m addr → ∃ x, s m x ∧
      ∀ m', m'.Reads u x → m.Keeps f'' (f.Gains f') m' → q m' addr) : f.StoresAt f'' r y p := by
  refine h.answers h' hf hf' nofun ?_
  rintro fr m _ ⟨addr, w, hp, hw, rfl⟩
  obtain ⟨x, hs, hq⟩ := hspec m addr hp
  refine ⟨x, hs, fun m' hread hkept hhost => ⟨addr, w, hq m' hread hkept, ?_, by rw [hhost]⟩⟩
  exact keeps_old hkept (hf.trans hf') hy hw

end

end Func

/-! ## Emitters of loads and stores -/

namespace StepM

variable {e : Engine} {f : Func} {m : Machine} {depth : Nat} {dest a b y : ValueId} {rep : Rep}
  {x n w : Word}

theorem run_execute_loadRel (h : m.Reads a x) (offset : Int) (type : TypeId) :
    ((execute e f depth { op := .loadRel, dest, a, offset, type, rep }).run m :
      Except (Halt Failure) Unit × Machine) =
      (do let v ← load rep (x + Word.ofInt offset); write dest v : StepM Unit).run m := by
  unfold execute
  dsimp only
  rw [run_bind, h]

theorem run_execute_loadElem (ha : m.Reads a x) (hb : m.Reads b n) (type : TypeId) :
    ((execute e f depth { op := .loadElem, dest, a, b, type, rep }).run m :
      Except (Halt Failure) Unit × Machine) =
      (do let v ← load rep (x + n * Word.ofInt rep.size); write dest v : StepM Unit).run m := by
  unfold execute
  dsimp only
  rw [run_bind, ha]
  dsimp only
  rw [run_bind, hb]

theorem run_execute_storeRel (ha : m.Reads a x) (hb : m.Reads b w) (offset : Int) (type : TypeId) :
    ((execute e f depth { op := .storeRel, a, b, offset, type, rep }).run m :
      Except (Halt Failure) Unit × Machine) = (store rep (x + Word.ofInt offset) w).run m := by
  unfold execute
  dsimp only
  rw [run_bind, ha]
  dsimp only
  rw [run_bind, hb]

theorem run_execute_storeElem (ha : m.Reads a x) (hb : m.Reads b n) (hy : m.Reads y w)
    (type : TypeId) :
    ((execute e f depth { op := .storeElem, a, b, args := [y], type, rep }).run m :
      Except (Halt Failure) Unit × Machine) =
      (store rep (x + n * Word.ofInt rep.size) w).run m := by
  unfold execute
  dsimp only
  rw [run_bind, ha]
  dsimp only
  rw [run_bind, hb]
  dsimp only
  rw [run_bind, hy]

end StepM

/-- The address of an element: the index is brought to the size of a pointer first. -/
def Func.ElementAt (target : Target) (size : Int) (ri : Rep) (base index : ValueId) (m : Machine)
    (addr : Word) : Prop :=
  ∃ x n, m.Reads base x ∧ (ri.Holds n ∧ m.Reads index (Word.ofInt n)) ∧
    addr = x + Word.ofInt ((Builtin.nint.rep target).wrap n) * Word.ofInt size

namespace Emit.Lands

open Func (ElementAt)

variable {heads : FuncId → Option Head} {c : Setting} {b : Bench} {type : TypeId}
  {r ri : Rep} {base index y : ValueId}

section

variable (hb : b.Serves heads) (hd : b.Drafts c b.func)
include hb hd

theorem pointerOperand (hp : b.func.rep? base = some c.target.pointerRep) :
    Lands heads c (Emit.pointerOperand base) b fun _ b' => b = b' := by
  obtain ⟨info, hinfo, hrep⟩ := Func.value?_of_rep? hp
  unfold Emit.pointerOperand
  refine bind' (value hb hd hinfo) ?_
  rintro _ _ - - ⟨rfl, rfl⟩
  refine ite' (fun hno => absurd ?_ hno) fun _ => pure' hb hd rfl
  rw [hrep]
  rfl

theorem loading (hr : c.types.HasRep c.target type r) (hs : r.isScalar = true)
    (hok : b.Grants type r) {g : ValueId → Insn} {p : Machine → Word → Prop}
    (hg : ∀ dest b', b.Goes heads b' → b'.types.HasRep b'.target type r →
      b'.func.rep? dest = some r → (g dest).Typed (b'.scope heads) b'.func)
    (hdest : ∀ dest, (g dest).dest = dest) (hplain : ∀ dest, (g dest).op.isPlain = true)
    (hexec : ∀ {e : Engine} {f : Func} {m : Machine} {dest : ValueId} {addr : Word},
      b.func.Extends f → p m addr → ∀ m' depth, m.Keeps f (fun _ => False) m' →
        ((StepM.execute e f depth (g dest)).run m' : Except (Halt Failure) Unit × Machine) =
          (do let w ← StepM.load r addr; StepM.write dest w : StepM Unit).run m') :
    Lands heads c (do let dest ← Emit.temp type; Emit.push (g dest); pure dest) b
      fun u b' => b'.func.rep? u = some r ∧ b.func.value? u = none ∧
        b.func.LoadsAt b'.func c.target.ptrSize r u p := by
  refine (computed hb hd hr hs hok hg hplain).mono ?_
  rintro _ b' - ⟨rfl, hf⟩
  have hf' := hb.func.values_pos
  rw [hf]
  refine ⟨Func.rep?_of_value? (Func.value?_computed hf'), Func.value?_next, ?_⟩
  exact Func.Answers.of_load hf' (hdest _) (hplain _) (hr.valid c.usual) hs hexec

theorem loadRel (hp : b.func.rep? base = some c.target.pointerRep)
    (hr : c.types.HasRep c.target type r) (hs : r.isScalar = true) (hok : b.Grants type r)
    (offset : Int) :
    Lands heads c (Emit.loadRel base offset type) b fun d b' =>
      b'.func.rep? d = some r ∧ b.func.value? d = none ∧
        b.func.LoadsAt b'.func c.target.ptrSize r d fun m addr =>
          ∃ x, m.Reads base x ∧ addr = x + Word.ofInt offset := by
  unfold Emit.loadRel
  refine bind' (pointerOperand hb hd hp) ?_
  rintro _ _ - - rfl
  refine bind' (repOf hb hd hr hs hok) ?_
  rintro _ b₁ hs₁ hd₁ ⟨rfl, hf₁⟩
  dsimp only
  refine ite' (fun hvoid => absurd hvoid (Rep.ne_void hs)) fun hvoid => ?_
  rw [← hf₁] at hp ⊢
  refine loading hs₁.serves hd₁ hr hs (hs₁.grants hb.ordered hok)
    (g := fun dest => { op := .loadRel, dest, a := base, offset, type, rep := r })
    (fun dest b₂ hs₂ hr' hdest => ?_) (fun _ => rfl) (fun _ => rfl) ?_
  · refine .loadRel hr' hvoid hdest ?_
    rw [Bench.scope, hs₂.extended.target, hd₁.target]
    exact hs₂.extended.func.rep? hp
  · rintro e f m dest _ hf ⟨x, hx, rfl⟩ m' depth hkept
    exact StepM.run_execute_loadRel (hkept (Func.isSome_of_rep? (hf.rep? hp)) id hx) offset type

theorem storeRel (hp : b.func.rep? base = some c.target.pointerRep) (hy : b.func.rep? y = some r)
    (hs : r.isScalar = true) (offset : Int) :
    Lands heads c (Emit.storeRel base offset y) b fun _ b' =>
      b.func.StoresAt b'.func r y fun m addr => ∃ x, m.Reads base x ∧ addr = x + Word.ofInt offset := by
  obtain ⟨info, hinfo, rfl⟩ := Func.value?_of_rep? hy
  unfold Emit.storeRel
  refine bind' (pointerOperand hb hd hp) ?_
  rintro _ _ - - rfl
  refine bind' (value hb hd hinfo) ?_
  rintro _ _ - - ⟨rfl, rfl⟩
  have htyped : Insn.Typed (b.scope heads) b.func
      { op := .storeRel, a := base, b := y, offset, type := info.type, rep := info.rep } := by
    refine .storeRel (hb.func.value hinfo).rep ?_ hy
    rwa [Bench.scope, hd.target]
  refine (push hb hd htyped rfl).mono fun _ b' _ hf => ?_
  rw [hf]
  refine Func.Answers.of_store rfl ?_
  rintro e fr m _ hg ⟨_, w, ⟨x, hx, rfl⟩, hw, rfl⟩ m' depth hkept hhost
  have hx' := hkept (Func.isSome_of_rep? (hg.rep? hp)) id hx
  have hw' := hkept (Func.isSome_of_rep? (hg.rep? hy)) id hw
  rw [StepM.run_execute_storeRel hx' hw' offset info.type, ← hhost]
  exact StepM.run_store ((hasRep hb hd hinfo).valid c.usual) hs _ w

theorem loadElem (hp : b.func.rep? base = some c.target.pointerRep)
    (hi : b.func.rep? index = some ri) (hii : ri.IsInteger)
    (hr : c.types.HasRep c.target type r) (hs : r.isScalar = true) (hok : b.Grants type r) :
    Lands heads c (Emit.loadElem base index type) b fun d b' =>
      b'.func.rep? d = some r ∧ b.func.value? d = none ∧
        b.func.LoadsAt b'.func c.target.ptrSize r d (ElementAt c.target r.size ri base index) := by
  have hnint : (Builtin.nint.rep c.target).IsInteger := Builtin.isInteger_nint c.usual
  unfold Emit.loadElem
  refine bind' (pointerOperand hb hd hp) ?_
  rintro _ _ - - rfl
  refine bind' (coerce hb hd hi hii.isWhole (Builtin.hasRep c.ordered .nint) hnint.isWhole
    (.inl hnint)) ?_
  rintro ci b₁ hs₁ hd₁ ⟨hci, hindex⟩
  have hok₁ := hs₁.grants hb.ordered hok
  refine bind' (repOf hs₁.serves hd₁ hr hs hok₁) ?_
  rintro _ b₂ hs₂ hd₂ ⟨rfl, hf₂⟩
  dsimp only
  refine ite' (fun hvoid => absurd hvoid (Rep.ne_void hs)) fun hvoid => ?_
  have hp₁ := hs₁.extended.func.rep? hp
  rw [← hf₂] at hci hp₁ hindex
  have hext : b.func.Extends b₂.func := hs₁.extended.func.trans hs₂.extended.func
  refine (loading hs₂.serves hd₂ hr hs (hs₂.grants hs₁.serves.ordered hok₁)
    (g := fun dest => { op := .loadElem, dest, a := base, b := ci, type, rep := r })
    (p := fun m addr => ∃ x n, m.Reads base x ∧ m.Reads ci n ∧ addr = x + n * Word.ofInt r.size)
    (fun dest b₃ hs₃ hr' hdest => ?_) (fun _ => rfl) (fun _ => rfl) ?_).mono ?_
  · refine .loadElem hr' hvoid hdest ?_ ?_ <;> rw [Bench.scope, hs₃.extended.target, hd₂.target]
    · exact hs₃.extended.func.rep? hp₁
    · exact hs₃.extended.func.rep? hci
  · rintro e f m dest _ hf ⟨x, n, hx, hn, rfl⟩ m' depth hkept
    exact StepM.run_execute_loadElem (hkept (Func.isSome_of_rep? (hf.rep? hp₁)) id hx)
      (hkept (Func.isSome_of_rep? (hf.rep? hci)) id hn) type
  · rintro d b₃ hs₃ ⟨hrep, hfresh, hloads⟩
    have hfresh' : b.func.value? d = none := by
      cases hold : b.func.value? d with
      | none => rfl
      | some info =>
        have hsome := hext.isSome_value? (v := d) (by rw [hold]; rfl)
        rw [hfresh] at hsome
        cases hsome
    refine ⟨hrep, hfresh', hindex.loadsAt hloads hext hs₃.extended.func hfresh ?_⟩
    rintro m _ ⟨x, n, hx, hn, rfl⟩
    refine ⟨_, ⟨n, hn.1, hn.2, rfl⟩, fun m' hread hkept => ⟨x, _, ?_, hread, rfl⟩⟩
    exact Func.keeps_old hkept (hext.trans hs₃.extended.func) (Func.isSome_of_rep? hp) hx

theorem storeElem (hp : b.func.rep? base = some c.target.pointerRep)
    (hi : b.func.rep? index = some ri) (hii : ri.IsInteger) (hy : b.func.rep? y = some r)
    (hs : r.isScalar = true) :
    Lands heads c (Emit.storeElem base index y) b fun _ b' =>
      b.func.StoresAt b'.func r y (ElementAt c.target r.size ri base index) := by
  have hnint : (Builtin.nint.rep c.target).IsInteger := Builtin.isInteger_nint c.usual
  unfold Emit.storeElem
  refine bind' (pointerOperand hb hd hp) ?_
  rintro _ _ - - rfl
  refine bind' (coerce hb hd hi hii.isWhole (Builtin.hasRep c.ordered .nint) hnint.isWhole
    (.inl hnint)) ?_
  rintro ci b₁ hs₁ hd₁ ⟨hci, hindex⟩
  have hp₁ := hs₁.extended.func.rep? hp
  obtain ⟨info, hinfo, rfl⟩ := Func.value?_of_rep? (hs₁.extended.func.rep? hy)
  refine bind' (value hs₁.serves hd₁ hinfo) ?_
  rintro _ _ - - ⟨rfl, rfl⟩
  have hy₁ := Func.rep?_of_value? hinfo
  have htyped : Insn.Typed (b₁.scope heads) b₁.func
      { op := .storeElem, a := base, b := ci, args := [y], type := info.type, rep := info.rep } := by
    refine .storeElem (hs₁.serves.func.value hinfo).rep ?_ ?_ hy₁ <;>
      rwa [Bench.scope, hd₁.target]
  refine (push hs₁.serves hd₁ htyped rfl).mono fun _ b₂ hs₂ hf₂ => ?_
  have hstores : b₁.func.StoresAt b₂.func info.rep y fun m addr =>
      ∃ x n, m.Reads base x ∧ m.Reads ci n ∧ addr = x + n * Word.ofInt info.rep.size := by
    rw [hf₂]
    refine Func.Answers.of_store rfl ?_
    rintro e fr m _ hg ⟨_, w, ⟨x, n, hx, hn, rfl⟩, hw, rfl⟩ m' depth hkept hhost
    have hx' := hkept (Func.isSome_of_rep? (hg.rep? hp₁)) id hx
    have hn' := hkept (Func.isSome_of_rep? (hg.rep? hci)) id hn
    have hw' := hkept (Func.isSome_of_rep? (hg.rep? hy₁)) id hw
    rw [StepM.run_execute_storeElem hx' hn' hw' info.type, ← hhost]
    exact StepM.run_store ((hasRep hs₁.serves hd₁ hinfo).valid c.usual) hs _ w
  have hsome : (b.func.value? y).isSome := Func.isSome_of_rep? hy
  refine hindex.storesAt hstores hs₁.extended.func hs₂.extended.func hsome ?_
  rintro m _ ⟨x, n, hx, hn, rfl⟩
  refine ⟨_, ⟨n, hn.1, hn.2, rfl⟩, fun m' hread hkept => ⟨x, _, ?_, hread, rfl⟩⟩
  exact Func.keeps_old hkept (hs₁.extended.func.trans hs₂.extended.func) (Func.isSome_of_rep? hp) hx

end

end Emit.Lands

end TypedIR
