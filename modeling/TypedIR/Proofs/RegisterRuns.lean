import TypedIR.Proofs.ControlFlow

/-
  Runs of a function that keeps its values in registers.

  A call of such a function is one frame that moves from position to position
  (`Machine.At`), and each instruction is one step with a known effect on the
  registers. A computation that gives an answer or fails is matched by steps that
  come to a machine with the answer or stop with the failure (`Machine.Does`), and
  computations are put together as their texts are (`Machine.Does.bind'`).
-/

namespace TypedIR

namespace Machine

variable {e : Engine} {m m' m'' : Machine} {k n : Nat}

/-! ## Steps -/

/-- A number of steps, none of which ends the run. -/
inductive Steps (e : Engine) : Nat → Machine → Machine → Prop
  | refl (m : Machine) : Steps e 0 m m
  | head {k : Nat} {m m' m'' : Machine}
      (h : ((StepM.step e).run m : Except (Halt Failure) (Option Word) × Machine) = (.ok none, m'))
      (hs : Steps e k m' m'') : Steps e (k + 1) m m''

namespace Steps

theorem one (h : ((StepM.step e).run m : Except (Halt Failure) (Option Word) × Machine) =
    (.ok none, m')) : Steps e 1 m m' :=
  .head h (.refl m')

theorem trans (h : Steps e k m m') (h' : Steps e n m' m'') : Steps e (k + n) m m'' := by
  induction h with
  | refl m => rwa [Nat.zero_add]
  | head hstep _ ih =>
    rw [Nat.succ_add]
    exact .head hstep (ih h')

theorem take (h : Steps e k m m') (hn : n ≤ k) : ∃ m'', Steps e n m m'' := by
  induction h generalizing n with
  | refl m =>
    obtain rfl : n = 0 := Nat.le_zero.mp hn
    exact ⟨m, .refl m⟩
  | @head k m _ _ hstep _ ih =>
    cases n with
    | zero => exact ⟨m, .refl m⟩
    | succ n =>
      obtain ⟨m'', hs⟩ := ih (Nat.le_of_succ_le_succ hn)
      exact ⟨m'', .head hstep hs⟩

theorem run_add (h : Steps e k m m') (n : Nat) : run e (k + n) m = run e n m' := by
  induction h with
  | refl m => rw [Nat.zero_add]
  | head hstep _ ih =>
    rw [Nat.succ_add, run, hstep]
    exact ih

theorem onFlow (h : Steps e k m m') (hm : m.OnFlow) : m'.OnFlow := by
  induction h with
  | refl m => exact hm
  | head hstep _ ih => exact ih (hm.step hstep)

end Steps

def Lasts (e : Engine) (n : Nat) (m : Machine) : Prop := ∃ m', Steps e n m m'

theorem Lasts.after (h : Steps e k m m') (h' : Lasts e n m') : Lasts e (k + n) m := by
  obtain ⟨m'', hs⟩ := h'
  exact ⟨m'', h.trans hs⟩

theorem Lasts.mono (h : Lasts e k m) (hn : n ≤ k) : Lasts e n m := by
  obtain ⟨m', hs⟩ := h
  exact hs.take hn

theorem Lasts.unfinished (h : Lasts e n m) : (run e n m).1 = .unfinished := by
  obtain ⟨m', hs⟩ := h
  have hrun := hs.run_add 0
  rw [Nat.add_zero] at hrun
  rw [hrun]
  rfl

/-! ## What steps come to -/

def Comes (e : Engine) (m : Machine) (post : Machine → Prop) : Prop :=
  ∃ k m', Steps e k m m' ∧ post m'

theorem Comes.here {post : Machine → Prop} (h : post m) : m.Comes e post :=
  ⟨0, m, .refl m, h⟩

theorem Comes.trans {mid post : Machine → Prop} (h : m.Comes e mid)
    (h' : ∀ m', mid m' → m'.Comes e post) : m.Comes e post := by
  obtain ⟨k, m', hs, hm'⟩ := h
  obtain ⟨n, m'', hs', hm''⟩ := h' m' hm'
  exact ⟨k + n, m'', hs.trans hs', hm''⟩

theorem Comes.mono {post post' : Machine → Prop} (h : m.Comes e post)
    (himp : ∀ m', post m' → post' m') : m.Comes e post' :=
  h.trans fun m' hm' => .here (himp m' hm')

def Stops (e : Engine) (m : Machine) (ending : RunEnd) : Prop :=
  ∃ k, ∀ n, (run e (k + n) m).1 = ending

theorem Stops.after {mid : Machine → Prop} {ending : RunEnd} (h : m.Comes e mid)
    (h' : ∀ m', mid m' → m'.Stops e ending) : m.Stops e ending := by
  obtain ⟨k, m', hs, hm'⟩ := h
  obtain ⟨n, hn⟩ := h' m' hm'
  refine ⟨k + n, fun l => ?_⟩
  rw [Nat.add_assoc, hs.run_add, hn]

/-- What a computation gives, steps come to; if it fails, they stop with its failure
in the function. -/
def Does {α : Type} (e : Engine) (name : String) (m : Machine) (x : Except Cause α)
    (post : α → Machine → Prop) : Prop :=
  match x with
  | .ok a => m.Comes e (post a)
  | .error c => m.Stops e (.halted (.failed { cause := c, function := name }))

namespace Does

variable {α β : Type} {name : String} {x : Except Cause α} {post post' : α → Machine → Prop}

theorem pure' {a : α} (h : post a m) : m.Does e name (pure a : Except Cause α) post :=
  Comes.here h

theorem after {mid : Machine → Prop} (h : m.Comes e mid)
    (h' : ∀ m', mid m' → m'.Does e name x post) : m.Does e name x post := by
  cases x with
  | ok a => exact Comes.trans h h'
  | error c => exact Stops.after h h'

theorem bind' {k : α → Except Cause β} {after : β → Machine → Prop} (h : m.Does e name x post)
    (hk : ∀ a m', post a m' → m'.Does e name (k a) after) : m.Does e name (x >>= k) after := by
  cases x with
  | ok a => exact .after (x := k a) h (hk a)
  | error c => exact h

theorem mono (h : m.Does e name x post) (himp : ∀ a m', post a m' → post' a m') :
    m.Does e name x post' := by
  cases x with
  | ok a => exact Comes.mono h (himp a)
  | error c => exact h

end Does

end Machine

/-! ## Calls -/

def Frame.received (fr : Frame) (f : Func) (dest : ValueId) (bits : Word) : Frame :=
  if f.ret.cls = .void then fr else { fr with regs := fr.regs.setIfInBounds dest bits }

theorem Frame.received_of_void {fr : Frame} {f : Func} (h : f.ret.cls = .void) (dest : ValueId)
    (bits : Word) : fr.received f dest bits = fr :=
  if_pos h

theorem Frame.received_of_ne {fr : Frame} {f : Func} (h : f.ret.cls ≠ .void) (dest : ValueId)
    (bits : Word) :
    fr.received f dest bits = { fr with regs := fr.regs.setIfInBounds dest bits } :=
  if_neg h

/-- A call that is under way: of which function, how deeply it is nested, where its answer
goes, and the frames that wait. -/
structure Activation where
  func : Func
  depth : Nat
  dest : ValueId
  below : List Frame

def Activation.frame (t : Activation) (pc : Nat) (regs : Array Word) : Frame :=
  { func := t.func, depth := t.depth, pc, regs, dest := t.dest }

namespace Machine

variable {e : Engine} {m : Machine}

def At (m : Machine) (t : Activation) (pc : Nat) (regs : Array Word) : Prop :=
  m.frames = t.frame pc regs :: t.below

/-- The call comes to its end with an answer, and so does the run if no frame waits. -/
def Returns (m : Machine) (e : Engine) (t : Activation) (bits : Word) : Prop :=
  match t.below with
  | [] => m.Stops e (.result bits)
  | fr :: rest => m.Comes e fun m' => m'.frames = fr.received t.func t.dest bits :: rest

theorem Returns.after {mid : Machine → Prop} {t : Activation} {bits : Word} (h : m.Comes e mid)
    (h' : ∀ m', mid m' → m'.Returns e t bits) : m.Returns e t bits := by
  unfold Returns at h' ⊢
  cases hbelow : t.below with
  | nil => exact Stops.after h fun m' hm' => by simpa only [hbelow] using h' m' hm'
  | cons fr rest => exact Comes.trans h fun m' hm' => by simpa only [hbelow] using h' m' hm'

end Machine

def Func.InRegisters (f : Func) : Prop :=
  ∀ v info, f.value? v = some info → info.slot = none

/-- There is a register for each value, and the constants are in theirs. -/
structure Func.Fits (f : Func) (regs : Array Word) : Prop where
  size : regs.size = f.values.size
  const : ∀ v info, f.value? v = some info → info.origin = .const → regs[v]? = some info.bits

theorem Func.Fits.set {f : Func} {regs : Array Word} (h : f.Fits regs) {v : ValueId}
    {info : ValueInfo} (hv : f.value? v = some info) (hc : info.origin ≠ .const) (bits : Word) :
    f.Fits (regs.setIfInBounds v bits) where
  size := by rw [Array.size_setIfInBounds, h.size]
  const u other hu hother := by
    rw [Array.getElem?_setIfInBounds_ne, h.const u other hu hother]
    rintro rfl
    rw [hv] at hu
    cases hu
    exact hc hother

theorem Func.Fits.get_set {f : Func} {regs : Array Word} (h : f.Fits regs) {v : ValueId}
    {info : ValueInfo} (hv : f.value? v = some info) (bits : Word) :
    (regs.setIfInBounds v bits)[v]? = some bits := by
  have hlt : v < f.values.size := by
    obtain ⟨-, hget, -⟩ := Func.value?_lt hv
    exact lt_of_getElem? hget
  rw [Array.getElem?_setIfInBounds_self_of_lt (h.size ▸ hlt)]

def Activation.Awaited (t : Activation) : Prop :=
  ∀ fr rest, t.below = fr :: rest → t.func.ret.cls ≠ .void →
    fr.func.InRegisters ∧ ∃ info, fr.func.value? t.dest = some info

theorem Activation.Awaited.outermost {t : Activation} (h : t.below = []) : t.Awaited := by
  intro fr rest hbelow
  rw [h] at hbelow
  cases hbelow

theorem StepM.ends_write_register {m : Machine} {fr : Frame} {rest : List Frame}
    (hm : m.frames = fr :: rest) (hf : fr.func.InRegisters) {v : ValueId} {info : ValueInfo}
    (hv : fr.func.value? v = some info) (bits : Word) {stop : Halt Failure → Machine → Prop} :
    Ends (write v bits) m
      (fun _ m' => m'.frames = { fr with regs := fr.regs.setIfInBounds v bits } :: rest) stop := by
  refine .bind' (ends_frame hm) ?_
  rintro _ _ ⟨rfl, rfl⟩
  obtain ⟨-, hget, -⟩ := Func.value?_lt hv
  rw [hget]
  dsimp only
  rw [ValueInfo.place?_of_none (hf v info hv)]
  refine (ends_modifyFrame hm).imp ?_
  rintro _ _ rfl
  rfl

namespace Machine.At

open StepM

variable {e : Engine} {m : Machine} {t : Activation} {pc : Nat} {regs : Array Word}

theorem ends_read (h : m.At t pc regs) (hf : t.func.InRegisters) {v : ValueId} {info : ValueInfo}
    (hv : t.func.value? v = some info) {bits : Word} (hbits : regs[v]? = some bits)
    {stop : Halt Failure → Machine → Prop} :
    Ends (read v) m (fun a m' => a = bits ∧ m' = m) stop := by
  refine .bind' (ends_frame h) ?_
  rintro _ _ ⟨rfl, rfl⟩
  obtain ⟨-, hget, -⟩ := Func.value?_lt hv
  dsimp only [Activation.frame]
  rw [hget]
  dsimp only
  rw [ValueInfo.place?_of_none (hf v info hv)]
  dsimp only
  rw [hbits]
  exact .pure' ⟨rfl, rfl⟩

theorem ends_write (h : m.At t pc regs) (hf : t.func.InRegisters) {v : ValueId} {info : ValueInfo}
    (hv : t.func.value? v = some info) (bits : Word) {stop : Halt Failure → Machine → Prop} :
    Ends (write v bits) m (fun _ m' => m'.At t pc (regs.setIfInBounds v bits)) stop :=
  ends_write_register h hf hv bits

theorem ends_step (h : m.At t pc regs) (hlimit : e.maxSteps ≤ 0) {i : Insn}
    (hi : t.func.insns[pc]? = some i) {ok : Option Word → Machine → Prop}
    {stop : Halt Failure → Prop}
    (hdispatch : ∀ m', m'.At t (pc + 1) regs → Ends (dispatch e t.func t.depth i) m' ok
      fun halt _ => match halt with
        | .failed err => stop (.failed (err.within t.func.name))
        | .crashed => stop .crashed) :
    Ends (step e) m ok fun halt _ => stop halt := by
  refine .bind' (ends_frame h) ?_
  rintro _ _ ⟨rfl, rfl⟩
  dsimp only [Activation.frame]
  rw [hi]
  refine .bind_modify (ends_inFunction _ (.bind_get (.ite' (fun hover => ?_) fun _ => ?_)))
  · exact absurd hover.1 (by omega)
  · refine .bind' (ends_modifyFrame (m := { m with steps := m.steps + 1 }) h) ?_
    rintro _ _ rfl
    exact hdispatch _ rfl

theorem passes (h : m.At t pc regs) (hlimit : e.maxSteps ≤ 0) {i : Insn}
    (hi : t.func.insns[pc]? = some i) {post : Machine → Prop}
    (hdispatch : ∀ m', m'.At t (pc + 1) regs →
      Ends (dispatch e t.func t.depth i) m' (fun a m'' => a = none ∧ post m'') fun _ _ => False) :
    ∃ m', Steps e 1 m m' ∧ post m' := by
  have hends : Ends (step e) m (fun a m'' => a = none ∧ post m'') fun _ _ => False :=
    h.ends_step hlimit hi fun m' h' =>
      (hdispatch m' h').total
  unfold Ends at hends
  rcases hstep : ((step e).run m : Except (Halt Failure) (Option Word) × Machine) with
    ⟨halt | answer, m'⟩ <;> rw [hstep] at hends
  · exact hends.elim
  · obtain ⟨rfl, hpost⟩ := hends
    exact ⟨m', .one hstep, hpost⟩

theorem comes (h : m.At t pc regs) (hlimit : e.maxSteps ≤ 0) {i : Insn}
    (hi : t.func.insns[pc]? = some i) {post : Machine → Prop}
    (hdispatch : ∀ m', m'.At t (pc + 1) regs →
      Ends (dispatch e t.func t.depth i) m' (fun a m'' => a = none ∧ post m'') fun _ _ => False) :
    m.Comes e post :=
  ⟨1, h.passes hlimit hi hdispatch⟩

theorem stops (h : m.At t pc regs) (hlimit : e.maxSteps ≤ 0) {i : Insn}
    (hi : t.func.insns[pc]? = some i) {ending : RunEnd}
    (hdispatch : ∀ m', m'.At t (pc + 1) regs →
      Ends (dispatch e t.func t.depth i) m' (fun a _ => ∃ bits, a = some bits ∧ ending = .result bits)
        fun halt _ => ∃ err : Failure, halt = .failed err ∧
          ending = .halted (.failed (err.within t.func.name))) :
    m.Stops e ending := by
  have hends : Ends (step e) m (fun a _ => ∃ bits, a = some bits ∧ ending = .result bits)
      fun halt _ => ending = .halted halt := by
    refine h.ends_step hlimit hi fun m' h' =>
      (hdispatch m' h').imp_stop fun halt _ hstop => ?_
    obtain ⟨err, rfl, hending⟩ := hstop
    exact hending
  refine ⟨1, fun n => ?_⟩
  rw [Nat.add_comm]
  unfold Ends at hends
  unfold run
  rcases hstep : ((step e).run m : Except (Halt Failure) (Option Word) × Machine) with
    ⟨halt | answer, m'⟩ <;> rw [hstep] at hends
  · exact hends.symm
  · obtain ⟨bits, rfl, rfl⟩ := hends
    rfl

/-! ## The instructions -/

theorem label (h : m.At t pc regs) (hlimit : e.maxSteps ≤ 0) {l : LabelId}
    (hi : t.func.insns[pc]? = some { op := .label, label := l }) :
    ∃ m', Steps e 1 m m' ∧ m'.At t (pc + 1) regs :=
  h.passes hlimit hi fun _ h' => .pure' ⟨rfl, h'⟩

theorem ends_jump (h : m.At t pc regs) {i : Insn} {target : Nat} (ht : t.func.target? i = some target)
    {stop : Halt Failure → Machine → Prop} :
    Ends (jump t.func i) m (fun _ m' => m'.At t target regs) stop := by
  unfold jump
  rw [ht]
  refine (ends_modifyFrame h).imp ?_
  rintro _ _ rfl
  rfl

theorem branch (h : m.At t pc regs) (hlimit : e.maxSteps ≤ 0) {i : Insn} (hop : i.op = .branch)
    (hi : t.func.insns[pc]? = some i) {target : Nat} (ht : t.func.target? i = some target) :
    m.Comes e fun m' => m'.At t target regs := by
  refine h.comes hlimit hi fun m' h' => ?_
  unfold dispatch
  rw [hop]
  exact .bind' (h'.ends_jump ht) fun _ _ h => .pure' ⟨rfl, h⟩

theorem branchOn (h : m.At t pc regs) (hf : t.func.InRegisters) (hlimit : e.maxSteps ≤ 0) {i : Insn}
    (hop : i.op = .branchIf ∨ i.op = .branchIfNot) (hi : t.func.insns[pc]? = some i) {target : Nat}
    (ht : t.func.target? i = some target) {info : ValueInfo} (ha : t.func.value? i.a = some info) {bits : Word}
    (hbits : regs[i.a]? = some bits) :
    m.Comes e fun m' =>
      m'.At t (if truthy i.rep bits == (i.op == .branchIf) then target else pc + 1) regs := by
  refine h.comes hlimit hi fun m' h' => ?_
  have hjump : Ends (do
      let c ← read i.a
      if truthy i.rep c == (i.op == .branchIf) then jump t.func i
      pure none) m' (fun a m'' => a = (none : Option Word) ∧
        m''.At t (if truthy i.rep bits == (i.op == .branchIf) then target else pc + 1) regs)
      fun _ _ => False := by
    refine .bind' (h'.ends_read hf ha hbits) ?_
    rintro _ _ ⟨rfl, rfl⟩
    refine .ite' (fun hc => ?_) fun hc => ?_
    · rw [if_pos hc]
      exact .bind' (h'.ends_jump ht) fun _ _ h => .pure' ⟨rfl, h⟩
    · rw [if_neg hc]
      exact .pure' ⟨rfl, h'⟩
  unfold dispatch
  rcases hop with hop | hop <;>
  · rw [hop] at hjump ⊢
    exact hjump

/-- The end of the call: the machine goes on in the frame that waits, if there is one. -/
def Left (t : Activation) (bits : Word) (answer : Option Word) (m : Machine) : Prop :=
  match t.below with
  | [] => answer = some bits
  | fr :: rest => answer = none ∧ m.frames = fr.received t.func t.dest bits :: rest

theorem ends_leave (h : m.At t pc regs) (hw : t.Awaited) (bits : Word)
    {stop : Halt Failure → Machine → Prop} : Ends (leave bits) m (Left t bits) stop := by
  refine .bind' (ends_frame h) ?_
  rintro _ _ ⟨rfl, rfl⟩
  refine .bind' (ends_releaseFrame _).total ?_
  rintro _ _ ⟨mem, -, rfl⟩
  refine .bind_modify (.bind_get ?_)
  dsimp only [Machine.withMemory_frames]
  rw [show m.frames = t.frame pc regs :: t.below from h]
  unfold Left
  cases hbelow : t.below with
  | nil => exact .pure' rfl
  | cons fr rest =>
    show Ends _ _ (fun answer m' => answer = none ∧
      m'.frames = fr.received t.func t.dest bits :: rest) stop
    refine .ite' (fun hc => ?_) fun hc => .pure' ⟨rfl, ?_⟩
    · obtain ⟨hregs, info, hinfo⟩ := hw fr rest hbelow hc
      rw [Frame.received_of_ne (f := t.func) hc]
      exact .bind' (ends_inFunction _ (ends_write_register rfl hregs hinfo bits))
        fun _ _ hm' => .pure' ⟨rfl, hm'⟩
    · rw [Frame.received_of_void (f := t.func) (not_not.mp hc)]
      rfl

theorem returns (h : m.At t pc regs) (hlimit : e.maxSteps ≤ 0) {i : Insn}
    (hi : t.func.insns[pc]? = some i) {bits : Word}
    (hdispatch : ∀ m', m'.At t (pc + 1) regs →
      Ends (dispatch e t.func t.depth i) m' (Left t bits) fun _ _ => False) :
    m.Returns e t bits := by
  unfold Left at hdispatch
  unfold Machine.Returns
  cases hbelow : t.below with
  | nil =>
    refine h.stops hlimit hi fun m' h' => (hdispatch m' h').mono (fun a _ ha => ?_) fun _ _ h => h.elim
    rw [hbelow] at ha
    exact ⟨bits, ha, rfl⟩
  | cons fr rest =>
    refine h.comes hlimit hi fun m' h' => (hdispatch m' h').imp fun a _ ha => ?_
    rw [hbelow] at ha
    exact ha

theorem ret (h : m.At t pc regs) (hw : t.Awaited) (hf : t.func.InRegisters) (hlimit : e.maxSteps ≤ 0)
    {i : Insn} (hop : i.op = .ret) (hi : t.func.insns[pc]? = some i) {info : ValueInfo}
    (ha : t.func.value? i.a = some info) {bits : Word} (hbits : regs[i.a]? = some bits) :
    m.Returns e t bits := by
  refine h.returns hlimit hi fun m' h' => ?_
  unfold dispatch
  rw [hop]
  dsimp only
  rw [if_neg (Nat.ne_of_gt (Func.value?_lt ha).1)]
  refine .bind' (h'.ends_read hf ha hbits) ?_
  rintro bits _ ⟨rfl, rfl⟩
  exact h'.ends_leave hw bits

def Sets (t : Activation) (pc : Nat) (regs : Array Word) (v : ValueId) (bits : Word) (m : Machine) : Prop :=
  m.At t (pc + 1) (regs.setIfInBounds v bits)

theorem comes_plain (h : m.At t pc regs) (hlimit : e.maxSteps ≤ 0) {i : Insn}
    (hi : t.func.insns[pc]? = some i) (hplain : i.op.isPlain = true) {post : Machine → Prop}
    (hexecute : ∀ m', m'.At t (pc + 1) regs →
      Ends (execute e t.func t.depth i) m' (fun _ m'' => post m'') fun _ _ => False) :
    m.Comes e post := by
  refine h.comes hlimit hi fun m' h' => ?_
  rw [dispatch_plain hplain]
  exact .bind' (hexecute m' h') fun _ m'' hpost => .pure' ⟨rfl, hpost⟩

theorem comes_unary (h : m.At t pc regs) (hf : t.func.InRegisters) (hlimit : e.maxSteps ≤ 0) {i : Insn}
    (hi : t.func.insns[pc]? = some i) (hplain : i.op.isPlain = true) {z : Word → Word}
    (hexecute : execute e t.func t.depth i = (do
      let a ← read i.a
      write i.dest (z a)))
    {ia id : ValueInfo} (ha : t.func.value? i.a = some ia) (hd : t.func.value? i.dest = some id)
    {x : Word} (hx : regs[i.a]? = some x) : m.Comes e (Sets t pc regs i.dest (z x)) := by
  refine h.comes_plain hlimit hi hplain fun m' h' => ?_
  rw [hexecute]
  refine .bind' (h'.ends_read hf ha hx) ?_
  rintro _ _ ⟨rfl, rfl⟩
  exact h'.ends_write hf hd _

theorem unary (h : m.At t pc regs) (hf : t.func.InRegisters) (hlimit : e.maxSteps ≤ 0) {op : Opcode}
    (hop : op = .neg ∨ op = .not) {dest a : ValueId} {rep : Rep}
    (hi : t.func.insns[pc]? = some { op, dest, a, rep }) {ia id : ValueInfo} (ha : t.func.value? a = some ia)
    (hd : t.func.value? dest = some id) {x : Word} (hx : regs[a]? = some x) :
    m.Comes e (Sets t pc regs dest (evalUnary op rep x)) := by
  rcases hop with rfl | rfl <;>
    exact h.comes_unary (z := evalUnary _ rep) hf hlimit hi rfl rfl ha hd hx

theorem test (h : m.At t pc regs) (hf : t.func.InRegisters) (hlimit : e.maxSteps ≤ 0) {dest a : ValueId}
    {rep : Rep} (hi : t.func.insns[pc]? = some { op := .toBool, dest, a, rep }) {ia id : ValueInfo}
    (ha : t.func.value? a = some ia) (hd : t.func.value? dest = some id) {x : Word}
    (hx : regs[a]? = some x) :
    m.Comes e (Sets t pc regs dest (Word.ofBool (truthy rep x))) := by
  have htest := h.comes_unary (z := fun a => Word.ofBool (truthy rep a == true)) hf hlimit hi rfl
    rfl ha hd hx
  simpa using htest

theorem copy (h : m.At t pc regs) (hf : t.func.InRegisters) (hlimit : e.maxSteps ≤ 0) {dest a : ValueId}
    {rep : Rep} (hi : t.func.insns[pc]? = some { op := .copy, dest, a, rep }) {ia id : ValueInfo}
    (ha : t.func.value? a = some ia) (hd : t.func.value? dest = some id) {x : Word}
    (hx : regs[a]? = some x) : m.Comes e (Sets t pc regs dest x) :=
  h.comes_unary (z := fun a => a) hf hlimit hi rfl rfl ha hd hx

theorem convert (h : m.At t pc regs) (hf : t.func.InRegisters) (hlimit : e.maxSteps ≤ 0)
    {dest a : ValueId} {type : TypeId} {rep : Rep}
    (hi : t.func.insns[pc]? = some { op := .convert, dest, a, type, rep }) {ia id : ValueInfo}
    (ha : t.func.value? a = some ia) (hd : t.func.value? dest = some id) {x : Word}
    (hx : regs[a]? = some x) :
    m.Comes e (Sets t pc regs dest (convertWord rep id.rep x)) := by
  obtain ⟨-, hget, -⟩ := Func.value?_lt hd
  refine h.comes_unary (z := convertWord rep id.rep) hf hlimit hi rfl ?_ ha hd hx
  unfold execute
  dsimp only
  rw [hget]

theorem compare (h : m.At t pc regs) (hf : t.func.InRegisters) (hlimit : e.maxSteps ≤ 0) {op : Opcode}
    (hop : op.isCompare = true) {dest a b : ValueId} {rep : Rep}
    (hi : t.func.insns[pc]? = some { op, dest, a, b, rep }) {ia ib id : ValueInfo}
    (ha : t.func.value? a = some ia) (hb : t.func.value? b = some ib) (hd : t.func.value? dest = some id)
    {x y : Word} (hx : regs[a]? = some x) (hy : regs[b]? = some y) :
    m.Comes e (Sets t pc regs dest (evalCompare op rep x y)) := by
  refine h.comes_plain hlimit hi (Opcode.isPlain_of_compare hop) fun m' h' => ?_
  rw [execute_compare hop]
  refine .bind' (h'.ends_read hf ha hx) ?_
  rintro _ _ ⟨rfl, rfl⟩
  refine .bind' (h'.ends_read hf hb hy) ?_
  rintro _ _ ⟨rfl, rfl⟩
  exact h'.ends_write hf hd _

theorem binary (h : m.At t pc regs) (hf : t.func.InRegisters) (hlimit : e.maxSteps ≤ 0) {op : Opcode}
    (hop : op.isBinary = true) {dest a b : ValueId} {rep : Rep}
    (hi : t.func.insns[pc]? = some { op, dest, a, b, rep }) {ia ib id : ValueInfo}
    (ha : t.func.value? a = some ia) (hb : t.func.value? b = some ib) (hd : t.func.value? dest = some id)
    {x y : Word} (hx : regs[a]? = some x) (hy : regs[b]? = some y) :
    m.Does e t.func.name (evalBinary op rep x y) fun z => Sets t pc regs dest z := by
  have hplain := Opcode.isPlain_of_binary hop
  rcases hz : evalBinary op rep x y with c | z
  · refine h.stops hlimit hi fun m' h' => ?_
    rw [dispatch_plain hplain, execute_binary hop]
    refine .stopped (.bind' (h'.ends_read hf ha hx) ?_)
    rintro _ _ ⟨rfl, rfl⟩
    refine .bind' (h'.ends_read hf hb hy) ?_
    rintro _ _ ⟨rfl, rfl⟩
    rw [hz]
    exact .throw' ⟨{ cause := c }, rfl, rfl⟩
  · refine h.comes_plain hlimit hi hplain fun m' h' => ?_
    rw [execute_binary hop]
    refine .bind' (h'.ends_read hf ha hx) ?_
    rintro _ _ ⟨rfl, rfl⟩
    refine .bind' (h'.ends_read hf hb hy) ?_
    rintro _ _ ⟨rfl, rfl⟩
    rw [hz]
    exact h'.ends_write hf hd z

end Machine.At

end TypedIR
