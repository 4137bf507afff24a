import TypedIR.Machine
import TypedIR.Proofs.MemoryRuns
import TypedIR.Proofs.Typing

/-
  Parts of a step, run, and what applying a function comes to.

  A request to memory changes the memory of the host and nothing else. Naming
  the function of a failure changes neither the answer nor the machine. Applying
  a function is one call of it on the host of the engine (`apply_eq`).
-/

namespace TypedIR

namespace Machine

def withMemory (m : Machine) (memory : Memory) : Machine :=
  { m with host := { m.host with memory } }

@[simp] theorem withMemory_frames (m : Machine) (mem : Memory) :
    (m.withMemory mem).frames = m.frames := rfl

@[simp] theorem withMemory_memory (m : Machine) (mem : Memory) :
    (m.withMemory mem).host.memory = mem := rfl

end Machine

theorem Failure.cause_within (err : Failure) (name : String) :
    (err.within name).cause = err.cause := by
  unfold within
  split <;> rfl

namespace StepM

variable {α β : Type} (m : Machine)

theorem run_request (r : Memory.Request α) :
    ((request r).run m : Except (Halt Failure) α × Machine) =
      match (r.run m.host.memory : Except (Halt Fault) α × Memory) with
      | (.ok a, mem) => (.ok a, m.withMemory mem)
      | (.error (.failed f), mem) => (.error (.failed { cause := .memory f }), m.withMemory mem)
      | (.error .crashed, mem) => (.error .crashed, m.withMemory mem) := by
  unfold request
  rw [run_bind_get]
  rcases (r.run m.host.memory : Except (Halt Fault) α × Memory) with ⟨(_ | _) | _, mem⟩ <;> rfl

theorem ends_request {r : Memory.Request α} {ok : α → Memory → Prop}
    {stop : Halt Fault → Memory → Prop} (h : Ends r m.host.memory ok stop)
    (hstop : ∀ mem, ¬ stop .crashed mem) :
    Ends (request r) m (fun a m' => ∃ mem, ok a mem ∧ m' = m.withMemory mem)
      (fun halt m' => ∃ f mem, halt = .failed { cause := .memory f } ∧ stop (.failed f) mem ∧
        m' = m.withMemory mem) := by
  unfold Ends at h ⊢
  rw [run_request]
  rcases hr : (r.run m.host.memory : Except (Halt Fault) α × Memory) with ⟨(f | _) | a, mem⟩ <;>
    rw [hr] at h
  · exact ⟨f, mem, rfl, h, rfl⟩
  · exact (hstop mem h).elim
  · exact ⟨mem, h, rfl⟩

theorem run_inFunction (name : String) (act : StepM α) :
    ((inFunction name act).run m : Except (Halt Failure) α × Machine) =
      match (act.run m : Except (Halt Failure) α × Machine) with
      | (.ok a, m') => (.ok a, m')
      | (.error (.failed err), m') => (.error (.failed (err.within name)), m')
      | (.error .crashed, m') => (.error .crashed, m') := by
  unfold inFunction
  rw [run_tryCatch]
  rcases (act.run m : Except (Halt Failure) α × Machine) with ⟨(_ | _) | _, m'⟩ <;> rfl

theorem ends_inFunction {name : String} {act : StepM α} {ok : α → Machine → Prop}
    {stop : Halt Failure → Machine → Prop}
    (h : Ends act m ok fun halt m' => match halt with
      | .failed err => stop (.failed (err.within name)) m'
      | .crashed => stop .crashed m') :
    Ends (inFunction name act) m ok stop := by
  unfold Ends at h ⊢
  rw [run_inFunction]
  rcases hr : (act.run m : Except (Halt Failure) α × Machine) with ⟨(_ | _) | _, m'⟩ <;>
    rw [hr] at h <;> exact h

/-! ### What leaves the machine as it is -/

theorem still_frame : Leaves Eq frame := by
  refine .bind' .get' fun m => ?_
  cases m.frames with
  | nil => exact .throw' _
  | cons fr rest => exact .pure' fr

theorem still_load (r : Rep) (addr : Word) : Leaves Eq (load r addr) := by
  refine .ite' (.pure' addr) (.bind' (fun m => ?_) fun _ => .ite' (.pure' _) (.throw' _))
  rw [run_request]
  have hmem := Memory.snd_run_read m.host.memory addr r.size
  rcases hr : ((Memory.read addr r.size).run m.host.memory :
    Except (Halt Fault) (List UInt8) × Memory) with ⟨(_ | _) | _, mem⟩ <;>
  · rw [hr] at hmem
    subst hmem
    rfl

theorem still_read (v : ValueId) : Leaves Eq (read v) := by
  refine .bind' still_frame fun fr => ?_
  cases fr.func.values[v]? with
  | none => exact .throw' _
  | some info =>
    cases hslot : info.place? with
    | some slot =>
      simp only [hslot]
      exact still_load _ _
    | none =>
      simp only [hslot]
      cases fr.regs[v]? with
      | some w => exact .pure' w
      | none => exact .throw' _

theorem still_readAll (vs : List ValueId) : Leaves Eq (readAll vs) := by
  induction vs with
  | nil => exact .pure' _
  | cons v rest ih => exact .bind' (still_read v) fun _ => .bind' ih fun _ => .pure' _

theorem run_frame {m : Machine} {fr : Frame} {rest : List Frame}
    (h : m.frames = fr :: rest) :
    (frame.run m : Except (Halt Failure) Frame × Machine) = (.ok fr, m) := by
  unfold frame
  rw [run_bind_get, h]
  rfl

theorem ends_frame {m : Machine} {fr : Frame} {rest : List Frame}
    (h : m.frames = fr :: rest)
    {stop : Halt Failure → Machine → Prop} :
    Ends frame m (fun a m' => fr = a ∧ m = m') stop := by
  unfold Ends
  rw [run_frame h]
  exact ⟨rfl, rfl⟩

theorem ends_noFrame {m : Machine} {k : Frame → StepM β} (h : m.frames = []) :
    Ends (frame >>= k) m (fun _ _ => False) fun _ m' => m = m' := by
  have hcrash : Ends frame m (fun _ _ => False) fun _ m' => m = m' := by
    refine .bind_get ?_
    rw [h]
    exact .throw' rfl
  exact .stopped hcrash

/-! ### What a step relation has to allow

A relation that a host, a register and a reserved block may differ in allows every
instruction that does not call: the walk over the instructions is made once, for any
relation, and what each piece may change is asked of the relation. -/

section

variable {R : Machine → Machine → Prop} [Std.Refl R] [Trans R R R] {e : Engine} {f : Func}

theorem leaves_inFunction {name : String} {act : StepM α} (h : Leaves R act) :
    Leaves R (inFunction name act) := by
  refine .tryCatch' h fun halt => ?_
  cases halt with
  | failed err => exact .throw' _
  | crashed => exact .throw' _

theorem leaves_read₂ {i : Insn} {k : Word → Word → StepM α} (hk : ∀ a b, Leaves R (k a b)) :
    Leaves R (do
      let a ← read i.a
      let b ← read i.b
      k a b) :=
  .bind' (still_read _).still fun a => .bind' (still_read _).still fun b => hk a b

theorem leaves_write {v : ValueId} (bits : Word)
    (hstore : ∀ r addr bits, Leaves R (store r addr bits))
    (hset : Leaves R (modifyFrame fun fr => { fr with regs := fr.regs.setIfInBounds v bits })) :
    Leaves R (write v bits) := by
  refine .bind' still_frame.still fun fr => ?_
  cases fr.func.values[v]? with
  | none => exact .throw' _
  | some info =>
    cases hslot : info.place? with
    | some slot =>
      simp only [hslot]
      exact hstore _ _ _
    | none =>
      simp only [hslot]
      exact hset

theorem leaves_setParams {params : List ValueId} (args : List Word)
    (hwrite : ∀ p ∈ params, ∀ bits, Leaves R (write p bits)) :
    Leaves R (setParams f params args) := by
  induction params generalizing args with
  | nil => exact .pure' _
  | cons p params ih =>
    obtain ⟨hp, hrest⟩ := List.forall_mem_cons.mp hwrite
    cases args with
    | nil => exact .throw' _
    | cons a args =>
      unfold setParams
      cases f.values[p]? with
      | none => exact .bind' (.throw' _) fun _ => ih args hrest
      | some info => exact .bind' (hp _) fun _ => ih args hrest

/-- Calls, reservations and natives aside, an instruction reads its operands and sets
its destination or stores. -/
theorem leaves_execute {depth : Nat} {i : Insn} (hwrite : ∀ bits, Leaves R (write i.dest bits))
    (hstore : i.op = .storeRel ∨ i.op = .storeElem →
      ∀ r addr bits, Leaves R (store r addr bits))
    (halloca : i.op = .alloca → Leaves R (execute e f depth i))
    (hcall : i.op = .call → Leaves R (execute e f depth i))
    (hnative : i.op = .callNative → Leaves R (callNative e f i)) :
    Leaves R (execute e f depth i) := by
  have hunary : ∀ g : Word → Word, Leaves R (do
      let a ← read i.a
      write i.dest (g a)) :=
    fun g => .bind' (still_read _).still fun a => hwrite _
  cases hop : i.op
  case alloca => exact halloca hop
  case call => exact hcall hop
  all_goals unfold execute; rw [hop]; dsimp only
  case add | sub | mul | div | rem | pow | and | or | xor | shl | shr =>
    refine leaves_read₂ fun a b => ?_
    generalize evalBinary _ i.rep a b = answer
    cases answer with
    | ok z => exact hwrite _
    | error c => exact .throw' _
  case lt | le | gt | ge | eq | ne => exact leaves_read₂ fun a b => hwrite _
  case neg | not => exact hunary _
  case toBool | toNotBool => exact hunary _
  case convert =>
    refine .bind' (still_read _).still fun a => ?_
    cases f.values[i.dest]? with
    | some d => exact hwrite _
    | none => exact .throw' _
  case copy => exact hunary id
  case addressOf =>
    cases f.values[i.a]? with
    | some v => exact .bind' still_frame.still fun fr => hwrite _
    | none => exact .throw' _
  case loadRel =>
    exact .bind' (still_read _).still fun p => .bind' (still_load _ _).still fun v => hwrite _
  case storeRel => exact leaves_read₂ fun p v => hstore (.inl hop) _ _ _
  case loadElem =>
    exact leaves_read₂ fun p index => .bind' (still_load _ _).still fun v => hwrite _
  case storeElem =>
    refine leaves_read₂ fun p index => ?_
    cases i.args with
    | nil => exact .throw' _
    | cons arg _ => exact .bind' (still_read _).still fun v => hstore (.inr hop) _ _ _
  case callNative => exact hnative hop
  case math =>
    refine .bind' (still_readAll _).still fun args => ?_
    cases evalMath? i.math i.rep args with
    | some z => exact hwrite _
    | none => exact .throw' _
  all_goals exact .throw' _

theorem leaves_call {depth : Nat} {i : Insn} (hop : i.op = .call)
    (henter : ∀ g, e.findFunc i.callee = .ok g → ∀ args,
      Leaves R (enter e g args depth f.name i.dest)) : Leaves R (execute e f depth i) := by
  unfold execute
  rw [hop]
  dsimp only
  cases hcallee : e.findFunc i.callee with
  | error err => exact .throw' _
  | ok g => exact .bind' (still_readAll _).still fun args => henter g hcallee args

omit [Trans R R R] in
theorem leaves_jump (i : Insn)
    (hgoto : ∀ pc, Leaves R (modifyFrame fun fr => { fr with pc })) : Leaves R (jump f i) := by
  unfold jump
  cases f.target? i with
  | none => exact .throw' _
  | some pc => exact hgoto pc

theorem leaves_dispatch {depth : Nat} {i : Insn} (hexecute : Leaves R (execute e f depth i))
    (hjump : Leaves R (jump f i)) (hleave : ∀ bits, Leaves R (leave bits)) :
    Leaves R (dispatch e f depth i) := by
  have hnext : Leaves R (do
      execute e f depth i
      pure none : StepM (Option Word)) := .bind' hexecute fun _ => .pure' _
  unfold dispatch
  cases hop : i.op
  case nop | label => exact .pure' _
  case branch => exact .bind' hjump fun _ => .pure' _
  case branchIf | branchIfNot =>
    exact .bind' (still_read _).still fun c => .ite' (.bind' hjump fun _ => .pure' _) (.pure' _)
  case ret => exact .ite' (hleave 0) (.bind' (still_read _).still hleave)
  all_goals exact hnext

theorem leaves_fetched {depth : Nat} {i : Insn} (pc : Nat)
    (hgoto : ∀ pc, Leaves R (modifyFrame fun fr => { fr with pc }))
    (hdispatch : Leaves R (dispatch e f depth i)) :
    Leaves R (inFunction f.name do
      if 0 < e.maxSteps ∧ e.maxSteps < (← get).steps then fail (.stepLimit e.maxSteps)
      modifyFrame fun fr => { fr with pc := pc + 1 }
      dispatch e f depth i) := by
  have hmove : Leaves R (do
      modifyFrame fun fr => { fr with pc := pc + 1 }
      dispatch e f depth i) := .bind' (hgoto _) fun _ => hdispatch
  exact leaves_inFunction (.bind' .get' fun m => .ite' (.bind' (.throw' _) fun _ => hmove) hmove)

/-- A frame goes, and its caller gets what it gives back. -/
theorem leaves_leave {P : Machine → Prop} (bits : Word)
    (hgone : ∀ {m : Machine} {fr : Frame} {rest : List Frame}, P m → m.frames = fr :: rest →
      Ends (releaseFrame fr) m (fun _ m' => P { m' with frames := m'.frames.drop 1 })
        fun _ _ => False)
    (hwrite : ∀ v, Leaves (Onward P) (write v bits)) : Leaves (Onward P) (leave bits) := by
  intro m h
  refine Ends.state ?_
  cases hframes : m.frames with
  | nil => exact (ends_noFrame hframes).mono (fun _ _ h => h.elim) fun _ _ hm => hm ▸ h
  | cons fr rest =>
    refine .bind' (ends_frame hframes) ?_
    rintro _ _ ⟨rfl, rfl⟩
    refine .bind' (hgone h hframes).total fun _ m₁ hrest => .bind_modify (.bind_get ?_)
    generalize ({ m₁ with frames := m₁.frames.drop 1 } : Machine) = m₂ at hrest
    cases m₂.frames with
    | nil => exact .pure' hrest
    | cons caller _ =>
      have hgiven : Leaves (Onward P) (inFunction caller.func.name (write fr.dest bits)) :=
        leaves_inFunction (hwrite fr.dest)
      exact .ite' (fun _ => .bind' (Ends.of_state (hgiven _ hrest)) fun _ _ h => .pure' h)
        fun _ => .pure' hrest

/-- What leaving, moving on and every instruction of a running function keep, steps keep. -/
theorem leaves_step {P : Machine → Prop}
    (hcount : ∀ {m : Machine} (n : Nat), P m → P { m with steps := n })
    (hgoto : ∀ pc, Leaves (Onward P) (modifyFrame fun fr => { fr with pc }))
    (hleave : ∀ bits, Leaves (Onward P) (leave bits))
    (hexecute : ∀ {m : Machine} {fr : Frame} {rest : List Frame}, P m → m.frames = fr :: rest →
      ∀ i ∈ fr.func.insns, ∀ depth, Leaves (Onward P) (execute e fr.func depth i)) :
    Leaves (Onward P) (step e) := by
  intro m h
  refine Ends.state ?_
  cases hframes : m.frames with
  | nil => exact (ends_noFrame hframes).mono (fun _ _ h => h.elim) fun _ _ hm => hm ▸ h
  | cons fr rest =>
    refine .bind' (ends_frame hframes) ?_
    rintro ⟨f, depth, pc, regs, base, allocas, dest⟩ _ ⟨rfl, rfl⟩
    dsimp only
    cases hi : f.insns[pc]? with
    | none => exact .of_state (hleave 0 m h)
    | some i =>
      have hdispatch := leaves_dispatch
        (hexecute h hframes i (Array.mem_of_getElem? hi) depth) (leaves_jump i hgoto) hleave
      exact .bind_modify (.of_state (leaves_fetched pc hgoto hdispatch _ (hcount _ h)))

variable (hhost : ∀ (m : Machine) (host : Host), R m { m with host })

include hhost

omit [Std.Refl R] [Trans R R R] in
theorem leaves_request (r : Memory.Request α) : Leaves R (request r) := by
  intro m
  rw [run_request]
  rcases (r.run m.host.memory : Except (Halt Fault) α × Memory) with ⟨(_ | _) | _, mem⟩ <;>
    exact hhost m _

omit [Trans R R R] in
theorem leaves_store (r : Rep) (addr bits : Word) : Leaves R (store r addr bits) :=
  .ite' (leaves_request hhost _) (.ite' (leaves_request hhost _) (.throw' _))

theorem leaves_release (addr : Word) : Leaves R (release addr) :=
  .ite' (.pure' _) (.tryCatch' (leaves_request hhost _) fun _ => .pure' _)

theorem leaves_releaseFrame (fr : Frame) : Leaves R (releaseFrame fr) :=
  .bind' (.forM' _ (leaves_release hhost)) fun _ => leaves_release hhost _

theorem leaves_callNative {i : Insn} (hwrite : ∀ bits, Leaves R (write i.dest bits)) :
    Leaves R (callNative e f i) := by
  unfold callNative
  cases e.natives.find? i.native with
  | none => exact .throw' _
  | some run =>
    refine .bind' (still_readAll _).still fun bits => .bind_get fun m => Ends.state ?_
    refine Ends.bind_set ?_
    rcases ((run { name := i.native, args := _, ret := i.rep }).run m.host :
      Except (Halt NativeError) Word × Host) with ⟨answer, host⟩
    refine Ends.bind_modify ?_
    have hchanged : R m { m with host } := hhost m host
    rcases answer with ((_ | _) | _) | res
    · exact Ends.throw' hchanged
    · exact Ends.throw' hchanged
    · exact Ends.throw' hchanged
    · refine Ends.ite' (fun _ => Ends.pure' hchanged) fun _ => ?_
      exact ((hwrite _).ends _).mono (fun _ _ h => Trans.trans hchanged h)
        fun _ _ h => Trans.trans hchanged h

theorem leaves_alloca {depth : Nat} {i : Insn} (hwrite : ∀ bits, Leaves R (write i.dest bits))
    (hkeep : ∀ p, Leaves R (modifyFrame fun fr => { fr with allocas := p :: fr.allocas }))
    (hop : i.op = .alloca) : Leaves R (execute e f depth i) := by
  unfold execute
  rw [hop]
  refine .bind' (still_read _).still fun n => .bind' (.ite' (.pure' _) (.throw' _)) fun size => ?_
  exact .bind' (leaves_request hhost _) fun p => .bind' (hkeep p) fun _ => hwrite _

end

end StepM

/-! ## Applying a function -/

namespace Machine

theorem run_congr (e : Engine) (h : Host) (notes : Array Trace.Note) (fuel : Nat) (m : Machine) :
    run { e with host := h, notes } fuel m = run e fuel m := by
  have hstep : StepM.step { e with host := h, notes } = StepM.step e := rfl
  induction fuel generalizing m with
  | zero => rfl
  | succ fuel ih =>
    unfold run
    rw [hstep]
    simp only [ih]

theorem call_congr (e : Engine) (h : Host) (notes : Array Trace.Note) (fuel : Nat) (host : Host)
    (f : Func) (args : List Word) :
    call { e with host := h, notes } fuel host f args = call e fuel host f args := by
  have henter : StepM.enter { e with host := h, notes } = StepM.enter e := rfl
  unfold call
  rw [henter]
  simp only [run_congr]

end Machine

def RunEnd.answer : RunEnd → Except (Halt Failure) Word
  | .result bits => .ok bits
  | .halted h => .error h
  | .unfinished => .error .crashed

namespace RunM

theorem ends_ofEngine {α : Type} {act : EngineM α} {e : Engine} {ok : α → Engine → Prop}
    {stop : Halt Failure → Engine → Prop}
    (h : Ends act e ok fun err e' => stop (.failed err) e') : Ends (ofEngine act) e ok stop := by
  unfold ofEngine
  refine .bind_get ?_
  unfold Ends at h
  rcases hr : (act.run e : Except Failure α × Engine) with ⟨_ | _, e'⟩ <;> rw [hr] at h <;>
    exact .bind_set h

theorem ends_note {e : Engine} {stop : Halt Failure → Engine → Prop} (n : Trace.Note) :
    Ends (ofEngine (EngineM.note n)) e (fun _ e' => { e with notes := e.notes.push n } = e') stop :=
  ends_ofEngine (.modify' rfl)

variable {e : Engine} {fn : FuncId} {f : Func} {args : List Word}

theorem ends_func (hf : e.findFunc fn = .ok f) {stop : Halt Failure → Engine → Prop} :
    Ends (ofEngine (EngineM.func fn)) e (fun a e' => f = a ∧ e = e') stop := by
  refine ends_ofEngine (.bind_get ?_)
  dsimp only
  rw [hf]
  exact .pure' ⟨rfl, rfl⟩

theorem ends_apply (hf : e.findFunc fn = .ok f) (hc : f.compiled = true)
    (hlen : args.length = f.params.length) {ending : RunEnd} {m : Machine}
    (hcall : Machine.call e runFuel e.host f args = (ending, m)) :
    Ends (apply fn args) e (fun bits e' => .ok bits = ending.answer ∧ e'.host = m.host)
      (fun h e' => .error h = ending.answer ∧ e'.host = m.host) := by
  unfold apply
  generalize runFuel = fuel at hcall ⊢
  refine .bind' (ends_func hf) ?_
  rintro _ _ ⟨rfl, rfl⟩
  rw [if_neg (by simp [hc]), if_neg (by simp [hlen])]
  refine .bind' (ends_note _) ?_
  rintro _ _ rfl
  refine .bind_get (.bind_set ?_)
  dsimp only
  rw [Machine.call_congr, hcall]
  refine .bind_modify (.bind' (ends_note _) ?_)
  rintro _ _ rfl
  cases ending with
  | result bits => exact .pure' ⟨rfl, rfl⟩
  | halted h => exact .throw' ⟨rfl, rfl⟩
  | unfinished => exact .throw' ⟨rfl, rfl⟩

/-- Applying a compiled function to arguments of the right number is one call of
it on the host of the engine. -/
theorem apply_eq (hf : e.findFunc fn = .ok f) (hc : f.compiled = true)
    (hlen : args.length = f.params.length) :
    ((apply fn args).run e : Except (Halt Failure) Word × Engine).1 =
      (Machine.call e runFuel e.host f args).1.answer ∧
    ((apply fn args).run e : Except (Halt Failure) Word × Engine).2.host =
      (Machine.call e runFuel e.host f args).2.host := by
  have hends := ends_apply hf hc hlen (Prod.mk.eta (p := Machine.call e runFuel e.host f args)).symm
  unfold Ends at hends
  rcases hr : ((apply fn args).run e : Except (Halt Failure) Word × Engine) with ⟨_ | _, e'⟩ <;>
    rw [hr] at hends <;> exact hends

end RunM

end TypedIR
