import TypedIR.Proofs.Soundness

/-
  Every run of emitted code is safe.

  `Machine.Visits` are the machines a call goes through. In each of them the
  next instruction names values, labels and arguments that are there, values are
  canonical when they are read, and the next step does not crash
  (`Machine.Safe`). So a call ends with a result that is canonical for the
  function, with a failure, or not at all.

  This needs frames whose slots lie inside them. Sizes are 64-bit sums, and the
  second of two structs of 2^62 bytes gets a slot beyond every 4-byte address
  (`far_slot_address`).
-/

namespace TypedIR

/-- The machines that a call of `f` goes through. -/
inductive Machine.Visits (e : Engine) (f : Func) (args : List Word) : Machine → Prop
  | entered {m : Machine}
      (h : ((StepM.enter e f args 0 "" 0).run { host := e.host } :
        Except (Halt Failure) Unit × Machine) = (.ok (), m)) : Visits e f args m
  | stepped {m m' : Machine} (h : Visits e f args m)
      (hs : ((StepM.step e).run m : Except (Halt Failure) (Option Word) × Machine) =
        (.ok none, m')) : Visits e f args m'

/-- The instruction has as many arguments as it reads. -/
def Insn.ArgsFit (e : Engine) (i : Insn) : Prop :=
  match i.op with
  | .storeElem => i.args.length = 1
  | .math => i.args.length = i.math.arity
  | .call => ∀ g, e.findFunc i.callee = .ok g → i.args.length = g.params.length
  | _ => True

/-- What holds of every machine of a run: positions, values, labels and
arguments are in range, what is read is canonical, and the next step does not
crash. -/
structure Machine.Safe (e : Engine) (m : Machine) : Prop where
  pc : ∀ fr ∈ m.frames, fr.pc ≤ fr.func.insns.size
  next : ∀ {fr rest i}, m.frames = fr :: rest → fr.func.insns[fr.pc]? = some i →
    (∀ v ∈ i.operands, (fr.func.value? v).isSome ∧ v < fr.regs.size) ∧
    (i.op.isBranch = true → ∃ pc, fr.func.target? i = some pc ∧ pc ≤ fr.func.insns.size) ∧
    i.ArgsFit e
  canonical : ∀ {fr rest v r w m'}, m.frames = fr :: rest → fr.func.rep? v = some r →
    ((StepM.read v).run m : Except (Halt Failure) Word × Machine) = (.ok w, m') → r.Canonical w
  runs : ((StepM.step e).run m : Except (Halt Failure) (Option Word) × Machine).1 ≠ .error .crashed

/-- A result is canonical, and there is no crash. -/
def RunEnd.Safe (r : Rep) : RunEnd → Prop
  | .result bits => r.Canonical bits
  | .halted h => h ≠ .crashed
  | .unfinished => True

variable {e : Engine} {root f : Func} {m : Machine}

theorem Stack.Sound.pc {frames : List Frame} (h : Stack.Sound e root frames) :
    ∀ fr ∈ frames, fr.pc ≤ fr.func.insns.size := by
  induction h with
  | outer h _ =>
    intro fr hfr
    obtain rfl := List.mem_singleton.mp hfr
    exact h.pc
  | inner h _ _ ih =>
    intro fr hfr
    rcases List.mem_cons.mp hfr with rfl | hfr
    · exact h.pc
    · exact ih fr hfr

theorem Insn.Typed.argsFit {strict : Prop} (he : e.Typed strict) {i : Insn}
    (h : i.Typed e.scope f) : i.ArgsFit e := by
  cases h with
  | call _ hh _ hargs =>
    intro g hg
    obtain ⟨hfn, -⟩ := EngineM.findFunc_ok hg
    rw [hargs.length_eq, Engine.head_eq hh hfn, (he.func hfn).length_head_params]
  | storeElem => rfl
  | math _ _ _ hl _ => exact hl
  | @binary op _ _ _ _ _ _ hop | @compare op _ _ _ _ hop =>
    cases op <;> trivial
  | unary hop | test hop | branchOn hop => rcases hop with rfl | rfl <;> trivial
  | _ => trivial

theorem Machine.Sound.safe (hr : e.Runs root) (h : m.Sound e root) : m.Safe e := by
  refine ⟨h.stack.pc, ?_, ?_, ?_⟩
  · intro fr rest i hframes hi
    have hs := h.stack
    rw [hframes] at hs
    obtain ⟨fn, hfn⟩ := hs.top.known
    have htyped := hr.typed.func hfn
    have hready := hr.typed.ready hfn hs.top.compiled
    have hmem : i ∈ fr.func.insns := Array.mem_of_getElem? hi
    refine ⟨fun v hv => ?_, fun hb => ?_, (htyped.insn i hmem).argsFit hr.typed⟩
    · obtain ⟨r, hrep⟩ := (htyped.insn i hmem).operands v hv
      obtain ⟨info, hinfo, -⟩ := Func.value?_of_rep? hrep
      refine ⟨by simp [hinfo], ?_⟩
      rw [hs.top.regs]
      exact (Func.value?_lt hinfo).2.2
    · obtain ⟨pc, hpc⟩ := Option.isSome_iff_exists.mp (hready.placed i hmem hb)
      exact ⟨pc, hpc, Nat.le_of_lt (htyped.target_lt hpc)⟩
  · intro fr rest v r w m' hframes hrep hread
    exact ((StepM.ends_read hr ⟨h, fr, rest, hframes, rfl⟩ hrep).ok_of_run hread).2
  · have hends := StepM.ends_step hr h
    unfold Ends at hends
    rcases hs : ((StepM.step e).run m : Except (Halt Failure) (Option Word) × Machine) with
      ⟨h | _, m'⟩
    · rw [hs] at hends
      exact fun hc => hends (Except.error.inj hc)
    · exact nofun

/-! ## Runs -/

theorem Machine.ends_entered (hr : e.Runs f) {fn : FuncId} (hf : e.findFunc fn = .ok f)
    (hs : e.host.memory.Serves e.target.ptrSize) {args : List Word}
    (hlen : args.length = f.params.length) :
    Ends (StepM.enter e f args 0 "" 0) { host := e.host } (fun _ m => m.Sound e f) NoCrash :=
  .mono (StepM.ends_enter hr hf .refl hlen hs fun _ hfr hfunc _ => .outer hfr hfunc)
    (fun _ _ h => h.toSound) fun _ _ h => h

theorem Machine.Visits.sound (hr : e.Runs f) {fn : FuncId} (hf : e.findFunc fn = .ok f)
    (hs : e.host.memory.Serves e.target.ptrSize) {args : List Word}
    (hlen : args.length = f.params.length) (h : Visits e f args m) : m.Sound e f := by
  induction h with
  | entered h => exact (Machine.ends_entered hr hf hs hlen).ok_of_run h
  | stepped _ hstep ih => exact (StepM.ends_step hr ih).ok_of_run hstep

theorem Machine.Sound.run (hr : e.Runs root) (h : m.Sound e root) (fuel : Nat) :
    (Machine.run e fuel m).1.Safe root.ret := by
  induction fuel generalizing m with
  | zero => trivial
  | succ fuel ih =>
    have hends := StepM.ends_step hr h
    unfold Ends at hends
    unfold Machine.run
    rcases hs : ((StepM.step e).run m : Except (Halt Failure) (Option Word) × Machine) with
      ⟨h | _ | w, m'⟩ <;> rw [hs] at hends
    · exact hends
    · exact ih hends
    · exact hends

theorem Machine.call_safe (hr : e.Runs f) {fn : FuncId} (hf : e.findFunc fn = .ok f)
    (hs : e.host.memory.Serves e.target.ptrSize) {args : List Word}
    (hlen : args.length = f.params.length) (fuel : Nat) :
    (Machine.call e fuel e.host f args).1.Safe f.ret := by
  have hends := Machine.ends_entered hr hf hs hlen
  unfold Ends at hends
  unfold Machine.call
  rcases hrun : ((StepM.enter e f args 0 "" 0).run { host := e.host } :
    Except (Halt Failure) Unit × Machine) with ⟨h | _, m'⟩ <;> rw [hrun] at hends
  · exact hends
  · exact hends.run hr fuel

/-- Every run of emitted code is safe: for each engine that a history leads to,
each compiled function whose frames fit, along with those of the functions it
reaches, and all arguments. -/
theorem Engine.Built.runs_safe {target : Target} (hu : target.Usual) (hb : e.Built target)
    {fn : FuncId} (hf : e.findFunc fn = .ok f) (hc : f.compiled = true)
    (hfits : ∀ g, e.Reaches f g → g.compiled = true → g.FrameFits)
    (htotal : ∀ name run, e.natives.find? name = some run → run.Total)
    {args : List Word} (hlen : args.length = f.params.length) :
    (∀ m, Machine.Visits e f args m → m.Safe e) ∧
    (∀ fuel, (Machine.call e fuel e.host f args).1.Safe f.ret) ∧
    match ((RunM.apply fn args).run e : Except (Halt Failure) Word × Engine).1 with
      | .ok bits => f.ret.Canonical bits
      | .error (.failed _) => True
      | .error .crashed => (Machine.call e runFuel e.host f args).1 matches .unfinished := by
  have h0 : target.ptrSize ≠ 0 := by rcases hu with h | h <;> simp [h]
  obtain ⟨htarget, hshape⟩ := hb.shape h0
  have hr : e.Runs f := ⟨hb.typed, htarget ▸ hu, hfits, fun _ _ i _ _ => htotal i.native⟩
  have hs : e.host.memory.Serves e.target.ptrSize := by rw [htarget]; exact hshape
  refine ⟨fun m hm => (hm.sound hr hf hs hlen).safe hr, Machine.call_safe hr hf hs hlen, ?_⟩
  have hcall := Machine.call_safe hr hf hs hlen runFuel
  rw [(RunM.apply_eq hf hc hlen).1]
  revert hcall
  generalize (Machine.call e runFuel e.host f args).1 = ending
  intro hcall
  rcases ending with bits | (err | _) | _
  · exact hcall
  · trivial
  · exact (hcall rfl).elim
  · rfl

def Func.callsOnly (fn : FuncId) (f : Func) : Bool :=
  f.insns.all fun i => i.op != .call || i.callee == fn

theorem Engine.reaches_self {fn : FuncId} (hf : e.findFunc fn = .ok f)
    (hself : f.callsOnly fn = true) {g : Func} (hg : e.Reaches f g) : g = f := by
  simp only [Func.callsOnly, Array.all_eq_true_iff_forall_mem, Bool.or_eq_true, bne_iff_ne,
    beq_iff_eq] at hself
  induction hg with
  | refl => rfl
  | tail _ hc ih =>
    subst ih
    obtain ⟨i, hi, hop, hcallee⟩ := hc
    rw [(hself i hi).resolve_left fun h => h hop, hf] at hcallee
    exact (Except.ok.inj hcallee).symm

/-- A function of an integer `x`: 0 and below give `x`, all others the sum of `x`
and what it gives for `x - 1`. -/
def summingHead : List Operation :=
  [.createContext, .buildStart 1, .signatureType 0 Builtin.int32.id [Builtin.int32.id],
    .createFunction 1 18 "sum"]

@[inherit_doc summingHead]
def summingBody : List Operation :=
  [.constInt 1 Builtin.int32.id 0, .newLabel 1, .compare 1 Opcode.le.code 1 2, .branchIf 1 3 1,
    .constInt 1 Builtin.int32.id 1, .binary 1 Opcode.sub.code 1 4, .call 1 1 [5],
    .binary 1 Opcode.add.code 1 6, .ret 1 7, .placeLabel 1 1, .ret 1 1, .compile 1]

def summing : Engine :=
  (Engine.create .i386 0 0 (.seeded 1) 0).after (summingHead ++ .setAddressable 1 1 :: summingBody)

theorem summing_safe :
    ∃ f, summing.findFunc 1 = .ok f ∧ f.compiled = true ∧ f.FrameFits ∧ 0 < f.frameSize ∧
      (∀ m, Machine.Visits summing f [100] m → m.Safe summing) ∧
      ∀ fuel, (Machine.call summing fuel summing.host f [100]).1.Safe f.ret := by
  have hcheck : ((summing.findFunc 1).toOption.any fun f =>
      f.compiled && f.FrameFits && 0 < f.frameSize && f.params.length == 1 &&
        f.callsOnly 1) = true := by decide +kernel
  have hnatives : summing.natives.names = [] := by decide +kernel
  simp only [any_toOption, Bool.and_eq_true, decide_eq_true_eq, beq_iff_eq] at hcheck
  obtain ⟨f, hf, ⟨⟨⟨hc, hfits⟩, hpos⟩, hone⟩, hself⟩ := hcheck
  have hlen : ([100] : List Word).length = f.params.length := hone.symm
  have hsafe := Engine.Built.runs_safe (.inl rfl) ⟨_, _, _, _, _, rfl⟩ hf hc ?_ ?_ hlen
  · exact ⟨f, hf, hc, hfits, hpos, hsafe.1, hsafe.2.1⟩
  · intro g hg _
    rw [Engine.reaches_self hf hself hg]
    exact hfits
  · intro name run hrun
    have hnone : summing.natives.find? name = none := by
      simp [NameTable.find?, List.map_eq_nil_iff.mp hnatives]
    cases hrun.symm.trans hnone

/-! ## Frames beyond every address -/

/-- Structs of two equal fields: of the type `first`, of the struct just made,
and so on. -/
def doublings (first : TypeId) (n : Nat) : List Operation :=
  (List.range n).map fun k => .structType [first + k, first + k]

/-- A function with two structs of 2^62 bytes gives the address of the
second. -/
def farSlots : Engine :=
  (Engine.create .i386 0 0 (.seeded 1) 0).after
    (([.createContext, .buildStart 1, .structType [Builtin.uint8.id, Builtin.uint8.id]] :
        List Operation) ++ doublings 18 61 ++
      [.signatureType 0 Builtin.voidPtr.id [], .createFunction 1 80 "far", .createValue 1 79,
        .createValue 1 79, .addressOf 1 2, .ret 1 3, .compile 1])

/-- The address does not fit a 4-byte pointer. -/
theorem far_slot_address :
    ∃ f w, farSlots.Built .i386 ∧ farSlots.findFunc 1 = .ok f ∧ f.compiled = true ∧
      f.params = [] ∧ farSlots.natives.names = [] ∧
      (Machine.call farSlots 10 farSlots.host f []).1 = .result w ∧ ¬ f.ret.Canonical w := by
  have hcheck : ((farSlots.findFunc 1).toOption.any fun f => f.compiled && f.params == [] &&
      farSlots.natives.names == [] &&
      match (Machine.call farSlots 10 farSlots.host f []).1 with
      | .result w => !decide (f.ret.Canonical w)
      | _ => false) = true := by decide +kernel
  simp only [any_toOption, Bool.and_eq_true, beq_iff_eq] at hcheck
  obtain ⟨f, hf, ⟨⟨hc, hparams⟩, hnatives⟩, hrun⟩ := hcheck
  rcases hcall : (Machine.call farSlots 10 farSlots.host f []).1 with w | _ | _
  · simp only [hcall, Bool.not_eq_true', decide_eq_false_iff_not] at hrun
    exact ⟨f, w, ⟨_, _, _, _, _, rfl⟩, hf, hc, hparams, hnatives, hcall, hrun⟩
  · simp [hcall] at hrun
  · simp [hcall] at hrun

end TypedIR
