import TypedIR.Proofs.ControlFlow
import TypedIR.Proofs.FrameCode
import TypedIR.Proofs.KeptRegisters
import TypedIR.Proofs.RegisterCode

/-
  Calls of straight code.

  A function whose instructions only compute, and that returns at its end, passes the
  check of its jumps and calls, and its end cannot be reached
  (`Func.Straight.endReachable_push`). A call of it begins in a frame with the arguments
  in their registers (`StepM.ends_enter_inside`), goes through the code, and the return gives the
  result (`Machine.Leads.run_result`). Only the step limit of the engine, or a run that is
  given too few steps, can be in the way (`Halt.GivesUp`).
-/

namespace TypedIR

/-! ## Straight functions -/

def Func.Straight (f : Func) : Prop := ∀ i ∈ f.insns, i.op.isPlain = true

namespace Func

variable {f g : Func} {i : Insn} {pc : Nat}

theorem successors_plain (h : i.op.isPlain = true) : f.successors pc i = [pc + 1] := by
  unfold successors
  cases hop : i.op <;> rw [hop] at h <;> first | rfl | cases h

namespace Straight

theorem push (h : f.Straight) (hi : i.op.isPlain = true) : (f.push i).Straight := by
  intro j hj
  rcases Array.mem_push.mp hj with hj | rfl
  · exact h j hj
  · exact hi

theorem endReachable_push (h : f.Straight) (hi : i.op = .ret) :
    (f.push i).endReachable = some false := by
  have hdone : ∀ (fuel : Nat) (seen : Array Bool), 0 < fuel →
      (f.push i).reachEnd fuel seen [] = some false := by
    intro fuel seen hfuel
    obtain ⟨k, rfl⟩ := Nat.exists_eq_succ_of_ne_zero (Nat.ne_of_gt hfuel)
    rfl
  have hreach : ∀ (fuel : Nat) (seen : Array Bool) (pc : Nat), seen.size = f.insns.size + 2 →
      pc ≤ f.insns.size → f.insns.size + 2 ≤ pc + fuel →
      (f.push i).reachEnd fuel seen [pc] = some false := by
    intro fuel
    induction fuel with
    | zero => intro _ pc _ _ _; omega
    | succ fuel ih =>
      intro seen pc hsize hpc hfuel
      rcases Nat.lt_or_eq_of_le hpc with hlt | rfl
      · have hget : (f.push i).insns[pc]? = some f.insns[pc] :=
          (extends_push i).insn (Array.getElem?_eq_getElem hlt)
        have hsucc : (f.push i).successors pc f.insns[pc] = [pc + 1] :=
          successors_plain (h _ (Array.getElem_mem hlt))
        have hs : pc + 1 < seen.size := by omega
        have hmark : seen[pc + 1]? = some seen[pc + 1] := Array.getElem?_eq_getElem hs
        cases hseen : seen[pc + 1] with
        | true =>
          have hvisit : visit seen [] ((f.push i).successors pc f.insns[pc]) = some (seen, []) := by
            rw [hsucc, visit, hmark, hseen]
            rfl
          rw [reachEnd_turn hget hvisit]
          exact hdone _ _ (by omega)
        | false =>
          have hvisit : visit seen [] ((f.push i).successors pc f.insns[pc]) =
              some (seen.setIfInBounds (pc + 1) true, [pc + 1]) := by
            rw [hsucc, visit, hmark, hseen]
            rfl
          rw [reachEnd_turn hget hvisit]
          exact ih _ _ (by simpa using hsize) hlt (by omega)
      · have hget : (f.push i).insns[f.insns.size]? = some i := by
          simp [Func.push]
        have hlast : (f.push i).successors f.insns.size i = [] := by
          unfold successors
          rw [hi]
        have hvisit : visit seen [] ((f.push i).successors f.insns.size i) = some (seen, []) := by
          rw [hlast]
          rfl
        rw [reachEnd_turn hget hvisit]
        exact hdone _ _ (by omega)
  refine hreach _ _ 0 ?_ (Nat.zero_le _) ?_
  · simp [size_firstSeen, Func.push]
  · simp [Func.push]

theorem leads_push (h : f.Straight) (hi : i.op = .ret) (e : Engine) : e.Leads (f.push i) := by
  intro j hj
  rcases Array.mem_push.mp hj with hj | rfl
  · have hplain := h j hj
    constructor <;> intro hop
    · cases hcode : j.op <;> rw [hcode] at hplain hop <;> cases hplain <;> cases hop
    · rw [hop] at hplain
      cases hplain
  · simp [hi, Opcode.isBranch]

end Straight

end Func

/-! ## Entering -/

def Frame.first (f : Func) (base : Word) : Frame :=
  { func := f, depth := 1, regs := StepM.initialRegs f, base }

def Func.Reserves (f : Func) (mem : Memory) (base : Word) (mem' : Memory) : Prop :=
  if 0 < f.frameSize then
    ((Memory.alloc f.frameSize).run mem : Except (Halt Fault) Word × Memory) = (.ok base, mem')
  else base = 0 ∧ mem' = mem

/-- The parameters are values of their own, in registers. -/
structure Func.Registered (f : Func) (params : List ValueId) : Prop where
  place : ∀ p ∈ params, ∃ info, f.value? p = some info ∧ info.place? = none
  nodup : params.Nodup

def Machine.Passes (m : Machine) (f : Func) : List ValueId → List Word → Prop :=
  List.Forall₂ fun p a => ∀ info, f.value? p = some info → m.Reads p (info.rep.normalize a)

namespace StepM

open Machine

variable {e : Engine} {f : Func} {fr : Frame} {rest : List Frame} {m : Machine} {pc : Nat}

theorem ends_setParams_inside {params : List ValueId} {args : List Word}
    (hf : fr.func.Registered params) (hlen : params.length = args.length) (h : m.Inside fr rest pc) :
    Ends (setParams fr.func params args) m (fun _ m' => m'.Inside fr rest pc ∧ m'.host = m.host ∧
      m.Keeps fr.func (· ∈ params) m' ∧ m'.Passes fr.func params args) fun _ _ => False := by
  induction params generalizing m args with
  | nil =>
    obtain rfl : args = [] := List.length_eq_zero_iff.mp hlen.symm
    exact .pure' ⟨h, rfl, fun _ _ hread => hread, .nil⟩
  | cons p params ih =>
    obtain ⟨hplace, hnodup⟩ := hf
    obtain ⟨⟨info, hv, hreg⟩, hrest⟩ := List.forall_mem_cons.mp hplace
    obtain ⟨hnew, hnodup⟩ := List.nodup_cons.mp hnodup
    cases args with
    | nil => cases hlen
    | cons a args =>
      have hset := (Func.value?_lt hv).2.1
      unfold setParams
      rw [hset]
      refine .bind' (h.ends_write hv hreg (info.rep.normalize a)) ?_
      rintro _ m₁ ⟨h₁, hread, hkept, hhost⟩
      refine (ih ⟨hrest, hnodup⟩ (Nat.succ.inj hlen) h₁).imp ?_
      rintro _ m₂ ⟨h₂, hhost₂, hkept₂, hpasses⟩
      have hsome : (fr.func.value? p).isSome := by rw [hv]; rfl
      refine ⟨h₂, hhost₂.trans hhost, fun hu hno hread => ?_, .cons (fun info' hv' => ?_) hpasses⟩
      · obtain ⟨hother, hno⟩ := not_or.mp (mt List.mem_cons.mpr hno)
        exact hkept₂ hu hno (hkept hu hother hread)
      · obtain rfl := Option.mem_unique hv hv'
        exact hkept₂ hsome hnew hread

/-- A call begins at the first instruction, with the constants and the arguments in
their registers. -/
theorem ends_enter_inside (hc : f.compiled = true) (hdepth : 0 < e.maxDepth)
    (hf : f.Registered f.params) {args : List Word} (hlen : f.params.length = args.length) (host : Host) :
    Ends (enter e f args 0 "" 0) { host } (fun _ m => ∃ base mem, f.Reserves host.memory base mem ∧
        m.Inside (.first f base) [] 0 ∧ m.host = { host with memory := mem } ∧
        m.Passes f f.params args ∧ ∀ v info, f.value? v = some info → v ∉ f.params →
          info.origin = .const → info.place? = none → m.Reads v info.bits)
      fun _ _ => ∀ base mem, ¬ f.Reserves host.memory base mem := by
  have hmake : ∀ base mem, f.Reserves host.memory base mem → ∀ m : Machine, m.frames = [] →
      m.host = { host with memory := mem } → Ends (do
        modify fun m =>
          { m with frames :=
              { func := f, depth := 0 + 1, regs := initialRegs f, base, dest := 0 } :: m.frames }
        inFunction "" (setParams f f.params args)) m
        (fun _ m' => ∃ base mem, f.Reserves host.memory base mem ∧ m'.Inside (.first f base) [] 0 ∧
          m'.host = { host with memory := mem } ∧
          m'.Passes f f.params args ∧ ∀ v info, f.value? v = some info → v ∉ f.params →
            info.origin = .const → info.place? = none → m'.Reads v info.bits)
        fun _ _ => ∀ base mem, ¬ f.Reserves host.memory base mem := by
    intro base mem hreserves m hm hhost
    have hin : Inside (.first f base) [] 0 { m with frames := [.first f base] } :=
      ⟨initialRegs f, rfl, by simp [initialRegs, Frame.first]⟩
    have hf' : (Frame.first f base).func.Registered f.params := hf
    refine .bind_modify (ends_named ?_)
    rw [hm]
    refine (ends_setParams_inside hf' hlen hin).mono ?_ fun _ _ h => h.elim
    rintro _ m' ⟨h', hhost', hkept, hpasses⟩
    refine ⟨base, mem, hreserves, h', hhost'.trans hhost, hpasses, fun v info hv hno hconst hreg => ?_⟩
    refine hkept (by rw [show (Frame.first f base).func = f from rfl, hv]; rfl) hno ?_
    rw [reads_register rfl hv hreg]
    have hget := (Func.value?_lt hv).2.1
    simp [Frame.first, initialRegs, hget, hconst]
  refine .ite' (fun h => ?_) fun _ => .ite' (fun h => ?_) fun _ => ?_
  · rw [hc] at h
    cases h
  · omega
  · by_cases hsize : 0 < f.frameSize
    · rw [if_pos hsize]
      have hrequest : Ends (inFunction f.name (request (Memory.alloc f.frameSize))) { host }
          (fun base m => ∃ mem, f.Reserves host.memory base mem ∧ m.frames = [] ∧
            m.host = { host with memory := mem })
          fun _ _ => ∀ base mem, ¬ f.Reserves host.memory base mem := by
        have hreserves : ∀ base mem, f.Reserves host.memory base mem ↔
            ((Memory.alloc f.frameSize).run host.memory : Except (Halt Fault) Word × Memory) =
              (.ok base, mem) := by
          intro base mem
          unfold Func.Reserves
          rw [if_pos hsize]
        unfold Ends
        rw [run_inFunction, run_request]
        simp only [hreserves]
        rcases hrun : ((Memory.alloc f.frameSize).run host.memory : Except (Halt Fault) Word × Memory)
          with ⟨(_ | _) | base, mem⟩
        · rintro _ _ ⟨⟩
        · rintro _ _ ⟨⟩
        · exact ⟨mem, rfl, rfl, rfl⟩
      refine .bind' hrequest ?_
      rintro base m ⟨mem, hreserves, hm, hhost⟩
      exact hmake base mem hreserves m hm hhost
    · rw [if_neg hsize]
      have hreserves : f.Reserves host.memory 0 host.memory := by
        unfold Func.Reserves
        rw [if_neg hsize]
        exact ⟨rfl, rfl⟩
      exact .bind_pure (hmake 0 host.memory hreserves _ rfl rfl)

end StepM

/-! ## Returning -/

/-- How a run is given up: at the step limit, or because it is given fewer steps than it
takes. -/
def Halt.GivesUp (limit : Int) (fuel n : Nat) : Halt Failure → Prop
  | .failed err => 0 < limit ∧ err.cause = .stepLimit limit
  | .crashed => fuel < n

namespace Machine

variable {e : Engine} {fr : Frame} {m : Machine} {pc n : Nat} {i : Insn} {w : Word}
  {post : Machine → Prop}

def Gives (e : Engine) (w : Word) (m : Machine) : Prop :=
  ∀ fuel n, Ends (StepM.step e) m (fun a _ => a = some w)
    fun halt _ => halt.GivesUp e.maxSteps fuel (n + 1)

/-- The return of the outermost frame gives the value, unless the engine has a limit for
steps. -/
theorem Inside.ends_ret (h : m.Inside fr [] pc) (hi : fr.func.insns[pc]? = some i)
    (hop : i.op = .ret) (hv : (fr.func.value? i.a).isSome) (hread : m.Reads i.a w) :
    m.Gives e w := by
  obtain ⟨regs, hm, -⟩ := h
  obtain ⟨info, hinfo⟩ := Option.isSome_iff_exists.mp hv
  have hnamed := Nat.ne_of_gt (Func.value?_lt hinfo).1
  intro fuel n
  unfold StepM.step
  refine .bind' (StepM.ends_frame hm) ?_
  rintro _ _ ⟨rfl, rfl⟩
  dsimp only
  rw [hi]
  refine .bind_modify (StepM.ends_inFunction _ (.bind_get (.ite' (fun hover => ?_) fun _ => ?_)))
  · exact .bind_throw ⟨hover.1, Failure.cause_within _ _⟩
  · let m₁ : Machine := { m with steps := m.steps + 1 }
    have hm₁ : m₁.frames = [{ fr with pc, regs }] := hm
    refine .bind' (StepM.ends_modifyFrame hm₁) ?_
    rintro _ _ rfl
    have hkept : m.Keeps fr.func (fun _ => False)
        (m.counted { fr with pc := pc + 1, regs } []) := keeps_counted hm
    have hreads := hkept hv id hread
    unfold StepM.dispatch
    rw [hop]
    dsimp only
    rw [if_neg hnamed]
    refine .bind_ok hreads ?_
    let m₂ : Machine := m.counted { fr with pc := pc + 1, regs } []
    have hm₂ : m₂.frames = [{ fr with pc := pc + 1, regs }] := rfl
    refine .bind' (StepM.ends_frame hm₂) ?_
    rintro _ _ ⟨rfl, rfl⟩
    refine .bind' (StepM.ends_releaseFrame _).total ?_
    rintro _ _ ⟨mem, -, rfl⟩
    exact .bind_modify (.bind_get (.pure' rfl))

theorem Leads.run_result (h : m.Leads e False n (Gives e w)) (fuel : Nat) {ending : RunEnd}
    {m' : Machine} (hrun : run e fuel m = (ending, m')) :
    ending = .result w ∨ ∃ halt, ending.answer = .error halt ∧
      halt.GivesUp e.maxSteps fuel (n + 1) := by
  induction fuel generalizing m n with
  | zero =>
    cases hrun
    exact .inr ⟨_, rfl, Nat.succ_pos n⟩
  | succ fuel ih =>
    unfold run at hrun
    cases h with
    | here h =>
      have hstep := h (fuel + 1) n
      unfold Ends at hstep
      rcases hout : ((StepM.step e).run m : Except (Halt Failure) (Option Word) × Machine) with
        ⟨halt | answer, m₁⟩ <;> rw [hout] at hstep hrun
      · cases hrun
        exact .inr ⟨halt, rfl, hstep⟩
      · rw [hstep] at hrun
        cases hrun
        exact .inl rfl
    | @stepped n _ _ m₁ hstep hrest =>
      rw [hstep] at hrun
      refine (ih hrest hrun).imp_right ?_
      rintro ⟨halt, hanswer, hgives⟩
      refine ⟨halt, hanswer, ?_⟩
      cases halt with
      | failed err => exact hgives
      | crashed => exact Nat.succ_lt_succ hgives
    | stopped hstep hcause =>
      rw [hstep] at hrun
      cases hrun
      rcases hcause with ⟨hfalse, -⟩ | hlimit
      · exact hfalse.elim
      · exact .inr ⟨_, rfl, hlimit⟩

end Machine

/-! ## Calls -/

/-- A call of a function whose code gives a word gives it, unless no frame can be had or the
run is given up. -/
theorem Func.ends_apply {e : Engine} {id : FuncId} {f : Func} {args : List Word} {w : Word} {n : Nat}
    (hf : e.findFunc id = .ok f) (hc : f.compiled = true) (hdepth : 0 < e.maxDepth)
    (hparams : f.Registered f.params) (hlen : f.params.length = args.length)
    (hcode : ∀ base mem (m : Machine), f.Reserves e.host.memory base mem →
      m.Inside (.first f base) [] 0 → m.host = { e.host with memory := mem } →
      m.Passes f f.params args → (∀ v info, f.value? v = some info → v ∉ f.params →
        info.origin = .const → info.place? = none → m.Reads v info.bits) →
      m.Leads e False n (Machine.Gives e w)) :
    Ends (RunM.apply id args) e (fun bits _ => bits = w) fun halt _ =>
      halt.GivesUp e.maxSteps runFuel (n + 1) ∨ ∀ base mem, ¬ f.Reserves e.host.memory base mem := by
  have henter := StepM.ends_enter_inside hc hdepth hparams hlen e.host
  rcases hcall : Machine.call e runFuel e.host f args with ⟨ending, m'⟩
  have hanswer : ending = .result w ∨ ∃ halt, ending.answer = .error halt ∧
      (halt.GivesUp e.maxSteps runFuel (n + 1) ∨
        ∀ base mem, ¬ f.Reserves e.host.memory base mem) := by
    unfold Machine.call at hcall
    unfold Ends at henter
    rcases hrun : ((StepM.enter e f args 0 "" 0).run { host := e.host } :
      Except (Halt Failure) Unit × Machine) with ⟨halt | ⟨⟩, m⟩ <;> rw [hrun] at henter hcall
    · cases hcall
      exact .inr ⟨halt, rfl, .inr henter⟩
    · obtain ⟨base, mem, hreserves, hin, hhost, hpasses, hconsts⟩ := henter
      have hresult := hcode base mem m hreserves hin hhost hpasses hconsts
      refine (hresult.run_result runFuel hcall).imp_right ?_
      rintro ⟨halt, hanswer, hgives⟩
      exact ⟨halt, hanswer, .inl hgives⟩
  refine (RunM.ends_apply hf hc hlen.symm hcall).mono ?_ ?_
  · rintro bits _ ⟨hbits, -⟩
    rcases hanswer with rfl | ⟨halt, herror, -⟩
    · exact Except.ok.inj hbits
    · rw [herror] at hbits
      cases hbits
  · rintro halt _ ⟨hhalt, -⟩
    rcases hanswer with rfl | ⟨halt', herror, hgives⟩
    · cases hhalt
    · rw [herror] at hhalt
      cases hhalt
      exact hgives

end TypedIR
