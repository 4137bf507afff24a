import TypedIR.Proofs.AlikeRuns
import TypedIR.Proofs.ControlFlow
import TypedIR.Proofs.HeldBlocks

/-
  What the limits of an engine do to a run.

  1. A step executes one instruction, or ends a frame that has none left
     (`StepM.steps_step`).
  2. The step limit is looked at before an instruction and nowhere else, so a run
     under a limit goes as the run without one until the limit is reached
     (`Machine.run_within`, `Machine.run_over`).
  3. The depth limit is looked at by calls only, so a run that does not come to it
     goes the same way under every higher limit (`Machine.run_deeper`).
  4. A limited run comes to an end: the instructions left bound how often a frame
     can still be made (`Machine.run_ends`).

  `Engine.budgets_exact` puts them together for whole calls.
-/

namespace TypedIR

/-! ## How a call ends -/

/-- How a call ends that is given `fuel` steps, and the machine then. A call that
does not begin leaves the host as it is. -/
def Engine.applied (e : Engine) (fuel : Nat) (fn : FuncId) (args : List Word) : RunEnd × Machine :=
  match e.findFunc fn with
  | .error err => (.halted (.failed err), { host := e.host })
  | .ok f =>
    if !f.compiled then
      (.halted (.failed { cause := .notCompiled, function := f.name }), { host := e.host })
    else if args.length ≠ f.params.length then
      (.halted (.failed { cause := .argCount f.params.length args.length, function := f.name }),
        { host := e.host })
    else Machine.call e fuel e.host f args

/-- Given steps enough, the call ends like this. -/
def Engine.Finishes (e : Engine) (fn : FuncId) (args : List Word) (o : RunEnd) (m : Machine) :
    Prop :=
  o ≠ .unfinished ∧ ∃ fuel, e.applied fuel fn args = (o, m)

def RunEnd.code? : RunEnd → Option Nat
  | .halted (.failed err) => some err.cause.code
  | _ => none

theorem RunM.apply_eq_applied (e : Engine) (fn : FuncId) (args : List Word) :
    ((apply fn args).run e : Except (Halt Failure) Word × Engine).1 =
      (e.applied runFuel fn args).1.answer ∧
    ((apply fn args).run e : Except (Halt Failure) Word × Engine).2.host =
      (e.applied runFuel fn args).2.host := by
  have hstops : ∀ (err : Failure), Ends (apply fn args) e (fun _ _ => False)
      (fun h e' => h = .failed err ∧ e' = e) →
      ((apply fn args).run e : Except (Halt Failure) Word × Engine) =
        (.error (.failed err), e) := by
    intro err h
    unfold Ends at h
    rcases hr : ((apply fn args).run e : Except (Halt Failure) Word × Engine) with ⟨halt | _, e'⟩ <;>
      rw [hr] at h
    · rw [h.1, h.2]
    · exact h.elim
  unfold Engine.applied
  cases hf : e.findFunc fn with
  | error err =>
    rw [hstops err]
    · exact ⟨rfl, rfl⟩
    · refine Ends.stopped (ends_ofEngine (.bind_get ?_))
      dsimp only
      rw [hf]
      exact .throw' ⟨rfl, rfl⟩
  | ok f =>
    dsimp only
    split
    · next hc =>
      rw [hstops { cause := .notCompiled, function := f.name }]
      · exact ⟨rfl, rfl⟩
      · refine .bind' (ends_func hf) ?_
        rintro _ _ ⟨rfl, rfl⟩
        rw [if_pos hc]
        exact .bind_throw ⟨rfl, rfl⟩
    · next hc =>
      split
      · next hlen =>
        rw [hstops { cause := .argCount f.params.length args.length, function := f.name }]
        · exact ⟨rfl, rfl⟩
        · refine .bind' (ends_func hf) ?_
          rintro _ _ ⟨rfl, rfl⟩
          rw [if_neg hc, if_pos hlen]
          exact .bind_throw ⟨rfl, rfl⟩
      · next hlen => exact apply_eq hf (by simpa using hc) (by simpa using hlen)

/-! ## Counting instructions -/

def SameSteps (m m' : Machine) : Prop := m'.steps = m.steps

instance : Std.Refl SameSteps := ⟨fun _ => rfl⟩

instance : Trans SameSteps SameSteps SameSteps := ⟨fun h h' => h'.trans h⟩

def Machine.next? (m : Machine) : Option Insn :=
  m.frames.head?.bind fun fr => fr.func.insns[fr.pc]?

def Machine.due (m : Machine) : Nat := if m.next?.isSome then 1 else 0

namespace StepM

variable {α : Type} {e : Engine} {f : Func}

theorem sameSteps_host (m : Machine) (host : Host) : SameSteps m { m with host } := rfl

theorem sameSteps_modifyFrame (g : Frame → Frame) : Leaves SameSteps (modifyFrame g) := by
  refine .modify' fun m => ?_
  rcases m with ⟨host, steps, _ | ⟨fr, rest⟩⟩ <;> rfl

theorem sameSteps_write (v : ValueId) (bits : Word) : Leaves SameSteps (write v bits) :=
  leaves_write bits (leaves_store sameSteps_host) (sameSteps_modifyFrame _)

theorem sameSteps_enter (args : List Word) (depth : Nat) (caller : String) (dest : ValueId) :
    Leaves SameSteps (enter e f args depth caller dest) := by
  have hstop : ∀ (c : Cause) {k : PUnit → StepM Unit},
      Leaves SameSteps (inFunction f.name (fail c) >>= k) :=
    fun c _ m => Ends.state (Ends.stopped (ends_inFunction m (.throw' rfl)))
  have hmake : ∀ base, Leaves SameSteps (do
      modify fun m =>
        { m with frames :=
            { func := f, depth := depth + 1, regs := initialRegs f, base, dest } :: m.frames }
      inFunction caller (setParams f f.params args)) :=
    fun base => .bind' (.modify' fun _ => rfl) fun _ =>
      leaves_inFunction (leaves_setParams args fun p _ => sameSteps_write p)
  refine .ite' (hstop _) (.ite' (hstop _) (.ite' ?_ (hmake 0)))
  exact .bind' (leaves_inFunction (leaves_request sameSteps_host _)) hmake

theorem sameSteps_leave (bits : Word) : Leaves SameSteps (leave bits) := by
  refine .bind' still_frame.still fun fr => .bind' (leaves_releaseFrame sameSteps_host fr) fun _ => ?_
  refine .bind' (.modify' fun _ => rfl) fun _ => .bind' .get' fun m => ?_
  cases m.frames with
  | nil => exact .pure' _
  | cons caller rest =>
    have hwrite : Leaves SameSteps (inFunction caller.func.name (write fr.dest bits)) :=
      leaves_inFunction (sameSteps_write fr.dest bits)
    exact .ite' (.bind' hwrite fun _ => .pure' _) (.pure' _)

theorem sameSteps_execute (depth : Nat) (i : Insn) : Leaves SameSteps (execute e f depth i) := by
  refine leaves_execute (sameSteps_write _) (fun _ => leaves_store sameSteps_host)
    (leaves_alloca sameSteps_host (sameSteps_write _) fun _ => sameSteps_modifyFrame _)
    (fun hcall => ?_) fun _ => leaves_callNative sameSteps_host (sameSteps_write _)
  unfold execute
  rw [hcall]
  dsimp only
  cases e.findFunc i.callee with
  | error err => exact .throw' _
  | ok callee => exact .bind' (still_readAll _).still fun args => sameSteps_enter args _ _ _

theorem sameSteps_dispatch (depth : Nat) (i : Insn) : Leaves SameSteps (dispatch e f depth i) :=
  leaves_dispatch (sameSteps_execute depth i) (leaves_jump i fun _ => sameSteps_modifyFrame _)
    sameSteps_leave

end StepM

/-! ## One step -/

def Machine.fetched (m : Machine) : Machine where
  host := m.host
  steps := m.steps + 1
  frames := m.frames.modifyHead fun fr => { fr with pc := fr.pc + 1 }

namespace StepM

variable {e : Engine} {m : Machine} {fr : Frame} {rest : List Frame} {i : Insn}

theorem step_end (hfr : m.frames = fr :: rest) (hi : fr.func.insns[fr.pc]? = none) :
    ((step e).run m : Except (Halt Failure) (Option Word) × Machine) = (leave 0).run m := by
  refine Ends.run_eq (.bind' (ends_frame hfr) ?_)
  rintro _ _ ⟨rfl, rfl⟩
  dsimp only
  rw [hi]
  exact .of_run rfl

theorem step_fetch (hfr : m.frames = fr :: rest) (hi : fr.func.insns[fr.pc]? = some i)
    (hroom : e.maxSteps ≤ 0 ∨ m.steps < e.maxSteps) :
    ((step e).run m : Except (Halt Failure) (Option Word) × Machine) =
      (inFunction fr.func.name (dispatch e fr.func fr.depth i)).run m.fetched := by
  refine Ends.run_eq (.bind' (ends_frame hfr) ?_)
  rintro _ _ ⟨rfl, rfl⟩
  dsimp only
  rw [hi]
  refine .bind_modify (ends_inFunction _ (.bind_get (.ite' (fun hover => ?_) fun _ => ?_)))
  · have hlt := hover.2
    push_cast at hlt
    omega
  · refine .bind' (ends_modifyFrame (m := { m with steps := m.steps + 1 }) hfr) ?_
    rintro _ _ rfl
    have hfetched : m.fetched =
        { m with steps := m.steps + 1, frames := { fr with pc := fr.pc + 1 } :: rest } := by
      simp [Machine.fetched, hfr]
    rw [run_inFunction, hfetched]
    unfold Ends
    rcases ((dispatch e fr.func fr.depth i).run _ :
      Except (Halt Failure) (Option Word) × Machine) with ⟨(_ | _) | _, m'⟩ <;> rfl

theorem step_over (hfr : m.frames = fr :: rest) (hi : fr.func.insns[fr.pc]? = some i)
    (hpos : 0 < e.maxSteps) (hfull : e.maxSteps ≤ m.steps) :
    ((step e).run m : Except (Halt Failure) (Option Word) × Machine) =
      (.error (.failed (Failure.within { cause := .stepLimit e.maxSteps } fr.func.name)),
        { m with steps := m.steps + 1 }) := by
  refine Ends.run_eq (.bind' (ends_frame hfr) ?_)
  rintro _ _ ⟨rfl, rfl⟩
  dsimp only
  rw [hi]
  refine .bind_modify (ends_inFunction _ (.bind_get (.ite' (fun _ => ?_) fun hroom => ?_)))
  · exact .bind_throw rfl
  · refine absurd ⟨hpos, ?_⟩ hroom
    push_cast
    omega

theorem step_none (hfr : m.frames = []) :
    ((step e).run m : Except (Halt Failure) (Option Word) × Machine) = (.error .crashed, m) := by
  refine Ends.run_eq (Ends.stopped (.bind_get ?_))
  rw [hfr]
  exact .throw' rfl

/-- A step executes the instruction that the running frame is at, if there is
one. -/
theorem steps_step (e : Engine) (m : Machine) :
    ((step e).run m : Except (Halt Failure) (Option Word) × Machine).2.steps =
      m.steps + m.due := by
  cases hfr : m.frames with
  | nil => rw [step_none hfr, Machine.due, Machine.next?, hfr]; rfl
  | cons fr rest =>
    cases hi : fr.func.insns[fr.pc]? with
    | none =>
      have hdue : m.due = 0 := by simp [Machine.due, Machine.next?, hfr, hi]
      rw [step_end hfr hi, hdue]
      exact sameSteps_leave 0 m
    | some i =>
      have hdue : m.due = 1 := by simp [Machine.due, Machine.next?, hfr, hi]
      rw [hdue]
      by_cases hroom : e.maxSteps ≤ 0 ∨ m.steps < e.maxSteps
      · rw [step_fetch hfr hi hroom]
        exact leaves_inFunction (sameSteps_dispatch _ _) m.fetched
      · rw [step_over hfr hi (by omega) (by omega)]

theorem step_limited (h : e.maxSteps ≤ 0) {N : Int} (hN : N ≤ 0 ∨ m.steps + m.due ≤ N) :
    ((step { e with maxSteps := N }).run m : Except (Halt Failure) (Option Word) × Machine) =
      (step e).run m := by
  cases hfr : m.frames with
  | nil => rw [step_none hfr, step_none hfr]
  | cons fr rest =>
    cases hi : fr.func.insns[fr.pc]? with
    | none => rw [step_end hfr hi, step_end hfr hi]
    | some i =>
      have hdue : m.due = 1 := by simp [Machine.due, Machine.next?, hfr, hi]
      rw [step_fetch hfr hi (.inl h), step_fetch hfr hi (hN.imp_right fun hle => by
        dsimp only
        omega)]
      rfl

end StepM

/-! ## Runs under a step limit -/

namespace Machine

open StepM

variable {e : Engine} {m : Machine}

theorem le_steps_run (e : Engine) (fuel : Nat) (m : Machine) :
    m.steps ≤ (run e fuel m).2.steps := by
  induction fuel generalizing m with
  | zero => exact Nat.le_refl _
  | succ fuel ih =>
    have hcount := steps_step e m
    unfold run
    rcases hstep : ((step e).run m : Except (Halt Failure) (Option Word) × Machine) with
      ⟨halt | (_ | bits), m'⟩ <;> rw [hstep] at hcount <;> dsimp only at hcount ⊢
    · rw [steps_unwound]
      omega
    · have hle := ih m'
      omega
    · omega

theorem run_within (h : e.maxSteps ≤ 0) {N : Int} {fuel : Nat}
    (hN : N ≤ 0 ∨ (run e fuel m).2.steps ≤ N) :
    run { e with maxSteps := N } fuel m = run e fuel m := by
  induction fuel generalizing m with
  | zero => rfl
  | succ fuel ih =>
    have hcount := steps_step e m
    have hlimited : N ≤ 0 ∨ ((m.steps + m.due : Nat) : Int) ≤ N := by
      refine hN.imp_right fun hle => Int.le_trans (Int.ofNat_le.mpr ?_) hle
      unfold run
      rcases hstep : ((step e).run m : Except (Halt Failure) (Option Word) × Machine) with
        ⟨halt | (_ | bits), m'⟩ <;> rw [hstep] at hcount <;> dsimp only at hcount ⊢
      · rw [steps_unwound, hcount]
      · rw [← hcount]
        exact le_steps_run e fuel m'
      · rw [hcount]
    have hsame := step_limited (m := m) h (by simpa using hlimited)
    unfold run at hN ⊢
    rw [hsame]
    rcases hstep : ((step e).run m : Except (Halt Failure) (Option Word) × Machine) with
      ⟨halt | (_ | bits), m'⟩
    · rfl
    · rw [hstep] at hN
      exact ih hN
    · rfl

theorem run_over (h : e.maxSteps ≤ 0) {N : Int} (hpos : 0 < N) {fuel : Nat}
    (hbefore : m.steps ≤ N) (hpast : N < (run e fuel m).2.steps) :
    ∃ err m', run { e with maxSteps := N } fuel m = (.halted (.failed err), m') ∧
      err.cause = .stepLimit N ∧ m'.steps = N + 1 := by
  induction fuel generalizing m with
  | zero => exact absurd hpast (Int.not_lt.mpr hbefore)
  | succ fuel ih =>
    have hcount := steps_step e m
    by_cases hroom : ((m.steps + m.due : Nat) : Int) ≤ N
    · have hsame := step_limited (m := m) h (.inr (by simpa using hroom))
      unfold run at hpast ⊢
      rw [hsame]
      rcases hstep : ((step e).run m : Except (Halt Failure) (Option Word) × Machine) with
        ⟨halt | (_ | bits), m'⟩ <;> rw [hstep] at hpast hcount <;> dsimp only at hpast hcount ⊢
      · rw [steps_unwound] at hpast
        omega
      · exact ih (by omega) hpast
      · omega
    · have hdue : m.next?.isSome := by
        by_contra hno
        rw [due, if_neg hno] at hroom
        exact hroom (by simpa using hbefore)
      rw [due, if_pos hdue] at hroom
      obtain ⟨i, hi⟩ := Option.isSome_iff_exists.mp hdue
      obtain ⟨fr, hfr, hi⟩ := Option.bind_eq_some_iff.mp hi
      obtain ⟨rest, hframes⟩ := List.head?_eq_some_iff.mp hfr
      have hover := step_over (e := { e with maxSteps := N }) hframes hi hpos (by
        dsimp only
        omega)
      unfold run
      rw [hover]
      refine ⟨_, _, rfl, Failure.cause_within _ _, ?_⟩
      rw [steps_unwound]
      dsimp only
      push_cast at hroom ⊢
      omega

end Machine

/-! ## Runs under a higher depth limit -/

def SameOrTooDeep {α : Type} (e : Engine) (r r' : Except (Halt Failure) α × Machine) : Prop :=
  r' = r ∨ ∃ err : Failure, r.1 = .error (.failed err) ∧ err.cause = .depthLimit e.maxDepth

section

open StepM

variable {α β : Type} {e : Engine}

theorem SameOrTooDeep.bind' {act act' : StepM α} {k k' : α → StepM β} {m : Machine}
    (h : SameOrTooDeep e (act.run m) (act'.run m))
    (hk : ∀ a m', SameOrTooDeep e ((k a).run m') ((k' a).run m')) :
    SameOrTooDeep e ((act >>= k).run m) ((act' >>= k').run m) := by
  rw [run_bind, run_bind]
  rcases h with h | ⟨err, h, hcause⟩
  · rw [h]
    rcases (act.run m : Except (Halt Failure) α × Machine) with ⟨halt | a, m'⟩
    · exact .inl rfl
    · exact hk a m'
  · rcases hr : (act.run m : Except (Halt Failure) α × Machine) with ⟨halt | a, m'⟩ <;> rw [hr] at h
    · cases h
      exact .inr ⟨err, rfl, hcause⟩
    · cases h

theorem SameOrTooDeep.inFunction' {act act' : StepM α} {m : Machine} (name : String)
    (h : SameOrTooDeep e (act.run m) (act'.run m)) :
    SameOrTooDeep e ((inFunction name act).run m) ((inFunction name act').run m) := by
  rw [run_inFunction, run_inFunction]
  rcases h with h | ⟨err, h, hcause⟩
  · rw [h]
    exact .inl rfl
  · rcases hr : (act.run m : Except (Halt Failure) α × Machine) with ⟨halt | a, m'⟩ <;> rw [hr] at h
    · cases h
      exact .inr ⟨_, rfl, (Failure.cause_within _ _).trans hcause⟩
    · cases h

end

namespace StepM

variable {e : Engine} {f : Func} {D : Int}

theorem enter_deeper (hD : e.maxDepth ≤ D) (args : List Word) (depth : Nat) (caller : String)
    (dest : ValueId) (m : Machine) : SameOrTooDeep e ((enter e f args depth caller dest).run m)
      ((enter { e with maxDepth := D } f args depth caller dest).run m) := by
  have hstop : ∀ (c : Cause) (k : PUnit → StepM Unit),
      ((inFunction f.name (fail c) >>= k).run m : Except (Halt Failure) Unit × Machine) =
        (.error (.failed (Failure.within { cause := c } f.name)), m) :=
    fun c k => Ends.run_eq (Ends.stopped (ends_inFunction m (.throw' rfl)))
  unfold enter
  by_cases hc : (!f.compiled) = true
  · rw [if_pos hc, if_pos hc, hstop, hstop]
    exact .inl rfl
  rw [if_neg hc, if_neg hc]
  by_cases hdeep : e.maxDepth ≤ depth
  · rw [if_pos hdeep, hstop]
    exact .inr ⟨_, rfl, Failure.cause_within _ _⟩
  · rw [if_neg hdeep, if_neg fun h => hdeep (Int.le_trans hD h)]
    exact .inl rfl

theorem execute_deeper (hD : e.maxDepth ≤ D) (depth : Nat) (i : Insn) (m : Machine) :
    SameOrTooDeep e ((execute e f depth i).run m)
      ((execute { e with maxDepth := D } f depth i).run m) := by
  by_cases hcall : i.op = .call
  · have hfunc : ({ e with maxDepth := D } : Engine).findFunc i.callee = e.findFunc i.callee := rfl
    unfold execute
    rw [hcall]
    dsimp only
    rw [hfunc]
    cases e.findFunc i.callee with
    | error err => exact .inl rfl
    | ok callee => exact .bind' (.inl rfl) fun args => enter_deeper hD args _ _ _
  · left
    unfold execute
    cases hop : i.op
    case call => exact absurd hop hcall
    all_goals rfl

theorem dispatch_deeper (hD : e.maxDepth ≤ D) (depth : Nat) (i : Insn) (m : Machine) :
    SameOrTooDeep e ((dispatch e f depth i).run m)
      ((dispatch { e with maxDepth := D } f depth i).run m) := by
  have hexecute : SameOrTooDeep e
      ((do execute e f depth i; pure none : StepM (Option Word)).run m)
      ((do execute { e with maxDepth := D } f depth i; pure none : StepM (Option Word)).run m) :=
    .bind' (execute_deeper hD depth i m) fun _ _ => .inl rfl
  unfold dispatch
  cases i.op
  case nop | label | branch | branchIf | branchIfNot | ret => exact .inl rfl
  all_goals exact hexecute

theorem step_deeper (hD : e.maxDepth ≤ D) (m : Machine) :
    SameOrTooDeep e ((step e).run m) ((step { e with maxDepth := D }).run m) := by
  cases hfr : m.frames with
  | nil => exact .inl ((step_none hfr).trans (step_none hfr).symm)
  | cons fr rest =>
    cases hi : fr.func.insns[fr.pc]? with
    | none => exact .inl ((step_end hfr hi).trans (step_end hfr hi).symm)
    | some i =>
      by_cases hroom : e.maxSteps ≤ 0 ∨ m.steps < e.maxSteps
      · rw [step_fetch hfr hi hroom, step_fetch (e := { e with maxDepth := D }) hfr hi hroom]
        exact .inFunction' _ (dispatch_deeper hD _ i _)
      · rw [step_over hfr hi (by omega) (by omega)]
        exact .inl (step_over hfr hi (by dsimp only; omega) (by dsimp only; omega))

end StepM

namespace Machine

open StepM

variable {e : Engine} {D : Int}

/-- A run that does not come to the depth limit goes the same way under a higher
one. -/
theorem run_deeper (hD : e.maxDepth ≤ D) (fuel : Nat) (m : Machine) :
    run { e with maxDepth := D } fuel m = run e fuel m ∨
      ∃ err : Failure, (run e fuel m).1 = .halted (.failed err) ∧
        err.cause = .depthLimit e.maxDepth := by
  induction fuel generalizing m with
  | zero => exact .inl rfl
  | succ fuel ih =>
    unfold run
    rcases step_deeper hD m with h | ⟨err, h, hcause⟩
    · rw [h]
      rcases ((step e).run m : Except (Halt Failure) (Option Word) × Machine) with
        ⟨halt | (_ | bits), m'⟩
      · exact .inl rfl
      · exact ih m'
      · exact .inl rfl
    · rcases hstep : ((step e).run m : Except (Halt Failure) (Option Word) × Machine) with
        ⟨halt | answer, m'⟩ <;> rw [hstep] at h <;> cases h
      exact .inr ⟨err, rfl, hcause⟩

theorem call_deeper (hD : e.maxDepth ≤ D) (fuel : Nat) (host : Host) (f : Func)
    (args : List Word) :
    call { e with maxDepth := D } fuel host f args = call e fuel host f args ∨
      ∃ err : Failure, (call e fuel host f args).1 = .halted (.failed err) ∧
        err.cause = .depthLimit e.maxDepth := by
  unfold call
  rcases enter_deeper (f := f) hD args 0 "" 0 { host } with h | ⟨err, h, hcause⟩
  · rw [h]
    rcases ((enter e f args 0 "" 0).run { host } : Except (Halt Failure) Unit × Machine) with
      ⟨halt | _, m⟩
    · exact .inl rfl
    · exact run_deeper hD fuel m
  · rcases henter : ((enter e f args 0 "" 0).run { host } :
      Except (Halt Failure) Unit × Machine) with ⟨halt | _, m⟩ <;> rw [henter] at h <;> cases h
    exact .inr ⟨err, rfl, hcause⟩

/-! ## Limited runs come to an end -/

/-- A step that goes on makes at most one frame, and none without executing an
instruction. -/
theorem length_step {answer : Option Word} {m m' : Machine}
    (hstep : ((step e).run m : Except (Halt Failure) (Option Word) × Machine) = (.ok answer, m')) :
    m'.frames.length + 1 ≤ m.frames.length + 2 * m.due := by
  have hlands := lands_step e m
  unfold Lands Ends at hlands
  rw [hstep] at hlands
  obtain ⟨f, pc, rest, hspots, hadvance, -⟩ := hlands
  have hlength : m.frames.length = rest.length + 1 := by
    rw [← List.length_cons (a := (f, pc)), ← hspots, spots, List.length_map]
  have hdue : m.due = if (f.insns[pc]?).isSome then 1 else 0 := by
    unfold spots at hspots
    rcases hframes : m.frames with _ | ⟨fr, frames⟩ <;> rw [hframes] at hspots
    · cases hspots
    · obtain ⟨⟨rfl, rfl⟩, -⟩ : (fr.func = f ∧ fr.pc = pc) ∧ _ := by simpa using hspots
      simp [due, next?, hframes]
  have hlength' : m'.frames.length = m'.spots.length := by rw [spots, List.length_map]
  rw [hlength, hlength', hdue]
  generalize m'.spots = spots' at hadvance ⊢
  cases hadvance with
  | flow hi _ => simp [hi]
  | call hi _ => simp [hi]
  | ret hi _ =>
    rw [hi]
    simp
  | fall hi => simp [hi]

theorem steps_le_limit {answer : Option Word} {m m' : Machine} (hpos : 0 < e.maxSteps)
    (h : m.steps ≤ e.maxSteps)
    (hstep : ((step e).run m : Except (Halt Failure) (Option Word) × Machine) = (.ok answer, m')) :
    m'.steps ≤ e.maxSteps := by
  have hcount := steps_step e m
  rw [hstep] at hcount
  dsimp only at hcount
  by_cases hdue : m.next?.isSome
  · obtain ⟨i, hi⟩ := Option.isSome_iff_exists.mp hdue
    obtain ⟨fr, hfr, hi⟩ := Option.bind_eq_some_iff.mp hi
    obtain ⟨rest, hframes⟩ := List.head?_eq_some_iff.mp hfr
    by_contra hpast
    rw [due, if_pos hdue] at hcount
    rw [step_over hframes hi hpos (by omega)] at hstep
    cases hstep
  · rw [due, if_neg hdue] at hcount
    omega

/-- What a limited run still has to do: the instructions that the limit leaves,
each of which may make a frame, and the frames there are. -/
def outstanding (e : Engine) (m : Machine) : Nat :=
  2 * (e.maxSteps - m.steps).toNat + m.frames.length

theorem run_ends (hpos : 0 < e.maxSteps) {fuel : Nat} {m : Machine} (h : m.steps ≤ e.maxSteps)
    (hfuel : outstanding e m < fuel) : (run e fuel m).1 ≠ .unfinished := by
  induction fuel generalizing m with
  | zero => omega
  | succ fuel ih =>
    have hcount := steps_step e m
    unfold run
    rcases hstep : ((step e).run m : Except (Halt Failure) (Option Word) × Machine) with
      ⟨halt | (_ | bits), m'⟩
    · intro hc
      cases hc
    · have hlimit := steps_le_limit hpos h hstep
      have hlength := length_step hstep
      rw [hstep] at hcount
      refine ih hlimit ?_
      unfold outstanding at hfuel ⊢
      dsimp only at hcount
      omega
    · intro hc
      cases hc

theorem run_settled {fuel fuel' : Nat} (hle : fuel ≤ fuel') {m : Machine}
    (h : (run e fuel m).1 ≠ .unfinished) : run e fuel' m = run e fuel m := by
  induction fuel generalizing fuel' m with
  | zero => exact absurd rfl h
  | succ fuel ih =>
    obtain ⟨k, rfl⟩ : ∃ k, fuel' = k + 1 := ⟨fuel' - 1, by omega⟩
    unfold run at h ⊢
    rcases hstep : ((step e).run m : Except (Halt Failure) (Option Word) × Machine) with
      ⟨halt | (_ | bits), m'⟩
    · rfl
    · rw [hstep] at h
      exact ih (Nat.le_of_succ_le_succ hle) h
    · rfl

end Machine

/-! ## Whole calls -/

namespace Engine

variable {e : Engine} {fn : FuncId} {args : List Word} {fuel : Nat} {o : RunEnd} {m : Machine}

/-- A call is refused before its first instruction, or it runs from its first
instruction on, with the same machine whatever the step limit. -/
theorem applied_begins (e : Engine) (fn : FuncId) (args : List Word) :
    (∃ h m, m.steps = 0 ∧ ∀ (N : Int) (fuel : Nat),
      ({ e with maxSteps := N } : Engine).applied fuel fn args = (.halted h, m)) ∨
    ∃ m, m.steps = 0 ∧ m.frames.length = 1 ∧ ∀ (N : Int) (fuel : Nat),
      ({ e with maxSteps := N } : Engine).applied fuel fn args =
        Machine.run { e with maxSteps := N } fuel m := by
  have hfunc : ∀ N, ({ e with maxSteps := N } : Engine).findFunc fn = e.findFunc fn := fun _ => rfl
  unfold applied
  simp only [hfunc]
  cases e.findFunc fn with
  | error err => exact .inl ⟨_, _, rfl, fun _ _ => rfl⟩
  | ok f =>
    dsimp only
    by_cases hc : (!f.compiled) = true
    · simp only [if_pos hc]
      exact .inl ⟨_, _, rfl, fun _ _ => rfl⟩
    by_cases hlen : args.length ≠ f.params.length
    · simp only [if_neg hc, if_pos hlen]
      exact .inl ⟨_, _, rfl, fun _ _ => rfl⟩
    simp only [if_neg hc, if_neg hlen]
    have hsteps := StepM.sameSteps_enter (e := e) (f := f) args 0 "" 0 { host := e.host }
    have hlands := StepM.lands_enter (e := e) (f := f) { host := e.host } args 0 "" 0
    have henter : ∀ N, StepM.enter { e with maxSteps := N } f args 0 "" 0 =
      StepM.enter e f args 0 "" 0 := fun _ => rfl
    unfold Machine.call
    simp only [henter]
    unfold StepM.Lands Ends at hlands
    rcases hr : ((StepM.enter e f args 0 "" 0).run { host := e.host } :
      Except (Halt Failure) Unit × Machine) with ⟨halt | _, m⟩ <;> rw [hr] at hsteps hlands
    · exact .inl ⟨halt, m.unwound, (Machine.steps_unwound m).trans hsteps, fun _ _ => rfl⟩
    · refine .inr ⟨m, hsteps, ?_, fun _ _ => rfl⟩
      simpa [Machine.spots] using congrArg List.length hlands

theorem Finishes.within (h : e.Finishes fn args o m) (hlimit : e.maxSteps ≤ 0) {N : Int}
    (hN : N ≤ 0 ∨ m.steps ≤ N) : ({ e with maxSteps := N } : Engine).Finishes fn args o m := by
  obtain ⟨ho, fuel, h⟩ := h
  refine ⟨ho, fuel, ?_⟩
  rcases applied_begins e fn args with ⟨halt, m₀, -, hall⟩ | ⟨m₀, -, -, hall⟩
  · rw [hall N fuel, ← h]
    exact (hall e.maxSteps fuel).symm
  · have hrun : Machine.run e fuel m₀ = (o, m) := (hall e.maxSteps fuel).symm.trans h
    rw [hall N fuel, Machine.run_within hlimit (by rw [hrun]; exact hN), hrun]

theorem Finishes.over (h : e.Finishes fn args o m) (hlimit : e.maxSteps ≤ 0) {N : Int}
    (hpos : 0 < N) (hN : N < m.steps) :
    ∃ err m', ({ e with maxSteps := N } : Engine).Finishes fn args (.halted (.failed err)) m' ∧
      err.cause = .stepLimit N ∧ m'.steps = N + 1 := by
  obtain ⟨ho, fuel, h⟩ := h
  rcases applied_begins e fn args with ⟨halt, m₀, hzero, hall⟩ | ⟨m₀, hzero, -, hall⟩
  · obtain ⟨-, rfl⟩ := Prod.mk.inj (h.symm.trans (hall e.maxSteps fuel))
    omega
  · have hrun : Machine.run e fuel m₀ = (o, m) := (hall e.maxSteps fuel).symm.trans h
    have hpast : N < (Machine.run e fuel m₀).2.steps := by
      rw [hrun]
      exact hN
    obtain ⟨err, m', hover, hcause, hsteps⟩ := Machine.run_over hlimit hpos (by omega) hpast
    exact ⟨err, m', ⟨nofun, fuel, (hall N fuel).trans hover⟩, hcause, hsteps⟩

theorem Finishes.deeper (h : e.Finishes fn args o m) (hcode : o.code? ≠ some 2004) {D : Int}
    (hD : e.maxDepth ≤ D) : ({ e with maxDepth := D } : Engine).Finishes fn args o m := by
  obtain ⟨ho, fuel, h⟩ := h
  refine ⟨ho, fuel, ?_⟩
  have hfunc : ({ e with maxDepth := D } : Engine).findFunc fn = e.findFunc fn := rfl
  unfold applied at h ⊢
  rw [hfunc]
  cases hf : e.findFunc fn with
  | error err =>
    rw [hf] at h
    exact h
  | ok f =>
    rw [hf] at h
    dsimp only at h ⊢
    split at h
    · next hc => rw [if_pos hc, h]
    · next hc =>
      split at h
      · next hlen => rw [if_neg hc, if_pos hlen, h]
      · next hlen =>
        rw [if_neg hc, if_neg hlen]
        rcases Machine.call_deeper hD fuel e.host f args with hsame | ⟨err, hend, hcause⟩
        · exact hsame.trans h
        · rw [h] at hend
          obtain rfl : o = .halted (.failed err) := hend
          exact absurd (by simp [RunEnd.code?, hcause, Cause.code]) hcode

theorem applied_ends (hpos : 0 < e.maxSteps) (fn : FuncId) (args : List Word) :
    ∃ o m, e.Finishes fn args o m := by
  rcases applied_begins e fn args with ⟨halt, m, -, hall⟩ | ⟨m, hzero, hone, hall⟩
  · exact ⟨.halted halt, m, nofun, 0, hall e.maxSteps 0⟩
  · have hfuel : Machine.outstanding e m < 2 * e.maxSteps.toNat + 2 := by
      unfold Machine.outstanding
      omega
    have hends := Machine.run_ends hpos (by omega) hfuel
    exact ⟨_, _, hends, _, hall e.maxSteps _⟩

/-- Limits are exact and monotone. A call that ends without a step limit after
`m.steps` instructions ends the same way under every step limit that leaves it
these, and under every lower one it fails at the limit; unless it failed at the
depth limit, it ends the same way under every higher depth limit. Under a step
limit every call ends. -/
theorem budgets_exact (e : Engine) (fn : FuncId) (args : List Word) :
    (∀ o m, e.maxSteps ≤ 0 → e.Finishes fn args o m →
      (∀ N : Int, m.steps ≤ N → ({ e with maxSteps := N } : Engine).Finishes fn args o m) ∧
      (∀ N : Int, 0 < N → N < m.steps → ∃ err m',
        ({ e with maxSteps := N } : Engine).Finishes fn args (.halted (.failed err)) m' ∧
          err.cause.code = 2003 ∧ m'.steps = N + 1) ∧
      (o.code? ≠ some 2004 → ∀ D : Int, e.maxDepth ≤ D →
        ({ e with maxDepth := D } : Engine).Finishes fn args o m)) ∧
    ∀ N : Int, 0 < N → ∃ o m, ({ e with maxSteps := N } : Engine).Finishes fn args o m := by
  refine ⟨fun o m hlimit h => ⟨?exact, ?short, ?deep⟩, ?ends⟩
  case exact => exact fun N hN => h.within hlimit (.inr hN)
  case short =>
    intro N hpos hN
    obtain ⟨err, m', hfinishes, hcause, hsteps⟩ := h.over hlimit hpos hN
    exact ⟨err, m', hfinishes, by rw [hcause]; rfl, hsteps⟩
  case deep => exact fun hcode D hD => h.deeper hcode hD
  case ends => exact fun N hpos => applied_ends (e := { e with maxSteps := N }) hpos fn args

/-- Adding up from 3 takes 22 instructions. -/
theorem summing_budgets : ∃ m, summing.maxSteps ≤ 0 ∧ m.steps = 22 ∧
    summing.Finishes 1 [3] (.result 6) m ∧
    ({ summing with maxSteps := 22 } : Engine).Finishes 1 [3] (.result 6) m ∧
    (∃ err m', ({ summing with maxSteps := 21 } : Engine).Finishes 1 [3] (.halted (.failed err)) m' ∧
      err.cause.code = 2003 ∧ m'.steps = 22) ∧
    ∀ D : Int, summing.maxDepth ≤ D →
      ({ summing with maxDepth := D } : Engine).Finishes 1 [3] (.result 6) m := by
  have hlimit : summing.maxSteps ≤ 0 := by decide +kernel
  have hrun : (summing.applied 100 1 [3]).1 = .result 6 ∧
      (summing.applied 100 1 [3]).2.steps = 22 := by decide +kernel
  have hfinishes : summing.Finishes 1 [3] (.result 6) (summing.applied 100 1 [3]).2 :=
    ⟨nofun, 100, by rw [← hrun.1]⟩
  obtain ⟨hexact, hshort, hdeep⟩ := (budgets_exact summing 1 [3]).1 _ _ hlimit hfinishes
  refine ⟨_, hlimit, hrun.2, hfinishes, hexact 22 (by rw [hrun.2]; rfl), ?_, hdeep nofun⟩
  obtain ⟨err, m', hfails, hcode, hsteps⟩ := hshort 21 (by decide) (by rw [hrun.2]; decide)
  exact ⟨err, m', hfails, hcode, by omega⟩

end Engine

end TypedIR
