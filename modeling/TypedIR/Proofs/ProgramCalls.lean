import TypedIR.Proofs.CastChains
import TypedIR.Proofs.CompiledPrograms
import TypedIR.Proofs.KeptRegisters
import TypedIR.Proofs.RegisterCode
import TypedIR.Proofs.RunBudgets

/-
  Calling compiled programs.

  A call of a function that keeps its values in registers needs no memory: it makes a
  frame whose registers hold the constants and the arguments, and zero else
  (`Func.Entered`). It fails only where calls are nested too deeply. What a run of steps
  shows of the machine then is what the call of the engine shows
  (`Machine.Stops.finishes`, `Machine.Lasts.unfinished`).

  So a call of the function that a program was compiled to begins with the arguments in
  the parameters and zero in the locals, and runs as the body does. Control never comes to
  the end of the function, nor out of a loop that is not there, so the call returns, fails
  or lasts as the program does (`Program.runs`).
-/

namespace TypedIR

/-- The function can be called: it was compiled, keeps its values in registers, and its
parameters are values of their own. -/
structure Func.Callable (f : Func) : Prop where
  compiled : f.compiled = true
  frameSize : f.frameSize = 0
  inRegisters : f.InRegisters
  nodup : f.params.Nodup
  params : ∀ p ∈ f.params, ∃ info, f.value? p = some info ∧ info.origin ≠ .const

/-- The registers at the start of a call. -/
structure Func.Entered (f : Func) (args : List Word) (regs : Array Word) : Prop where
  fits : f.Fits regs
  params : List.Forall₂ (fun p a => ∀ info, f.value? p = some info →
    regs[p]? = some (info.rep.normalize a)) f.params args
  zero : ∀ v info, f.value? v = some info → v ∉ f.params → info.origin ≠ .const → regs[v]? = some 0

theorem Func.fits_initialRegs (f : Func) : f.Fits (StepM.initialRegs f) where
  size := by simp [StepM.initialRegs]
  const v info hv hc := by
    have hget := (Func.value?_lt hv).2.1
    simp [StepM.initialRegs, hget, hc]

namespace StepM

variable {e : Engine} {f : Func} {m : Machine} {t : Activation} {pc : Nat} {regs : Array Word}

theorem ends_setParams_at (h : m.At t pc regs) (hf : t.func.InRegisters) (hfits : t.func.Fits regs)
    {params : List ValueId} {args : List Word} (hlen : params.length = args.length)
    (hnodup : params.Nodup)
    (hparams : ∀ p ∈ params, ∃ info, t.func.value? p = some info ∧ info.origin ≠ .const)
    {stop : Halt Failure → Machine → Prop} :
    Ends (setParams t.func params args) m (fun _ m' => ∃ regs', m'.At t pc regs' ∧ t.func.Fits regs' ∧
      (∀ v, v ∉ params → regs'[v]? = regs[v]?) ∧
      List.Forall₂ (fun p a => ∀ info, t.func.value? p = some info →
        regs'[p]? = some (info.rep.normalize a)) params args) stop := by
  induction params generalizing m args regs with
  | nil =>
    obtain rfl : args = [] := List.length_eq_zero_iff.mp hlen.symm
    exact .pure' ⟨regs, h, hfits, fun _ _ => rfl, .nil⟩
  | cons p params ih =>
    obtain ⟨hnew, hnodup⟩ := List.nodup_cons.mp hnodup
    obtain ⟨⟨info, hv, hc⟩, hrest⟩ := List.forall_mem_cons.mp hparams
    cases args with
    | nil => cases hlen
    | cons a args =>
      unfold setParams
      rw [(Func.value?_lt hv).2.1]
      refine .bind' (h.ends_write hf hv (info.rep.normalize a)) fun _ m₁ h₁ => ?_
      refine (ih h₁ (hfits.set hv hc _) (Nat.succ.inj hlen) hnodup hrest).imp ?_
      rintro _ m₂ ⟨regs', h₂, hfits', hother, hpasses⟩
      refine ⟨regs', h₂, hfits', fun v hno => ?_, .cons (fun info' hv' => ?_) hpasses⟩
      · obtain ⟨hne, hno⟩ := not_or.mp (mt List.mem_cons.mpr hno)
        rw [hother v hno, Array.getElem?_setIfInBounds_ne (Ne.symm hne)]
      · obtain rfl := Option.mem_unique hv hv'
        rw [hother p hnew, hfits.get_set hv]

theorem ends_enter_at (hf : f.Callable) {depth : Nat} (hdepth : (depth : Int) < e.maxDepth)
    {args : List Word} (hlen : f.params.length = args.length) (caller : String) (dest : ValueId)
    {stop : Halt Failure → Machine → Prop} (m : Machine) :
    Ends (enter e f args depth caller dest) m (fun _ m' => ∃ regs,
      m'.At ⟨f, depth + 1, dest, m.frames⟩ 0 regs ∧ f.Entered args regs) stop := by
  refine .ite' (fun hno => ?_) fun _ => .ite' (fun hdeep => ?_) fun _ => ?_
  · rw [hf.compiled] at hno
    cases hno
  · omega
  rw [if_neg (by rw [hf.frameSize]; omega)]
  refine .bind_pure (.bind_modify ?_)
  let t : Activation := ⟨f, depth + 1, dest, m.frames⟩
  have hat : Machine.At { m with frames := t.frame 0 (initialRegs f) :: m.frames } t 0
      (initialRegs f) := rfl
  have hset := @ends_setParams_at _ t 0 _ hat hf.inRegisters f.fits_initialRegs _ _ hlen hf.nodup
    hf.params fun _ _ => False
  refine (ends_named hset).mono ?_ fun _ _ h => h.elim
  rintro _ m' ⟨regs, hat', hfits, hother, hpasses⟩
  refine ⟨regs, hat', hfits, hpasses, fun v info hv hno hc => ?_⟩
  rw [hother v hno]
  have hget := (Func.value?_lt hv).2.1
  simp [initialRegs, hget, hc]

theorem ends_enter_deep (hc : f.compiled = true) {depth : Nat} (hdepth : e.maxDepth ≤ depth)
    (args : List Word) (caller : String) (dest : ValueId) {ok : Unit → Machine → Prop} (m : Machine) :
    Ends (enter e f args depth caller dest) m ok fun halt _ =>
      halt = .failed { cause := .depthLimit e.maxDepth, function := f.name } := by
  refine .ite' (fun hno => ?_) fun _ => .ite' (fun _ => ?_) fun hno => absurd hdepth hno
  · rw [hc] at hno
    cases hno
  · have hfail : Ends (inFunction f.name (fail (.depthLimit e.maxDepth)) : StepM Unit) m
        (fun _ _ => False) fun halt _ =>
          halt = .failed { cause := .depthLimit e.maxDepth, function := f.name } := by
      refine ends_inFunction m (.throw' ?_)
      rfl
    exact .bind' hfail fun _ _ h => h.elim

end StepM

/-! ## Calls of the engine -/

namespace Machine

variable {e : Engine} {m : Machine}

theorem Stops.unique {ending : RunEnd} (h : m.Stops e ending) {n : Nat}
    (hn : (run e n m).1 ≠ .unfinished) : (run e n m).1 = ending := by
  obtain ⟨k, hk⟩ := h
  rw [← run_settled (Nat.le_add_left n k) hn, hk n]

end Machine

theorem Engine.applied_eq_run {e : Engine} {fn : FuncId} {f : Func} (hfunc : e.findFunc fn = .ok f)
    (hf : f.Callable) (hdepth : 0 < e.maxDepth) {args : List Word} (hlen : f.params.length = args.length) :
    ∃ m regs, m.At ⟨f, 1, 0, []⟩ 0 regs ∧ f.Entered args regs ∧
      ∀ fuel, e.applied fuel fn args = Machine.run e fuel m := by
  have henter := @StepM.ends_enter_at e f hf 0 hdepth args hlen "" 0 (fun _ _ => False)
    { host := e.host }
  unfold Ends at henter
  rcases hrun : ((StepM.enter e f args 0 "" 0).run { host := e.host } :
    Except (Halt Failure) Unit × Machine) with ⟨halt | _, m⟩ <;> rw [hrun] at henter
  · exact henter.elim
  obtain ⟨regs, hat, hentered⟩ := henter
  refine ⟨m, regs, hat, hentered, fun fuel => ?_⟩
  unfold applied
  rw [hfunc]
  dsimp only
  rw [if_neg (by rw [hf.compiled]; decide), if_neg (by omega)]
  unfold Machine.call
  rw [hrun]

/-! ## What programs return -/

section

variable {c : Setting} {rt : RuntimeId} {k : Nat} {reps : Fin k → Rep} {result : Rep} {x : Int}

theorem Stmt.of_turns {cond : Valuation k → Except Cause Bool}
    {body : Valuation k → Option (Exit k)} {post : Int → Prop}
    (hbody : ∀ σ, body σ = some (.returned x) → post x) {n : Nat} {σ : Valuation k}
    (h : Stmt.turns cond body n σ = some (.returned x)) : post x := by
  induction n generalizing σ with
  | zero => cases h
  | succ n ih =>
    unfold turns at h
    rcases hc : cond σ with why | b <;> rw [hc] at h
    · cases h
    · cases b with
      | false => cases h
      | true =>
        dsimp only [given] at h
        rcases hb : body σ with _ | out <;> rw [hb] at h
        · cases h
        · cases out with
          | next σ' => exact ih h
          | left σ' => cases h
          | returned y =>
            obtain rfl : y = x := by simpa using h
            exact hbody σ hb
          | failed why => cases h

theorem Stmt.holds_returned (hr : result.IsWhole) {n : Nat} (st : Stmt c rt k) {σ : Valuation k}
    (h : st.exec reps result n σ = some (.returned x)) : result.Holds x := by
  have hgiven : ∀ {α : Type} {y : Except Cause α} {then' : α → Option (Exit k)},
      (∀ a, then' a = some (.returned x) → result.Holds x) →
      given y then' = some (.returned x) → result.Holds x := by
    intro α y then' hthen h
    cases y with
    | ok a => exact hthen a h
    | error why => cases h
  induction st generalizing σ with
  | skip | leave => cases h
  | assign i a => exact hgiven (fun _ h => by cases h) h
  | seq s t ihs iht =>
    unfold exec at h
    rcases hs : s.exec reps result n σ with _ | out <;> rw [hs] at h
    · cases h
    · cases out with
      | next σ' => exact iht h
      | returned y => exact ihs (hs.trans h)
      | left σ' | failed why => cases h
  | branch negate cond s ih =>
    refine hgiven (fun b h => ?_) h
    cases b with
    | true => exact ih h
    | false => cases h
  | branchElse negate cond s t ihs iht =>
    refine hgiven (fun b h => ?_) h
    cases b with
    | true => exact ihs h
    | false => exact iht h
  | loop negate cond s ih => exact of_turns (fun σ h => ih h) h
  | ret a =>
    refine hgiven (fun y h => ?_) h
    obtain rfl : result.wrap y = x := by simpa using h
    exact hr.holds_wrap y

end

/-! ## Runs of a compiled program -/

theorem Rep.IsInteger.wrap_zero {r : Rep} (h : r.IsInteger) : r.wrap 0 = 0 := by
  refine h.wrap_eq ?_
  unfold Rep.Holds Rep.least Rep.greatest Rep.width
  rcases h.1 with hc | hc <;> rcases h.2 with hs | hs | hs | hs <;> rw [hc, hs] <;> decide

def Machine.Follows {k : Nat} (m : Machine) (e : Engine) (name : String) (n : Nat) :
    Option (Exit k) → Prop
  | none => m.Lasts e n
  | some (.returned x) => m.Stops e (.result (Word.ofInt x))
  | some (.failed why) => m.Stops e (.halted (.failed { cause := why, function := name }))
  | some (.next _) | some (.left _) => False

/-- A function that was compiled can be called, if its parameters are values of their own. -/
theorem Func.Compiles.callable {f g : Func} (h : f.Compiles g) (hnodup : g.params.Nodup)
    (hparams : ∀ p ∈ g.params, ∃ info, g.value? p = some info ∧ info.origin ≠ .const) : g.Callable :=
  ⟨h.compiled, h.frameSize, h.runs.inRegisters, hnodup, hparams⟩

/-- What code does that goes to the end of a compiled function. Control does not come there,
nor out of a loop that is not there. -/
theorem Machine.Exits.follows {k n : Nat} {m : Machine} {e : Engine} {f g : Func} {vals : Fin k → Val}
    {reps : Fin k → Rep} {depth : Nat} {x : Option (Exit k)}
    (h : m.Exits e ⟨g, depth, 0, []⟩ vals reps [] f.insns.size n x) (hg : f.Compiles g)
    (hflow : m.OnFlow) : m.Follows e g.name n x := by
  rcases x with _ | σ | σ | x | why
  · exact h
  · obtain ⟨k, m', hsteps, regs', hstands, -⟩ := h
    have hfr := hsteps.onFlow hflow (Activation.frame ⟨g, depth, 0, []⟩ f.insns.size regs') (by
      rw [show m'.frames = _ from hstands.at']
      exact List.mem_cons_self)
    have hlt := hg.closed _ hfr
    rw [hg.insns] at hlt
    exact absurd hlt (Nat.lt_irrefl _)
  · obtain ⟨l, hl, -⟩ := h
    cases hl
  · exact h
  · exact h

theorem Machine.At.onFlow {m : Machine} {g : Func} {depth : Nat} {regs : Array Word}
    (h : m.At ⟨g, depth, 0, []⟩ 0 regs) : m.OnFlow := by
  intro fr hfr
  rw [show m.frames = [_] from h, List.mem_singleton] at hfr
  rw [hfr]
  exact .start

theorem Machine.Stops.finishes {e : Engine} {fn : FuncId} {args : List Word} {m : Machine}
    {ending : RunEnd} (h : m.Stops e ending)
    (hrun : ∀ fuel, e.applied fuel fn args = Machine.run e fuel m) (hend : ending ≠ .unfinished) :
    ∃ m', e.Finishes fn args ending m' := by
  obtain ⟨k, hk⟩ := h
  exact ⟨(Machine.run e k m).2, hend, k, by rw [hrun]; exact Prod.ext (hk 0) rfl⟩

namespace Machine.Follows

variable {k n : Nat} {m : Machine} {e : Engine} {name : String} {x : Option (Exit k)} {ending : RunEnd}

theorem agrees (h : m.Follows e name n x) (hn : (run e n m).1 = ending) (hend : ending ≠ .unfinished) :
    (∃ y, x = some (.returned y) ∧ ending = .result (Word.ofInt y)) ∨
      ∃ why, x = some (.failed why) ∧ ending = .halted (.failed { cause := why, function := name }) := by
  subst hn
  rcases x with _ | out
  · exact absurd (Lasts.unfinished h) hend
  cases out with
  | returned y => exact .inl ⟨y, rfl, Stops.unique h hend⟩
  | failed why => exact .inr ⟨why, rfl, Stops.unique h hend⟩
  | next | left => exact h.elim

theorem stops {out : Exit k} (h : m.Follows e name n (some out)) :
    ∃ ending, ending ≠ .unfinished ∧ m.Stops e ending := by
  cases out with
  | returned y => exact ⟨.result (Word.ofInt y), nofun, h⟩
  | failed why => exact ⟨.halted (.failed { cause := why, function := name }), nofun, h⟩
  | next | left => exact h.elim

end Machine.Follows

namespace Program

variable {c : Setting} {rt : RuntimeId} {p : Program c rt} {result : Rep} {g : Func} {e : Engine}
  {fn : FuncId} {args : List Word} {xs : List Int}

/-- The function runs the program: what was built for the body, behind the variables, was
compiled. -/
structure Compiled (p : Program c rt) (result : Rep) (g : Func) : Prop where
  params : g.params = (List.range p.params.length).map (· + 1)
  built : ∃ (fn : FnId) (f f' : Func) (vals : Fin (p.params.length + p.locals.length) → Val),
    f.Variables c fn vals p.reps ∧ f.insns.size = 0 ∧ (∀ i, (vals i).id = i + 1) ∧
    f.Executes f' vals p.reps [] (fun n σ => p.body.exec p.reps result n σ) ∧ f'.Compiles g

/-- The words are the numbers, as the parameters hold them. -/
structure Takes (p : Program c rt) (args : List Word) (xs : List Int) : Prop where
  length : args.length = p.params.length
  numbers : xs.length = p.params.length
  each : ∀ (i : Nat) (t : c.Integer rt) (a : Word), p.params[i]? = some t → args[i]? = some a →
    t.rep.normalize a = Word.ofInt (t.rep.wrap (xs.getD i 0))

theorem Compiled.callable (h : p.Compiled result g) : g.Callable := by
  obtain ⟨fn, f, f', vals, hvars, -, hids, hexec, hg⟩ := h.built
  refine hg.callable ?_ fun v hv => ?_
  · rw [h.params]
    exact List.nodup_range.map Nat.succ_injective
  · rw [h.params] at hv
    obtain ⟨i, hi, rfl⟩ := List.mem_map.mp hv
    let j : Fin (p.params.length + p.locals.length) :=
      ⟨i, Nat.lt_of_lt_of_le (List.mem_range.mp hi) (Nat.le_add_right _ _)⟩
    obtain ⟨⟨info, hinfo, -⟩, -⟩ := hvars.number j
    have hc := hvars.assignable hinfo
    rw [hids j] at hinfo
    exact ⟨info, (hexec.within.trans hg.within).value hinfo, hc⟩

/-- A call begins with the arguments in the parameters, and zero in the locals. -/
theorem Compiled.start_in (h : p.Compiled result g) (hargs : p.Takes args xs) {regs : Array Word}
    (hregs : g.Entered args regs) {f : Func} {fn : FnId}
    {vals : Fin (p.params.length + p.locals.length) → Val} (hvars : f.Variables c fn vals p.reps)
    (hids : ∀ i, (vals i).id = i + 1) (hg : f.Within g) : (p.start xs).In vals p.reps regs := by
  intro i
  have hi := (hvars.number i).isInteger
  refine ⟨hi.holds_wrap _, ?_⟩
  obtain ⟨⟨info, hinfo, hrep, -⟩, -⟩ := hvars.number i
  have hc := hvars.assignable hinfo
  have hinfo := hg.value hinfo
  rw [hids i] at hinfo ⊢
  have hreps := p.reps_eq i
  unfold start
  by_cases hlt : (i : Nat) < p.params.length
  · have hparam : p.params[(i : Nat)]? = some p.params[(i : Nat)] := List.getElem?_eq_getElem hlt
    rw [List.getElem?_append_left (by simpa using hlt), List.getElem?_map, hparam] at hreps
    have hrep' : p.params[(i : Nat)].rep = p.reps i := Option.some.inj hreps
    have hia : (i : Nat) < args.length := by rwa [hargs.length]
    have hget := hargs.each i _ _ hparam (List.getElem?_eq_getElem hia)
    have hip : (i : Nat) < g.params.length := by rw [h.params]; simpa using hlt
    have hpass := hregs.params.get hip hia
    have hp : g.params.get ⟨i, hip⟩ = i + 1 := by simp [h.params]
    rw [hp] at hpass
    rw [hpass info hinfo, hrep, ← hrep']
    exact congrArg some hget
  · have hno : (i : Nat) + 1 ∉ g.params := by
      rw [h.params]
      simpa using hlt
    have hnone : xs.getD i 0 = 0 := by
      rw [List.getD_eq_getElem?_getD, List.getElem?_eq_none (by rw [hargs.numbers]; omega)]
      rfl
    rw [hregs.zero _ info hinfo hno hc, hnone, hi.wrap_zero]
    rfl

theorem Compiled.runs (h : p.Compiled result g) (hfunc : e.findFunc fn = .ok g)
    (hlimit : e.maxSteps ≤ 0) (hdepth : 0 < e.maxDepth) (hargs : p.Takes args xs) :
    ∃ m : Machine, (∀ fuel, e.applied fuel fn args = Machine.run e fuel m) ∧
      ∀ n, m.Follows e g.name n (p.exec result n xs) := by
  have hlen : g.params.length = args.length := by
    rw [h.params, hargs.length]
    simp
  obtain ⟨m, regs, hat, hregs, hrun⟩ := Engine.applied_eq_run hfunc h.callable hdepth hlen
  refine ⟨m, hrun, fun n => ?_⟩
  obtain ⟨f', f, f'', vals, hvars, hsize, hids, hexec, hg⟩ := h.built
  have hin := h.start_in hargs hregs hvars hids (hexec.within.trans hg.within)
  have hhere : m.Here ⟨g, 1, 0, []⟩ vals p.reps f.insns.size (p.start xs) := by
    rw [hsize]
    exact ⟨regs, ⟨hat, hregs.fits, .outermost rfl⟩, hin⟩
  exact (hexec.exits n hlimit hg.within hg.runs hhere).follows hg hat.onFlow

/-- A call ends as the program does, and lasts as the program does. -/
structure Mirrored (p : Program c rt) (result : Rep) (e : Engine) (fn : FuncId) (name : String)
    (args : List Word) (xs : List Int) : Prop where
  returns : ∀ bits, (∃ m, e.Finishes fn args (.result bits) m) ↔
    ∃ n x, p.exec result n xs = some (.returned x) ∧ bits = Word.ofInt x
  fails : ∀ halt, (∃ m, e.Finishes fn args (.halted halt) m) ↔
    ∃ n why, p.exec result n xs = some (.failed why) ∧
      halt = .failed { cause := why, function := name }
  lasts : (∀ fuel, (e.applied fuel fn args).1 = .unfinished) ↔ ∀ n, p.exec result n xs = none

theorem Compiled.mirrored (h : p.Compiled result g) (hfunc : e.findFunc fn = .ok g)
    (hlimit : e.maxSteps ≤ 0) (hdepth : 0 < e.maxDepth) (hargs : p.Takes args xs) :
    p.Mirrored result e fn g.name args xs := by
  obtain ⟨m, hrun, hfollows⟩ := h.runs hfunc hlimit hdepth hargs
  have hends : ∀ {ending}, (∃ m', e.Finishes fn args ending m') → ∃ n, ending ≠ .unfinished ∧
      (Machine.run e n m).1 = ending := by
    rintro ending ⟨m', hend, fuel, hm'⟩
    exact ⟨fuel, hend, by rw [← hrun, hm']⟩
  refine ⟨fun bits => ⟨fun hb => ?_, ?_⟩, fun halt => ⟨fun hb => ?_, ?_⟩, ⟨fun hall n => ?_, ?_⟩⟩
  · obtain ⟨n, hend, hn⟩ := hends hb
    rcases (hfollows n).agrees hn hend with ⟨x, hx, heq⟩ | ⟨why, -, heq⟩
    · exact ⟨n, x, hx, RunEnd.result.inj heq⟩
    · cases heq
  · rintro ⟨n, x, hx, rfl⟩
    have hstops := hfollows n
    rw [hx] at hstops
    exact Machine.Stops.finishes hstops hrun nofun
  · obtain ⟨n, hend, hn⟩ := hends hb
    rcases (hfollows n).agrees hn hend with ⟨x, -, heq⟩ | ⟨why, hx, heq⟩
    · cases heq
    · exact ⟨n, why, hx, RunEnd.halted.inj heq⟩
  · rintro ⟨n, why, hx, rfl⟩
    have hstops := hfollows n
    rw [hx] at hstops
    exact Machine.Stops.finishes hstops hrun nofun
  · by_contra hsome
    obtain ⟨out, hout⟩ := Option.ne_none_iff_exists'.mp hsome
    have hstops := hfollows n
    rw [hout] at hstops
    obtain ⟨ending, hend, k, hk⟩ := hstops.stops
    exact hend ((hk 0).symm.trans ((congrArg Prod.fst (hrun _)).symm.trans (hall _)))
  · intro hnone fuel
    have hlasts := hfollows fuel
    rw [hnone] at hlasts
    rw [hrun]
    exact Machine.Lasts.unfinished hlasts

end Program

end TypedIR
