import TypedIR.Proofs.BuildRuns
import TypedIR.Proofs.FunctionEnds
import TypedIR.Proofs.SafeRuns
import TypedIR.Proofs.HeldBlocks

/-
  Calls give back the memory they reserve.

  A call reserves blocks in two places: one for each frame that needs memory, and one
  for each request of the code. Both are written down in the frame at once, so the
  blocks that are live at any step are the ones that were live before the call and
  blocks that a frame on the stack has written down (`Machine.Balanced`). A frame that
  goes frees what it has written down, and at the end of a call no frame is left,
  however the call ends (`Machine.call_gives_back`).

  The code must call no native: a native may reserve and free as it likes.
-/

namespace TypedIR

/-- No native is called by the functions that calls lead to. -/
def Engine.Calm (e : Engine) (root : Func) : Prop :=
  ∀ g, e.Reaches root g → ∀ i ∈ g.insns, i.op ≠ .callNative

def Frame.written (fr : Frame) : List Word := fr.base :: fr.allocas

def Machine.written (m : Machine) : List Word := m.frames.flatMap Frame.written

/-- The frames run functions that `root` reaches, and the blocks reserved since the
memory was `start` are written down in them. -/
structure Machine.Balanced (e : Engine) (root : Func) (start : Memory) (m : Machine) : Prop where
  reached : ∀ fr ∈ m.frames, e.Reaches root fr.func
  holds : start.Tallies m.written m.host.memory

section

variable {e : Engine} {root : Func} {start : Memory} {m m' : Machine}

namespace Machine.Balanced

theorem congr (h : m.Balanced e root start)
    (hframes : m'.frames.map (fun fr => (fr.func, fr.written)) =
      m.frames.map fun fr => (fr.func, fr.written))
    (hmem : m.host.memory.Rewritten m'.host.memory) : m'.Balanced e root start := by
  have hfuncs : m'.frames.map Frame.func = m.frames.map Frame.func := by
    simpa [List.map_map, Function.comp_def] using congrArg (List.map Prod.fst) hframes
  have hwritten : m'.written = m.written := by
    unfold Machine.written
    rw [List.flatMap_def, List.flatMap_def]
    simpa [List.map_map, Function.comp_def] using
      congrArg (fun xs => (List.map Prod.snd xs).flatten) hframes
  refine ⟨fun fr hfr => ?_, hwritten ▸ h.holds.rewritten hmem⟩
  have hmem := List.mem_map_of_mem (f := Frame.func) hfr
  rw [hfuncs] at hmem
  obtain ⟨fr₀, hfr₀, heq⟩ := List.mem_map.mp hmem
  exact heq ▸ h.reached fr₀ hfr₀

theorem alters {own : ValueId → Prop} (h : m.Balanced e root start) (hs : m.Alters own m') :
    m'.Balanced e root start := by
  obtain ⟨mem, hmem, hhost⟩ := hs.host
  refine h.congr ?_ (by rw [hhost]; exact hmem)
  have hframes := hs.frames
  generalize m.frames = frames, m'.frames = frames' at hframes
  cases hframes with
  | nil => rfl
  | cons => rfl

theorem withMemory (h : m.Balanced e root start) {mem : Memory}
    (hmem : start.Tallies m.written mem) : (m.withMemory mem).Balanced e root start :=
  ⟨h.reached, hmem⟩

end Machine.Balanced

namespace StepM

open Machine

variable {α : Type} {f : Func}

theorem balances_of_alters {act : StepM α} (h : Leaves (Alters fun _ => True) act) :
    Leaves (Onward (Balanced e root start)) act :=
  h.mono fun _ _ hs hb => hb.alters hs

theorem balances_modifyFrame {g : Frame → Frame} (hf : ∀ fr, (g fr).func = fr.func)
    (hw : ∀ fr, (g fr).written = fr.written) :
    Leaves (Onward (Balanced e root start)) (modifyFrame g) := by
  refine .modify' fun m hb => ?_
  rcases m with ⟨host, steps, _ | ⟨fr, rest⟩⟩
  · exact hb
  · refine hb.congr ?_ (Std.Refl.refl _)
    simp [hf, hw]

/-! ## Reserving -/

theorem ends_reserve (hb : m.Balanced e root start) (size : Int) :
    Ends (request (Memory.alloc size)) m
      (fun p m' => ∃ mem, start.Tallies (p :: m.written) mem ∧ m' = m.withMemory mem)
      (fun _ m' => m'.Balanced e root start) := by
  have halloc := (hb.holds.ends_alloc size).imp fun _ _ h => h.1
  unfold Ends at halloc ⊢
  rw [run_request]
  rcases hr : ((Memory.alloc size).run m.host.memory : Except (Halt Fault) Word × Memory) with
    ⟨(_ | _) | _, mem⟩ <;> rw [hr] at halloc
  · exact hb.withMemory halloc
  · exact hb.withMemory halloc
  · exact ⟨mem, halloc, rfl⟩

theorem balances_enter (hreach : e.Reaches root f) (args : List Word) (depth : Nat)
    (caller : String) (dest : ValueId) :
    Leaves (Onward (Balanced e root start)) (enter e f args depth caller dest) := by
  have hparams : Leaves (Onward (Balanced e root start)) (inFunction caller (setParams f f.params args)) :=
    balances_of_alters (leaves_inFunction (alters_setParams f (fun _ _ => trivial) args))
  have hmake : ∀ base m, (∀ fr ∈ m.frames, e.Reaches root fr.func) →
      start.Tallies (base :: m.written) m.host.memory → Ends (do
        modify fun m =>
          { m with frames :=
              { func := f, depth := depth + 1, regs := initialRegs f, base, dest } :: m.frames }
        inFunction caller (setParams f f.params args)) m
        (fun _ m' => m'.Balanced e root start) (fun _ m' => m'.Balanced e root start) := by
    intro base m hfuncs hholds
    refine .bind_modify (.of_state (hparams _ ⟨?_, hholds⟩))
    rintro fr hfr
    rcases List.mem_cons.mp hfr with rfl | hfr
    · exact hreach
    · exact hfuncs fr hfr
  intro m hb
  refine Ends.state ?_
  have hok : ∀ {c : Cause} {k : PUnit → StepM Unit}, Ends (inFunction f.name (fail c) >>= k) m
      (fun _ m' => m'.Balanced e root start) fun _ m' => m'.Balanced e root start :=
    fun {c} {k} => Ends.stopped (ends_inFunction m (.throw' hb))
  refine .ite' (fun _ => hok) fun _ => .ite' (fun _ => hok) fun _ => .ite' (fun _ => ?_) fun _ => ?_
  · refine .bind' (ends_inFunction m ((ends_reserve hb f.frameSize).imp_stop ?_)) ?_
    · intro halt _ h
      cases halt <;> exact h
    · rintro base _ ⟨mem, hmem, rfl⟩
      exact hmake base _ hb.reached hmem
  · exact hmake 0 m hb.reached hb.holds.zero_cons

theorem balances_alloca {i : Insn} {depth : Nat} (hop : i.op = .alloca) :
    Leaves (Onward (Balanced e root start)) (execute e f depth i) := by
  intro m hb
  refine Ends.state ?_
  unfold execute
  rw [hop]
  dsimp only
  have hread : Ends (read i.a) m
      (fun _ m' => m'.Balanced e root start ∧ ∃ fr rest, m'.frames = fr :: rest)
      fun _ m' => m'.Balanced e root start := by
    cases hframes : m.frames with
    | nil =>
      exact (ends_noFrame hframes).mono (fun _ _ h => h.elim) fun _ _ h => h ▸ hb
    | cons fr rest =>
      have halters : Leaves (Alters fun _ => True) (read i.a) := (still_read _).still
      refine (halters.ends m).mono (fun _ m' hs => ⟨hb.alters hs, ?_⟩) fun _ _ hs => hb.alters hs
      have hsets := hs.frames
      rw [hframes] at hsets
      generalize m'.frames = frames at hsets
      cases hsets with
      | cons => exact ⟨_, _, rfl⟩
  refine .bind' hread ?_
  rintro n m₁ ⟨hb₁, fr, rest, hframes⟩
  have hsize : Ends (allocaSize n) m₁ (fun _ m' => m₁ = m') fun _ m' => m'.Balanced e root start :=
    .ite' (fun _ => .pure' rfl) fun _ => .throw' hb₁
  refine .bind' hsize ?_
  rintro size _ rfl
  refine .bind' (ends_reserve hb₁ size) ?_
  · rintro p _ ⟨mem, hmem, rfl⟩
    refine .bind' (ends_modifyFrame (m := m₁.withMemory mem) hframes) ?_
    rintro _ _ rfl
    have hwrite : Leaves (Onward (Balanced e root start)) (write i.dest p) :=
      balances_of_alters (alters_write trivial _)
    have hfuncs := hb₁.reached
    unfold Machine.written at hmem
    rw [hframes] at hfuncs hmem
    obtain ⟨hfr, hrest⟩ := List.forall_mem_cons.mp hfuncs
    refine .of_state (hwrite _ ⟨List.forall_mem_cons.mpr ⟨hfr, hrest⟩, hmem.congr fun a => ?_⟩)
    simp only [Machine.written, List.flatMap_cons, Frame.written, List.cons_append, List.mem_cons,
      List.mem_append]
    tauto

/-! ## Freeing -/

theorem run_release (a : Word) : ((release a).run m : Except (Halt Failure) Unit × Machine) =
    (.ok (), m.withMemory ((Memory.free a).run m.host.memory : Except (Halt Fault) Unit × Memory).2) := by
  unfold release
  by_cases h0 : a = 0
  · subst h0
    rfl
  · rw [if_neg h0, run_tryCatch, run_request]
    rcases ((Memory.free a).run m.host.memory : Except (Halt Fault) Unit × Memory) with
      ⟨(_ | _) | _, mem⟩ <;> rfl

theorem gives_back {a : Word} {written : List Word}
    (h : start.Tallies (a :: written) m.host.memory) :
    Ends (release a) m
      (fun _ m' => ∃ mem, start.Tallies written mem ∧ m' = m.withMemory mem) fun _ _ => False := by
  unfold Ends
  rw [run_release]
  exact ⟨_, h.freed, rfl⟩

theorem gives_back_all {as written : List Word} (h : start.Tallies (as ++ written) m.host.memory) :
    Ends (as.forM release) m
      (fun _ m' => ∃ mem, start.Tallies written mem ∧ m' = m.withMemory mem) fun _ _ => False := by
  induction as generalizing m with
  | nil => exact .pure' ⟨_, h, rfl⟩
  | cons a as ih =>
    refine .bind' (gives_back h) ?_
    rintro _ _ ⟨mem, hmem, rfl⟩
    exact ih hmem

theorem gives_back_frame {fr : Frame} {written : List Word}
    (h : start.Tallies (fr.written ++ written) m.host.memory) :
    Ends (releaseFrame fr) m
      (fun _ m' => ∃ mem, start.Tallies written mem ∧ m' = m.withMemory mem) fun _ _ => False := by
  have horder : start.Tallies (fr.allocas.reverse ++ (fr.base :: written)) m.host.memory :=
    h.congr fun a => by simp [Frame.written]; tauto
  refine .bind' (gives_back_all horder) ?_
  rintro _ _ ⟨mem, hmem, rfl⟩
  exact gives_back hmem

theorem gives_back_frames {frames : List Frame}
    (h : start.Tallies (frames.flatMap Frame.written) m.host.memory) :
    Ends (frames.forM releaseFrame) m
      (fun _ m' => ∃ mem, start.Tallies [] mem ∧ m' = m.withMemory mem) fun _ _ => False := by
  induction frames generalizing m with
  | nil => exact .pure' ⟨_, h, rfl⟩
  | cons fr rest ih =>
    refine .bind' (gives_back_frame h) ?_
    rintro _ _ ⟨mem, hmem, rfl⟩
    exact ih hmem

theorem balances_leave (bits : Word) : Leaves (Onward (Balanced e root start)) (leave bits) := by
  refine leaves_leave bits (fun {m fr rest} hb hframes => ?_)
    fun _ => balances_of_alters (alters_write trivial _)
  have hholds := hb.holds
  have hfuncs := hb.reached
  unfold Machine.written at hholds
  rw [hframes] at hholds hfuncs
  rw [List.flatMap_cons] at hholds
  refine (gives_back_frame hholds).imp ?_
  rintro _ _ ⟨mem, hmem, rfl⟩
  rw [withMemory_frames, hframes]
  exact ⟨fun fr' hfr => hfuncs fr' (List.mem_cons_of_mem _ hfr), hmem⟩

/-! ## Steps -/

theorem balances_execute (hcalm : e.Calm root) (hf : e.Reaches root f) {i : Insn}
    (hi : i ∈ f.insns) (depth : Nat) :
    Leaves (Onward (Balanced e root start)) (execute e f depth i) :=
  leaves_execute (fun bits => balances_of_alters (alters_write trivial bits))
    (fun _ r addr bits => balances_of_alters (alters_store r addr bits)) balances_alloca
    (fun hcall => leaves_call hcall fun _ hg args =>
      balances_enter (hf.tail ⟨i, hi, hcall, hg⟩) args depth f.name i.dest)
    (absurd · (hcalm f hf i hi))

theorem balances_step (hcalm : e.Calm root) : Leaves (Onward (Balanced e root start)) (step e) :=
  leaves_step (fun _ hb => hb.congr rfl (Std.Refl.refl _))
    (fun _ => balances_modifyFrame (fun _ => rfl) fun _ => rfl) balances_leave
    fun hb hframes _ hi => balances_execute hcalm (hb.reached _ (hframes ▸ List.mem_cons_self)) hi

end StepM

/-! ## Calls -/

namespace Machine

open StepM

theorem Balanced.unwound (h : m.Balanced e root start) :
    start.Tallies [] m.unwound.host.memory := by
  have hends : Ends unwind m (fun _ m' => start.Tallies [] m'.host.memory) fun _ _ => False := by
    refine .bind_get (.bind' (gives_back_frames h.holds) ?_)
    rintro _ _ ⟨mem, hmem, rfl⟩
    exact .modify' hmem
  exact hends.total.state

theorem Balanced.run_gives_back (hcalm : e.Calm root) (h : m.Balanced e root start) {fuel : Nat}
    (hend : (run e fuel m).1 ≠ .unfinished) :
    start.Tallies [] (run e fuel m).2.host.memory := by
  induction fuel generalizing m with
  | zero => exact absurd rfl hend
  | succ fuel ih =>
    have hstep := balances_step hcalm m h
    unfold run at hend ⊢
    rcases hs : ((step e).run m : Except (Halt Failure) (Option Word) × Machine) with
      ⟨halt | (_ | bits), m'⟩ <;> rw [hs] at hstep hend <;> dsimp only at hend ⊢
    · exact Balanced.unwound hstep
    · exact ih hstep hend
    · have hlast := hstep.holds
      unfold Machine.written at hlast
      rw [(frames_of_result hs).1] at hlast
      exact hlast

/-- A call that comes to an end, with a result or without, has given back what it
reserved. -/
theorem call_gives_back (hcalm : e.Calm root) (host : Host) (args : List Word) {fuel : Nat}
    (hend : (call e fuel host root args).1 ≠ .unfinished) :
    host.memory.Tallies [] (call e fuel host root args).2.host.memory := by
  have hstart : Balanced e root host.memory { host } := ⟨List.forall_mem_nil _, .refl _⟩
  have henter := balances_enter (e := e) .refl args 0 "" 0 { host } hstart
  unfold call at hend ⊢
  rcases hs : ((enter e root args 0 "" 0).run { host } :
    Except (Halt Failure) Unit × Machine) with ⟨halt | _, m'⟩ <;> rw [hs] at henter hend <;>
    dsimp only at hend ⊢
  · exact Balanced.unwound henter
  · exact Balanced.run_gives_back hcalm henter hend

end Machine

end

/-! ## Applying a function -/

/-- The run was given up: it takes more steps than any that ends in a lifetime. -/
def RunM.GivenUp (e : Engine) (f : Func) (args : List Word) : Prop :=
  (Machine.call e runFuel e.host f args).1 = .unfinished

theorem RunM.apply_gives_back {e : Engine} {fn : FuncId} {f : Func} (hf : e.findFunc fn = .ok f)
    (hcalm : e.Calm f) (args : List Word) :
    Ends (RunM.apply fn args) e (fun _ e' => e.host.memory.Tallies [] e'.host.memory)
      (fun halt e' => halt = .crashed ∧ RunM.GivenUp e f args ∨
        e.host.memory.Tallies [] e'.host.memory) := by
  have hsame : e.host.memory.Tallies [] e.host.memory := .refl _
  by_cases hc : f.compiled = true
  · by_cases hlen : args.length = f.params.length
    · have hcall : (Machine.call e runFuel e.host f args).1 ≠ .unfinished →
          e.host.memory.Tallies [] (Machine.call e runFuel e.host f args).2.host.memory :=
        Machine.call_gives_back hcalm e.host args
      refine (ends_apply hf hc hlen Prod.mk.eta.symm).mono ?_ ?_
      · rintro bits e' ⟨hanswer, hhost⟩
        rw [hhost]
        refine hcall fun hun => ?_
        rw [hun] at hanswer
        cases hanswer
      · rintro halt e' ⟨hanswer, hhost⟩
        rw [hhost]
        by_cases hun : (Machine.call e runFuel e.host f args).1 = .unfinished
        · rw [hun] at hanswer
          exact .inl ⟨Except.error.inj hanswer, hun⟩
        · exact .inr (hcall hun)
    · refine .bind' (ends_func hf) ?_
      rintro _ _ ⟨rfl, rfl⟩
      rw [if_neg (by simp [hc]), if_pos hlen]
      exact .bind_throw (.inr hsame)
  · refine .bind' (ends_func hf) ?_
    rintro _ _ ⟨rfl, rfl⟩
    rw [if_pos (by simpa using hc)]
    exact .bind_throw (.inr hsame)

/-! ## Calls of the builder -/

/-- The blocks that a runtime has reserved since its memory was `start` are written
down. -/
def Workspace.Tallies (rt : RuntimeId) (start : Memory) (written : List Word) (w : Workspace) : Prop :=
  ∃ r, w.runtimes[rt]? = some r ∧ start.Tallies written r.engine.host.memory

def Workspace.Lends (rt : RuntimeId) (e : Engine) (written : List Word) (w : Workspace) : Prop :=
  ∃ r host notes, w.runtimes[rt]? = some r ∧ r.engine = { e with host, notes } ∧
    e.host.memory.Tallies written host.memory

theorem EngineM.ends_request {α : Type} {q : Memory.Request α} {e : Engine}
    {ok : α → Memory → Prop} {stop : Halt Fault → Memory → Prop} (h : Ends q e.host.memory ok stop) :
    Ends (EngineM.request q) e
      (fun a e' => ∃ mem, ok a mem ∧ e' = { e with host := { e.host with memory := mem } })
      (fun _ e' => ∃ why mem, stop why mem ∧
        e' = { e with host := { e.host with memory := mem } }) := by
  refine .bind_get (.bind_set ?_)
  unfold Ends at h
  rcases hr : (q.run e.host.memory : Except (Halt Fault) α × Memory) with ⟨(why | _) | a, mem⟩ <;>
    rw [hr] at h
  · exact .bind_modify (.throw' ⟨_, mem, h, rfl⟩)
  · exact .bind_modify (.throw' ⟨_, mem, h, rfl⟩)
  · exact .bind_modify (.pure' ⟨mem, h, rfl⟩)

theorem Workspace.runtime_advance {w : Workspace} {rt : RuntimeId} {r : Runtime}
    (hr : w.runtimes[rt]? = some r) (e : Engine) (spans : List Trace.Span)
    (tracing : Trace.Tracing) :
    (w.advance rt r e spans tracing).runtimes[rt]? = some { r with engine := e, spans } := by
  unfold Workspace.advance
  have hlt := lt_of_getElem? hr
  simp [hlt]

namespace BuildM

variable {α : Type} {rt : RuntimeId} {e : Engine} {start : Memory} {written : List Word}
  {w : Workspace}

theorem ends_lend (h : w.Lends rt e written) (text : List UInt8) :
    Ends (onMachine rt "call" (EngineM.request (Memory.writeString text))) w
      (fun p w' => w'.Lends rt e (p :: written)) fun _ w' => w'.Lends rt e written := by
  obtain ⟨r, host, notes, hr, he, hholds⟩ := h
  have hstring : Ends (Memory.writeString text) r.engine.host.memory
      (fun p mem => e.host.memory.Tallies (p :: written) mem)
      fun _ mem => e.host.memory.Tallies written mem := by
    rw [he]
    exact hholds.ends_writeString text
  have hlent : ∀ {written' : List Word} {mem : Memory} (spans : List Trace.Span)
      (tracing : Trace.Tracing), e.host.memory.Tallies written' mem →
      (w.advance rt r { r.engine with
        host := { r.engine.host with memory := mem }, notes := #[] } spans tracing).Lends rt e
          written' := by
    intro written' mem spans tracing hmem
    exact ⟨_, _, _, Workspace.runtime_advance hr _ spans tracing, by rw [he], hmem⟩
  refine (BuildM.ends_onMachine hr "call" (EngineM.ends_request hstring)).mono ?_ ?_
  · rintro p _ ⟨_, spans, tracing, ⟨mem, hmem, rfl⟩, rfl⟩
    exact hlent spans tracing hmem
  · rintro _ _ ⟨_, _, spans, tracing, -, ⟨_, mem, hmem, rfl⟩, rfl⟩
    exact hlent spans tracing hmem

theorem lends_marshalArgs {fn : FnId} {s : Function} (name : String) (params : List (Ty × Rep))
    (args : List HostValue) (i : Nat) (bits temps : List Word) (h : w.Lends s.runtime e temps) :
    Ends (marshalArgs fn s name i params args bits temps) w
      (fun a w' => w'.Lends s.runtime e a.2) fun how _ => ∀ p, how ≠ .problem p := by
  induction params generalizing w args i bits temps with
  | nil =>
    unfold marshalArgs
    exact .pure' h
  | cons p params ih =>
    cases args with
    | nil => exact .pure' h
    | cons a args =>
      unfold marshalArgs
      split
      · refine .bind' ((ends_attempt (ends_lend h _)).imp_stop fun _ _ h => h.1) ?_
        rintro (p | addr) w' h'
        · exact .pure' h'
        · refine ih _ _ _ _ ?_
          obtain ⟨r, host, notes, hr, he, hholds⟩ := h'
          exact ⟨r, host, notes, hr, he, hholds.congr fun a => by simp [or_comm]⟩
      · generalize marshal p.2 _ = word
        cases word with
        | ok word => exact ih _ _ _ _ h
        | error why => exact .pure' h

theorem gives_back_lent {temps : List Word} (h : w.Tallies rt start (temps ++ written)) :
    Ends (freeAll rt temps) w (fun _ w' => w'.Tallies rt start written)
      fun how _ => ∀ p, how ≠ .problem p := by
  induction temps generalizing w with
  | nil => exact .pure' h
  | cons a temps ih =>
    obtain ⟨r, hr, hholds⟩ := h
    have hfree : Ends (Memory.free a) r.engine.host.memory
        (fun _ mem => start.Tallies (temps ++ written) mem)
        fun _ mem => start.Tallies (temps ++ written) mem := .of_state hholds.freed
    have hgiven : Ends (onMachine rt "call" (EngineM.request (Memory.free a))) w
        (fun _ w' => w'.Tallies rt start (temps ++ written))
        fun _ w' => w'.Tallies rt start (temps ++ written) := by
      refine (BuildM.ends_onMachine hr "call" (EngineM.ends_request hfree)).mono ?_ ?_
      · rintro _ _ ⟨_, spans, tracing, ⟨mem, hmem, rfl⟩, rfl⟩
        exact ⟨_, Workspace.runtime_advance hr _ spans tracing, hmem⟩
      · rintro _ _ ⟨_, _, spans, tracing, -, ⟨_, mem, hmem, rfl⟩, rfl⟩
        exact ⟨_, Workspace.runtime_advance hr _ spans tracing, hmem⟩
    refine .bind' ((ends_attempt hgiven).imp_stop fun _ _ h => h.1) ?_
    rintro (_ | _) w' h'
    · exact ih h'
    · exact ih h'

end BuildM

/-- A call of a function that calls no native gives back what it reserves, and the
strings that were passed to it. -/
theorem BuildM.call_gives_back {w : Workspace} {fn : FnId} {s : Function} {r : Runtime} {f : Func}
    (hs : w.functions[fn]? = some s) (hr : w.runtimes[s.runtime]? = some r)
    (hf : r.engine.findFunc s.id = .ok f) (hcalm : r.engine.Calm f) (args : List HostValue) :
    Ends (BuildM.call fn args) w (fun _ w' => w'.Tallies s.runtime r.engine.host.memory [])
      (fun how w' => ∀ p, how = .problem p → w'.Tallies s.runtime r.engine.host.memory []) := by
  have hsame : w.Tallies s.runtime r.engine.host.memory [] := ⟨r, hr, .refl _⟩
  have hlent : w.Lends s.runtime r.engine [] := ⟨r, _, _, hr, rfl, .refl _⟩
  have hname : Ends (functionName fn) w (fun _ w' => w = w') fun _ _ => False :=
    ends_functionName ⟨hs, r, hr, (EngineM.findFunc_ok hf).1⟩
  have hfree : ∀ (temps : List Word) (w' : Workspace),
      w'.Tallies s.runtime r.engine.host.memory temps → Ends (freeAll s.runtime temps) w'
        (fun _ w' => w'.Tallies s.runtime r.engine.host.memory [])
        (fun how w' => ∀ p, how = .problem p → w'.Tallies s.runtime r.engine.host.memory []) := by
    intro temps w' h'
    rw [← List.append_nil temps] at h'
    exact (gives_back_lent h').imp_stop fun _ _ h p hp => absurd hp (h p)
  refine ends_function hs (.bind' hname.total ?_)
  rintro name _ rfl
  refine .ite' (fun _ => .bind_throw fun _ _ => hsame) fun _ => ?_
  refine .ite' (fun _ => .bind_throw fun _ _ => hsame) fun _ => ?_
  refine .bind' ((lends_marshalArgs name (s.params.zip s.paramReps) args 0 [] [] hlent).imp_stop fun _ _ h p hp => absurd hp (h p)) ?_
  rintro ⟨bits, temps⟩ w₁ ⟨r₁, host, notes, hr₁, he, hholds⟩
  cases bits with
  | error p =>
    refine .bind_pure (.bind' (hfree temps w₁ ⟨r₁, hr₁, by rw [he]; exact hholds⟩) ?_)
    exact fun _ _ h => .throw' fun _ _ => h
  | ok bits =>
    have hcalm₁ : r₁.engine.Calm f := by
      rw [he]
      exact hcalm
    have hf₁ : r₁.engine.findFunc s.id = .ok f := by
      rw [he]
      exact hf
    have happly := BuildM.ends_onMachine hr₁ "call" (RunM.apply_gives_back hf₁ hcalm₁ bits)
    have hrun : Ends (onMachine s.runtime "call" (RunM.apply s.id bits)) w₁
        (fun _ w' => w'.Tallies s.runtime r.engine.host.memory temps)
        (fun how w' => ∀ p, how = .problem p →
          w'.Tallies s.runtime r.engine.host.memory temps) := by
      have hstart : r.engine.host.memory.Tallies temps r₁.engine.host.memory := by
        rw [he]
        exact hholds
      refine happly.mono ?_ ?_
      · rintro _ _ ⟨e', spans, tracing, hback, rfl⟩
        exact ⟨_, Workspace.runtime_advance hr₁ _ spans tracing, hstart.trans hback⟩
      · rintro _ _ ⟨halt, e', spans, tracing, rfl, hback, rfl⟩ p hp
        refine ⟨_, Workspace.runtime_advance hr₁ _ spans tracing, hstart.trans ?_⟩
        refine hback.resolve_left fun hcrash => ?_
        rw [hcrash.1] at hp
        cases hp
    refine .bind' ((ends_attempt hrun).imp_stop
      fun _ _ h p hp => absurd hp (h.1 p)) ?_
    rintro (p | res) w₂ h₂
    · exact .bind' (hfree temps w₂ (h₂ p rfl)) fun _ _ h => .throw' fun _ _ => h
    · exact .bind' (hfree temps w₂ h₂) fun _ _ h => .pure' h

/-! ## No leaks -/

/-- The same blocks are live, of the same sizes, and so equally many. -/
structure Memory.LiveAlike (m m' : Memory) : Prop where
  size? : ∀ i, m'.size? i = m.size? i
  live : m'.live = m.live

theorem Memory.Tallies.liveAlike {start m : Memory} (h : start.Tallies [] m) : start.LiveAlike m :=
  ⟨h.sameLive.size?, h.sameLive.live⟩

/-- Calls do not leak. Whatever arguments it is given and however it ends, applying a
function of an engine leaves the same blocks live, if neither the function nor any
that it reaches calls a native; so does calling it from the builder, strings among the
arguments included. A call that crashes the machine comes to no end a caller could
tell of. -/
theorem Engine.Calm.calls_do_not_leak {e : Engine} {id : FuncId} {f : Func}
    (hf : e.findFunc id = .ok f) (hcalm : e.Calm f) :
    (∀ args, Ends (RunM.apply id args) e
      (fun _ e' => e.host.memory.LiveAlike e'.host.memory)
      (fun halt e' => halt = .crashed ∧ RunM.GivenUp e f args ∨
        e.host.memory.LiveAlike e'.host.memory)) ∧
    ∀ (w : Workspace) (fn : FnId) (s : Function) (r : Runtime), w.functions[fn]? = some s →
      w.runtimes[s.runtime]? = some r → r.engine = e → s.id = id → ∀ args,
      Ends (BuildM.call fn args) w
        (fun _ w' => ∃ r', w'.runtimes[s.runtime]? = some r' ∧
          e.host.memory.LiveAlike r'.engine.host.memory)
        (fun how w' => ∀ p, how = .problem p → ∃ r', w'.runtimes[s.runtime]? = some r' ∧
          e.host.memory.LiveAlike r'.engine.host.memory) := by
  refine ⟨fun args => ?_, ?_⟩
  · exact (RunM.apply_gives_back hf hcalm args).mono (fun _ _ h => h.liveAlike)
      fun _ _ h => h.imp_right Memory.Tallies.liveAlike
  · rintro w fn s r hs hr rfl rfl args
    refine (BuildM.call_gives_back hs hr hf hcalm args).mono ?_ ?_
    · rintro _ w' ⟨r', hr', hholds⟩
      exact ⟨r', hr', hholds.liveAlike⟩
    · intro how w' h p hp
      obtain ⟨r', hr', hholds⟩ := h p hp
      exact ⟨r', hr', hholds.liveAlike⟩

/-- A function that takes a string, reserves a block, and gives back the first
character of the string. -/
def borrowing : Workspace :=
  ((((building.after (BuildM.startFunction 0 [Builtin.stringz.ty 0] (Builtin.uint8.ty 0))).after
    (BuildM.alloca 0 (.int .int 16))).after
    (do BuildM.ret 0 (.value (← BuildM.deref (← BuildM.arg 0 0) none)))).after
    (BuildM.compile 0))

theorem borrowing_does_not_leak :
    ∃ s r f, borrowing.functions[0]? = some s ∧ borrowing.runtimes[s.runtime]? = some r ∧
      r.engine.findFunc s.id = .ok f ∧ r.engine.Calm f ∧
      ((BuildM.call 0 [.str [104, 105]]).run borrowing : Except Stop HostValue × Workspace).1
        matches .ok (.int .uint64 104) ∧
      ∃ r', (borrowing.after (BuildM.call 0 [.str [104, 105]])).runtimes[s.runtime]? = some r' ∧
        r'.engine.host.memory.blocks.size = r.engine.host.memory.blocks.size + 2 ∧
        r.engine.host.memory.LiveAlike r'.engine.host.memory := by
  have hcheck : (((BuildM.call 0 [.str [104, 105]]).run borrowing :
      Except Stop HostValue × Workspace).1 matches .ok (.int .uint64 104)) ∧
      (((BuildM.call 0 [.str [104, 105]]).run borrowing :
        Except Stop HostValue × Workspace).1.toOption.any fun _ => true) = true ∧
      ∃ s ∈ borrowing.functions[(0 : Nat)]?, ∃ r ∈ borrowing.runtimes[s.runtime]?,
      ∃ f ∈ r.engine.func? s.id, f.destroyed = false ∧ f.callsOnly s.id = true ∧
      (f.insns.all fun i => i.op != .callNative) = true ∧
      ∃ r' ∈ (borrowing.after (BuildM.call 0 [.str [104, 105]])).runtimes[s.runtime]?,
        r'.engine.host.memory.blocks.size = r.engine.host.memory.blocks.size + 2 := by
    decide +kernel
  simp only [Option.mem_def] at hcheck
  obtain ⟨hanswer, hok, s, hs, r, hr, f, hf, halive, hself, hnative, r', hr', hsize⟩ := hcheck
  have hfind : r.engine.findFunc s.id = .ok f := EngineM.findFunc_of hf halive
  have hcalm : r.engine.Calm f := by
    intro g hg i hi
    rw [Engine.reaches_self hfind hself hg] at hi
    simpa using Array.all_eq_true_iff_forall_mem.mp hnative i hi
  obtain ⟨a, hok, -⟩ := any_toOption.mp hok
  -- the workspace is too large a term to be looked into from here on
  generalize borrowing = w at hanswer hok hs hr hr' ⊢
  have hends := (Engine.Calm.calls_do_not_leak hfind hcalm).2 w 0 s r hs hr rfl rfl [.str [104, 105]]
  obtain ⟨r₁, hr₁, hlive⟩ := hends.ok_of_run (Workspace.run_after hok)
  obtain rfl := Option.mem_unique hr₁ hr'
  exact ⟨s, r, f, hs, hr, hfind, hcalm, hanswer, r₁, hr₁, hsize, hlive⟩

end TypedIR
