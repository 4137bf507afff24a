import TypedIR.Proofs.FunctionEdits

/-
  Registers that no instruction sets.

  An instruction changes registers of the running frame only, and of those only
  the one it names as its destination (`SameBut`). So the register of a constant
  that is no destination holds the bits of the constant in every frame of the
  function, as long as a call goes on (`Visits.spared`). If all the function does
  at its end is to return that constant, the bits are the only result that a call
  of it can have (`Func.Returns.result`).
-/

namespace TypedIR

/-! ## What an instruction changes -/

/-- Only the registers that `own` allows are changed, and only in the running
frame. -/
def SameBut (own : ValueId → Prop) (m m' : Machine) : Prop :=
  match m.frames, m'.frames with
  | [], [] => True
  | fr :: rest, fr' :: rest' =>
    rest' = rest ∧ fr'.func = fr.func ∧ fr'.dest = fr.dest ∧
      ∀ v, ¬ own v → fr'.regs[v]? = fr.regs[v]?
  | _, _ => False

instance (own : ValueId → Prop) : Std.Refl (SameBut own) where
  refl m := by
    unfold SameBut
    cases m.frames with
    | nil => trivial
    | cons fr rest => exact ⟨rfl, rfl, rfl, fun _ _ => rfl⟩

instance (own : ValueId → Prop) : Trans (SameBut own) (SameBut own) (SameBut own) where
  trans {a b c} h h' := by
    unfold SameBut at h h' ⊢
    cases ha : a.frames <;> cases hb : b.frames <;> cases hc : c.frames <;>
      simp only [ha, hb, hc] at h h' ⊢
    obtain ⟨hrest, hfunc, hdest, hregs⟩ := h
    obtain ⟨hrest', hfunc', hdest', hregs'⟩ := h'
    exact ⟨hrest'.trans hrest, hfunc'.trans hfunc, hdest'.trans hdest,
      fun v hv => (hregs' v hv).trans (hregs v hv)⟩

theorem SameBut.of_frames {own : ValueId → Prop} {m m' : Machine} (h : m'.frames = m.frames) :
    SameBut own m m' := by
  have hrefl := Std.Refl.refl (r := SameBut own) m
  unfold SameBut at hrefl ⊢
  rwa [h]

theorem SameBut.running {own : ValueId → Prop} {m m' : Machine} (h : SameBut own m m')
    {fr' : Frame} (hfr : fr' ∈ m'.frames.head?) : ∃ fr ∈ m.frames.head?, fr'.func = fr.func := by
  unfold SameBut at h
  cases hm : m.frames <;> cases hm' : m'.frames <;> simp only [hm, hm'] at h hfr
  · cases hfr
  · obtain ⟨-, hfunc, -⟩ := h
    cases hfr
    exact ⟨_, rfl, hfunc⟩

namespace StepM

variable {α : Type} {e : Engine} {f : Func} {own : ValueId → Prop}

theorem spares_host (m : Machine) (host : Host) : SameBut own m { m with host } := .of_frames rfl

theorem spares_modifyFrame {g : Frame → Frame} (hf : ∀ fr, (g fr).func = fr.func)
    (hd : ∀ fr, (g fr).dest = fr.dest)
    (hr : ∀ fr v, ¬ own v → (g fr).regs[v]? = fr.regs[v]?) :
    Leaves (SameBut own) (modifyFrame g) := by
  refine .modify' fun m => ?_
  rcases m with ⟨host, steps, _ | ⟨fr, rest⟩⟩
  · trivial
  · exact ⟨rfl, hf fr, hd fr, hr fr⟩

theorem spares_write {v : ValueId} (hv : own v) (bits : Word) :
    Leaves (SameBut own) (write v bits) := by
  refine leaves_write bits (leaves_store spares_host)
    (spares_modifyFrame (fun _ => rfl) (fun _ => rfl) fun fr u hu => ?_)
  rw [Array.getElem?_setIfInBounds_ne]
  rintro rfl
  exact hu hv

theorem spares_jump (i : Insn) : Leaves (SameBut own) (jump f i) :=
  leaves_jump i fun _ => spares_modifyFrame (fun _ => rfl) (fun _ => rfl) fun _ _ _ => rfl

theorem spares_execute {depth : Nat} {i : Insn} (hi : own i.dest) (hcall : i.op ≠ .call) :
    Leaves (SameBut own) (execute e f depth i) :=
  leaves_execute (spares_write hi) (fun _ => leaves_store spares_host)
    (leaves_alloca spares_host (spares_write hi) fun _ =>
      spares_modifyFrame (fun _ => rfl) (fun _ => rfl) fun _ _ _ => rfl)
    (absurd · hcall) fun _ => leaves_callNative spares_host (spares_write hi)

end StepM

/-! ## A value that is never set -/

/-- No instruction and no call of the function sets the value, which holds the
constant in a register. -/
structure Func.Spares (f : Func) (v : ValueId) (bits : Word) : Prop where
  value : ∃ info, f.values[v]? = some info ∧ info.origin = .const ∧ info.bits = bits
  insns : ∀ i ∈ f.insns, i.dest ≠ v
  params : v ∉ f.params

theorem Func.Spares.initialRegs {f : Func} {v : ValueId} {bits : Word} (h : f.Spares v bits) :
    (StepM.initialRegs f)[v]? = some bits := by
  obtain ⟨info, hinfo, horigin, rfl⟩ := h.value
  unfold StepM.initialRegs
  rw [Array.getElem?_map, hinfo]
  simp [horigin]

/-- Every frame of the function holds the bits in the register of the value, and
no call that is under way will set it. -/
inductive Stack.Holds (f : Func) (v : ValueId) (bits : Word) : List Frame → Prop
  | nil : Holds f v bits []
  | cons {fr : Frame} {rest : List Frame} (hreg : fr.func = f → fr.regs[v]? = some bits)
      (hdest : ∀ caller ∈ rest.head?, caller.func = f → fr.dest ≠ v)
      (hrest : Holds f v bits rest) : Holds f v bits (fr :: rest)

namespace Stack.Holds

variable {f : Func} {v : ValueId} {bits : Word} {m m' : Machine}

theorem sameBut (h : Holds f v bits m.frames) {own : ValueId → Prop} (hs : SameBut own m m')
    (hown : ∀ fr ∈ m.frames.head?, fr.func = f → ¬ own v) : Holds f v bits m'.frames := by
  unfold SameBut at hs
  rcases hm : m.frames with _ | ⟨fr, rest⟩ <;> rcases hm' : m'.frames with _ | ⟨fr', rest'⟩ <;>
    rw [hm, hm'] at hs
  · exact .nil
  · exact hs.elim
  · exact hs.elim
  · obtain ⟨rfl, hfunc, hdest, hsame⟩ := hs
    rw [hm] at h hown
    cases h with
    | cons hreg hdests hrest =>
      refine .cons (fun hf => ?_) (hdest ▸ hdests) hrest
      rw [hfunc] at hf
      rw [hsame v (hown fr rfl hf)]
      exact hreg hf

end Stack.Holds

namespace StepM

variable {e : Engine} {f : Func} {v : ValueId} {bits : Word} {m : Machine}

theorem ends_named {α : Type} {name : String} {act : StepM α} {ok : α → Machine → Prop}
    {stop : Prop} (h : Ends act m ok fun _ _ => stop) :
    Ends (inFunction name act) m ok fun _ _ => stop := by
  refine ends_inFunction m (h.imp_stop fun halt _ hs => ?_)
  cases halt with
  | failed err => exact hs
  | crashed => exact hs

theorem holds_enter (hf : f.Spares v bits) (h : Stack.Holds f v bits m.frames) (g : Func)
    (args : List Word) (depth : Nat) (caller : String) (dest : ValueId)
    (hdest : ∀ fr ∈ m.frames.head?, fr.func = f → dest ≠ v) :
    Ends (enter e g args depth caller dest) m (fun _ m' => Stack.Holds f v bits m'.frames)
      fun _ _ => True := by
  have hmake : ∀ base m', m'.frames = m.frames → Ends (do
      modify fun m =>
        { m with frames :=
            { func := g, depth := depth + 1, regs := initialRegs g, base, dest } :: m.frames }
      inFunction caller (setParams g g.params args)) m'
      (fun _ m'' => Stack.Holds f v bits m''.frames) fun _ _ => True := by
    intro base m' hm'
    refine .bind_modify ?_
    have hparams : Leaves (SameBut (· ∈ g.params)) (inFunction caller (setParams g g.params args)) :=
      leaves_inFunction (leaves_setParams args fun _ hp => spares_write hp)
    refine (hparams.ends _).mono (fun _ m'' hs => ?_) fun _ _ _ => trivial
    refine Stack.Holds.sameBut (.cons (fun hg => ?_) (hm' ▸ hdest) (hm' ▸ h)) hs ?_
    · obtain rfl : g = f := hg
      exact hf.initialRegs
    · rintro _ ⟨⟩ hg
      obtain rfl : g = f := hg
      exact hf.params
  have hrequest : ∀ r : Memory.Request Word, Ends (inFunction g.name (request r)) m
      (fun _ m' => m'.frames = m.frames) fun _ _ => True := by
    intro r
    unfold Ends
    rw [run_inFunction, run_request]
    rcases (r.run m.host.memory : Except (Halt Fault) Word × Memory) with ⟨(_ | _) | _, mem⟩
    · trivial
    · trivial
    · rfl
  refine .ite' (fun _ => .stopped (ends_inFunction m (.throw' trivial))) fun _ => ?_
  refine .ite' (fun _ => .stopped (ends_inFunction m (.throw' trivial))) fun _ => ?_
  exact .ite' (fun _ => .bind' (hrequest _) hmake) fun _ => hmake 0 m rfl

theorem holds_leave (h : Stack.Holds f v bits m.frames) (res : Word) :
    Ends (leave res) m (fun _ m' => Stack.Holds f v bits m'.frames) fun _ _ => True := by
  rcases hm : m.frames with _ | ⟨fr, rest⟩
  · exact (ends_noFrame hm).mono (fun _ _ h => h.elim) fun _ _ _ => trivial
  · refine .bind' (ends_frame hm) ?_
    rintro _ _ ⟨rfl, rfl⟩
    refine .bind' ((ends_releaseFrame fr).imp_stop fun _ _ _ => trivial) ?_
    rintro _ _ ⟨mem, -, rfl⟩
    refine .bind_modify (.bind_get ?_)
    dsimp only [Machine.withMemory_frames]
    rw [hm] at h ⊢
    cases h with
    | cons hreg hdest hrest =>
      rcases rest with _ | ⟨caller, rest⟩
      · exact .pure' .nil
      · refine .ite' (fun _ => ?_) fun _ => .pure' hrest
        have hwrite : Leaves (SameBut (· = fr.dest))
            (inFunction caller.func.name (write fr.dest res)) := by
          refine leaves_inFunction (spares_write ?_ res)
          rfl
        refine .bind' ((hwrite.ends _).mono (fun _ m' hs => ?_) fun _ _ _ => trivial)
          fun _ _ h => .pure' h
        refine Stack.Holds.sameBut hrest hs ?_
        rintro _ ⟨⟩ hf heq
        exact hdest caller rfl hf heq.symm

theorem holds_execute (hf : f.Spares v bits) (h : Stack.Holds f v bits m.frames) (g : Func)
    (depth : Nat) {i : Insn} (hi : ∀ fr ∈ m.frames.head?, fr.func = f → i.dest ≠ v) :
    Ends (execute e g depth i) m (fun _ m' => Stack.Holds f v bits m'.frames)
      fun _ _ => True := by
  by_cases hcall : i.op = .call
  · unfold execute
    rw [hcall]
    dsimp only
    cases e.findFunc i.callee with
    | error err => exact .throw' trivial
    | ok callee =>
      have hread : Leaves (SameBut fun _ => False) (readAll i.args) :=
        (still_readAll i.args).still
      refine .bind' ((hread.ends m).imp_stop fun _ _ _ => trivial) ?_
      intro args m' hs
      refine holds_enter hf (h.sameBut hs fun _ _ _ => not_false) callee args depth g.name i.dest ?_
      intro fr' hfr' hfunc
      obtain ⟨fr, hfr, hsame⟩ := hs.running hfr'
      exact hi fr hfr (hsame ▸ hfunc)
  · have hset : Leaves (SameBut (· = i.dest)) (execute e g depth i) := by
      refine spares_execute ?_ hcall
      rfl
    refine (hset.ends m).mono (fun _ _ hs => ?_) fun _ _ _ => trivial
    exact h.sameBut hs fun fr hfr hfunc heq => hi fr hfr hfunc heq.symm

theorem holds_dispatch (hf : f.Spares v bits) (h : Stack.Holds f v bits m.frames) (g : Func)
    (depth : Nat) {i : Insn} (hi : ∀ fr ∈ m.frames.head?, fr.func = f → i.dest ≠ v) :
    Ends (dispatch e g depth i) m (fun _ m' => Stack.Holds f v bits m'.frames)
      fun _ _ => True := by
  have hkeeps : ∀ {α : Type} {act : StepM α}, Leaves (SameBut fun _ => False) act →
      Ends act m (fun _ m' => Stack.Holds f v bits m'.frames) fun _ _ => True :=
    fun hact => (hact.ends m).mono (fun _ _ hs => h.sameBut hs fun _ _ _ => not_false)
      fun _ _ _ => trivial
  have hexecute : Ends (do
      execute e g depth i
      pure none : StepM (Option Word)) m (fun _ m' => Stack.Holds f v bits m'.frames)
      fun _ _ => True :=
    .bind' (holds_execute hf h g depth hi) fun _ _ h => .pure' h
  unfold dispatch
  cases hop : i.op
  case nop | label => exact .pure' h
  case branch => exact .bind' (hkeeps (spares_jump i)) fun _ _ h => .pure' h
  case branchIf | branchIfNot =>
    refine hkeeps (.bind' (still_read _).still fun c => ?_)
    exact .ite' (.bind' (spares_jump i) fun _ => .pure' _) (.pure' _)
  case ret =>
    refine .ite' (fun _ => holds_leave h 0) fun _ => ?_
    exact .bind' (hkeeps (still_read i.a).still) fun res _ h => holds_leave h res
  all_goals exact hexecute

theorem holds_step (hf : f.Spares v bits) (h : Stack.Holds f v bits m.frames) :
    Ends (step e) m (fun _ m' => Stack.Holds f v bits m'.frames) fun _ _ => True := by
  rcases hm : m.frames with _ | ⟨fr, rest⟩
  · exact (ends_noFrame hm).mono (fun _ _ h => h.elim) fun _ _ _ => trivial
  · refine .bind' (ends_frame hm) ?_
    rintro _ _ ⟨rfl, rfl⟩
    dsimp only
    cases hi : fr.func.insns[fr.pc]? with
    | none => exact holds_leave h 0
    | some i =>
      refine .bind_modify (ends_named (.bind_get (.ite' (fun _ => .throw' trivial) fun _ => ?_)))
      refine .bind' (ends_modifyFrame (m := { m with steps := m.steps + 1 }) hm) ?_
      rintro _ _ rfl
      rw [hm] at h
      cases h with
      | cons hreg hdest hrest =>
        have hmoved : Stack.Holds f v bits ({ fr with pc := fr.pc + 1 } :: rest) :=
          .cons hreg hdest hrest
        refine holds_dispatch hf hmoved fr.func fr.depth ?_
        rintro _ ⟨⟩ hfunc
        exact hf.insns i (hfunc ▸ Array.mem_of_getElem? hi)

end StepM

namespace Machine

open StepM

variable {e : Engine} {f : Func} {v : ValueId} {bits : Word} {args : List Word} {m : Machine}

theorem Visits.spared (h : Visits e f args m) {g : Func} (hg : g.Spares v bits) :
    Stack.Holds g v bits m.frames := by
  induction h with
  | entered henter =>
    have hends := holds_enter (e := e) (m := { host := e.host }) hg .nil f args 0 "" 0
      fun fr hfr => absurd hfr (Option.not_mem_none fr)
    unfold Ends at hends
    rwa [henter] at hends
  | stepped _ hs ih =>
    have hends := holds_step (e := e) hg ih
    unfold Ends at hends
    rwa [hs] at hends

end Machine

/-! ## Functions that return a constant -/

/-- All that the function does at its end is to return the constant. -/
structure Func.Returns (f : Func) (v : ValueId) (bits : Word) : Prop where
  spares : f.Spares v bits
  slot : ∀ info, f.values[v]? = some info → info.slot = none
  named : v ≠ 0
  ends : ∀ i ∈ f.insns, i.op = .ret → i.a = v
  closed : f.Closed

namespace StepM

variable {e : Engine} {f : Func} {v : ValueId} {bits : Word} {m : Machine}

/-- The return of the outermost frame gives the constant, unless the run has
taken as many steps as it may. -/
theorem ends_return (hf : f.Returns v bits) {fr : Frame} (hm : m.frames = [fr]) (hfr : fr.func = f)
    (hreg : fr.regs[v]? = some bits) {i : Insn} (hi : f.insns[fr.pc]? = some i)
    (hop : i.op = .ret) :
    Ends (step e) m (fun answer _ => answer = some bits)
      fun _ _ => 0 < e.maxSteps ∧ e.maxSteps < m.steps + 1 := by
  subst hfr
  obtain ⟨info, hinfo, -⟩ := hf.spares.value
  have hread : ∀ {m' : Machine} {fr' : Frame}, m'.frames = [fr'] → fr'.func = fr.func →
      fr'.regs = fr.regs → Ends (read v) m' (fun a m'' => bits = a ∧ m' = m'')
        fun _ _ => 0 < e.maxSteps ∧ e.maxSteps < m.steps + 1 := by
    intro m' fr' hm' hfunc hregs
    refine .bind' (ends_frame hm') ?_
    rintro _ _ ⟨rfl, rfl⟩
    rw [hfunc, hinfo]
    dsimp only
    rw [ValueInfo.place?_of_none (hf.slot info hinfo)]
    dsimp only
    rw [hregs, hreg]
    exact .pure' ⟨rfl, rfl⟩
  have hleave : ∀ {m' : Machine} {fr' : Frame}, m'.frames = [fr'] →
      Ends (leave bits) m' (fun answer _ => answer = some bits)
        fun _ _ => 0 < e.maxSteps ∧ e.maxSteps < m.steps + 1 := by
    intro m' fr' hm'
    refine .bind' (ends_frame hm') ?_
    rintro _ _ ⟨rfl, rfl⟩
    refine .bind' (ends_releaseFrame fr').total ?_
    rintro _ _ ⟨mem, -, rfl⟩
    refine .bind_modify (.bind_get ?_)
    dsimp only [Machine.withMemory_frames]
    rw [hm']
    exact .pure' rfl
  refine .bind' (ends_frame hm) ?_
  rintro _ _ ⟨rfl, rfl⟩
  dsimp only
  rw [hi]
  refine .bind_modify (ends_named (.bind_get (.ite' (fun h => .throw' ?_) fun _ => ?_)))
  · exact ⟨h.1, by exact_mod_cast h.2⟩
  · refine .bind' (ends_modifyFrame (m := { m with steps := m.steps + 1 }) hm) ?_
    rintro _ _ rfl
    unfold dispatch
    rw [hop]
    dsimp only
    rw [hf.ends i (Array.mem_of_getElem? hi) hop, if_neg hf.named]
    refine .bind' (hread rfl rfl rfl) ?_
    rintro _ _ ⟨rfl, rfl⟩
    exact hleave rfl

end StepM

namespace Func.Returns

open Machine

variable {e : Engine} {f : Func} {v : ValueId} {bits res : Word} {args : List Word} {m : Machine}

theorem result (hf : f.Returns v bits) {fuel : Nat}
    (hcall : Machine.call e fuel e.host f args = (.result res, m)) : res = bits := by
  obtain ⟨last, hvisits, hstep⟩ := Visits.last_of_call hcall
  obtain ⟨hnone, -⟩ := frames_of_result hstep
  have hlands := StepM.lands_step e last
  unfold StepM.Lands Ends at hlands
  rw [hstep] at hlands
  obtain ⟨g, pc, below, hspots, hadvance, -⟩ := hlands
  have hgone : m.spots = [] := by simp [spots, hnone]
  -- the step that leaves no frame ends the only one
  obtain rfl : below = [] := by
    rw [hgone] at hadvance
    cases hadvance with
    | ret => rfl
    | fall => rfl
  obtain ⟨fr, hfr, hat⟩ : ∃ fr, last.frames = [fr] ∧ (fr.func, fr.pc) = (g, pc) := by
    obtain ⟨fr, rest, hfr, hat, hrest⟩ := List.map_eq_cons_iff.mp hspots
    rw [List.map_eq_nil_iff.mp hrest] at hfr
    exact ⟨fr, hfr, hat⟩
  obtain rfl : g = f := hvisits.outermost (g, pc) (by rw [hspots]; rfl)
  obtain ⟨rfl, rfl⟩ := Prod.mk.inj hat
  obtain ⟨i, hi, hop⟩ := hvisits.ends_at_return hfr hf.closed hstep (by simp [hfr, hnone])
  have hheld := hvisits.spared hf.spares
  rw [hfr] at hheld
  cases hheld with
  | cons hreg =>
    exact Option.some.inj ((StepM.ends_return hf hfr rfl (hreg rfl) hi hop).ok_of_run hstep)

theorem calls (hf : f.Returns v bits) (hc : f.compiled = true) (hdepth : 0 < e.maxDepth)
    (hsize : f.frameSize ≤ 0) (hparams : f.params = []) {i : Insn} (hi : f.insns[0]? = some i)
    (hop : i.op = .ret) (fuel : Nat) (host : Host) :
    ∃ m, Machine.call e (fuel + 1) host f [] = (.result bits, m) := by
  have henter : Ends (StepM.enter e f [] 0 "" 0) { host } (fun _ m =>
      m.frames = [{ func := f, depth := 1, regs := StepM.initialRegs f }] ∧ m.steps = 0)
      fun _ _ => False := by
    refine .ite' (fun h => ?_) fun _ => .ite' (fun h => ?_) fun _ => .ite' (fun h => ?_) fun _ => ?_
    · rw [hc] at h
      cases h
    · omega
    · omega
    · refine .bind_pure (.bind_modify ?_)
      rw [hparams]
      refine StepM.ends_named ?_
      exact .pure' ⟨rfl, rfl⟩
  unfold Ends at henter
  unfold Machine.call
  rcases hrun : ((StepM.enter e f [] 0 "" 0).run { host } : Except (Halt Failure) Unit × Machine) with
    ⟨halt | _, m⟩ <;> rw [hrun] at henter
  · exact henter.elim
  · obtain ⟨hframes, hsteps⟩ := henter
    have hreg : (StepM.initialRegs f)[v]? = some bits := hf.spares.initialRegs
    have hends := StepM.ends_return (e := e) hf hframes rfl hreg hi hop
    unfold Ends at hends
    dsimp only
    unfold Machine.run
    rcases hstep : ((StepM.step e).run m : Except (Halt Failure) (Option Word) × Machine) with
      ⟨halt | answer, m'⟩ <;> rw [hstep] at hends
    · omega
    · rw [hends]
      exact ⟨m', rfl⟩

end Func.Returns

end TypedIR
