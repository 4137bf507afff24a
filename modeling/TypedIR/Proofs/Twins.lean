import TypedIR.Proofs.AlikeEngines
import TypedIR.Proofs.FrameCells

/-
  Machines that differ in where scalars live.

  Two machines are twins if their frames run alike functions at the same place
  with the same cells. `Both` follows the same operation on two machines: it ends
  the same way on both, unless one of them has no room for a frame. One step of
  twins leaves twins (`StepM.both_step`).
-/

namespace TypedIR

/-- Two runs of the same operation that stop with the same after the same number
of steps, or give the same answer and leave machines that `R` relates, unless
there was no room on one of the machines. -/
inductive SameEnd {α : Type} (R : α → Machine → Machine → Prop) :
    Except (Halt Failure) α × Machine → Except (Halt Failure) α × Machine → Prop
  | ok {a m m'} (h : R a m m') : SameEnd R (.ok a, m) (.ok a, m')
  | stop {h m m'} (hs : m'.steps = m.steps) : SameEnd R (.error h, m) (.error h, m')
  | left {h m r'} (hn : h.isNoRoom = true) : SameEnd R (.error h, m) r'
  | right {h m r} (hn : h.isNoRoom = true) : SameEnd R r (.error h, m)

def Both {α : Type} (R : α → Machine → Machine → Prop) (act act' : StepM α) (m m' : Machine) :
    Prop :=
  SameEnd R (act.run m : Except (Halt Failure) α × Machine)
    (act'.run m' : Except (Halt Failure) α × Machine)

namespace Both

variable {α β : Type} {R S : α → Machine → Machine → Prop} {act act' : StepM α} {m m' : Machine}

theorem pure' {a : α} (h : R a m m') : Both R (pure a) (pure a) m m' := .ok h

theorem throw' {h : Halt Failure} (hs : m'.steps = m.steps) :
    Both R (throw h) (throw h) m m' := .stop hs

theorem bind_throw {h : Halt Failure} {S : β → Machine → Machine → Prop} {k k' : α → StepM β}
    (hs : m'.steps = m.steps) : Both S (throw h >>= k) (throw h >>= k') m m' := .stop hs

theorem of_runs {a : α} {m₁ m₁' : Machine}
    (hr : (act.run m : Except (Halt Failure) α × Machine) = (.ok a, m₁))
    (hr' : (act'.run m' : Except (Halt Failure) α × Machine) = (.ok a, m₁')) (h : R a m₁ m₁') :
    Both R act act' m m' := by
  unfold Both
  rw [hr, hr']
  exact .ok h

theorem mono (h : Both R act act' m m') (hRS : ∀ a m₁ m₁', R a m₁ m₁' → S a m₁ m₁') :
    Both S act act' m m' := by
  unfold Both at h ⊢
  generalize (act.run m : Except (Halt Failure) α × Machine) = r,
    (act'.run m' : Except (Halt Failure) α × Machine) = r' at h ⊢
  cases h with
  | ok h => exact .ok (hRS _ _ _ h)
  | stop hs => exact .stop hs
  | left hn => exact .left hn
  | right hn => exact .right hn

theorem bind' {S : β → Machine → Machine → Prop} {k k' : α → StepM β} (h : Both R act act' m m')
    (hk : ∀ a m₁ m₁', R a m₁ m₁' → Both S (k a) (k' a) m₁ m₁') :
    Both S (act >>= k) (act' >>= k') m m' := by
  unfold Both at h
  unfold Both
  rw [run_bind, run_bind]
  generalize (act.run m : Except (Halt Failure) α × Machine) = r,
    (act'.run m' : Except (Halt Failure) α × Machine) = r' at h
  cases h with
  | ok h => exact hk _ _ _ h
  | stop hs => exact .stop hs
  | left hn => exact .left hn
  | right hn => exact .right hn

theorem bind_get {k k' : Machine → StepM α} (h : Both R (k m) (k' m') m m') :
    Both R (get >>= k) (get >>= k') m m' := h

theorem bind_modify {g g' : Machine → Machine} {k k' : PUnit → StepM α}
    (h : Both R (k ⟨⟩) (k' ⟨⟩) (g m) (g' m')) : Both R (modify g >>= k) (modify g' >>= k') m m' := h

theorem bind_runs {β : Type} {S : α → Machine → Machine → Prop} {act act' : StepM β}
    {k k' : β → StepM α} {b b' : β} {m₁ m₁' : Machine}
    (hr : (act.run m : Except (Halt Failure) β × Machine) = (.ok b, m₁))
    (hr' : (act'.run m' : Except (Halt Failure) β × Machine) = (.ok b', m₁'))
    (h : Both S (k b) (k' b') m₁ m₁') : Both S (act >>= k) (act' >>= k') m m' := by
  unfold Both at h ⊢
  rw [run_bind, run_bind, hr, hr']
  exact h

theorem bind_left {β : Type} {act : StepM β} {k : β → StepM α} {h : Halt Failure} {m₁ : Machine}
    (hr : (act.run m : Except (Halt Failure) β × Machine) = (.error h, m₁)) (hn : h.isNoRoom = true) :
    Both R (act >>= k) act' m m' := by
  unfold Both
  rw [run_bind, hr]
  exact .left hn

theorem bind_right {β : Type} {act' : StepM β} {k : β → StepM α} {h : Halt Failure}
    {m₁ : Machine} (hr : (act'.run m' : Except (Halt Failure) β × Machine) = (.error h, m₁))
    (hn : h.isNoRoom = true) : Both R act (act' >>= k) m m' := by
  unfold Both
  rw [run_bind, hr]
  exact .right hn

theorem ite' {c : Prop} [Decidable c] {other other' : StepM α}
    (hpos : c → Both R act act' m m') (hneg : ¬ c → Both R other other' m m') :
    Both R (if c then act else other) (if c then act' else other') m m' := by
  by_cases h : c
  · rw [if_pos h, if_pos h]
    exact hpos h
  · rw [if_neg h, if_neg h]
    exact hneg h

theorem inFunction {name : String} (h : Both R act act' m m') :
    Both R (StepM.inFunction name act) (StepM.inFunction name act') m m' := by
  unfold Both at h ⊢
  rw [StepM.run_inFunction, StepM.run_inFunction]
  generalize (act.run m : Except (Halt Failure) α × Machine) = r,
    (act'.run m' : Except (Halt Failure) α × Machine) = r' at h
  cases h with
  | ok h => exact .ok h
  | @stop h _ _ hs => cases h <;> exact .stop hs
  | @left h _ _ hn =>
    cases h with
    | failed err => exact .left (Failure.isNoRoom_within name hn)
    | crashed => cases hn
  | @right h _ _ hn =>
    cases h with
    | failed err => exact .right (Failure.isNoRoom_within name hn)
    | crashed => cases hn

end Both

/-! ## Twins -/

/-- Frames of alike functions at the same place with the same cells. -/
structure Frame.Alike (mem mem' : Memory) (fr fr' : Frame) : Prop where
  func : fr.func.Alike fr'.func
  depth : fr'.depth = fr.depth
  pc : fr'.pc = fr.pc
  dest : fr'.dest = fr.dest
  cells : ∀ {v info}, fr.func.value? v = some info → info.rep.isScalar = true →
    fr'.cell mem' v = fr.cell mem v

def Opcode.isLocal : Opcode → Bool
  | .addressOf | .loadRel | .storeRel | .loadElem | .storeElem | .alloca | .callNative => false
  | _ => true

/-- Two runs of alike functions of alike engines. -/
structure TwinRuns (e e' : Engine) (root root' : Func) : Prop where
  left : e.Keeps root
  right : e'.Keeps root'
  engines : e.Alike e'
  stays : ∀ g, e.Reaches root g → ∀ i ∈ g.insns, i.op.isLocal = true

/-- Machines with alike frames, the running ones apart. -/
structure Twins (e e' : Engine) (root root' : Func) (fr fr' : Frame) (rest rest' : List Frame)
    (m m' : Machine) : Prop where
  left : m.Housed e root fr rest
  right : m'.Housed e' root' fr' rest'
  steps : m'.steps = m.steps
  top : fr.Alike m.host.memory m'.host.memory fr'
  waiting : List.Forall₂ (Frame.Alike m.host.memory m'.host.memory) rest rest'

def AreTwins (e e' : Engine) (root root' : Func) (m m' : Machine) : Prop :=
  ∃ fr fr' rest rest', Twins e e' root root' fr fr' rest rest' m m'

namespace StepM

variable {e e' : Engine} {root root' : Func} {fr fr' : Frame} {rest rest' : List Frame}
  {m m' : Machine}

theorem both_read (hk : TwinRuns e e' root root') (h : Twins e e' root root' fr fr' rest rest' m m')
    {v : ValueId} {r : Rep} (hv : fr.func.rep? v = some r) (hs : r.isScalar = true) :
    Both (fun w m₁ m₁' => m = m₁ ∧ m' = m₁' ∧ r.Canonical w) (read v) (read v) m m' := by
  have hv' : fr'.func.rep? v = some r := (h.top.func.rep? v).trans hv
  obtain ⟨info, hinfo, rfl⟩ := Func.value?_of_rep? hv
  obtain ⟨info', hinfo', hrep⟩ := Func.value?_of_rep? hv'
  have hns := Rep.ne_struct hs
  have hread := run_read_value hk.left h.left hinfo hns
  have hread' := run_read_value hk.right h.right hinfo' (hrep ▸ hns)
  obtain ⟨-, hcanonical⟩ := (ends_read hk.left.toRuns h.left.running hv).ok_of_run hread
  rw [h.top.cells hinfo hs] at hread'
  exact .of_runs hread hread' ⟨rfl, rfl, hcanonical⟩

end StepM

namespace Machine.Sets

variable {e : Engine} {root : Func} {fr fr₁ : Frame} {rest : List Frame} {v : ValueId}
  {m m₁ : Machine}

theorem func_eq (h : Sets fr rest v m fr₁ m₁) : fr₁.func = fr.func := by
  obtain ⟨regs, rfl⟩ := h.frame
  rfl

theorem machine_housed (h : Sets fr rest v m fr₁ m₁) (hs : m₁.Sound e root) :
    m₁.Housed e root fr₁ rest := by
  have hframes : m₁.frames = fr₁ :: rest := by
    rw [h.machine]
  refine ⟨hs, hframes, ?_⟩
  rw [hframes]
  exact h.housed

theorem steps_eq (h : Sets fr rest v m fr₁ m₁) : m₁.steps = m.steps := by
  rw [h.machine]
  rfl

end Machine.Sets

theorem Frame.Alike.keep_cells {mem mem' mem₁ mem₁' : Memory} {frames frames' : List Frame}
    (h : List.Forall₂ (Frame.Alike mem mem') frames frames')
    (hc : ∀ g ∈ frames, ∀ u, g.cell mem₁ u = g.cell mem u)
    (hc' : ∀ g ∈ frames', ∀ u, g.cell mem₁' u = g.cell mem' u) :
    List.Forall₂ (Frame.Alike mem₁ mem₁') frames frames' := by
  refine List.forall₂_iff_get.mpr ⟨h.length_eq, fun i hi hi' => ?_⟩
  have hw := (List.forall₂_iff_get.mp h).2 i hi hi'
  refine ⟨hw.func, hw.depth, hw.pc, hw.dest, fun hu hscalar => ?_⟩
  rw [hc _ (List.get_mem _ _), hc' _ (List.get_mem _ _)]
  exact hw.cells hu hscalar

/-- A value is set on both machines; its cells are the same if it is a scalar. -/
theorem Twins.sets {e e' : Engine} {root root' : Func} {fr fr' fr₁ fr₁' : Frame}
    {rest rest' : List Frame} {m m' m₁ m₁' : Machine} {v : ValueId}
    (h : Twins e e' root root' fr fr' rest rest' m m')
    (hs : Machine.Sets fr rest v m fr₁ m₁) (hs' : Machine.Sets fr' rest' v m' fr₁' m₁')
    (hsound : m₁.Sound e root) (hsound' : m₁'.Sound e' root')
    (hv : ∀ info, fr.func.value? v = some info → info.rep.isScalar = true →
      fr₁'.cell m₁'.host.memory v = fr₁.cell m₁.host.memory v) :
    Twins e e' root root' fr₁ fr₁' rest rest' m₁ m₁' := by
  refine ⟨hs.machine_housed hsound, hs'.machine_housed hsound', ?_, ?_, ?_⟩
  · rw [hs.steps_eq, hs'.steps_eq, h.steps]
  · obtain ⟨regs, hfr₁⟩ := hs.frame
    obtain ⟨regs', hfr₁'⟩ := hs'.frame
    have htop := h.top
    refine ⟨by rw [hs.func_eq, hs'.func_eq]; exact htop.func, ?_, ?_, ?_, ?_⟩
    · rw [hfr₁, hfr₁']
      exact htop.depth
    · rw [hfr₁, hfr₁']
      exact htop.pc
    · rw [hfr₁, hfr₁']
      exact htop.dest
    · intro u info hu hscalar
      rw [hs.func_eq] at hu
      by_cases huv : u = v
      · subst huv
        exact hv info hu hscalar
      · have hu' : (fr'.func.value? u).isSome = true := by
          have hrel := htop.func.value? u
          rw [hu] at hrel
          generalize fr'.func.value? u = y at hrel
          cases hrel
          rfl
        rw [hs.others u huv (by rw [hu]; rfl), hs'.others u huv hu']
        exact htop.cells hu hscalar
  · exact Frame.Alike.keep_cells h.waiting hs.waiting hs'.waiting

namespace StepM

variable {e e' : Engine} {root root' : Func} {fr fr' : Frame} {rest rest' : List Frame}
  {m m' : Machine}

/-- Twins that set the same value stay twins if the words are the same, unless
it is no scalar. -/
theorem both_write (hk : TwinRuns e e' root root')
    (h : Twins e e' root root' fr fr' rest rest' m m') {v : ValueId} {r : Rep}
    (hv : fr.func.rep? v = some r) (hns : r.cls ≠ .struct) {w w' : Word}
    (hw : r.isScalar = true → w' = w) (hc : r.Canonical w) (hc' : r.Canonical w') :
    Both (fun _ m₁ m₁' => ∃ fr₁ fr₁', Twins e e' root root' fr₁ fr₁' rest rest' m₁ m₁' ∧
      fr₁.func = fr.func ∧ fr₁'.func = fr'.func) (write v w) (write v w') m m' := by
  have hv' : fr'.func.rep? v = some r := (h.top.func.rep? v).trans hv
  obtain ⟨info, hinfo, rfl⟩ := Func.value?_of_rep? hv
  obtain ⟨info', hinfo', hrep⟩ := Func.value?_of_rep? hv'
  obtain ⟨fr₁, m₁, hrun, hsets, hcell⟩ := run_write_value hk.left h.left hinfo hns hc
  obtain ⟨fr₁', m₁', hrun', hsets', hcell'⟩ :=
    run_write_value hk.right h.right hinfo' (hrep ▸ hns) (hrep ▸ hc')
  have hends := ends_write hk.left.toRuns h.left.running hv hc
  have hends' := ends_write hk.right.toRuns h.right.running hv' hc'
  unfold Ends at hends hends'
  rw [hrun] at hends
  rw [hrun'] at hends'
  refine .of_runs hrun hrun' ⟨fr₁, fr₁', ?_, hsets.func_eq, hsets'.func_eq⟩
  refine h.sets hsets hsets' hends.toSound hends'.toSound fun i hi hscalar => ?_
  obtain rfl := Option.mem_unique hinfo hi
  rw [hcell hscalar, hcell' (hrep ▸ hscalar), hw hscalar]

theorem both_copy_struct (hk : TwinRuns e e' root root')
    (h : Twins e e' root root' fr fr' rest rest' m m') {d v : ValueId} {r : Rep}
    (hd : fr.func.rep? d = some r) (hv : fr.func.rep? v = some r) (hs : r.cls = .struct) :
    Both (fun _ m₁ m₁' => ∃ fr₁ fr₁', Twins e e' root root' fr₁ fr₁' rest rest' m₁ m₁' ∧
      fr₁.func = fr.func ∧ fr₁'.func = fr'.func)
      (do write d (← read v)) (do write d (← read v)) m m' := by
  have hd' : fr'.func.rep? d = some r := (h.top.func.rep? d).trans hd
  have hv' : fr'.func.rep? v = some r := (h.top.func.rep? v).trans hv
  obtain ⟨m₁, hrun, hsets⟩ := run_copy_struct hk.left h.left hd hv hs
  obtain ⟨m₁', hrun', hsets'⟩ := run_copy_struct hk.right h.right hd' hv' hs
  have hends := Ends.bind' (ends_read hk.left.toRuns h.left.running hv)
    fun w _ hw => hw.1 ▸ ends_write hk.left.toRuns h.left.running hd hw.2
  have hends' := Ends.bind' (ends_read hk.right.toRuns h.right.running hv')
    fun w _ hw => hw.1 ▸ ends_write hk.right.toRuns h.right.running hd' hw.2
  unfold Ends at hends hends'
  rw [hrun] at hends
  rw [hrun'] at hends'
  refine .of_runs hrun hrun' ⟨fr, fr', ?_, rfl, rfl⟩
  refine h.sets hsets hsets' hends.toSound hends'.toSound fun info hinfo hscalar => ?_
  obtain rfl := Option.mem_unique (Func.rep?_of_value? hinfo) hd
  simp [Rep.isScalar, hs] at hscalar

theorem both_readAll (hk : TwinRuns e e' root root')
    (h : Twins e e' root root' fr fr' rest rest' m m') {vs : List ValueId}
    (hvs : ∀ v ∈ vs, ∃ r, fr.func.rep? v = some r ∧ r.isScalar = true) :
    Both (fun ws m₁ m₁' => m = m₁ ∧ m' = m₁' ∧ ws.length = vs.length) (readAll vs) (readAll vs)
      m m' := by
  induction vs with
  | nil => exact .pure' ⟨rfl, rfl, rfl⟩
  | cons v vs ih =>
    obtain ⟨r, hr, hs⟩ := hvs v List.mem_cons_self
    refine .bind' (both_read hk h hr hs) ?_
    intro w _ _ hw
    obtain ⟨rfl, rfl, -⟩ := hw
    refine .bind' (ih fun u hu => hvs u (List.mem_cons_of_mem v hu)) ?_
    intro ws _ _ hws
    obtain ⟨rfl, rfl, hlen⟩ := hws
    exact .pure' ⟨rfl, rfl, congrArg (· + 1) hlen⟩

/-! ## Calls and returns -/

theorem both_setParams (hk : TwinRuns e e' root root')
    (h : Twins e e' root root' fr fr' rest rest' m m') {params : List ValueId}
    (hp : ∀ p ∈ params, ∃ r, fr.func.rep? p = some r ∧ r.isScalar = true) {args : List Word}
    (hlen : args.length = params.length) :
    Both (fun _ m₁ m₁' => ∃ fr₁ fr₁', Twins e e' root root' fr₁ fr₁' rest rest' m₁ m₁')
      (setParams fr.func params args) (setParams fr'.func params args) m m' := by
  induction params generalizing args m m' fr fr' with
  | nil => exact .pure' ⟨fr, fr', h⟩
  | cons p params ih =>
    rcases args with _ | ⟨a, args⟩
    · cases hlen
    · obtain ⟨r, hr, hs⟩ := hp p List.mem_cons_self
      have hr' : fr'.func.rep? p = some r := (h.top.func.rep? p).trans hr
      obtain ⟨info, hinfo, rfl⟩ := Func.value?_of_rep? hr
      obtain ⟨info', hinfo', hrep⟩ := Func.value?_of_rep? hr'
      have hns := Rep.ne_struct hs
      unfold setParams
      rw [(Func.value?_lt hinfo).2.1, (Func.value?_lt hinfo').2.1]
      dsimp only
      rw [hrep]
      have hc := info.rep.canonical_normalize a
      refine .bind' (both_write hk h hr hns (fun _ => rfl) hc hc) ?_
      intro _ m₁ m₁' h₁
      obtain ⟨fr₁, fr₁', htwins, hf, hf'⟩ := h₁
      rw [← hf, ← hf']
      refine ih htwins (fun q hq => ?_) (Nat.succ.inj hlen)
      rw [hf]
      exact hp q (List.mem_cons_of_mem p hq)


end StepM

namespace StepM

variable {e e' : Engine} {root root' : Func} {m m' : Machine}

/-- What a call that starts leaves: the new frame has its block, and the others
keep their cells. -/
structure Entered (e : Engine) (root : Func) (fr : Frame) (m m₁ : Machine) : Prop where
  housed : Machine.Housed e root fr m.frames { m₁ with frames := fr :: m₁.frames }
  cells : ∀ {v info}, fr.func.value? v = some info → info.rep.isScalar = true →
    fr.cell m₁.host.memory v = if info.origin = .const then info.bits else 0
  waiting : ∀ g ∈ m.frames, ∀ u, g.cell m₁.host.memory u = g.cell m.host.memory u
  steps : m₁.steps = m.steps

theorem run_reserve_entered (hk : e.Keeps root) (hw : m.Waiting e root) {gn : FuncId} {g : Func}
    (hg : e.findFunc gn = .ok g) (hc : g.compiled = true) (hreach : e.Reaches root g)
    {dest : ValueId}
    (hstack : ∀ fr : Frame, fr.Sound e root → fr.func = g → fr.dest = dest →
      Stack.Sound e root (fr :: m.frames)) (depth : Nat) :
    (∃ h m₁, ((reserve g).run m : Except (Halt Failure) Word × Machine) = (.error h, m₁) ∧
      h.isNoRoom = true) ∨
    ∃ base m₁, ((reserve g).run m : Except (Halt Failure) Word × Machine) = (.ok base, m₁) ∧
      Entered e root (entryFrame g depth base dest) m m₁ := by
  obtain hno | ⟨base, mem, hrun, hbits, hblock, hhoused, hcells⟩ := run_reserve hk hw g
  · exact .inl hno
  · have hfn := (EngineM.findFunc_ok hg).1
    have hsound := sound_entered hk.toRuns hfn hc hreach (fun h => (hblock h).2) depth dest
    refine .inr ⟨base, _, hrun, ⟨⟨⟨hbits.trans hw.memory, ?_⟩, rfl, ?_⟩, ?_, hcells, rfl⟩⟩
    · exact hstack _ hsound rfl rfl
    · exact hhoused _ rfl rfl rfl
    · exact fun hv hs => cell_fresh (hk.typed.func hfn) (hk.typed.ready hfn hc) rfl rfl
        (hk.fits g hreach hc) (fun h => (hblock h).1) hv hs

theorem Entered.twins {g g' : Func} {depth : Nat} {dest : ValueId} {base base' : Word}
    {m₁ m₁' : Machine} (h : Entered e root (entryFrame g depth base dest) m m₁)
    (h' : Entered e' root' (entryFrame g' depth base' dest) m' m₁') (halike : g.Alike g')
    (hsteps : m'.steps = m.steps)
    (hframes : List.Forall₂ (Frame.Alike m.host.memory m'.host.memory) m.frames m'.frames) :
    Twins e e' root root' (entryFrame g depth base dest) (entryFrame g' depth base' dest)
      m.frames m'.frames { m₁ with frames := entryFrame g depth base dest :: m₁.frames }
      { m₁' with frames := entryFrame g' depth base' dest :: m₁'.frames } := by
  refine ⟨h.housed, h'.housed, ?_, ⟨halike, rfl, rfl, rfl, fun {v info} hv hs => ?_⟩, ?_⟩
  · exact h'.steps.trans (hsteps.trans h.steps.symm)
  · have hrel := halike.value? v
    have hv' : g.value? v = some info := hv
    rw [hv'] at hrel
    rcases hinfo' : g'.value? v with _ | info'
    · rw [hinfo'] at hrel
      cases hrel
    · rw [hinfo'] at hrel
      cases hrel with
      | some hi =>
        have hcell := h.cells hv hs
        have hcell' := h'.cells hinfo'
        obtain ⟨-⟩ := hi
        exact (hcell' hs).trans hcell.symm
  · exact Frame.Alike.keep_cells hframes h.waiting h'.waiting

/-- Twins that call alike functions are twins again, or the call fails on both,
unless one has no room. -/
theorem both_enter (hk : TwinRuns e e' root root') (hw : m.Waiting e root)
    (hw' : m'.Waiting e' root') (hsteps : m'.steps = m.steps)
    (hframes : List.Forall₂ (Frame.Alike m.host.memory m'.host.memory) m.frames m'.frames)
    {gn : FuncId} {g g' : Func} (hg : e.findFunc gn = .ok g) (hg' : e'.findFunc gn = .ok g')
    (halike : g.Alike g') (hreach : e.Reaches root g) (hreach' : e'.Reaches root' g')
    {args : List Word} (hlen : args.length = g.params.length) {depth : Nat} {caller : String}
    {dest : ValueId}
    (hstack : ∀ fr : Frame, fr.Sound e root → fr.func = g → fr.dest = dest →
      Stack.Sound e root (fr :: m.frames))
    (hstack' : ∀ fr : Frame, fr.Sound e' root' → fr.func = g' → fr.dest = dest →
      Stack.Sound e' root' (fr :: m'.frames)) :
    Both (fun _ => AreTwins e e' root root')
      (enter e g args depth caller dest) (enter e' g' args depth caller dest) m m' := by
  have hdepth : e'.maxDepth = e.maxDepth := by
    obtain ⟨-, -, -⟩ := hk.engines
    rfl
  rw [enter_eq, enter_eq, halike.name, halike.compiled, halike.params, hdepth]
  refine .ite' (fun _ => .bind' (.inFunction (.throw' hsteps)) fun _ _ _ => False.elim) fun hc => ?_
  refine .ite' (fun _ => .bind' (.inFunction (.throw' hsteps)) fun _ _ _ => False.elim) fun _ => ?_
  have hc : g.compiled = true := by simpa using hc
  obtain ⟨h, m₁, hrun, hno⟩ | ⟨base, m₁, hrun, hentered⟩ :=
    run_reserve_entered hk.left hw hg hc hreach hstack (depth + 1)
  · exact .bind_left hrun hno
  obtain ⟨h, m₁', hrun', hno⟩ | ⟨base', m₁', hrun', hentered'⟩ :=
    run_reserve_entered hk.right hw' hg' (halike.compiled.trans hc) hreach' hstack' (depth + 1)
  · exact .bind_right hrun' hno
  have htwins := hentered.twins hentered' halike hsteps hframes
  refine .bind_runs hrun hrun' (.bind_modify (.inFunction ?_))
  refine .mono (both_setParams hk htwins (fun p hp => ?_) hlen) fun _ _ _ h₁ => ?_
  · obtain ⟨info, hinfo, hs⟩ := (hk.left.typed.func (EngineM.findFunc_ok hg).1).param hp
    exact ⟨info.rep, Func.rep?_of_value? hinfo, hs⟩
  · obtain ⟨fr, fr', h₁⟩ := h₁
    exact ⟨fr, fr', _, _, h₁⟩

/-- What a step of twins leaves: twins, or a result after the same number of
steps. -/
def TwinGoes (e e' : Engine) (root root' : Func) : Option Word → Machine → Machine → Prop
  | none, m, m' => AreTwins e e' root root' m m'
  | some _, m, m' => m'.steps = m.steps

variable {fr fr' : Frame} {rest rest' : List Frame}

theorem both_leave (hk : TwinRuns e e' root root')
    (h : Twins e e' root root' fr fr' rest rest' m m') {bits : Word}
    (hbits : fr.func.ret.Canonical bits) :
    Both (TwinGoes e e' root root') (leave bits) (leave bits) m m' := by
  have hns : fr.func.ret.cls ≠ .struct := by
    obtain ⟨_, _, _, hns, _⟩ := (h.left.running.typed hk.left.toRuns).1.sig
    exact hns
  obtain ⟨mem, hrun, hmem, hhoused, hcells⟩ := run_releaseFrame hk.left h.left
  obtain ⟨mem', hrun', hmem', hhoused', hcells'⟩ := run_releaseFrame hk.right h.right
  have hwaiting := Frame.Alike.keep_cells h.waiting hcells hcells'
  have hs := h.left.stack
  have hs' := h.right.stack
  have hf := h.left.frames
  have hf' := h.right.frames
  rw [hf] at hs
  rw [hf'] at hs'
  unfold leave
  refine .bind_runs (run_frame hf) (run_frame hf') (.bind_runs hrun hrun' ?_)
  refine .bind_modify (.bind_get ?_)
  dsimp only [Machine.withMemory_frames]
  rw [hf, hf']
  simp only [List.drop_succ_cons, List.drop_zero]
  cases hwaiting with
  | nil => exact .pure' h.steps
  | @cons caller caller' rest rest' hcaller hrest =>
    cases hs with
    | inner _ hdest hsrest =>
    cases hs' with
    | inner _ hdest' hsrest' =>
    have htwins : Twins e e' root root' caller caller' rest rest'
        ⟨(m.withMemory mem).host, (m.withMemory mem).steps, caller :: rest⟩
        ⟨(m'.withMemory mem').host, (m'.withMemory mem').steps, caller' :: rest'⟩ :=
      ⟨⟨⟨hmem.trans h.left.memory, hsrest⟩, rfl, hhoused⟩,
        ⟨⟨hmem'.trans h.right.memory, hsrest'⟩, rfl, hhoused'⟩, h.steps, hcaller, hrest⟩
    dsimp only
    rw [h.top.func.ret, hcaller.func.name, h.top.dest]
    refine .ite' (fun hv => ?_) fun _ => .pure' ⟨_, _, _, _, htwins⟩
    refine .bind' (.inFunction (both_write hk htwins (hdest hv) hns (fun _ => rfl) hbits hbits)) ?_
    intro _ _ _ h₁
    obtain ⟨_, _, h₁, -⟩ := h₁
    exact .pure' ⟨_, _, _, _, h₁⟩

end StepM

theorem Machine.Housed.goto {e : Engine} {root : Func} {fr : Frame} {rest : List Frame}
    {m : Machine} (h : m.Housed e root fr rest) {pc : Nat} (hpc : pc ≤ fr.func.insns.size)
    (steps : Nat) :
    Machine.Housed e root { fr with pc } rest { m with steps, frames := { fr with pc } :: rest } := by
  have hs := h.stack
  have hh := h.housed
  rw [h.frames] at hs hh
  have hf := h.top.1
  refine ⟨⟨h.memory, hs.replace ?_ rfl rfl⟩, rfl, hh.replace rfl rfl rfl⟩
  exact ⟨hf.known, hf.compiled, hf.reached, hpc, hf.regs, hf.canonical, hf.base⟩

theorem Twins.goto {e e' : Engine} {root root' : Func} {fr fr' : Frame} {rest rest' : List Frame}
    {m m' : Machine} (h : Twins e e' root root' fr fr' rest rest' m m') {pc : Nat}
    (hpc : pc ≤ fr.func.insns.size) (steps : Nat) :
    Twins e e' root root' { fr with pc } { fr' with pc } rest rest'
      { m with steps, frames := { fr with pc } :: rest }
      { m' with steps, frames := { fr' with pc } :: rest' } := by
  have hpc' : pc ≤ fr'.func.insns.size := h.top.func.insns ▸ hpc
  obtain ⟨hfunc, hdepth, -, hdest, hcells⟩ := h.top
  exact ⟨h.left.goto hpc steps, h.right.goto hpc' steps, rfl, ⟨hfunc, hdepth, rfl, hdest, hcells⟩,
    h.waiting⟩

namespace StepM

variable {e e' : Engine} {root root' : Func} {fr fr' : Frame} {rest rest' : List Frame}
  {m m' : Machine}

/-! ## Instructions -/

theorem both_put (hk : TwinRuns e e' root root') (h : Twins e e' root root' fr fr' rest rest' m m')
    {v : ValueId} {r : Rep} (hv : fr.func.rep? v = some r) (hs : r.isScalar = true) {w : Word}
    (hc : r.Canonical w) : Both (fun _ => AreTwins e e' root root') (write v w) (write v w) m m' := by
  refine .mono (both_write hk h hv (Rep.ne_struct hs) (fun _ => rfl) hc hc) fun _ _ _ h₁ => ?_
  obtain ⟨_, _, h₁, -⟩ := h₁
  exact ⟨_, _, _, _, h₁⟩

theorem both_copy (hk : TwinRuns e e' root root')
    (h : Twins e e' root root' fr fr' rest rest' m m') {d v : ValueId} {r : Rep}
    (hd : fr.func.rep? d = some r) (hv : fr.func.rep? v = some r) :
    Both (fun _ => AreTwins e e' root root') (do write d (← read v)) (do write d (← read v))
      m m' := by
  by_cases hs : r.cls = .struct
  · refine .mono (both_copy_struct hk h hd hv hs) fun _ _ _ h₁ => ?_
    obtain ⟨_, _, h₁, -⟩ := h₁
    exact ⟨_, _, _, _, h₁⟩
  · have hv' : fr'.func.rep? v = some r := (h.top.func.rep? v).trans hv
    have hends := ends_read hk.left.toRuns h.left.running hv
    have hends' := ends_read hk.right.toRuns h.right.running hv'
    obtain ⟨info, hinfo, rfl⟩ := Func.value?_of_rep? hv
    obtain ⟨info', hinfo', hrep⟩ := Func.value?_of_rep? hv'
    have hread := run_read_value hk.left h.left hinfo hs
    have hread' := run_read_value hk.right h.right hinfo' (hrep ▸ hs)
    unfold Ends at hends hends'
    rw [hread] at hends
    rw [hread'] at hends'
    refine .bind_runs hread hread' ?_
    refine .mono (both_write hk h hd hs (fun hs => h.top.cells hinfo hs) hends.2 hends'.2) ?_
    intro _ _ _ h₁
    obtain ⟨_, _, h₁, -⟩ := h₁
    exact ⟨_, _, _, _, h₁⟩

theorem both_onTwo {α : Type} {R : α → Machine → Machine → Prop} (hk : TwinRuns e e' root root')
    (h : Twins e e' root root' fr fr' rest rest' m m') {a b : ValueId} {ra rb : Rep}
    (ha : fr.func.rep? a = some ra) (hb : fr.func.rep? b = some rb)
    (hs : ra.isScalar = true ∧ rb.isScalar = true) {k k' : Word → Word → StepM α}
    (hkk : ∀ x y, Both R (k x y) (k' x y) m m') :
    Both R (do
      let x ← read a
      let y ← read b
      k x y) (do
      let x ← read a
      let y ← read b
      k' x y) m m' := by
  refine .bind' (both_read hk h ha hs.1) fun x _ _ hx => ?_
  obtain ⟨rfl, rfl, -⟩ := hx
  refine .bind' (both_read hk h hb hs.2) fun y _ _ hy => ?_
  obtain ⟨rfl, rfl, -⟩ := hy
  exact hkk x y

theorem both_onOne {α : Type} {R : α → Machine → Machine → Prop} (hk : TwinRuns e e' root root')
    (h : Twins e e' root root' fr fr' rest rest' m m') {a : ValueId} {r : Rep}
    (ha : fr.func.rep? a = some r) (hs : r.isScalar = true) {k k' : Word → StepM α}
    (hkk : ∀ x, r.Canonical x → Both R (k x) (k' x) m m') :
    Both R (read a >>= k) (read a >>= k') m m' := by
  refine .bind' (both_read hk h ha hs) fun x _ _ hx => ?_
  obtain ⟨rfl, rfl, hc⟩ := hx
  exact hkk x hc

theorem both_execute (hk : TwinRuns e e' root root')
    (h : Twins e e' root root' fr fr' rest rest' m m') {i : Insn} (hi : i ∈ fr.func.insns)
    (hplain : i.op.isPlain = true) (depth : Nat) :
    Both (fun _ => AreTwins e e' root root') (execute e fr.func depth i)
      (execute e' fr'.func depth i) m m' := by
  obtain ⟨htyped, hready, -⟩ := h.left.running.typed hk.left.toRuns
  have hstays := hk.stays fr.func h.left.top.1.reached i hi
  cases htyped.insn i hi with
  | @binary op dest a b rep ra rb hop hd ha hb hsame hs =>
    have hrep : rep.isScalar = true := by
      by_cases hp : rep.cls = .pointer
      · simp [Rep.isScalar, hp]
      · exact (hsame hp).1 ▸ hs.1
    rw [execute_binary hop, execute_binary hop]
    refine both_onTwo hk h ha hb hs fun x y => ?_
    rcases hz : evalBinary op rep x y with c | z
    · exact .throw' h.steps
    · exact both_put hk h hd hrep (canonical_evalBinary hz)
  | compare hop hd ha hb hs =>
    rw [execute_compare hop, execute_compare hop]
    exact both_onTwo hk h ha hb ⟨hs, hs⟩ fun x y =>
      both_put hk h hd rfl (canonical_evalCompare _ _ x y)
  | unary hop hd ha hs =>
    rcases hop with rfl | rfl <;>
      exact both_onOne hk h ha hs fun x _ => both_put hk h hd hs (canonical_evalUnary _ _ x)
  | test hop hd ha hs =>
    rcases hop with rfl | rfl <;>
      exact both_onOne hk h ha hs fun x _ => both_put hk h hd rfl (Rep.canonical_ofBool _)
  | convert ht hd ha hs =>
    refine both_onOne hk h ha hs.1 fun x _ => ?_
    obtain ⟨info, hinfo, rfl⟩ := Func.value?_of_rep? hd
    obtain ⟨info', hinfo', hrep⟩ := Func.value?_of_rep? ((h.top.func.rep? _).trans hd)
    rw [(Func.value?_lt hinfo).2.1, (Func.value?_lt hinfo').2.1]
    dsimp only
    rw [hrep]
    exact both_put hk h hd hs.2 (canonical_convertWord _ _ x)
  | copy hd ha hc => exact both_copy hk h hd ha
  | @math dest args op rep hop hc hd hl hargs =>
    have hs : rep.isScalar = true := by simp [Rep.isScalar, hc]
    refine .bind' (both_readAll hk h fun v hv => ⟨rep, hargs v hv, hs⟩) fun ws _ _ hws => ?_
    obtain ⟨rfl, rfl, hlen⟩ := hws
    obtain ⟨z, hz⟩ := evalMath_of_arity rep (hlen.trans hl).ge
    dsimp only
    rw [hz]
    exact both_put hk h hd hs (canonical_evalMath hc hz)
  | branchOn hop => rcases hop with rfl | rfl <;> cases hplain
  | addressOf | loadRel | storeRel | loadElem | storeElem | alloca | callNative => cases hstays
  | label | branch | ret | retNone | call => cases hplain

theorem both_jump (hk : TwinRuns e e' root root')
    (h : Twins e e' root root' fr fr' rest rest' m m') {i : Insn}
    (hi : (fr.func.target? i).isSome) :
    Both (fun _ => AreTwins e e' root root') (jump fr.func i) (jump fr'.func i) m m' := by
  obtain ⟨pc, hpc⟩ := Option.isSome_iff_exists.mp hi
  have hlt := (h.left.running.typed hk.left.toRuns).1.target_lt hpc
  have hgoto := h.goto (Nat.le_of_lt hlt) m.steps
  unfold jump
  rw [h.top.func.target? i, hpc]
  refine .of_runs (run_modifyFrame h.left.frames _) (run_modifyFrame h.right.frames _) ?_
  rw [h.steps]
  exact ⟨_, _, _, _, hgoto⟩

theorem both_call (hk : TwinRuns e e' root root')
    (h : Twins e e' root root' fr fr' rest rest' m m') {i : Insn} (hi : i ∈ fr.func.insns)
    (hop : i.op = .call) (depth : Nat) :
    Both (fun _ => AreTwins e e' root root') (execute e fr.func depth i)
      (execute e' fr'.func depth i) m m' := by
  obtain ⟨htyped, -, -⟩ := h.left.running.typed hk.left.toRuns
  have hs := h.left.stack
  have hs' := h.right.stack
  rw [h.left.frames] at hs
  rw [h.right.frames] at hs'
  cases htyped.insn i hi with
  | @call dest args callee type hd ht hh hdest hargs =>
    unfold execute
    dsimp only
    have hfound := hk.engines.findFunc callee
    rcases hg : e.findFunc callee with err | g <;> rw [hg] at hfound <;>
      rcases hg' : e'.findFunc callee with err' | g' <;> rw [hg'] at hfound <;> cases hfound
    · exact .throw' h.steps
    rename_i halike
    have hfn := (EngineM.findFunc_ok hg).1
    have hfn' := (EngineM.findFunc_ok hg').1
    obtain rfl := Engine.head_eq hh hfn
    dsimp only
    rw [h.top.func.name]
    refine .bind' (both_readAll hk h fun v hv => ?_) fun ws _ _ hws => ?_
    · obtain ⟨k, hk', rfl⟩ := List.mem_iff_getElem.mp hv
      have hlt : k < g.head.params.length := hargs.length_eq ▸ hk'
      exact ⟨_, (List.forall₂_iff_get.mp hargs).2 k hk' hlt,
        (hk.left.typed.func hfn).isScalar_head _ (List.getElem_mem hlt)⟩
    · obtain ⟨rfl, rfl, hlen⟩ := hws
      have hi' : _ ∈ fr'.func.insns := h.top.func.insns ▸ hi
      refine both_enter hk h.left.waiting h.right.waiting h.steps ?_ hg hg' halike
        (hs.top.reached.tail ⟨_, hi, rfl, hg⟩) (hs'.top.reached.tail ⟨_, hi', rfl, hg'⟩) ?_ ?_ ?_
      · rw [h.left.frames, h.right.frames]
        exact .cons h.top h.waiting
      · rw [hlen, hargs.length_eq, (hk.left.typed.func hfn).length_head_params]
      · intro fr₁ hfr₁ hfunc hdest₁
        rw [h.left.frames]
        refine .inner hfr₁ (fun _ => ?_) hs
        rw [hfunc, hdest₁]
        exact hdest
      · intro fr₁ hfr₁ hfunc hdest₁
        rw [h.right.frames]
        refine .inner hfr₁ (fun _ => ?_) hs'
        rw [hfunc, hdest₁, halike.ret, h.top.func.rep?]
        exact hdest
  | binary hop' | compare hop' => simp only at hop; subst hop; cases hop'
  | unary hop' | test hop' | branchOn hop' => simp only at hop; subst hop; simp at hop'
  | _ => cases hop

theorem both_dispatch (hk : TwinRuns e e' root root')
    (h : Twins e e' root root' fr fr' rest rest' m m') {i : Insn} (hi : i ∈ fr.func.insns)
    (depth : Nat) :
    Both (TwinGoes e e' root root') (dispatch e fr.func depth i) (dispatch e' fr'.func depth i)
      m m' := by
  obtain ⟨htyped, hready, -⟩ := h.left.running.typed hk.left.toRuns
  have hgoes : ∀ {act act' : StepM Unit}, Both (fun _ => AreTwins e e' root root') act act' m m' →
      Both (TwinGoes e e' root root') (do act; pure none) (do act'; pure none) m m' :=
    fun hact => .bind' hact fun _ _ _ h₁ => .pure' h₁
  have hplain : i.op.isPlain = true → Both (TwinGoes e e' root root')
      (dispatch e fr.func depth i) (dispatch e' fr'.func depth i) m m' := by
    intro hop
    rw [dispatch_plain hop, dispatch_plain hop]
    exact hgoes (both_execute hk h hi hop depth)
  have hsame : AreTwins e e' root root' m m' := ⟨_, _, _, _, h⟩
  cases htyped.insn i hi with
  | label => exact .pure' hsame
  | branch => exact hgoes (both_jump hk h (hready.placed _ hi rfl))
  | branchOn hop _ ha hs =>
    rcases hop with rfl | rfl <;>
    · refine both_onOne hk h ha hs fun c _ => ?_
      exact .ite' (fun _ => hgoes (both_jump hk h (hready.placed _ hi rfl))) fun _ => .pure' hsame
  | @ret a ha hs =>
    have h0 : a ≠ 0 := by
      intro h0
      subst h0
      cases ha
    show Both _ (if a = 0 then leave 0 else do leave (← read a))
      (if a = 0 then leave 0 else do leave (← read a)) m m'
    rw [if_neg h0]
    exact both_onOne hk h ha hs fun w hw => both_leave hk h hw
  | retNone hv => exact both_leave hk h fr.func.ret.canonical_zero
  | call => exact hgoes (both_call hk h hi rfl depth)
  | binary hop => exact hplain (Opcode.isPlain_of_binary hop)
  | compare hop => exact hplain (Opcode.isPlain_of_compare hop)
  | unary hop | test hop => rcases hop with rfl | rfl <;> exact hplain rfl
  | convert | copy | addressOf | loadRel | storeRel | loadElem | storeElem | alloca | callNative
  | math => exact hplain rfl

/-- One step of twins leaves twins or gives the same result, or it fails on both
alike, unless one has no room. -/
theorem both_step (hk : TwinRuns e e' root root') (h : AreTwins e e' root root' m m') :
    Both (TwinGoes e e' root root') (step e) (step e') m m' := by
  obtain ⟨fr, fr', rest, rest', h⟩ := h
  have hlimit : e'.maxSteps = e.maxSteps := by
    obtain ⟨-, -, -⟩ := hk.engines
    rfl
  unfold step
  refine .bind_runs (run_frame h.left.frames) (run_frame h.right.frames) ?_
  dsimp only
  rw [h.top.func.insns, h.top.pc]
  rcases hi : fr.func.insns[fr.pc]? with _ | i
  · exact both_leave hk h fr.func.ret.canonical_zero
  · obtain ⟨hlt, hget⟩ := Array.getElem?_eq_some_iff.mp hi
    have hnext := h.goto (Nat.succ_le_of_lt hlt) (m.steps + 1)
    dsimp only
    rw [hlimit, h.top.func.name, h.top.depth]
    refine .bind_modify (.inFunction (.bind_get ?_))
    dsimp only
    rw [h.steps]
    refine .ite' (fun _ => .bind_throw rfl) fun _ => ?_
    refine .bind_runs (run_modifyFrame (m := ⟨m.host, m.steps + 1, m.frames⟩) h.left.frames _)
      (run_modifyFrame (m := ⟨m'.host, m.steps + 1, m'.frames⟩) h.right.frames _) ?_
    exact both_dispatch hk hnext (hget ▸ Array.getElem_mem hlt) fr.depth

end StepM

end TypedIR
