import TypedIR.Proofs.SafeRuns
import TypedIR.Proofs.Twins

/-
  Where scalars live makes no difference to a run.

  A history and the same one with marks of scalars put in give functions whose
  runs end the same way, after the same number of steps (`Marked.calls_same`).
  Frames must hold their slots: the slot of an integer behind two structs of about
  2^63 bytes wraps around to that of another value, and a copy to that value
  changes the integer (`far_slot_marked`).
-/

namespace TypedIR

def RunEnd.isNoRoom : RunEnd → Bool
  | .halted h => h.isNoRoom
  | _ => false

/-- Runs that end the same way after the same number of steps, unless there was
no room in one of them. -/
def SameRun (r r' : RunEnd × Machine) : Prop :=
  r.1.isNoRoom = true ∨ r'.1.isNoRoom = true ∨ r'.1 = r.1 ∧ r'.2.steps = r.2.steps
  deriving Decidable

theorem Machine.steps_unwound (m : Machine) : m.unwound.steps = m.steps := by
  have hall : ∀ (frames : List Frame) (m : Machine),
      Ends (frames.forM StepM.releaseFrame) m (fun _ m' => m'.steps = m.steps)
        fun _ _ => False := by
    intro frames
    induction frames with
    | nil => exact fun m => .pure' rfl
    | cons fr frames ih =>
      intro m
      refine .bind' (StepM.ends_releaseFrame fr) fun _ m₁ h₁ => ?_
      obtain ⟨mem, -, rfl⟩ := h₁
      exact ih _
  have hunwind : Ends StepM.unwind m (fun _ m' => m'.steps = m.steps) fun _ _ => False := by
    refine .bind_get (.bind' (hall _ m) fun _ m₁ h₁ => ?_)
    exact .modify' h₁
  unfold Ends at hunwind
  unfold Machine.unwound
  rcases hr : (StepM.unwind.run m : Except (Halt Failure) Unit × Machine) with ⟨_ | _, m₁⟩ <;>
    rw [hr] at hunwind
  · exact hunwind.elim
  · exact hunwind

variable {e e' : Engine} {root root' f f' : Func} {m m' : Machine}

theorem AreTwins.run (hk : TwinRuns e e' root root') (h : AreTwins e e' root root' m m')
    (fuel : Nat) : SameRun (Machine.run e fuel m) (Machine.run e' fuel m') := by
  induction fuel generalizing m m' with
  | zero =>
    obtain ⟨_, _, _, _, h⟩ := h
    exact .inr (.inr ⟨rfl, h.steps⟩)
  | succ fuel ih =>
    have hstep := StepM.both_step hk h
    unfold Both at hstep
    unfold Machine.run
    generalize ((StepM.step e).run m : Except (Halt Failure) (Option Word) × Machine) = r,
      ((StepM.step e').run m' : Except (Halt Failure) (Option Word) × Machine) = r' at hstep
    cases hstep with
    | @ok a _ _ h₁ =>
      cases a with
      | none => exact ih h₁
      | some w => exact .inr (.inr ⟨rfl, h₁⟩)
    | stop hs =>
      refine .inr (.inr ⟨rfl, ?_⟩)
      rw [Machine.steps_unwound, Machine.steps_unwound, hs]
    | left hn => exact .inl hn
    | right hn => exact .inr (.inl hn)

theorem Engine.Alike.reaches (h : e.Alike e') (hf : f.Alike f') {g' : Func}
    (hg : e'.Reaches f' g') : ∃ g, e.Reaches f g ∧ g.Alike g' := by
  induction hg with
  | refl => exact ⟨f, .refl, hf⟩
  | tail _ hcall ih =>
    obtain ⟨g, hreach, halike⟩ := ih
    obtain ⟨i, hi, hop, hcallee⟩ := hcall
    have hfound := h.findFunc i.callee
    rw [hcallee] at hfound
    rcases hg : e.findFunc i.callee with err | g₁ <;> rw [hg] at hfound <;> cases hfound
    rename_i halike₁
    exact ⟨g₁, hreach.tail ⟨i, halike.insns ▸ hi, hop, hg⟩, halike₁⟩

theorem TwinRuns.call (hk : TwinRuns e e' f f') {fn : FuncId} (hf : e.findFunc fn = .ok f)
    (hf' : e'.findFunc fn = .ok f') (halike : f.Alike f') {host host' : Host}
    (hs : host.memory.Serves e.target.ptrSize) (hs' : host'.memory.Serves e'.target.ptrSize)
    {args : List Word} (hlen : args.length = f.params.length) (fuel : Nat) :
    SameRun (Machine.call e fuel host f args) (Machine.call e' fuel host' f' args) := by
  have henter : Both (fun _ => AreTwins e e' f f') (StepM.enter e f args 0 "" 0)
      (StepM.enter e' f' args 0 "" 0) { host } { host := host' } :=
    StepM.both_enter hk (.start hs) (.start hs') rfl .nil hf hf' halike .refl .refl hlen
      (fun _ hfr hfunc _ => .outer hfr hfunc) (fun _ hfr hfunc _ => .outer hfr hfunc)
  unfold Both at henter
  unfold Machine.call
  generalize ((StepM.enter e f args 0 "" 0).run { host } :
      Except (Halt Failure) Unit × Machine) = r,
    ((StepM.enter e' f' args 0 "" 0).run { host := host' } :
      Except (Halt Failure) Unit × Machine) = r' at henter
  cases henter with
  | ok h => exact h.run hk fuel
  | stop hs =>
    refine .inr (.inr ⟨rfl, ?_⟩)
    rw [Machine.steps_unwound, Machine.steps_unwound, hs]
  | left hn => exact .inl hn
  | right hn => exact .inr (.inl hn)

namespace Engine

/-- The code that a call of `f` may run uses no memory but the slots of its
frames, and no natives. -/
def StaysLocal (e : Engine) (f : Func) : Prop :=
  ∀ g, e.Reaches f g → ∀ i ∈ g.insns, i.op.isLocal = true

/-- The slots of all compiled functions that calls lead to are inside their frames. -/
def FramesFit (e : Engine) (f : Func) : Prop :=
  ∀ g, e.Reaches f g → g.compiled = true → g.FrameFits

theorem Alike.twinRuns (h : e.Alike e') {target : Target} (hu : target.Usual)
    (ha : target.Aligned) (hb : e.Built target) (hb' : e'.Built target) (hf : f.Alike f')
    (hlocal : e.StaysLocal f) (hfits : e.FramesFit f) (hfits' : e'.FramesFit f') :
    TwinRuns e e' f f' := by
  have h0 : target.ptrSize ≠ 0 := by rcases hu with h | h <;> simp [h]
  have hlocal' : e'.StaysLocal f' := by
    intro g' hg' i hi
    obtain ⟨g, hg, halike⟩ := h.reaches hf hg'
    exact hlocal g hg i (halike.insns ▸ hi)
  have hkeeps : ∀ {e f}, Built target e → e.StaysLocal f → e.FramesFit f → e.Keeps f := by
    intro e f hb hlocal hfits
    have htarget := (hb.shape h0).1
    refine ⟨⟨hb.typed, htarget ▸ hu, hfits, fun g hg i hi hop => ?_⟩, htarget ▸ ha⟩
    have := hlocal g hg i hi
    rw [hop] at this
    cases this
  exact ⟨hkeeps hb hlocal hfits, hkeeps hb' hlocal' hfits', h, hlocal⟩

end Engine

/-- Marking scalars makes no difference: a function that was compiled in a history
is compiled after the same history with marks put in, and every call of it ends
the same way after the same number of steps, if frames hold their slots and
unless there is no room for one. -/
theorem Marked.calls_same {target : Target} (hu : target.Usual) (ha : target.Aligned)
    {maxSteps maxDepth : Int} {rng : Generator} {clock : Int} {ops ops' : List Operation}
    (hm : Marked (.create target maxSteps maxDepth rng clock) ops ops')
    (he : e = (Engine.create target maxSteps maxDepth rng clock).after ops)
    (he' : e' = (Engine.create target maxSteps maxDepth rng clock).after ops') {fn : FuncId}
    (hf : e.findFunc fn = .ok f) (hc : f.compiled = true) (hlocal : e.StaysLocal f)
    (hfits : e.FramesFit f) (hfits' : ∀ f', e'.findFunc fn = .ok f' → e'.FramesFit f')
    {args : List Word} (hlen : args.length = f.params.length) :
    ∃ f', e'.findFunc fn = .ok f' ∧ f'.compiled = true ∧
      (∀ fuel, SameRun (Machine.call e fuel e.host f args) (Machine.call e' fuel e'.host f' args)) ∧
      ((∃ h, ((RunM.apply fn args).run e : Except (Halt Failure) Word × Engine).1 = .error h ∧
          h.isNoRoom = true) ∨
        (∃ h, ((RunM.apply fn args).run e' : Except (Halt Failure) Word × Engine).1 = .error h ∧
          h.isNoRoom = true) ∨
        ((RunM.apply fn args).run e' : Except (Halt Failure) Word × Engine).1 =
          ((RunM.apply fn args).run e : Except (Halt Failure) Word × Engine).1) := by
  have ht : (Engine.create target maxSteps maxDepth rng clock).Typed False :=
    Engine.typed_create target maxSteps maxDepth rng clock
  have hb : e.Built target := ⟨_, _, _, _, _, he⟩
  have hb' : e'.Built target := ⟨_, _, _, _, _, he'⟩
  have halike : e.Alike e' := by
    rw [he, he']
    exact hm.alike ht (.refl ht)
  have hfound := halike.findFunc fn
  rw [hf] at hfound
  rcases hf' : e'.findFunc fn with err | f' <;> rw [hf'] at hfound <;> cases hfound
  rename_i hff
  have hc' : f'.compiled = true := hff.compiled.trans hc
  have hlen' : args.length = f'.params.length := hff.params ▸ hlen
  have hk := halike.twinRuns hu ha hb hb' hff hlocal hfits (hfits' f' hf')
  have h0 : target.ptrSize ≠ 0 := by rcases hu with h | h <;> simp [h]
  obtain ⟨htarget, hshape⟩ := hb.shape h0
  obtain ⟨htarget', hshape'⟩ := hb'.shape h0
  have hs : e.host.memory.Serves e.target.ptrSize := by rw [htarget]; exact hshape
  have hs' : e'.host.memory.Serves e'.target.ptrSize := by rw [htarget']; exact hshape'
  have hcalls := hk.call hf hf' hff hs hs' hlen
  refine ⟨f', rfl, hc', hcalls, ?_⟩
  have hnoRoom : ∀ {r : RunEnd}, r.isNoRoom = true → ∃ h, r.answer = .error h ∧ h.isNoRoom = true := by
    intro r hr
    cases r with
    | halted h => exact ⟨h, rfl, hr⟩
    | result | unfinished => cases hr
  rw [(RunM.apply_eq hf hc hlen).1, (RunM.apply_eq hf' hc' hlen').1]
  rcases hcalls runFuel with h | h | ⟨h, -⟩
  · exact .inl (hnoRoom h)
  · exact .inr (.inl (hnoRoom h))
  · rw [h]
    exact .inr (.inr rfl)

namespace Marked

theorem refl (e : Engine) (ops : List Operation) : Marked e ops ops := by
  induction ops generalizing e with
  | nil => exact .nil
  | cons op ops ih => exact .keep (ih _)

theorem append {ops₁ ops₁' : List Operation} (ops : List Operation)
    (h : Marked (e.after ops) ops₁ ops₁') : Marked e (ops ++ ops₁) (ops ++ ops₁') := by
  induction ops generalizing e with
  | nil => exact h
  | cons op ops ih => exact .keep (ih h)

/-- One mark after a common beginning; that the value is a scalar is computed. -/
theorem one {fn : FuncId} {v : ValueId} (first last : List Operation)
    (h : ((e.after first).func? fn).all (fun f => (f.value? v).all (·.rep.isScalar)) = true) :
    Marked e (first ++ last) (first ++ .setAddressable fn v :: last) := by
  refine append first (.mark (fun f info hf hv => ?_) (refl _ last))
  rw [hf] at h
  simpa [hv] using h

end Marked

def summingPlain : Engine :=
  (Engine.create .i386 0 0 (.seeded 1) 0).after (summingHead ++ summingBody)

/-- A compiled function of one parameter whose code is local and calls no
other. -/
def Func.isLone (fn : FuncId) (f : Func) : Bool :=
  f.compiled && f.FrameFits && f.params.length == 1 && f.callsOnly fn &&
    f.insns.all fun i => i.op.isLocal

theorem Engine.stays_lone {fn : FuncId} (hf : e.findFunc fn = .ok f) (h : f.isLone fn = true) :
    f.compiled = true ∧ f.params.length = 1 ∧ e.StaysLocal f ∧ e.FramesFit f := by
  simp only [Func.isLone, Bool.and_eq_true, decide_eq_true_eq, beq_iff_eq,
    Array.all_eq_true_iff_forall_mem] at h
  obtain ⟨⟨⟨⟨hc, hfits⟩, hone⟩, hself⟩, hlocal⟩ := h
  refine ⟨hc, hone, fun g hg => ?_, fun g hg _ => ?_⟩ <;> rw [reaches_self hf hself hg]
  · exact hlocal
  · exact hfits

theorem summing_marked :
    ∃ f f', summingPlain.findFunc 1 = .ok f ∧ summing.findFunc 1 = .ok f' ∧
      f.frameSize = 0 ∧ 0 < f'.frameSize ∧
      ∀ fuel, SameRun (Machine.call summingPlain fuel summingPlain.host f [100])
        (Machine.call summing fuel summing.host f' [100]) := by
  have hcheck : ((summingPlain.findFunc 1).toOption.any fun f =>
      (summing.findFunc 1).toOption.any fun f' =>
        f.isLone 1 && f'.isLone 1 && f.frameSize == 0 && 0 < f'.frameSize) = true := by
    decide +kernel
  have hscalar : ((((Engine.create .i386 0 0 (.seeded 1) 0).after summingHead).func? 1).all
      fun f => (f.value? 1).all (·.rep.isScalar)) = true := by decide +kernel
  simp only [any_toOption, Bool.and_eq_true, decide_eq_true_eq, beq_iff_eq] at hcheck
  obtain ⟨f, hf, f', hf', ⟨⟨hlone, hlone'⟩, hzero⟩, hpos⟩ := hcheck
  obtain ⟨hc, hone, hlocal, hfits⟩ := Engine.stays_lone hf hlone
  have hlen : ([100] : List Word).length = f.params.length := hone.symm
  have hm := Marked.one summingHead summingBody hscalar
  obtain ⟨f₁, hf₁, -, hcalls, -⟩ := Marked.calls_same (.inl rfl) (by decide) hm rfl rfl hf hc hlocal
    hfits (fun g hg => (Engine.stays_lone hg (Except.ok.inj (hf'.symm.trans hg) ▸ hlone')).2.2.2)
    hlen
  obtain rfl := Except.ok.inj (hf'.symm.trans hf₁)
  exact ⟨f, f', hf, hf', hzero, hpos, hcalls⟩

/-! ## Slots that wrap around -/

/-- A function with two structs of 8 bytes, two of 2^63 - 8 bytes, an integer
and a struct of 16 bytes. The integer is set to 5, the second struct is copied
to the first, and the integer is returned. -/
def farHead : List Operation :=
  ([.createContext, .buildStart 1, .structType [Builtin.uint8.id, Builtin.uint8.id]] :
      List Operation) ++ doublings 18 61 ++
    [.structType ((List.range 60).map (79 - ·)), .signatureType 0 Builtin.int32.id [],
      .createFunction 1 81 "far", .createValue 1 20, .createValue 1 20, .createValue 1 80,
      .createValue 1 80, .createValue 1 Builtin.int32.id, .createValue 1 21]

@[inherit_doc farHead]
def farBody : List Operation :=
  [.constInt 1 Builtin.int32.id 5, .store 1 5 7, .store 1 1 2, .ret 1 5, .compile 1]

def farPlain : Engine :=
  (Engine.create .amd64 0 0 (.seeded 1) 0).after (farHead ++ farBody)

def farMarked : Engine :=
  (Engine.create .amd64 0 0 (.seeded 1) 0).after (farHead ++ .setAddressable 1 5 :: farBody)

/-- In the frame the integer shares its bytes with the first struct: the offsets
wrapped around to 0. -/
theorem far_slot_marked :
    Marked (.create .amd64 0 0 (.seeded 1) 0) (farHead ++ farBody)
        (farHead ++ .setAddressable 1 5 :: farBody) ∧
      ∃ f f', farPlain.findFunc 1 = .ok f ∧ farMarked.findFunc 1 = .ok f' ∧ f.compiled = true ∧
        f.params = [] ∧ farPlain.StaysLocal f ∧
        (Machine.call farPlain 10 farPlain.host f []).1.answer = .ok 5 ∧
        (Machine.call farMarked 10 farMarked.host f' []).1.answer = .ok 0 := by
  have hcheck : ((((Engine.create .amd64 0 0 (.seeded 1) 0).after farHead).func? 1).all
      fun f => (f.value? 5).all (·.rep.isScalar)) = true ∧
      ((farPlain.findFunc 1).toOption.any fun f =>
        (farMarked.findFunc 1).toOption.any fun f' =>
          f.compiled && f.params == [] && f.callsOnly 1 && f.insns.all (fun i => i.op.isLocal) &&
          (Machine.call farPlain 10 farPlain.host f []).1.answer.toOption.any (· == 5) &&
          (Machine.call farMarked 10 farMarked.host f' []).1.answer.toOption.any (· == 0)) = true := by
    decide +kernel
  obtain ⟨hscalar, hcheck⟩ := hcheck
  refine ⟨Marked.one farHead farBody hscalar, ?_⟩
  simp only [any_toOption, Bool.and_eq_true, beq_iff_eq, Array.all_eq_true_iff_forall_mem,
    exists_eq_right] at hcheck
  obtain ⟨f, hf, f', hf', ⟨⟨⟨⟨hc, hparams⟩, hself⟩, hlocal⟩, hfive⟩, hzero⟩ := hcheck
  refine ⟨f, f', hf, hf', hc, hparams, fun g hg => ?_, hfive, hzero⟩
  rw [Engine.reaches_self hf hself hg]
  exact hlocal

end TypedIR
