import TypedIR.Proofs.LoweredPrograms
import TypedIR.Proofs.SharedCalls

/-
  Calling a function for many lists of arguments.

  The calls of a function whose code is local do not depend on the memory they find, on
  calls before them or on calls beside them (`Engine.Shares`). So however they are
  ordered and interleaved, each answers as the call made alone, and the whole fails if
  and only if one of them does (`Workspace.Calls.independent`). Where a frame does not
  hold its slots, a call can read the frame of another (`next_frame_read`).

  A string is passed by its address, and every call gives it a fresh one. So a function
  that gives back its parameter answers differently each time (`echoing_differs`).
-/

namespace TypedIR

/-! ## Engines in which the same code runs -/

/-- The code, its limits and its natives are the same. -/
structure Engine.SameProgram (e e' : Engine) : Prop where
  target : e'.target = e.target
  steps : e'.maxSteps = e.maxSteps
  depth : e'.maxDepth = e.maxDepth
  funcs : e'.funcs = e.funcs
  natives : e'.natives = e.natives

namespace Engine.SameProgram

instance : Std.Refl SameProgram := ⟨fun _ => ⟨rfl, rfl, rfl, rfl, rfl⟩⟩

instance : Trans SameProgram SameProgram SameProgram where
  trans h h' := ⟨h'.target.trans h.target, h'.steps.trans h.steps, h'.depth.trans h.depth,
    h'.funcs.trans h.funcs, h'.natives.trans h.natives⟩

instance : Hosting SameProgram where
  noted _ _ := ⟨rfl, rfl, rfl, rfl, rfl⟩
  asked _ _ := ⟨rfl, rfl, rfl, rfl, rfl⟩
  hosted _ _ := ⟨rfl, rfl, rfl, rfl, rfl⟩

variable {e e' : Engine}

theorem findFunc (h : e.SameProgram e') (fn : FuncId) : e'.findFunc fn = e.findFunc fn := by
  obtain ⟨target, maxSteps, maxDepth, types, layouts, host, contexts, funcs, building, natives, notes⟩ := e'
  obtain ⟨rfl, rfl, rfl, rfl, rfl⟩ := h
  rfl

theorem call (h : e.SameProgram e') (fuel : Nat) (host : Host) (f : Func) (args : List Word) :
    Machine.call e' fuel host f args = Machine.call e fuel host f args := by
  obtain ⟨target, maxSteps, maxDepth, types, layouts, host', contexts, funcs, building, natives, notes⟩ := e'
  obtain ⟨rfl, rfl, rfl, rfl, rfl⟩ := h
  have hstep : StepM.step { e with types, layouts, host := host', contexts, building, notes } =
      StepM.step e := rfl
  have hrun : ∀ fuel m, Machine.run { e with types, layouts, host := host', contexts, building, notes }
      fuel m = Machine.run e fuel m := by
    intro fuel
    induction fuel with
    | zero => exact fun _ => rfl
    | succ fuel ih =>
      intro m
      unfold Machine.run
      rw [hstep]
      simp only [ih]
  have henter : StepM.enter { e with types, layouts, host := host', contexts, building, notes } =
      StepM.enter e := rfl
  show Machine.call { e with types, layouts, host := host', contexts, building, notes } .. = _
  unfold Machine.call
  rw [henter]
  simp only [hrun]

end Engine.SameProgram

/-! ## What a call leaves -/

section

variable {e : Engine} {f : Func} {host host' : Host} {words : List Word}

theorem Engine.Shares.call_serves (hf : e.Shares f) (hs : host.memory.Serves e.target.ptrSize)
    (words : List Word) (fuel : Nat) :
    (Machine.call e fuel host f words).2.host.memory.Serves e.target.ptrSize := by
  have hrun : ∀ fuel (m : Machine), m.Spares e f (fun _ _ => False) →
      (Machine.run e fuel m).2.Spares e f fun _ _ => False := by
    intro fuel
    induction fuel with
    | zero => exact fun _ h => h
    | succ fuel ih =>
      intro m h
      have hstep := StepM.onward_step hf.slots hf.stays m h
      unfold Machine.run
      rcases hrun : (StepM.step e).run m with ⟨halt | (_ | bits), m'⟩ <;> rw [hrun] at hstep
      · exact Machine.Spares.unwound hstep
      · exact ih m' hstep
      · exact hstep
  have hstart : Machine.Spares e f (fun _ _ => False) { host } :=
    ⟨fun _ hfr => absurd hfr List.not_mem_nil, hs, fun _ _ => False.elim, fun _ _ => False.elim⟩
  have henter := StepM.onward_enter hf.slots .refl words 0 "" 0 _ hstart
  unfold Machine.call
  rcases hrun' : (StepM.enter e f words 0 "" 0).run { host } with ⟨halt | _, m⟩ <;>
    rw [hrun'] at henter
  · exact (Machine.Spares.unwound henter).serves
  · exact (hrun fuel m henter).serves

theorem Engine.Shares.same_run (hf : e.Shares f) (hs : host.memory.Serves e.target.ptrSize)
    (hs' : host'.memory.Serves e.target.ptrSize) (hlen : words.length = f.params.length)
    (fuel : Nat) : SameRun (Machine.call e fuel host f words) (Machine.call e fuel host' f words) := by
  obtain ⟨fn, hfn⟩ := hf.known
  exact hf.twins.call hfn hfn (.refl f) hs hs' hlen fuel

/-- Local code whose frames hold their slots may be called together with other code. -/
theorem Engine.Typed.shares (ht : e.Typed False) (hu : e.target.Usual) (ha : e.target.Aligned)
    {fn : FuncId} (hfn : e.findFunc fn = .ok f) (hlocal : e.StaysLocal f) (hfits : e.FramesFit f) :
    e.Shares f := by
  have hknown : ∀ g, e.Reaches f g → ∃ gn, e.func? gn = some g := by
    intro g hg
    induction hg with
    | refl => exact ⟨fn, (EngineM.findFunc_ok hfn).1⟩
    | tail _ hcall _ =>
      obtain ⟨i, -, -, hcallee⟩ := hcall
      exact ⟨i.callee, (EngineM.findFunc_ok hcallee).1⟩
  refine ⟨⟨⟨ht, hu, hfits, fun g hg i hi hop => ?_⟩, ha⟩, fun g hg hc => ?_, hlocal, fn, hfn⟩
  · have := hlocal g hg i hi
    rw [hop] at this
    cases this
  · obtain ⟨gn, hgn⟩ := hknown g hg
    exact (ht.func hgn).slotsInside (hfits g hg hc)

end

/-! ## Arguments -/

def passAll : List (Ty × Rep) → List HostValue → Option (List Word)
  | (_, r) :: params, a :: args =>
    match BuildM.marshal r a with
    | .ok word => (passAll params args).map (word :: ·)
    | .error _ => none
  | _, _ => some []

def Function.passes (s : Function) (args : List HostValue) : Option (List Word) :=
  if args.length = s.params.length then passAll (s.params.zip s.paramReps) args else none

/-- No text is passed for a pointer. -/
def Function.Plain (s : Function) (args : List HostValue) : Prop :=
  ∀ p ∈ (s.params.zip s.paramReps).zip args, p.1.1.kind = .pointer → ∀ text, p.2 ≠ .str text

theorem BuildM.marshal_string (r : Rep) (text : List UInt8) : ∃ why, marshal r (.str text) = .error why := by
  unfold marshal
  cases r.cls <;> exact ⟨_, rfl⟩

theorem length_passAll {params : List (Ty × Rep)} {args : List HostValue} {words : List Word}
    (h : passAll params args = some words) (hlen : args.length = params.length) :
    words.length = params.length := by
  induction params generalizing args words with
  | nil =>
    obtain rfl := List.length_eq_zero_iff.mp hlen
    cases h
    rfl
  | cons p params ih =>
    obtain ⟨a, args, rfl⟩ := List.exists_cons_of_length_eq_add_one hlen
    unfold passAll at h
    split at h
    · obtain ⟨rest, hrest, rfl⟩ := Option.map_eq_some_iff.mp h
      exact congrArg (· + 1) (ih hrest (Nat.succ.inj hlen))
    · cases h

theorem BuildM.marshalArgs_plain (fn : FnId) (s : Function) (name : String) (i : Nat)
    {params : List (Ty × Rep)} {args : List HostValue}
    (h : ∀ p ∈ params.zip args, p.1.1.kind = .pointer → ∀ text, p.2 ≠ .str text)
    (bits temps : List Word) :
    ∃ out, marshalArgs fn s name i params args bits temps = pure (out, temps) ∧
      match passAll params args with
      | some words => out = .ok (bits ++ words)
      | none => ∃ p, out = .error p := by
  induction params generalizing args i bits with
  | nil => exact ⟨.ok bits, rfl, by simp [passAll]⟩
  | cons p params ih =>
    cases args with
    | nil => exact ⟨.ok bits, rfl, by simp [passAll]⟩
    | cons a args =>
      obtain ⟨t, r⟩ := p
      obtain ⟨hfirst, hrest⟩ := List.forall_mem_cons.mp h
      have hpass : marshalArgs fn s name i ((t, r) :: params) (a :: args) bits temps =
          match marshal r a with
          | .ok word => marshalArgs fn s name (i + 1) params args (bits ++ [word]) temps
          | .error why => pure (.error (.complaint "call" (.badArgument i name why)), temps) := by
        conv_lhs => unfold marshalArgs
        split
        · next hkind => exact absurd rfl (hfirst hkind _)
        · rfl
      rw [hpass]
      unfold passAll
      cases marshal r a with
      | error why => exact ⟨_, rfl, _, rfl⟩
      | ok word =>
        obtain ⟨out, hout, hwords⟩ := ih (i + 1) hrest (bits ++ [word])
        refine ⟨out, hout, ?_⟩
        dsimp only
        cases hrest' : passAll params args <;> simpa [hrest'] using hwords

theorem marshals_of_passAll {params : List (Ty × Rep)} {args : List HostValue} {words : List Word}
    (h : passAll params args = some words) (hlen : args.length = params.length) :
    Marshals params args words := by
  induction params generalizing args words with
  | nil =>
    obtain rfl := List.length_eq_zero_iff.mp hlen
    cases h
    exact .nil
  | cons p params ih =>
    obtain ⟨a, args, rfl⟩ := List.exists_cons_of_length_eq_add_one hlen
    unfold passAll at h
    split at h
    · next hword =>
      obtain ⟨rest, hrest, rfl⟩ := Option.map_eq_some_iff.mp h
      refine .cons (fun text ha => ?_) hword (ih hrest (Nat.succ.inj hlen))
      obtain ⟨why, hwhy⟩ := BuildM.marshal_string p.2 text
      rw [ha, hwhy] at hword
      cases hword
    · cases h

/-! ## Calls from the host -/

def Stop.isNoRoom : Stop → Bool
  | .problem p => p.failure?.any fun err => Halt.isNoRoom (.failed err)
  | _ => false

/-- There was no room left in memory. -/
def Full {α : Type} (answer : Except Stop α) : Prop :=
  ∃ how, answer = .error how ∧ how.isNoRoom = true

/-- The function of the builder stands for local code of the engine. -/
structure Workspace.Shares (w : Workspace) (fn : FnId) (s : Function) (e : Engine) (g : Func) :
    Prop where
  place : w.Place fn s fun e' => e.SameProgram e' ∧ e'.host.memory.Serves e.target.ptrSize
  func : e.findFunc s.id = .ok g
  code : e.Shares g
  ready : g.compiled = true
  compiled : s.compiled = true
  params : g.params.length = s.params.length
  reps : s.paramReps.length = s.params.length

def Workspace.answer (w : Workspace) (fn : FnId) (args : List HostValue) : Except Stop HostValue :=
  ((BuildM.call fn args).run w : Except Stop HostValue × Workspace).1

namespace Workspace.Shares

open BuildM

variable {w w' : Workspace} {fn : FnId} {s : Function} {e : Engine} {g : Func}
  {args : List HostValue} {words : List Word}

theorem length_words (h : w.Shares fn s e g) (hpass : s.passes args = some words) :
    args.length = s.params.length ∧ passAll (s.params.zip s.paramReps) args = some words ∧
      words.length = g.params.length := by
  unfold Function.passes at hpass
  split at hpass
  · next hlen =>
    have hzip : (s.params.zip s.paramReps).length = s.params.length := by
      rw [List.length_zip, h.reps, Nat.min_self]
    refine ⟨hlen, hpass, ?_⟩
    rw [length_passAll hpass (hlen.trans hzip.symm), hzip, h.params]
  · cases hpass

theorem answer_at (h : w.Shares fn s e g) {r : Runtime} (hr : w.runtimes[s.runtime]? = some r)
    (hpass : s.passes args = some words) :
    w.answer fn args = s.shown (Machine.call e runFuel r.engine.host g words).1 := by
  obtain ⟨r', hr', hsame, -⟩ := h.place.engine
  obtain rfl := Option.mem_unique hr hr'
  obtain ⟨hlen, hwords, hcount⟩ := h.length_words hpass
  have hzip : (s.params.zip s.paramReps).length = s.params.length := by
    rw [List.length_zip, h.reps, Nat.min_self]
  have hfunc : r.engine.findFunc s.id = .ok g := (hsame.findFunc s.id).trans h.func
  have hcalls : w.Calls fn s r g := ⟨h.place.function, hr, hfunc⟩
  have hshows := hcalls.shows h.compiled hlen (marshals_of_passAll hwords (hlen.trans hzip.symm))
  unfold Engine.applied at hshows
  simp only [hfunc, h.ready, hcount, Bool.not_true, if_false, Bool.false_eq_true, ne_eq,
    not_true_eq_false] at hshows
  rw [← hsame.call]
  exact hshows

theorem answer_eq (h : w.Shares fn s e g) (hpass : s.passes args = some words) :
    ∃ host : Host, host.memory.Serves e.target.ptrSize ∧
      w.answer fn args = s.shown (Machine.call e runFuel host g words).1 := by
  obtain ⟨r, hr, -, hserves⟩ := h.place.engine
  exact ⟨_, hserves, h.answer_at hr hpass⟩

/-- A call leaves the function and its code as they are, and fails if its arguments
cannot be passed. -/
theorem ends_call (h : w.Shares fn s e g) (hplain : s.Plain args) :
    Ends (call fn args) w (fun _ w' => w'.Shares fn s e g ∧ s.passes args ≠ none)
      fun _ w' => w'.Shares fn s e g := by
  have hstay : ∀ {w' : Workspace}, (w'.Place fn s fun e' => e.SameProgram e' ∧
      e'.host.memory.Serves e.target.ptrSize) → w'.Shares fn s e g :=
    fun hp => ⟨hp, h.func, h.code, h.ready, h.compiled, h.params, h.reps⟩
  refine h.place.ends_function (.bind' h.place.ends_functionName.total ?_)
  rintro name _ rfl
  refine .ite' (fun _ => .bind_throw h) fun _ => .ite' (fun _ => .bind_throw h) fun hlen => ?_
  obtain ⟨out, hout, hwords⟩ := marshalArgs_plain fn s name 0 hplain [] []
  have hpass : s.passes args = passAll (s.params.zip s.paramReps) args :=
    if_pos (by simpa using hlen)
  rw [hout, hpass]
  refine .bind_pure ?_
  cases hpassed : passAll (s.params.zip s.paramReps) args with
  | none =>
    rw [hpassed] at hwords
    obtain ⟨p, rfl⟩ := hwords
    exact .bind_pure (.bind_pure (.throw' h))
  | some words =>
    rw [hpassed] at hwords
    obtain rfl : out = .ok words := hwords
    obtain ⟨r, hr, hsame, hserves⟩ := h.place.engine
    have hcount := (h.length_words (hpass.trans hpassed)).2.2
    have hfunc : r.engine.findFunc s.id = .ok g := (hsame.findFunc s.id).trans h.func
    have happly : Ends (RunM.apply s.id words) r.engine
        (fun _ e' => e.SameProgram e' ∧ e'.host.memory.Serves e.target.ptrSize)
        fun _ e' => e.SameProgram e' ∧ e'.host.memory.Serves e.target.ptrSize := by
      have hquiet : Leaves Engine.SameProgram (RunM.apply s.id words) := RunM.quiet_apply s.id words
      refine .of_state ⟨Trans.trans hsame (hquiet r.engine), ?_⟩
      rw [(RunM.apply_eq hfunc h.ready hcount).2, hsame.call]
      exact h.code.call_serves hserves words runFuel
    have hplace : ∀ {e' : Engine} spans tracing,
        e.SameProgram e' ∧ e'.host.memory.Serves e.target.ptrSize →
        (w.advance s.runtime r { e' with notes := #[] } spans tracing).Shares fn s e g :=
      fun spans tracing he => hstay (h.place.advance hr ⟨⟨he.1.target, he.1.steps, he.1.depth,
        he.1.funcs, he.1.natives⟩, he.2⟩ spans tracing)
    refine .bind' ((ends_attempt (ends_onMachine hr "call" happly)).imp_stop ?_) ?_
    · rintro _ _ ⟨-, halt, e', spans, tracing, -, he, rfl⟩
      exact hplace spans tracing he
    · rintro (p | bits) w₁ hout
      · obtain ⟨halt, e', spans, tracing, -, he, rfl⟩ := hout
        exact .bind_pure (.throw' (hplace spans tracing he))
      · obtain ⟨e', spans, tracing, he, rfl⟩ := hout
        exact .bind_pure (.pure' ⟨hplace spans tracing he, nofun⟩)

theorem answer_none (h : w.Shares fn s e g) (hplain : s.Plain args) (hpass : s.passes args = none) :
    (w.answer fn args).toOption = none := by
  have hcall := h.ends_call hplain
  unfold Ends at hcall
  unfold answer
  rcases hrun : (call fn args).run w with ⟨how | a, w'⟩ <;> rw [hrun] at hcall
  · rfl
  · exact absurd hpass hcall.2

theorem full_shown {r : RunEnd} (h : r.isNoRoom = true) : Full (s.shown r) := by
  cases r with
  | halted halt =>
    cases halt with
    | failed err => exact ⟨_, rfl, h⟩
    | crashed => cases h
  | result | unfinished => cases h

/-- Calls of the function answer the same, whatever was called before, unless there was no
room for one. -/
theorem same_answer (h : w.Shares fn s e g) (h' : w'.Shares fn s e g) (hplain : s.Plain args) :
    Full (w.answer fn args) ∨ Full (w'.answer fn args) ∨
      (w'.answer fn args).toOption = (w.answer fn args).toOption := by
  cases hpass : s.passes args with
  | none => exact .inr (.inr ((h'.answer_none hplain hpass).trans (h.answer_none hplain hpass).symm))
  | some words =>
    obtain ⟨host, hs, heq⟩ := h.answer_eq hpass
    obtain ⟨host', hs', heq'⟩ := h'.answer_eq hpass
    rw [heq, heq']
    rcases h.code.same_run hs hs' (h.length_words hpass).2.2 runFuel with hno | hno | ⟨hends, -⟩
    · exact .inl (full_shown hno)
    · exact .inr (.inl (full_shown hno))
    · rw [hends]
      exact .inr (.inr rfl)

/-! ### One call after the other -/

theorem ends_call_answer (h : w.Shares fn s e g) (h' : w'.Shares fn s e g) (hplain : s.Plain args) :
    Ends (call fn args) w'
      (fun a w₁ => w₁.Shares fn s e g ∧
        (Full (w.answer fn args) ∨ (w.answer fn args).toOption = some a))
      fun how w₁ => w₁.Shares fn s e g ∧ (how.isNoRoom = true ∨ Full (w.answer fn args) ∨
        (w.answer fn args).toOption = none) := by
  have hcall := h'.ends_call hplain
  have hsame := h.same_answer h' hplain
  unfold Ends at hcall ⊢
  unfold answer at hsame ⊢
  rcases hrun : (call fn args).run w' with ⟨how | a, w₁⟩ <;> rw [hrun] at hcall hsame
  · refine ⟨hcall, ?_⟩
    obtain hfull | ⟨_, ⟨⟩, hno⟩ | heq := hsame
    · exact .inr (.inl hfull)
    · exact .inl hno
    · exact .inr (.inr heq.symm)
  · refine ⟨hcall.1, ?_⟩
    obtain hfull | ⟨_, ⟨⟩, -⟩ | heq := hsame
    · exact .inl hfull
    · exact .inr heq.symm

def AnyFull (w : Workspace) (fn : FnId) (sets : List (List HostValue)) : Prop :=
  ∃ args ∈ sets, Full (w.answer fn args)

def answers (w : Workspace) (fn : FnId) (sets : List (List HostValue)) : Option (List HostValue) :=
  sets.mapM fun args => (w.answer fn args).toOption

theorem answers_cons (w : Workspace) (fn : FnId) (args : List HostValue) (sets : List (List HostValue)) :
    answers w fn (args :: sets) =
      (w.answer fn args).toOption.bind fun a => (answers w fn sets).map (a :: ·) := by
  unfold answers
  rw [List.mapM_cons]
  cases (w.answer fn args).toOption with
  | none => rfl
  | some a => cases sets.mapM fun args => (w.answer fn args).toOption <;> rfl

theorem ends_callEach (h : w.Shares fn s e g) (h' : w'.Shares fn s e g)
    {sets : List (List HostValue)} (hplain : ∀ args ∈ sets, s.Plain args) (i : Nat) :
    Ends (callEach fn i sets) w'
      (fun out w₁ => w₁.Shares fn s e g ∧ (AnyFull w fn sets ∨ answers w fn sets = some out))
      fun how w₁ => w₁.Shares fn s e g ∧
        (how.isNoRoom = true ∨ AnyFull w fn sets ∨ answers w fn sets = none) := by
  induction sets generalizing w' i with
  | nil => exact .pure' ⟨h', .inr rfl⟩
  | cons args sets ih =>
    obtain ⟨hfirst, hrest⟩ := List.forall_mem_cons.mp hplain
    have hmore : AnyFull w fn sets → AnyFull w fn (args :: sets) := fun ⟨xs, hxs, hfull⟩ =>
      ⟨xs, List.mem_cons_of_mem _ hxs, hfull⟩
    have hhere : Full (w.answer fn args) → AnyFull w fn (args :: sets) := fun hfull =>
      ⟨args, List.mem_cons_self, hfull⟩
    have hnone : (w.answer fn args).toOption = none → answers w fn (args :: sets) = none :=
      fun hno => by rw [answers_cons, hno]; rfl
    refine .bind' ((ends_attempt (h.ends_call_answer h' hfirst)).imp_stop
      fun how w₁ hstop => ⟨hstop.2.1, hstop.2.2.imp_right (Or.imp hhere hnone)⟩) ?_
    rintro (p | a) w₁ ⟨hw₁, hout⟩
    · exact .throw' ⟨hw₁, hout.imp_right (Or.imp hhere hnone)⟩
    · refine .bind' ((ih hw₁ hrest (i + 1)).imp_stop ?_) ?_
      · rintro how w₂ ⟨hw₂, hno⟩
        refine ⟨hw₂, hno.imp_right (Or.imp hmore fun hnone => ?_)⟩
        rw [answers_cons, hnone]
        cases (w.answer fn args).toOption <;> rfl
      · rintro out w₂ ⟨hw₂, hanswers⟩
        refine .pure' ⟨hw₂, ?_⟩
        obtain hfull | ha := hout
        · exact .inl (hhere hfull)
        · refine hanswers.imp hmore fun hanswers => ?_
          rw [answers_cons, ha, hanswers]
          rfl

theorem callMany_answers (h : w.Shares fn s e g) {sets : List (List HostValue)}
    (hplain : ∀ args ∈ sets, s.Plain args) (parent : Nat) :
    Full ((callMany fn sets parent).run w : Except Stop (List HostValue) × Workspace).1 ∨
      AnyFull w fn sets ∨
      ((callMany fn sets parent).run w : Except Stop (List HostValue) × Workspace).1.toOption =
        answers w fn sets := by
  have htraced : ∀ {w' : Workspace} (tracing : Trace.Tracing), w'.Shares fn s e g →
      Workspace.Shares { w' with tracing } fn s e g := fun _ h' =>
    ⟨⟨h'.place.function, h'.place.engine⟩, h'.func, h'.code, h'.ready, h'.compiled, h'.params, h'.reps⟩
  have hends : Ends (callMany fn sets parent) w
      (fun out _ => AnyFull w fn sets ∨ answers w fn sets = some out)
      fun how _ => how.isNoRoom = true ∨ AnyFull w fn sets ∨ answers w fn sets = none := by
    obtain ⟨r, hr, -⟩ := h.place.engine
    refine h.place.ends_function (.bind_ok (by rw [run_runtime, hr]; rfl) (.bind_get (.bind_modify ?_)))
    have h₀ := htraced (w.tracing.openSpan r.tracer .function "call_many" parent).2 h
    refine .bind' h₀.place.ends_functionName.total ?_
    rintro name _ rfl
    refine .bind' ((ends_attempt (h.ends_callEach h₀ hplain 0)).imp_stop
      fun _ _ hstop => hstop.2.2) ?_
    rintro (p | out) w₁ ⟨-, hout⟩
    · exact .bind_modify (.throw' hout)
    · exact .bind_modify (.pure' hout)
  unfold Ends at hends
  rcases hrun : (callMany fn sets parent).run w with ⟨how | out, w₁⟩ <;> rw [hrun] at hends
  · obtain hno | hfull | hnone := hends
    · exact .inl ⟨how, rfl, hno⟩
    · exact .inr (.inl hfull)
    · exact .inr (.inr hnone.symm)
  · obtain hfull | hsome := hends
    · exact .inr (.inl hfull)
    · exact .inr (.inr hsome.symm)

end Workspace.Shares

/-! ### Calls at the same time -/

theorem mapM_eq_none {α β : Type} {f : α → Option β} {xs : List α} {x : α} (hx : x ∈ xs)
    (h : f x = none) : xs.mapM f = none := by
  induction xs with
  | nil => cases hx
  | cons y xs ih =>
    rw [List.mapM_cons]
    obtain rfl | hx := List.mem_cons.mp hx
    · rw [h]
      rfl
    · rw [ih hx]
      cases f y <;> rfl

def Strand.answer (s : Function) : Strand → Option HostValue
  | .ended r => (s.shown r).toOption
  | _ => none

def Crew.answers (s : Function) (c : Crew) : Option (List HostValue) :=
  c.strands.mapM (Strand.answer s)

/-- What the host is shown of a call made alone on a host, with so many steps. -/
def Function.answerOn (s : Function) (e : Engine) (g : Func) (host : Host) (fuel : Nat)
    (args : List HostValue) : Option HostValue :=
  (s.passes args).bind fun words => (s.shown (Machine.call e fuel host g words).1).toOption

def Function.jobs (s : Function) (g : Func) (sets : List (List HostValue)) : List Job :=
  sets.map fun args => ⟨g, s.passes args⟩

section

variable {w : Workspace} {fn : FnId} {s : Function} {e : Engine} {g : Func}
  {sets : List (List HostValue)} {host alone : Host} {schedule : List Nat}
  {c : Crew}

theorem Workspace.Shares.allows (h : w.Shares fn s e g) (sets : List (List HostValue)) :
    e.Allows (s.jobs g sets) := by
  intro job hjob
  obtain ⟨args, -, rfl⟩ := List.mem_map.mp hjob
  exact ⟨h.code, fun words hwords => (h.length_words hwords).2.2⟩

theorem Function.shown_failed {r : RunEnd} (h : (Strand.ended r).failed = true) :
    (s.shown r).toOption = none := by
  cases r with
  | result => cases h
  | halted | unfinished => rfl

def Crew.AnyFull (e : Engine) (s : Function) (g : Func) (alone : Host) (n : Nat)
    (sets : List (List HostValue)) (c : Crew) : Prop :=
  (∃ (k : Nat) (r : RunEnd), c.strands[k]? = some (.ended r) ∧ r.isNoRoom = true) ∨
    ∃ args ∈ sets, ∃ words, s.passes args = some words ∧ Machine.NoRoomAfter e g words alone n

/-- Calls made at the same time, in whatever order their steps are taken, answer as each
does alone on any other host, and one of them fails if and only if one does alone. -/
theorem Workspace.Shares.crew_answers (h : w.Shares fn s e g)
    (hs : host.memory.Serves e.target.ptrSize) (halone : alone.memory.Serves e.target.ptrSize)
    (hc : (Crew.start host (s.jobs g sets)).after e (s.jobs g sets) schedule = c) (hidle : c.Idle)
    (fuel : Nat) :
    c.AnyFull e s g alone schedule.length sets ∨
      c.answers s = sets.mapM (s.answerOn e g alone (schedule.length + fuel)) := by
  generalize hjobs : s.jobs g sets = jobs at hc
  have hallows : e.Allows jobs := hjobs ▸ h.allows sets
  have hlength : c.strands.length = sets.length := by
    rw [← hc, (Crew.kept_after hallows (Crew.kept_start hs jobs) schedule).length, ← hjobs]
    exact List.length_map _
  have hunmade : c.Unmade jobs := hc ▸ Crew.Unmade.after
    (fun _ _ _ _ _ hk => .inl (Crew.strand_start hk)) schedule
  by_cases hfull : c.AnyFull e s g alone schedule.length sets
  · exact .inl hfull
  refine .inr ?_
  -- A call that has ended, and the same call alone.
  have hends : ∀ (k : Nat) args r, sets[k]? = some args → c.strands[k]? = some (.ended r) →
      s.answerOn e g alone (schedule.length + fuel) args = (s.shown r).toOption := by
    intro k args r hargs hr
    have hjob : jobs[k]? = some ⟨g, s.passes args⟩ := by
      rw [← hjobs, Function.jobs, List.getElem?_map, hargs]
      rfl
    cases hpass : s.passes args with
    | none => obtain h | h := hunmade k _ _ hjob hpass hr <;> cases h
    | some words =>
      rw [hpass] at hjob
      obtain hno | hno | heq := Crew.ends_as_alone hallows hs halone hjob (hc ▸ hr)
      · exact absurd (.inl ⟨k, r, hr, hno⟩) hfull
      · exact absurd (.inr ⟨args, List.mem_of_getElem? hargs, words, hpass, hno⟩) hfull
      · rw [Function.answerOn, hpass, Option.bind_some, heq]
  have hset : ∀ {k : Nat} {t : Strand}, c.strands[k]? = some t → ∃ args, sets[k]? = some args :=
    fun hk => ⟨_, List.getElem?_eq_getElem (hlength ▸ (List.getElem?_eq_some_iff.mp hk).1)⟩
  by_cases hfailed : ∃ (k : Nat) (t : Strand), c.strands[k]? = some t ∧ t.failed = true
  · obtain ⟨k, t, ht, hfail⟩ := hfailed
    have hfair : c.Fair jobs := hc ▸ (Crew.fair_start host jobs).after schedule
    obtain ⟨j, ⟨r, hr, hrfail⟩ | ⟨hdropped, job, hjob, hwords⟩⟩ := hfair k t ht hfail
    · obtain ⟨args, hargs⟩ := hset hr
      have hnone := Function.shown_failed (s := s) hrfail
      rw [Crew.answers, mapM_eq_none (List.mem_of_getElem? hr) hnone,
        mapM_eq_none (List.mem_of_getElem? hargs) ((hends j args r hargs hr).trans hnone)]
    · obtain ⟨args, hargs⟩ := hset hdropped
      rw [← hjobs, Function.jobs, List.getElem?_map, hargs] at hjob
      obtain rfl := Option.some.inj hjob
      rw [Crew.answers, mapM_eq_none (List.mem_of_getElem? hdropped) rfl,
        mapM_eq_none (List.mem_of_getElem? hargs)]
      rw [Function.answerOn, show s.passes args = none from hwords]
      rfl
  · have hall : c.strands.map (Strand.answer s) =
        sets.map (s.answerOn e g alone (schedule.length + fuel)) := by
      refine List.ext_getElem? fun k => ?_
      rw [List.getElem?_map, List.getElem?_map]
      cases hk : c.strands[k]? with
      | none =>
        rw [List.getElem?_eq_none (hlength ▸ List.getElem?_eq_none_iff.mp hk)]
        rfl
      | some t =>
        obtain ⟨args, hargs⟩ := hset hk
        obtain rfl | ⟨r, rfl⟩ := hidle t (List.mem_of_getElem? hk)
        · exact absurd ⟨k, _, hk, rfl⟩ hfailed
        · rw [hargs]
          exact congrArg some (hends k args r hargs hk).symm
    have hmap : ∀ {α : Type} (f : α → Option HostValue) (xs : List α), xs.mapM f = (xs.map f).mapM id :=
      fun f xs => by rw [List.mapM_map]; rfl
    rw [Crew.answers, hmap, hall, ← hmap]

theorem Workspace.Shares.answer_on {r : Runtime} (h : w.Shares fn s r.engine g)
    (hr : w.runtimes[s.runtime]? = some r) {args : List HostValue} (hplain : s.Plain args) :
    (w.answer fn args).toOption = s.answerOn r.engine g r.engine.host runFuel args := by
  unfold Function.answerOn
  cases hpass : s.passes args with
  | none => exact h.answer_none hplain hpass
  | some words => exact congrArg Except.toOption (h.answer_at hr hpass)

/-- Calls of local code are independent of one another, as long as there is room for
their frames and no string stands for a pointer. The run of a call is the same on all
hosts, and so it is beside others, in whatever order their steps are taken. Many calls
answer what each of them answers, one after the other and at the same time, and fail if
and only if one of them does. -/
theorem Workspace.Calls.independent {target : Target} {r : Runtime} (hu : target.Usual)
    (ha : target.Aligned) (hb : r.engine.Built target) (h : w.Calls fn s r g)
    (hready : g.compiled = true) (hlocal : r.engine.StaysLocal g) (hfits : r.engine.FramesFit g)
    (hdone : s.compiled = true) (hparams : g.params.length = s.params.length)
    (hreps : s.paramReps.length = s.params.length) :
    (∀ (host host' : Host) words fuel, host.memory.Serves r.engine.target.ptrSize →
      host'.memory.Serves r.engine.target.ptrSize → words.length = g.params.length →
      SameRun (Machine.call r.engine fuel host g words) (Machine.call r.engine fuel host' g words)) ∧
    (∀ jobs (host alone : Host) schedule (k : Nat) words ending, r.engine.Allows jobs →
      host.memory.Serves r.engine.target.ptrSize → alone.memory.Serves r.engine.target.ptrSize →
      jobs[k]? = some ⟨g, some words⟩ →
      ((Crew.start host jobs).after r.engine jobs schedule).strands[k]? = some (.ended ending) →
      ending.isNoRoom = true ∨ Machine.NoRoomAfter r.engine g words alone schedule.length ∨
        ∀ fuel, (Machine.call r.engine (schedule.length + fuel) alone g words).1 = ending) ∧
    ∀ sets, (∀ args ∈ sets, s.Plain args) →
      (∀ args ∈ sets,
        (w.answer fn args).toOption = s.answerOn r.engine g r.engine.host runFuel args) ∧
      (∀ parent, Full ((BuildM.callMany fn sets parent).run w :
          Except Stop (List HostValue) × Workspace).1 ∨
        (∃ args ∈ sets, Full (w.answer fn args)) ∨
        ((BuildM.callMany fn sets parent).run w :
            Except Stop (List HostValue) × Workspace).1.toOption =
          sets.mapM fun args => (w.answer fn args).toOption) ∧
      ∀ schedule c, (Crew.start r.engine.host (s.jobs g sets)).after r.engine (s.jobs g sets)
          schedule = c → c.Idle → ∀ fuel,
        c.AnyFull r.engine s g r.engine.host schedule.length sets ∨
          c.answers s = sets.mapM (s.answerOn r.engine g r.engine.host (schedule.length + fuel)) := by
  have h0 : target.ptrSize ≠ 0 := by rcases hu with h | h <;> simp [h]
  obtain ⟨htarget, hshape⟩ := hb.shape h0
  have hserves : r.engine.host.memory.Serves r.engine.target.ptrSize := by
    rw [htarget]
    exact hshape
  have hcode : r.engine.Shares g :=
    hb.typed.shares (htarget ▸ hu) (htarget ▸ ha) h.func hlocal hfits
  have hshares : w.Shares fn s r.engine g :=
    ⟨⟨h.function, r, h.runtime, Std.Refl.refl _, hserves⟩, h.func, hcode, hready, hdone, hparams, hreps⟩
  refine ⟨fun _ _ _ fuel hs hs' hlen => hcode.same_run hs hs' hlen fuel,
    fun _ _ _ _ _ _ _ hallows hs halone hjob => Crew.ends_as_alone hallows hs halone hjob, ?_⟩
  exact fun sets hplain => ⟨fun args hargs => hshares.answer_on h.runtime (hplain args hargs),
    hshares.callMany_answers hplain, fun _ _ => hshares.crew_answers hserves hserves⟩

end

def summer : Function where
  runtime := 0
  id := 1
  sig := { owner := some 0, id := 18, kind := .signature }
  ret := Builtin.int32.ty 0
  params := [Builtin.int32.ty 0]
  paramReps := [Builtin.int32.rep .i386]
  retRep := Builtin.int32.rep .i386
  compiled := true

def summingHost (e : Engine) : Workspace where
  runtimes := #[{ engine := e }]
  functions := #[summer]

theorem calls_summingHost {e : Engine} {g : Func} (hg : e.findFunc 1 = .ok g) :
    (summingHost e).Calls 0 summer { engine := e } g := ⟨rfl, rfl, hg⟩

theorem summing_independent :
    ∃ g, (summingHost summing).Calls 0 summer { engine := summing } g ∧ 0 < g.frameSize ∧
      (∀ fuel, SameRun (Machine.call summing fuel summing.host g [100])
        (Machine.call summing fuel (Engine.create .i386 0 0 (.seeded 1) 0).host g [100])) ∧
      (Full ((BuildM.callMany 0 [[.int .int64 5], [.int .int64 4]] 0).run (summingHost summing) :
          Except Stop (List HostValue) × Workspace).1 ∨
        (∃ args ∈ [[.int .int64 5], [.int .int64 4]], Full ((summingHost summing).answer 0 args)) ∨
        ((BuildM.callMany 0 [[.int .int64 5], [.int .int64 4]] 0).run (summingHost summing) :
            Except Stop (List HostValue) × Workspace).1.toOption =
          [[.int .int64 5], [.int .int64 4]].mapM fun args =>
            ((summingHost summing).answer 0 args).toOption) := by
  have hcheck : ((summing.findFunc 1).toOption.any fun g => g.isLone 1 && 0 < g.frameSize) = true := by
    decide +kernel
  simp only [any_toOption, Bool.and_eq_true, decide_eq_true_eq] at hcheck
  obtain ⟨g, hg, hlone, hpos⟩ := hcheck
  obtain ⟨hready, hone, hlocal, hfits⟩ := Engine.stays_lone hg hlone
  have hb : summing.Built .i386 := ⟨_, _, _, _, _, rfl⟩
  have hb' : (Engine.create .i386 0 0 (.seeded 1) 0).Built .i386 := ⟨0, 0, .seeded 1, 0, [], rfl⟩
  have hplain : ∀ args, summer.Plain args := by
    rintro args ⟨p, a⟩ hp hkind
    obtain rfl : p = (Builtin.int32.ty 0, Builtin.int32.rep .i386) :=
      List.mem_singleton.mp (List.of_mem_zip hp).1
    cases hkind
  -- the engine is too large a term to be looked into from here on
  generalize summing = e at hg hlocal hfits hb ⊢
  obtain ⟨hsame, -, hmany⟩ := Workspace.Calls.independent (.inl rfl) (by decide) hb
    (calls_summingHost hg) hready hlocal hfits rfl hone rfl
  have ht := (hb.shape (by decide)).1
  refine ⟨g, calls_summingHost hg, hpos, fun fuel => hsame _ _ _ fuel ?_ ?_ hone.symm,
    (hmany _ fun args _ => hplain args).2.1 0⟩
  · show Memory.Serves e.target.ptrSize _
    rw [ht]
    exact (hb.shape (by decide)).2
  · show Memory.Serves e.target.ptrSize _
    rw [ht]
    exact (hb'.shape (by decide)).2

/-! ### Frames that do not hold their slots -/

/-- A function with a struct of 16 bytes, one of 2^32 bytes, one more of 16 bytes, and
four that take what is left of 2^64 bytes. The third is copied to the first, and 5 is
returned. -/
def nextDoor : Engine :=
  (Engine.create .amd64 0 0 (.seeded 1) 0).after
    [[.createContext, .buildStart 1, .structType [Builtin.uint8.id, Builtin.uint8.id]],
      doublings 18 61,
      [.structType ((List.range 30).map (78 - ·)), .signatureType 0 Builtin.int32.id [],
        .createFunction 1 81 "near"],
      [21, 49, 21, 79, 79, 79, 80].map (.createValue 1),
      [.constInt 1 Builtin.int32.id 5, .store 1 1 3, .ret 1 8, .compile 1]].flatten

def Func.twice (g : Func) : List Job := [⟨g, some []⟩, ⟨g, some []⟩]

def Strand.ending? : Strand → Option RunEnd
  | .ended r => some r
  | _ => none

/-- The frame has 32 bytes, and the third struct lies 2^32 bytes further on, where the
frame of the next call is: the call fails alone and ends well beside another. -/
theorem next_frame_read :
    ∃ g, nextDoor.Built .amd64 ∧ nextDoor.findFunc 1 = .ok g ∧ g.compiled = true ∧
      nextDoor.StaysLocal g ∧ ¬ nextDoor.FramesFit g ∧
      (Machine.call nextDoor 10 nextDoor.host g []).1.code? = some 2002 ∧
      ((Crew.start nextDoor.host g.twice).after nextDoor g.twice [0, 1, 0, 0, 0]).strands[0]?.bind
        Strand.ending? = some (.result 5) := by
  have hcheck : ((nextDoor.findFunc 1).toOption.any fun g => g.compiled && g.callsOnly 1 &&
      g.insns.all (fun i => i.op.isLocal) && !decide g.FrameFits &&
      (Machine.call nextDoor 10 nextDoor.host g []).1.code? == some 2002 &&
      ((Crew.start nextDoor.host g.twice).after nextDoor g.twice [0, 1, 0, 0, 0]).strands[0]?.bind
        Strand.ending? == some (.result 5)) = true := by decide +kernel
  simp only [any_toOption, Bool.and_eq_true, Array.all_eq_true_iff_forall_mem,
    Bool.not_eq_true', decide_eq_false_iff_not, beq_iff_eq] at hcheck
  obtain ⟨g, hg, ⟨⟨⟨⟨hc, hself⟩, hlocal⟩, hunfit⟩, halone⟩, hbeside⟩ := hcheck
  refine ⟨g, ⟨_, _, _, _, _, rfl⟩, hg, hc, fun f hf => ?_, fun hfits => hunfit ?_, halone, hbeside⟩
  · rw [Engine.reaches_self hg hself hf]
    exact hlocal
  · exact hfits g .refl hc

/-! ### Strings -/

def echoing : Workspace :=
  ((building.after (BuildM.startFunction 0 [Builtin.stringz.ty 0] (Builtin.stringz.ty 0))).after
    (do BuildM.ret 0 (.value (← BuildM.arg 0 0)))).after (BuildM.compile 0)

/-- Every call has a string of its own, and this function gives back where it is. -/
theorem echoing_differs :
    ∃ s r g, echoing.Calls 0 s r g ∧ g.compiled = true ∧ s.compiled = true ∧
      r.engine.StaysLocal g ∧ r.engine.FramesFit g ∧
      echoing.answer 0 [.str [97]] matches .ok (.int .uint64 0x100000000) ∧
      ((BuildM.callMany 0 [[.str [97]], [.str [97]]] 0).run echoing :
          Except Stop (List HostValue) × Workspace).1 matches
        .ok [.int .uint64 0x100000000, .int .uint64 0x200000000] := by
  have hcheck : (∃ s ∈ echoing.functions[(0 : Nat)]?, ∃ r ∈ echoing.runtimes[s.runtime]?,
      ((r.engine.findFunc s.id).toOption.any fun g => g.isLone s.id) = true ∧ s.compiled = true) ∧
      (echoing.answer 0 [.str [97]] matches .ok (.int .uint64 0x100000000)) ∧
      ((BuildM.callMany 0 [[.str [97]], [.str [97]]] 0).run echoing :
        Except Stop (List HostValue) × Workspace).1 matches
          .ok [.int .uint64 0x100000000, .int .uint64 0x200000000] := by decide +kernel
  obtain ⟨⟨s, hs, r, hr, hg, hdone⟩, hanswer, hmany⟩ := hcheck
  obtain ⟨g, hg, hlone⟩ := any_toOption.mp hg
  obtain ⟨hready, -, hlocal, hfits⟩ := Engine.stays_lone hg hlone
  exact ⟨s, r, g, ⟨hs, hr, hg⟩, hready, hdone, hlocal, hfits, hanswer, hmany⟩

end TypedIR
