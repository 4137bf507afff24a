import TypedIR.Proofs.BuildLock

/-
  Clients of the build lock.

  A client makes contexts, starts and ends builds, destroys contexts and runs
  bodies inside builds, where a body is a client again; it sees every answer
  and the whole workspace. The workspace is logged after each complete call,
  also those inside bodies. Throughout the log the three records of who builds
  agree, what was destroyed or ended stays so, ended tokens are powerless, and
  a body's build is over when the body is left, in whatever way.
-/

namespace TypedIR

/-! ## Scripts -/

/-- A complete call that takes no body. -/
inductive LockCall where
  | newRuntime (o : RuntimeOptions)
  | newContext (rt : RuntimeId) (uid : String)
  | buildStart (c : CtxId)
  | buildEnd (c : CtxId)
  | buildFinish (b : BuildId)
  | destroy (c : CtxId)

def LockCall.run : LockCall → BuildM Nat
  | newRuntime o => BuildM.newRuntime o
  | newContext rt uid => BuildM.newContext rt uid
  | buildStart c => BuildM.buildStart c
  | buildEnd c => do BuildM.buildEnd c; pure 0
  | buildFinish b => do BuildM.buildFinish b; pure 0
  | destroy c => do BuildM.destroy c; pure 0

/-- What a client does: it stops at last, well or with a failure or a panic,
and before that makes calls, runs bodies inside builds, and does what the lock
protocol does not see. -/
inductive Script where
  | done
  | stop (how : Stop)
  | call (op : LockCall) (next : Except Stop Nat → Workspace → Script)
  | build (c : CtxId) (body : BuildId → Script) (next : Except Stop Unit → Workspace → Script)
  | other (act : BuildM Unit) (h : Leaves SameLocks act)
      (next : Except Stop Unit → Workspace → Script)

/-- A workspace, and how it was after the calls so far, the last one first. -/
structure Logged where
  now : Workspace
  past : List Workspace

def Logged.states (l : Logged) : List Workspace := l.now :: l.past

abbrev LogM := ExceptT Stop (StateM Logged)

def LogM.complete {α : Type} (act : BuildM α) : LogM α := fun l =>
  let (answer, w) := (act.run l.now : Except Stop α × Workspace)
  (answer, { now := w, past := l.states })

instance : MonadLift BuildM LogM := ⟨LogM.complete⟩

def LogM.outcome {α : Type} (act : LogM α) : LogM (Except Stop α) :=
  tryCatch (Except.ok <$> act) fun stop => pure (.error stop)

def Script.run : Script → LogM Unit
  | done => pure ()
  | stop how => throw how
  | call op next => do
    let answer ← LogM.outcome (op.run : BuildM Nat)
    (next answer (← getThe Logged).now).run
  | build c body next => do
    let answer ← LogM.outcome (BuildM.withBuild c fun b => (body b).run)
    (next answer (← getThe Logged).now).run
  | other act _ next => do
    let answer ← LogM.outcome (act : BuildM Unit)
    (next answer (← getThe Logged).now).run

/-! ## What the log keeps -/

/-- All states of a log are sound, and each is older than those after it. -/
structure Logged.Sound (l : Logged) : Prop where
  sound : ∀ w ∈ l.states, w.locks.Sound
  ages : l.states.Pairwise fun later earlier => earlier.locks.Ages later.locks

theorem Logged.Sound.fresh {w : Workspace} (h : w.locks.Sound) : Logged.Sound ⟨w, []⟩ := by
  refine ⟨?_, List.pairwise_singleton ..⟩
  intro w' hw'
  obtain rfl : w' = w := List.mem_singleton.mp hw'
  exact h

theorem Workspace.sound_empty : ({} : Workspace).locks.Sound := by
  constructor <;> simp [locks]

def Logged.Goes (l l' : Logged) : Prop :=
  l.Sound → l'.Sound ∧ l.now.locks.Ages l'.now.locks

instance : Std.Refl Logged.Goes := ⟨fun l h => ⟨h, .refl l.now.locks⟩⟩

instance : Trans Logged.Goes Logged.Goes Logged.Goes :=
  ⟨fun h h' hl => ⟨(h' (h hl).1).1, (h hl).2.trans (h' (h hl).1).2⟩⟩

namespace LogM

variable {α : Type}

theorem goes_complete {act : BuildM α} (h : Leaves Turns act) :
    Leaves Logged.Goes (complete act) := by
  intro l hl
  have hnow : l.now.locks.Sound := hl.sound l.now (List.mem_cons_self ..)
  have hmoves : l.now.locks.Moves (act.run l.now : Except Stop α × Workspace).2.locks := h l.now hnow
  refine ⟨⟨?_, ?_⟩, hmoves.ages⟩
  · rintro w (_ | ⟨_, hw⟩)
    · exact hmoves.sound hnow
    · exact hl.sound w hw
  · refine List.pairwise_cons.mpr ⟨?_, hl.ages⟩
    rintro w (_ | ⟨_, hw⟩)
    · exact hmoves.ages
    · exact ((List.pairwise_cons.mp hl.ages).1 w hw).trans hmoves.ages

theorem ends_outcome {act : LogM α} (h : Leaves Logged.Goes act) (l : Logged) :
    Ends (outcome act) l (fun _ l' => l.Goes l') (fun _ _ => False) := by
  have hmap : Leaves Logged.Goes (Except.ok <$> act : LogM (Except Stop α)) :=
    .bind' h fun _ => .pure' _
  exact Ends.tryCatch' ((hmap.ends l).mono (fun _ _ h' => h') fun _ _ h' => Ends.pure' h')

theorem goes_outcome {act : LogM α} (h : Leaves Logged.Goes act) :
    Leaves Logged.Goes (outcome act) :=
  .tryCatch' (.bind' h fun _ => .pure' _) fun _ => .pure' _

end LogM

open BuildM LogM

theorem LockCall.turns_run (op : LockCall) : Leaves Turns op.run := by
  cases op with
  | newRuntime o => exact turns_newRuntime o
  | newContext rt uid => exact turns_newContext rt uid
  | buildStart c => exact turns_buildStart c
  | buildEnd c => exact .bind' (turns_buildEnd c) fun _ => .pure' _
  | buildFinish b => exact .bind' (turns_buildFinish b) fun _ => .pure' _
  | destroy c => exact .bind' (turns_destroy c) fun _ => .pure' _

theorem goes_withBuild {α : Type} (c : CtxId) {body : BuildId → LogM α}
    (h : ∀ b, Leaves Logged.Goes (body b)) : Leaves Logged.Goes (withBuild c body) := by
  refine .bind' (goes_complete (turns_buildStart c)) fun b => ?_
  refine .bind' (goes_outcome (h b)) fun outcome => ?_
  refine .bind' (goes_complete (leaves_attempt (turns_buildFinish b))) fun ending => ?_
  cases outcome with
  | error how => exact .throw' how
  | ok a =>
    cases ending with
    | ok _ => exact .pure' a
    | error p =>
      exact .bind' (goes_complete (leaves_context c)) fun s => .ite' (.pure' a) (.throw' _)

theorem Script.goes_run (p : Script) : Leaves Logged.Goes p.run := by
  induction p with
  | done => exact .pure' ()
  | stop how => exact .throw' how
  | call op next ih =>
    exact .bind' (goes_outcome (goes_complete op.turns_run)) fun answer =>
      .bind' .get' fun l => ih answer l.now
  | build c body next ihbody ih =>
    exact .bind' (goes_outcome (goes_withBuild c ihbody)) fun answer =>
      .bind' .get' fun l => ih answer l.now
  | other act hact next ih =>
    exact .bind' (goes_outcome (goes_complete fun w => (hact w).turns)) fun answer =>
      .bind' .get' fun l => ih answer l.now

/-! ## Builds end -/

/-- The build was ended. -/
def Workspace.Ended (w : Workspace) (b : BuildId) : Prop :=
  ∃ t, w.builds[b]? = some t ∧ t.ended

theorem Workspace.Ended.ages {w w' : Workspace} {b : BuildId} (h : w.Ended b)
    (ha : w.locks.Ages w'.locks) : w'.Ended b := by
  obtain ⟨t, ht, hend⟩ := h
  obtain ⟨t', ht', hend'⟩ := ha.build ht
  exact ⟨t', ht', hend' hend⟩

theorem ended_buildFinish {w : Workspace} {b : BuildId} {t : Build} (h : w.locks.Sound)
    (ht : w.builds[b]? = some t) :
    ((attempt (buildFinish b)).run w : Except Stop (Except Problem Unit) × Workspace).2.Ended b := by
  by_cases hend : t.ended
  · have hturns : Leaves Turns (attempt (buildFinish b)) := leaves_attempt (turns_buildFinish b)
    exact Workspace.Ended.ages ⟨t, ht, hend⟩ (hturns w h).ages
  · have hactive : t.ended = false := Bool.eq_false_iff.mpr hend
    obtain ⟨q, hq, -⟩ := h.active ht
    obtain ⟨s, hs, rfl⟩ : ∃ s, w.contexts[t.ctx]? = some s ∧ s.lock = q := by
      simpa [Workspace.contexts_locks] using hq
    obtain ⟨r, hr, -⟩ := home h hs
    have hfinish : (((buildFinish b).run w : Except Stop Unit × Workspace).2).locks =
        w.locks.finish t.ctx s.lock r.lock b :=
      ((ends_buildFinish h ht hs hr hactive).mono (fun _ _ h' => h') fun _ _ h' => h'.elim).state
    have hmark : (w.builds.modify b ({ · with ended := true }))[b]? =
        some { t with ended := true } := by
      simp [Array.getElem?_modify, ht]
    rw [state_attempt]
    exact ⟨_, (congrArg (·.builds[b]?) hfinish).trans hmark, rfl⟩

theorem withBuild_ends {α : Type} {c : CtxId} {body : BuildId → LogM α}
    (hbody : ∀ b, Leaves Logged.Goes (body b)) {l : Logged} (hl : l.Sound) {b : BuildId}
    {w : Workspace} (hstart : ((buildStart c).run l.now : Except Stop BuildId × Workspace) = (.ok b, w)) :
    ((withBuild c body).run l : Except Stop α × Logged).2.now.Ended b := by
  have hcomplete : ((complete (buildStart c)).run l : Except Stop BuildId × Logged) =
      (.ok b, ⟨w, l.states⟩) := by
    change (let (answer, w) := ((buildStart c).run l.now : Except Stop BuildId × Workspace)
      (answer, (⟨w, l.states⟩ : Logged))) = _
    rw [hstart]
  have hgoes := goes_complete (turns_buildStart c) l hl
  rw [hcomplete] at hgoes
  have htoken : w.builds[b]? = some { ctx := c } :=
    ((starts (hl.sound l.now (List.mem_cons_self ..))).ok_of_run hstart).2
  have hends : Ends (withBuild c body) l (fun _ l' => l'.now.Ended b)
      (fun _ l' => l'.now.Ended b) := by
    refine Ends.bind_ok hcomplete ?_
    refine Ends.bind' ((ends_outcome (hbody b) _).mono (fun _ _ h' => h') fun _ _ h' => h'.elim)
      fun outcome l₂ h₂ => ?_
    obtain ⟨hl₂, hages⟩ := h₂ hgoes.1
    obtain ⟨t, ht, -⟩ := hages.build htoken
    have hended : ((complete (attempt (buildFinish b))).run l₂ :
        Except Stop (Except Problem Unit) × Logged).2.now.Ended b :=
      ended_buildFinish (hl₂.sound _ (List.mem_cons_self ..)) ht
    refine Ends.bind' (Ends.of_state hended) fun ending l₃ h₃ => ?_
    cases outcome with
    | error how => exact Ends.throw' h₃
    | ok a =>
      cases ending with
      | ok _ => exact Ends.pure' h₃
      | error p =>
        have hasked : ((complete (context c)).run l₃ : Except Stop Context × Logged).2.now.Ended b := by
          change ((context c).run l₃.now : Except Stop Context × Workspace).2.Ended b
          rw [run_context]
          exact h₃
        exact Ends.bind' (Ends.of_state hasked) fun s l₄ h₄ =>
          Ends.ite' (fun _ => Ends.pure' h₄) fun _ => Ends.throw' h₄
  exact hends.state

/-! ## Ended tokens -/

/-- A call on a token. -/
inductive TokenCall where
  | finish
  | active
  | newFunction (name : String) (sig : Ty)
  | startFunction (params : List Ty) (ret : Ty)
  | buildFunction (params : List Ty) (ret : Ty) (body : Option (FnId → BuildM Unit))
  | loadImage (img : Option Image)

def TokenCall.run (b : BuildId) : TokenCall → BuildM Unit
  | finish => buildFinish b
  | active => do let _ ← buildActive b
  | newFunction name sig => do let _ ← BuildM.newFunction b name sig
  | startFunction params ret => do let _ ← BuildM.startFunction b params ret
  | buildFunction params ret body => do let _ ← BuildM.buildFunction b params ret body
  | loadImage img => do let _ ← BuildM.loadImage b img

variable {w : Workspace} {b : BuildId}

theorem Workspace.Ended.checkActive (h : w.Ended b) (op : String) :
    Ends (checkActive b op) w (fun _ _ => False) (fun _ w' => w' = w) := by
  obtain ⟨t, ht, hend⟩ := h
  unfold BuildM.checkActive
  refine Ends.bind_ok (by rw [run_build, ht]; rfl) ?_
  refine Ends.ite' (fun _ => ?_) fun hactive => absurd hend hactive
  exact ends_context (fun _ => rfl) fun _ _ => Ends.bind_throw rfl

theorem Workspace.Ended.newFunction (h : w.Ended b) (name : String) (sig : Ty) :
    Ends (BuildM.newFunction b name sig) w (fun _ _ => False) (fun _ w' => w' = w) :=
  (h.checkActive "function").stopped

theorem Workspace.Ended.startFunction (h : w.Ended b) (params : List Ty) (ret : Ty) :
    Ends (BuildM.startFunction b params ret) w (fun _ _ => False) (fun _ w' => SameLocks w w') := by
  unfold BuildM.startFunction
  refine ends_build (fun _ => rfl) fun t _ => ?_
  refine ends_context (fun _ => rfl) fun s _ => ?_
  refine Ends.bind' ((sameLocks_signatureTy _ _ _ _).ends w) fun sig w' hsame => ?_
  have hend : w'.Ended b := h.ages (hsame ▸ .refl w.locks)
  exact (hend.newFunction "" sig).mono (fun _ _ h' => h') fun _ _ h' => h' ▸ hsame

theorem TokenCall.powerless (op : TokenCall) (h : w.Ended b) :
    SameLocks w ((op.run b).run w : Except Stop Unit × Workspace).2 := by
  have hends : Ends (op.run b) w (fun _ w' => SameLocks w w') (fun _ w' => SameLocks w w') := by
    cases op with
    | finish =>
      obtain ⟨t, ht, hend⟩ := h
      refine Ends.bind_ok (by rw [run_build, ht]; rfl) ?_
      refine ends_context (fun _ => rfl) fun s _ => ?_
      exact Ends.ite' (fun _ => Ends.bind_throw rfl) fun hactive => absurd hend hactive
    | active =>
      exact Ends.bind' (ends_build (fun _ => rfl) fun t _ => Ends.pure' rfl) fun _ _ h' => Ends.pure' h'
    | newFunction name sig =>
      exact (h.newFunction name sig).stopped.mono (fun _ _ h' => h') fun _ _ h' => h' ▸ rfl
    | startFunction params ret => exact (h.startFunction params ret).stopped
    | buildFunction params ret body =>
      have hstart : Ends (BuildM.buildFunction b params ret body) w (fun _ _ => False)
          (fun _ w' => SameLocks w w') := (h.startFunction params ret).stopped
      exact hstart.stopped
    | loadImage img =>
      have hcheck : Ends (BuildM.loadImage b img) w (fun _ _ => False)
          (fun _ w' => w' = w) := (h.checkActive "load_image").stopped
      exact hcheck.stopped.mono (fun _ _ h' => h') fun _ _ h' => h' ▸ rfl
  exact hends.state

/-! ## The protocol -/

/-- The holder of the lock, the build of each context and the engine's cursor
say the same, and a destroyed context does not build. -/
structure Workspace.InStep (w : Workspace) : Prop where
  home : ∀ (c : CtxId) (s : Context), w.contexts[c]? = some s → ∃ r, w.runtimes[s.runtime]? = some r
  holder : ∀ (c : CtxId) (s : Context) (r : Runtime), w.contexts[c]? = some s →
    w.runtimes[s.runtime]? = some r → (r.holder = some c ↔ s.build.isSome)
  cursor : ∀ (c : CtxId) (s : Context) (r : Runtime), w.contexts[c]? = some s →
    w.runtimes[s.runtime]? = some r → (r.engine.building = s.id ↔ s.build.isSome)
  single : ∀ (c c' : CtxId) (s s' : Context), w.contexts[c]? = some s →
    w.contexts[c']? = some s' → s.runtime = s'.runtime → s.build.isSome → s'.build.isSome → c = c'

theorem Locks.Sound.inStep (h : w.locks.Sound) : w.InStep := by
  have hctx : ∀ {c : CtxId} {s : Context}, w.contexts[c]? = some s →
      w.locks.contexts[c]? = some s.lock :=
    fun hs => by simp [Workspace.contexts_locks, hs]
  have hrun : ∀ {rt : RuntimeId} {r : Runtime}, w.runtimes[rt]? = some r →
      w.locks.runtimes[rt]? = some r.lock :=
    fun hr => by simp [Workspace.runtimes_locks, hr]
  have hheld : ∀ {c : CtxId} {s : Context} {r : Runtime}, w.contexts[c]? = some s →
      w.runtimes[s.runtime]? = some r → s.build.isSome → r.holder = some c := by
    intro c s r hs hr hb
    obtain ⟨b, hb⟩ := Option.isSome_iff_exists.mp hb
    exact (building h hs hr hb).1
  constructor
  · intro c s hs
    obtain ⟨r, hr, -⟩ := BuildM.home h hs
    exact ⟨r, hr⟩
  · intro c s r hs hr
    refine ⟨fun hc => ?_, hheld hs hr⟩
    obtain ⟨hnone, -⟩ | ⟨d, t, hd, ht, -, hb, -⟩ := h.holder (hrun hr)
    · exact absurd (hc.symm.trans hnone) (by simp)
    · obtain rfl : c = d := Option.mem_unique hc hd
      obtain rfl : s.lock = t := Option.mem_unique (hctx hs) ht
      exact hb
  · intro c s r hs hr
    constructor
    · intro hid
      obtain ⟨-, hzero⟩ | ⟨d, t, -, ht, hrt, hb, hcur⟩ := h.holder (hrun hr)
      · exact absurd (hid.symm.trans hzero) (h.home (hctx hs)).choose_spec.2.1
      · obtain rfl : c = d := h.apart (hctx hs) ht hrt.symm (hid.symm.trans hcur)
        obtain rfl : s.lock = t := Option.mem_unique (hctx hs) ht
        exact hb
    · intro hb
      obtain ⟨b, hb⟩ := Option.isSome_iff_exists.mp hb
      exact (building h hs hr hb).2
  · intro c c' s s' hs hs' hrt hb hb'
    obtain ⟨r, hr, -⟩ := BuildM.home h hs
    exact Option.mem_unique (hheld hs hr hb) (hheld hs' (hrt ▸ hr) hb')

/-- What a later state still knows of an earlier one: a destroyed context
never holds the lock of its runtime again, and an ended build stays so. -/
structure Workspace.Outlives (earlier later : Workspace) : Prop where
  destroyed : ∀ (c : CtxId) (s : Context), earlier.contexts[c]? = some s → s.destroyed →
    ∀ r ∈ later.runtimes, r.holder ≠ some c
  ended : ∀ b : BuildId, earlier.Ended b → later.Ended b

theorem Locks.Ages.outlives {earlier later : Workspace} (h : earlier.locks.Ages later.locks)
    (hlater : later.locks.Sound) : earlier.Outlives later := by
  refine ⟨?_, fun b hb => hb.ages h⟩
  intro c s hs hdest r hr hheld
  obtain ⟨rt, hrt⟩ := Array.getElem?_of_mem hr
  have hsl : earlier.locks.contexts[c]? = some s.lock := by simp [Workspace.contexts_locks, hs]
  have hrl : later.locks.runtimes[rt]? = some r.lock := by simp [Workspace.runtimes_locks, hrt]
  obtain ⟨t, ht, hgone⟩ := h.context hsl
  obtain ⟨hnone, -⟩ | ⟨d, u, hd, hu, -, hb, -⟩ := hlater.holder hrl
  · exact absurd (hheld.symm.trans hnone) (by simp)
  · obtain rfl : c = d := Option.mem_unique hheld hd
    obtain rfl : t = u := Option.mem_unique ht hu
    rw [hlater.gone ht (hgone hdest)] at hb
    exact absurd hb (by simp)

/-- The build lock, whatever a client does with it. In the log of every script
the records of who builds agree after each call, what was destroyed or ended
stays so; and at each state of the log, a call on an ended token changes
nothing that the lock protocol sees, and a build that runs a body, whatever
the body does, is over when it is left. -/
theorem Script.build_lock (p : Script) :
    let log := (p.run.run ⟨{}, []⟩ : Except Stop Unit × Logged).2.states
    (∀ w ∈ log, w.InStep) ∧
    log.Pairwise (fun later earlier => earlier.Outlives later) ∧
    (∀ w ∈ log, ∀ b, w.Ended b → ∀ op : TokenCall,
      SameLocks w ((op.run b).run w : Except Stop Unit × Workspace).2) ∧
    (∀ w ∈ log, ∀ (c : CtxId) (body : BuildId → Script) (b : BuildId) (w' : Workspace),
      ((buildStart c).run w : Except Stop BuildId × Workspace) = (.ok b, w') →
      ((withBuild c fun b => (body b).run).run ⟨w, []⟩ : Except Stop Unit × Logged).2.now.Ended b) := by
  intro log
  have hlog := (p.goes_run _ (Logged.Sound.fresh Workspace.sound_empty)).1
  refine ⟨fun w hw => (hlog.sound w hw).inStep, ?_, fun w _ b hend op => op.powerless hend, ?_⟩
  · exact hlog.ages.imp_of_mem fun hlater _ hages => hages.outlives (hlog.sound _ hlater)
  · intro w hw c body b w' hb
    exact withBuild_ends (fun b => (body b).goes_run) (.fresh (hlog.sound w hw)) hb

/-- A context destroys itself inside its build, another one builds, and the
body panics. -/
def Script.handover : Script :=
  .call (.newRuntime {}) fun _ _ => .call (.newContext 0 "first") fun _ _ =>
  .call (.newContext 0 "second") fun _ _ =>
  .build 0 (fun _ => .call (.destroy 0) fun _ _ => .call (.buildStart 1) fun _ _ => .stop .panicked)
    fun _ _ => .done

theorem Script.handover_locked :
    let l := (handover.run.run ⟨{}, []⟩ : Except Stop Unit × Logged).2
    l.now.builds.map (·.ended) = #[true, false] ∧ l.now.runtimes.map (·.holder) = #[some 1] ∧
      ∀ w ∈ l.states, w.InStep := by
  have hrun : (handover.run.run ⟨{}, []⟩ : Except Stop Unit × Logged).2.now.builds.map (·.ended) =
        #[true, false] ∧
      (handover.run.run ⟨{}, []⟩ : Except Stop Unit × Logged).2.now.runtimes.map (·.holder) =
        #[some 1] := by decide +kernel
  exact ⟨hrun.1, hrun.2, handover.build_lock.1⟩

end TypedIR
