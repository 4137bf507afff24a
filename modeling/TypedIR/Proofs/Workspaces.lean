import TypedIR.Proofs.Outcome
import TypedIR.Build.Function

/-
  How operations of the builder move its workspace.

  A workspace changes in a few places only: in the engine of a runtime, in its
  trace, and in the tables of contexts, builds and functions. A step relation
  of workspaces that follows one of engines is kept by everything that works
  through the engine alone.
-/

namespace TypedIR

variable {α β : Type}

/-- The workspace in which a runtime has another engine and other spans, and
the tracers have seen something. -/
def Workspace.advance (w : Workspace) (rt : RuntimeId) (r : Runtime) (e : Engine)
    (spans : List Trace.Span) (tracing : Trace.Tracing) : Workspace :=
  { w with tracing, runtimes := w.runtimes.setIfInBounds rt { r with engine := e, spans } }

namespace BuildM

/-! ## How the operations run -/

theorem run_runtime (rt : RuntimeId) (w : Workspace) :
    ((runtime rt).run w : Except Stop Runtime × Workspace) =
      ((w.runtimes[rt]?).elim (.error .crashed) .ok, w) := by
  unfold runtime
  rw [run_bind_get]
  cases w.runtimes[rt]? <;> rfl

theorem run_engine (rt : RuntimeId) (w : Workspace) :
    ((engine rt).run w : Except Stop Engine × Workspace) =
      ((w.runtimes[rt]?).elim (.error .crashed) fun r => .ok r.engine, w) := by
  unfold engine
  rw [run_bind, run_runtime]
  cases w.runtimes[rt]? <;> rfl

theorem run_table (rt : RuntimeId) (w : Workspace) :
    ((table rt).run w : Except Stop TypeTable × Workspace) =
      ((w.runtimes[rt]?).elim (.error .crashed) fun r => .ok r.engine.types, w) := by
  unfold table
  rw [run_bind, run_engine]
  cases w.runtimes[rt]? <;> rfl

theorem run_context (c : CtxId) (w : Workspace) :
    ((context c).run w : Except Stop Context × Workspace) =
      ((w.contexts[c]?).elim (.error .crashed) .ok, w) := by
  unfold context
  rw [run_bind_get]
  cases w.contexts[c]? <;> rfl

theorem run_build (b : BuildId) (w : Workspace) :
    ((build b).run w : Except Stop Build × Workspace) =
      ((w.builds[b]?).elim (.error .crashed) .ok, w) := by
  unfold build
  rw [run_bind_get]
  cases w.builds[b]? <;> rfl

theorem run_function (f : FnId) (w : Workspace) :
    ((function f).run w : Except Stop Function × Workspace) =
      ((w.functions[f]?).elim (.error .crashed) .ok, w) := by
  unfold function
  rw [run_bind_get]
  cases w.functions[f]? <;> rfl

theorem ends_context {c : CtxId} {w : Workspace} {k : Context → BuildM α}
    {ok : α → Workspace → Prop} {stop : Stop → Workspace → Prop}
    (hnone : w.contexts[c]? = none → stop .crashed w)
    (hsome : ∀ s, w.contexts[c]? = some s → Ends (k s) w ok stop) :
    Ends (context c >>= k) w ok stop := by
  cases hs : w.contexts[c]? with
  | none =>
    unfold Ends
    rw [run_bind, run_context, hs]
    exact hnone hs
  | some s => exact Ends.bind_ok (by rw [run_context, hs]; rfl) (hsome s hs)

theorem ends_build {b : BuildId} {w : Workspace} {k : Build → BuildM α}
    {ok : α → Workspace → Prop} {stop : Stop → Workspace → Prop}
    (hnone : w.builds[b]? = none → stop .crashed w)
    (hsome : ∀ t, w.builds[b]? = some t → Ends (k t) w ok stop) :
    Ends (build b >>= k) w ok stop := by
  cases ht : w.builds[b]? with
  | none =>
    unfold Ends
    rw [run_bind, run_build, ht]
    exact hnone ht
  | some t => exact Ends.bind_ok (by rw [run_build, ht]; rfl) (hsome t ht)

theorem run_onEngineState {rt : RuntimeId} {w : Workspace} {r : Runtime}
    (hr : w.runtimes[rt]? = some r) (act : Engine → α × Engine) :
    ∃ spans tracing, ((onEngineState rt act).run w : Except Stop α × Workspace) =
      (.ok (act r.engine).1,
        w.advance rt r { (act r.engine).2 with notes := #[] } spans tracing) := by
  unfold onEngineState
  rw [run_bind, run_runtime, hr]
  refine ⟨(Workspace.record w r (act r.engine).2.notes.toList).1,
    (Workspace.record w r (act r.engine).2.notes.toList).2, ?_⟩
  unfold Workspace.advance
  rw [← Array.setIfInBounds_setIfInBounds default]
  rfl

theorem run_onEngineState_none {rt : RuntimeId} {w : Workspace} (hr : w.runtimes[rt]? = none)
    (act : Engine → α × Engine) :
    ((onEngineState rt act).run w : Except Stop α × Workspace) = (.error .crashed, w) := by
  unfold onEngineState
  rw [run_bind, run_runtime, hr]
  rfl

theorem ends_operation {rt : RuntimeId} {w : Workspace} {r : Runtime} {act : EngineM α}
    {ok : α → Engine → Prop} {stop : Failure → Engine → Prop} (op : String)
    (hr : w.runtimes[rt]? = some r) (h : Ends act r.engine ok stop) :
    Ends (onEngine rt op act) w
      (fun a w' => ∃ e spans tracing, ok a e ∧
        w' = w.advance rt r { e with notes := #[] } spans tracing)
      (fun how w' => ∃ err e spans tracing, how = .problem (.engine op err) ∧ stop err e ∧
        w' = w.advance rt r { e with notes := #[] } spans tracing) := by
  obtain ⟨spans, tracing, hrun⟩ := run_onEngineState hr
    fun e => (act.run e : Except Failure α × Engine)
  unfold Ends at h
  rcases hact : (act.run r.engine : Except Failure α × Engine) with ⟨err | a, e⟩ <;>
    rw [hact] at h hrun
  · exact Ends.bind_ok hrun (Ends.throw' ⟨err, e, spans, tracing, rfl, h, rfl⟩)
  · exact Ends.bind_ok hrun (Ends.pure' ⟨e, spans, tracing, h, rfl⟩)

theorem ends_operation_none {rt : RuntimeId} {w : Workspace} {act : EngineM α} (op : String)
    (hr : w.runtimes[rt]? = none) :
    Ends (onEngine rt op act) w (fun _ _ => False) fun _ w' => w = w' := by
  unfold onEngine tryEngine Ends
  rw [run_bind, run_onEngineState_none hr]

theorem run_trace {rt : RuntimeId} {w : Workspace} {r : Runtime}
    (hr : w.runtimes[rt]? = some r) (n : Trace.Note) :
    ∃ spans tracing, ((trace rt n).run w : Except Stop Unit × Workspace) =
      (.ok (), w.advance rt r r.engine spans tracing) := by
  unfold trace
  rw [run_bind, run_runtime, hr]
  exact ⟨_, _, rfl⟩

def Outcome (ok : α → Workspace → Prop) (stop : Stop → Workspace → Prop) :
    Except Problem α → Workspace → Prop
  | .ok a, w => ok a w
  | .error p, w => stop (.problem p) w

theorem ends_attempt {act : BuildM α} {w : Workspace} {ok : α → Workspace → Prop}
    {stop : Stop → Workspace → Prop} (h : Ends act w ok stop) :
    Ends (attempt act) w (Outcome ok stop)
      fun how w' => (∀ p, how ≠ .problem p) ∧ stop how w' := by
  have hact : Ends (do let a ← act; pure (.ok a)) w (Outcome ok stop) stop :=
    .bind' h fun a w' ha => Ends.pure' ha
  refine .tryCatch' (hact.imp_stop fun how w' hhow => ?_)
  cases how with
  | problem p => exact Ends.pure' hhow
  | panicked => exact Ends.throw' ⟨nofun, hhow⟩
  | crashed => exact Ends.throw' ⟨nofun, hhow⟩

theorem state_attempt (act : BuildM α) (w : Workspace) :
    ((attempt act).run w : Except Stop (Except Problem α) × Workspace).2 =
      (act.run w : Except Stop α × Workspace).2 := by
  unfold attempt
  rw [run_tryCatch, run_bind]
  rcases (act.run w : Except Stop α × Workspace) with ⟨how | a, w'⟩
  · cases how <;> rfl
  · rfl

end BuildM

/-! ## Steps of workspaces and of engines -/

/-- A step relation of workspaces that follows a step relation of engines: when
an engine takes a step, so does the workspace, whatever is traced. -/
class Follows (step : Workspace → Workspace → Prop) (sub : outParam (Engine → Engine → Prop)) :
    Prop where
  advance : ∀ {w : Workspace} {rt : RuntimeId} {r : Runtime} {e : Engine}
    (spans : List Trace.Span) (tracing : Trace.Tracing), w.runtimes[rt]? = some r →
    sub r.engine e → step w (w.advance rt r { e with notes := #[] } spans tracing)
  traced : ∀ {w : Workspace} {rt : RuntimeId} {r : Runtime}
    (spans : List Trace.Span) (tracing : Trace.Tracing), w.runtimes[rt]? = some r →
    step w (w.advance rt r r.engine spans tracing)

/-- An operation that asks: it takes the workspace one `step`, and whatever it stops
with is no problem. -/
def Asks {α : Type} (step : Workspace → Workspace → Prop) (act : BuildM α) : Prop :=
  ∀ w, Ends act w (fun _ w' => step w w') fun how w' => step w w' ∧ ∀ p, how ≠ .problem p

namespace Asks

variable {α β : Type} {step : Workspace → Workspace → Prop} {act : BuildM α}

theorem leaves (h : Asks step act) : Leaves step act :=
  fun w => ((h w).imp_stop fun _ _ h => h.1).state

theorem pure' [Std.Refl step] (a : α) : Asks step (pure a : BuildM α) :=
  fun w => Ends.pure' (Std.Refl.refl w)

theorem throw' [Std.Refl step] {how : Stop} (h : ∀ p, how ≠ .problem p) :
    Asks step (throw how : BuildM α) :=
  fun w => Ends.throw' ⟨Std.Refl.refl w, h⟩

theorem bind' [Trans step step step] {k : α → BuildM β} (h : Asks step act)
    (hk : ∀ a, Asks step (k a)) : Asks step (act >>= k) := by
  intro w
  refine .bind' (h w) fun a w₁ h₁ => ?_
  exact (hk a w₁).mono (fun _ _ h₂ => Trans.trans h₁ h₂) fun _ _ h₂ => ⟨Trans.trans h₁ h₂.1, h₂.2⟩

theorem ite' {c : Prop} [Decidable c] {other : BuildM α} (hpos : Asks step act)
    (hneg : Asks step other) : Asks step (if c then act else other) :=
  fun w => .ite' (fun _ => hpos w) fun _ => hneg w

theorem mapM' [Std.Refl step] [Trans step step step] {γ : Type} {f : γ → BuildM β} (xs : List γ)
    (h : ∀ x, Asks step (f x)) : Asks step (xs.mapM f) := by
  induction xs with
  | nil => exact pure' _
  | cons x xs ih =>
    rw [List.mapM_cons]
    exact bind' (h x) fun _ => bind' ih fun _ => pure' _

theorem attempt (h : Leaves step act) : Asks step (BuildM.attempt act) := by
  intro w
  refine (BuildM.ends_attempt (h.ends w)).mono (fun outcome w' h' => ?_) fun how w' h' => ⟨h'.2, h'.1⟩
  cases outcome <;> exact h'

end Asks

namespace BuildM

variable {step : Workspace → Workspace → Prop} {sub : Engine → Engine → Prop}

theorem leaves_attempt {act : BuildM α} (h : Leaves step act) : Leaves step (attempt act) :=
  (Asks.attempt h).leaves

section

variable [Std.Refl step]

theorem asks_runtime (rt : RuntimeId) : Asks step (runtime rt) := by
  intro w
  unfold Ends
  rw [run_runtime]
  cases w.runtimes[rt]? with
  | some r => exact Std.Refl.refl w
  | none => exact ⟨Std.Refl.refl w, nofun⟩

theorem leaves_context (c : CtxId) : Leaves step (context c) := by
  intro w
  rw [run_context]
  exact Std.Refl.refl w

theorem leaves_build (b : BuildId) : Leaves step (build b) := by
  intro w
  rw [run_build]
  exact Std.Refl.refl w

theorem asks_function (f : FnId) : Asks step (function f) := by
  intro w
  unfold Ends
  rw [run_function]
  cases w.functions[f]? with
  | some s => exact Std.Refl.refl w
  | none => exact ⟨Std.Refl.refl w, nofun⟩

theorem leaves_complain (op : String) (c : Complaint) :
    Leaves step (complain op c : BuildM α) :=
  .throw' _

end

variable [Std.Refl step] [Trans step step step]

theorem asks_engine (rt : RuntimeId) : Asks step (engine rt) :=
  .bind' (asks_runtime rt) fun _ => .pure' _

theorem asks_table (rt : RuntimeId) : Asks step (table rt) :=
  .bind' (asks_engine rt) fun _ => .pure' _

theorem leaves_wrapType (rt : RuntimeId) (id : TypeId) : Leaves step (wrapType rt id) := by
  refine .bind' (asks_table rt).leaves fun t => ?_
  cases t.wrap? rt id with
  | some u => exact .pure' u
  | none => exact .throw' _

omit [Trans step step step] in
theorem leaves_onEngineState [Follows step sub] (rt : RuntimeId) {act : Engine → α × Engine}
    (h : ∀ e, sub e (act e).2) : Leaves step (onEngineState rt act) := by
  intro w
  rcases hr : w.runtimes[rt]? with _ | r
  · rw [run_onEngineState_none hr]
    exact Std.Refl.refl w
  · obtain ⟨spans, tracing, hrun⟩ := run_onEngineState hr act
    rw [hrun]
    exact Follows.advance spans tracing hr (h r.engine)

omit [Trans step step step] in
theorem asks_tryEngine [Follows step sub] (rt : RuntimeId) {act : EngineM α}
    (h : Leaves sub act) : Asks step (tryEngine rt act) := by
  intro w
  unfold Ends tryEngine
  cases hr : w.runtimes[rt]? with
  | none =>
    rw [run_onEngineState_none hr]
    exact ⟨Std.Refl.refl w, nofun⟩
  | some r =>
    obtain ⟨spans, tracing, hrun⟩ := run_onEngineState hr
      fun e => (act.run e : Except Failure α × Engine)
    rw [hrun]
    exact Follows.advance spans tracing hr (h r.engine)

theorem leaves_onEngine [Follows step sub] (rt : RuntimeId) (op : String) {act : EngineM α}
    (h : Leaves sub act) : Leaves step (onEngine rt op act) := by
  refine .bind' (asks_tryEngine rt h).leaves fun answer => ?_
  cases answer with
  | ok a => exact .pure' a
  | error f => exact .throw' _

omit [Trans step step step] in
theorem asks_trace [Follows step sub] (rt : RuntimeId) (n : Trace.Note) :
    Asks step (trace rt n) := by
  intro w
  unfold Ends
  cases hr : w.runtimes[rt]? with
  | none =>
    unfold trace
    rw [run_bind, run_runtime, hr]
    exact ⟨Std.Refl.refl w, nofun⟩
  | some r =>
    obtain ⟨spans, tracing, hrun⟩ := run_trace hr n
    rw [hrun]
    exact Follows.traced spans tracing hr

theorem leaves_validParams (i : Nat) (params : List Ty) : Leaves step (validParams i params) := by
  induction params generalizing i with
  | nil => exact .pure' _
  | cons p rest ih =>
    unfold validParams
    refine .ite' (.bind' (leaves_complain _ _) fun _ => ?_) ?_ <;>
      exact .ite' (.bind' (leaves_complain _ _) fun _ => ih _) (ih _)

theorem leaves_signatureTy [Follows step sub] (rt : RuntimeId) (params : List Ty) (ret : Ty)
    (abi : Abi) (h : Leaves sub (EngineM.signatureType abi ret.id (params.map (·.id)))) :
    Leaves step (signatureTy rt params ret abi) := by
  have hmake : Leaves step (do
      validParams 0 params
      let id ← onEngine rt "create" (EngineM.signatureType abi ret.id (params.map (·.id)))
      wrapType rt id) :=
    .bind' (leaves_validParams 0 params) fun _ =>
      .bind' (leaves_onEngine rt "create" h) fun id => leaves_wrapType rt id
  exact .ite' (.bind' (leaves_complain _ _) fun _ => hmake) hmake

end BuildM

end TypedIR
