import TypedIR.Proofs.StructuredPrograms
import TypedIR.Proofs.HostedBuilds
import TypedIR.Proofs.TypeParts

/-
  Functions that were started.

  Starting a function makes its signature, an engine function with the parameters, and
  the function of the builder that stands for it. Each of the three can fail. Where none
  does, the function has the signature that was asked for, and its parameters and its
  result are held as their types are (`Function.Started`), whatever was asked of the
  engine before: an engine that answers wrongly refuses, and does not misinform.

  A started function of integers can be built further (`Function.Started.drafts`).
-/

namespace TypedIR

/-! ## The function of the engine -/

theorem EngineM.ends_repOf_right {e : Engine} (he : e.Founded) (type : TypeId) :
    Ends (repOf type) e (fun r e' => e.Ponders e' ∧ e.types.HasRep e.target type r)
      fun _ _ => True := by
  have hponders : Leaves Engine.Ponders (repOf type) := quiet_repOf type
  have hright : Ends (repOf type) e (fun r _ => e.types.HasRep e.target type r) fun _ _ => True := by
    have hfound := (TypeTable.findRep_right he.tables.ordered type he.tables.honest).1
    have htables : e.tables.types = e.types ∧ e.tables.target = e.target := ⟨rfl, rfl⟩
    rw [htables.1, htables.2] at hfound
    refine .bind_get ?_
    generalize hrun : (e.types.findRep e.target type).run e.layouts = answered
    obtain ⟨c | r, layouts⟩ := answered
    · exact .bind_set (.throw' trivial)
    · exact .bind_set (.pure' (hfound r (congrArg Prod.fst hrun)))
  exact ((hponders.ends e).and' hright).imp_stop fun _ _ _ => trivial

theorem Engine.Ponders.founded {e e' : Engine} (h : e.Ponders e') (he : e.Founded) : e'.Founded :=
  (h.1 he).1

theorem Engine.Ponders.target {e e' : Engine} (h : e.Ponders e') (he : e.Founded) :
    e'.target = e.target :=
  (h.1 he).2.target

namespace EngineM

variable {e : Engine}

theorem ends_paramReps_right (he : e.Founded) (i : Nat) (params : List TypeId) :
    Ends (paramReps i params) e
      (fun reps e' => e.Ponders e' ∧ List.Forall₂ (e.types.HasRep e.target) params reps)
      fun _ _ => True := by
  induction params generalizing e i with
  | nil => exact .pure' ⟨Std.Refl.refl e, .nil⟩
  | cons p rest ih =>
    refine .bind' (ends_repOf_right he p) ?_
    rintro r e₁ ⟨h₁, hr⟩
    refine .ite' (fun _ => .bind_get (.bind_throw trivial)) fun _ => ?_
    refine .bind' (ih (h₁.founded he) (i + 1)) ?_
    rintro reps e₂ ⟨h₂, hreps⟩
    rw [h₁.2.2, h₁.target he] at hreps
    exact .pure' ⟨Trans.trans h₁ h₂, .cons hr hreps⟩

theorem ends_createFunction_right (he : e.Founded) (ctx : ContextId) (sig : TypeId) (name : String) :
    Ends (createFunction ctx sig name) e (fun id e' => e'.Founded ∧ e'.target = e.target ∧
      e'.types = e.types ∧ ∃ g ret reps name', e.types.signature? sig = some g ∧
        e.types.HasRep e.target g.result ret ∧
        List.Forall₂ (e.types.HasRep e.target) g.params reps ∧
        e'.findFunc id = .ok (.fresh id ctx name' sig ret (g.params.zip reps))) fun _ _ => True := by
  have hrests : Ends (createFunction ctx sig name) e (fun _ e' => e'.Founded) fun _ _ => True :=
    ((rests_createFunction ctx sig name).ends e).mono (fun _ _ h => (h he).1) fun _ _ _ => trivial
  have hmade : Ends (createFunction ctx sig name) e (fun id e' => e'.target = e.target ∧
      e'.types = e.types ∧ ∃ g ret reps name', e.types.signature? sig = some g ∧
        e.types.HasRep e.target g.result ret ∧
        List.Forall₂ (e.types.HasRep e.target) g.params reps ∧
        e'.findFunc id = .ok (.fresh id ctx name' sig ret (g.params.zip reps))) fun _ _ => True := by
    refine .bind_get ?_
    cases hsig : e.types.signature? sig with
    | none => exact .throw' trivial
    | some g =>
      refine .bind' (ends_repOf_right he g.result) ?_
      rintro ret e₁ ⟨h₁, hret⟩
      refine .ite' (fun _ => .bind_throw trivial) fun _ => ?_
      refine .bind' (ends_paramReps_right (h₁.founded he) 0 g.params) ?_
      rintro reps e₂ ⟨h₂, hreps⟩
      rw [h₁.2.2, h₁.target he] at hreps
      have hcontext : Leaves Engine.Ponders (liveContext ctx) := quiet_liveContext ctx
      refine .bind' ((hcontext.ends e₂).imp_stop fun _ _ _ => trivial) fun _ e₃ h₃ => ?_
      have hponders : e.Ponders e₃ := Trans.trans (Trans.trans h₁ h₂) h₃
      refine .bind_get (.ite' (fun _ => .bind_throw trivial) fun _ => .bind_get ?_)
      refine .bind_modify (.bind_modify (.pure' ⟨hponders.target he, hponders.2.2, g, ret, reps,
        if name = "" then EngineM.defaultName (e₃.funcs.size + 1) else name, rfl, hret, hreps, ?_⟩))
      simp [Engine.findFunc, Engine.func?, Func.fresh, List.length_mapIdx]
  exact (hrests.and' hmade).imp_stop fun _ _ _ => trivial

end EngineM

/-! ## The function of the builder -/

/-- A function of the builder that was started, and the function of the engine that it
stands for. -/
structure Function.Started (s : Function) (e : Engine) (f : Func) (params : List TypeId)
    (result : TypeId) : Prop where
  founded : e.Founded
  func : e.findFunc s.id = .ok f
  fresh : ∃ ctx name sig abi, f = .fresh s.id ctx name sig s.retRep (params.zip s.paramReps) ∧
    e.types.signature? sig = some { abi, params, result }
  paramReps : List.Forall₂ (e.types.HasRep e.target) params s.paramReps
  retRep : e.types.HasRep e.target result s.retRep
  params : params.mapM (e.types.wrap? s.runtime) = some s.params
  ret : e.types.wrap? s.runtime result = some s.ret
  problem : s.problem = none
  breaks : s.breaks = []
  compiled : s.compiled = false

theorem Workspace.Founded.advance {w : Workspace} (hw : w.Founded) {rt : RuntimeId} {r : Runtime}
    {e : Engine} (spans : List Trace.Span) (tracing : Trace.Tracing)
    (hr : w.runtimes[rt]? = some r) (he : e.Founded) :
    (w.advance rt r { e with notes := #[] } spans tracing).Founded := by
  intro k r' hr'
  rw [getElem?_advance _ spans tracing hr] at hr'
  split at hr'
  · obtain rfl := Option.some.inj hr'
    exact ⟨he.tables, he.values⟩
  · exact hw k r' hr'

/-- The engine of the runtime has the types and the function. -/
structure Workspace.Bears (w : Workspace) (rt : RuntimeId) (target : Target) (t : TypeTable)
    (id : FuncId) (f : Func) : Prop where
  founded : w.Founded
  engine : ∃ r, w.runtimes[rt]? = some r ∧ r.engine.target = target ∧ r.engine.types = t ∧
    r.engine.findFunc id = .ok f

namespace BuildM

variable {w : Workspace} {rt : RuntimeId} {target : Target} {t : TypeTable} {id : FuncId} {f : Func}
  {α : Type}

theorem ends_grounded {r : Runtime} {act : EngineM α} {post : α → Engine → Prop} (op : String)
    (hw : w.Founded) (hr : w.runtimes[rt]? = some r)
    (h : Ends act r.engine (fun a e => e.Founded ∧ post a e) fun _ _ => True) :
    Ends (onEngine rt op act) w (fun a w' => w'.Founded ∧ w'.contexts = w.contexts ∧
      w'.functions = w.functions ∧ ∃ r', w'.runtimes[rt]? = some r' ∧ ∃ e, post a e ∧
        r'.engine = { e with notes := #[] }) fun _ _ => True := by
  refine (ends_operation op hr h).mono ?_ fun _ _ _ => trivial
  rintro a _ ⟨e, spans, tracing, ⟨hfounded, hpost⟩, rfl⟩
  have hr' := Workspace.getElem?_advance { e with notes := #[] } spans tracing hr rt
  rw [if_pos rfl] at hr'
  exact ⟨hw.advance spans tracing hr hfounded, rfl, rfl, _, hr', e, hpost, rfl⟩

theorem ends_repOf_bears (h : w.Bears rt target t id f) (op : String) (type : TypeId) :
    Ends (onEngine rt op (EngineM.repOf type)) w (fun r w' => w'.Bears rt target t id f ∧
      w'.contexts = w.contexts ∧ w'.functions = w.functions ∧ t.HasRep target type r)
      fun _ _ => True := by
  obtain ⟨hw, r, hr, htarget, htypes, hfunc⟩ := h
  have he := hw rt r hr
  have hask := (EngineM.ends_repOf_right he type).mono
    (fun a e' ⟨hponders, hrep⟩ => (⟨hponders.founded he, hponders, hrep⟩ :
      e'.Founded ∧ r.engine.Ponders e' ∧ r.engine.types.HasRep r.engine.target type a))
    fun _ _ h => h
  refine (ends_grounded op hw hr hask).imp ?_
  rintro a w' ⟨hw', hcontexts, hfunctions, r', hr', e, ⟨hponders, hrep⟩, heq⟩
  refine ⟨⟨hw', r', hr', ?_, ?_, ?_⟩, hcontexts, hfunctions, ?_⟩
  · rw [heq]
    exact (hponders.target he).trans htarget
  · rw [heq]
    exact hponders.2.2.trans htypes
  · unfold Engine.findFunc Engine.func? at hfunc ⊢
    rw [heq]
    dsimp only
    rwa [hponders.2.1]
  · rwa [← htarget, ← htypes]

theorem ends_repsOf_bears (h : w.Bears rt target t id f) (op : String) (ps : List Ty) :
    Ends (ps.mapM fun p => onEngine rt op (EngineM.repOf p.id)) w (fun reps w' =>
      w'.Bears rt target t id f ∧ w'.contexts = w.contexts ∧ w'.functions = w.functions ∧
        List.Forall₂ (t.HasRep target) (ps.map (·.id)) reps) fun _ _ => True := by
  induction ps generalizing w with
  | nil =>
    rw [List.mapM_nil]
    exact .pure' ⟨h, rfl, rfl, .nil⟩
  | cons p rest ih =>
    rw [List.mapM_cons]
    refine .bind' (ends_repOf_bears h op p.id) ?_
    rintro r w₁ ⟨h₁, hcontexts₁, hfunctions₁, hr⟩
    refine .bind' (ih h₁) ?_
    rintro reps w₂ ⟨h₂, hcontexts₂, hfunctions₂, hreps⟩
    exact .pure' ⟨h₂, hcontexts₂.trans hcontexts₁, hfunctions₂.trans hfunctions₁, .cons hr hreps⟩

theorem map_id_of_mapM_wrap? {ids : List TypeId} {ps : List Ty}
    (h : ids.mapM (t.wrap? rt) = some ps) : ps.map (·.id) = ids := by
  induction ids generalizing ps with
  | nil =>
    obtain rfl := Option.some.inj h
    rfl
  | cons id rest ih =>
    rw [List.mapM_cons] at h
    obtain ⟨p, hp, h⟩ := Option.bind_eq_some_iff.mp h
    obtain ⟨qs, hqs, h⟩ := Option.bind_eq_some_iff.mp h
    obtain rfl := Option.some.inj h
    rw [List.map_cons, ih hqs, (TypeTable.of_wrap? hp).2.1]

theorem ends_adopt_started {home : CtxId} {q : Context} {sig : Ty} {g : Signature}
    {ctx : ContextId} {name : String} {ret : Rep} {reps : List Rep}
    (hf : f = .fresh id ctx name sig.id ret (g.params.zip reps))
    (h : w.Bears q.runtime target t id f) (hq : w.contexts[home]? = some q)
    (hsig : w.Shaped q.runtime sig (.signature g)) (hret : t.HasRep target g.result ret)
    (hreps : List.Forall₂ (t.HasRep target) g.params reps)
    (hfound : t.signature? sig.id = some g) :
    Ends (adopt home id sig false) w (fun fn w' => ∃ s r, w'.functions[fn]? = some s ∧
      (w'.runtimes[s.runtime]? = some r ∧ s.runtime = q.runtime ∧ r.engine.target = target ∧
        r.engine.types = t) ∧ s.Started r.engine f g.params g.result) fun _ _ => True := by
  obtain ⟨r, hr, -, htypes, -⟩ := h.engine
  refine ends_context (fun _ => trivial) fun q' hq' => ?_
  obtain rfl := Option.mem_unique hq hq'
  have hreturn : Ends (returnOf sig) w (fun a w' => w = w' ∧ t.wrap? q.runtime g.result = some a)
      fun _ _ => True := by
    have hasks : Leaves (· = ·) (returnOf sig) := (asks_returnOf sig).leaves
    refine ((hasks.ends w).and' (ends_returnOf_shaped hsig)).mono ?_ fun _ _ _ => trivial
    rintro a w' ⟨heq, ha⟩
    rw [Workspace.typeOf?_eq hr, htypes] at ha
    exact ⟨heq, ha⟩
  have hparams : Ends (paramsOf sig) w
      (fun ps w' => w = w' ∧ g.params.mapM (t.wrap? q.runtime) = some ps) fun _ _ => True := by
    have hasks : Leaves (· = ·) (paramsOf sig) := (asks_paramsOf sig).leaves
    refine ((hasks.ends w).and' (ends_paramsOf_shaped hsig)).mono ?_ fun _ _ _ => trivial
    rintro a w' ⟨heq, ha⟩
    have hsame : w.typeOf? q.runtime = t.wrap? q.runtime := by
      funext id
      rw [Workspace.typeOf?_eq hr, htypes]
    exact ⟨heq, hsame ▸ ha⟩
  refine .bind' hreturn ?_
  rintro rty _ ⟨rfl, hrty⟩
  refine .bind' hparams ?_
  rintro ps _ ⟨rfl, hps⟩
  have hids := map_id_of_mapM_wrap? hps
  refine .bind' (ends_repsOf_bears h "function" ps) ?_
  rintro reps' w₁ ⟨h₁, -, -, hreps'⟩
  rw [hids] at hreps'
  refine .bind' (ends_repOf_bears h₁ "function" rty.id) ?_
  rintro ret' w₂ ⟨h₂, -, -, hret'⟩
  rw [(TypeTable.of_wrap? hrty).2.1] at hret'
  obtain rfl := hret.unique hret'
  have hunique : Relator.RightUnique (t.HasRep target) := fun _ _ _ h h' => h.unique h'
  obtain rfl : reps = reps' := List.right_unique_forall₂' hunique hreps hreps'
  obtain ⟨hw₂, r₂, hr₂, htarget₂, htypes₂, hfunc₂⟩ := h₂
  refine .bind_get (.bind_modify (.bind_modify (.pure' ⟨_, r₂, Array.getElem?_push_size,
    ⟨hr₂, rfl, htarget₂, htypes₂⟩, ?_⟩)))
  subst htarget₂ htypes₂ hf
  exact {
    founded := hw₂ _ r₂ hr₂
    func := hfunc₂
    fresh := ⟨ctx, name, sig.id, g.abi, rfl, hfound⟩
    paramReps := hreps
    retRep := hret
    params := hps
    ret := hrty
    problem := rfl
    breaks := rfl
    compiled := rfl }

variable {b : BuildId} {params : List Ty} {ret : Ty}

theorem ends_newFunction_started {sig : Ty} {g : Signature} {rt : RuntimeId} {r : Runtime}
    (hw : w.Founded)
    (hhome : ∀ s q, w.builds[b]? = some s → w.contexts[s.ctx]? = some q → q.runtime = rt)
    (name : String) (hsig : w.Shaped rt sig (.signature g)) (hr : w.runtimes[rt]? = some r) :
    Ends (newFunction b name sig) w (fun fn w' => ∃ s r' f, w'.functions[fn]? = some s ∧
      (w'.runtimes[s.runtime]? = some r' ∧ s.runtime = rt ∧ r'.engine.target = r.engine.target ∧
        r'.engine.types = r.engine.types) ∧ s.Started r'.engine f g.params g.result)
      fun _ _ => True := by
  obtain ⟨r₀, hr₀, hx⟩ := hsig.table
  obtain rfl := Option.mem_unique hr hr₀
  have hfound : r.engine.types.signature? sig.id = some g := by
    obtain ⟨d, hd, hk, hg⟩ := hx
    unfold TypeTable.signature?
    rw [hd]
    exact (if_pos hk).trans hg
  refine .bind' ((ends_checkActive b "function" w).imp_stop fun _ _ _ => trivial) ?_
  rintro s _ ⟨rfl, hs⟩
  refine .ite' (fun hno => absurd hsig.kind hno) fun _ => .bind_pure ?_
  refine ends_context (fun _ => trivial) fun q hq => ?_
  obtain rfl := hhome s q hs hq
  have he := hw _ r hr
  refine .bind' (ends_grounded "function" hw hr (EngineM.ends_createFunction_right he q.id sig.id name))
    ?_
  rintro id w₁ ⟨hw₁, hcontexts, -, r₁, hr₁, e, ⟨htarget, htypes, g', fret, reps, name', hg', hret,
    hreps, hfunc⟩, heq⟩
  obtain rfl := Option.mem_unique hfound hg'
  have hbears : w₁.Bears q.runtime r.engine.target r.engine.types id
      (.fresh id q.id name' sig.id fret (g.params.zip reps)) := by
    refine ⟨hw₁, r₁, hr₁, ?_, ?_, ?_⟩
    · rw [heq]
      exact htarget
    · rw [heq]
      exact htypes
    · rw [heq]
      exact hfunc
  have hshaped : w₁.Shaped q.runtime sig (.signature g) := by
    refine ⟨hsig.owner, hsig.kind, r₁, hr₁, ?_⟩
    rw [heq]
    exact htypes ▸ hx
  refine (ends_adopt_started rfl hbears (hcontexts ▸ hq) hshaped hret hreps hfound).imp ?_
  rintro fn w₂ ⟨s', r', hs', hr', hstarted⟩
  exact ⟨s', r', _, hs', hr', hstarted⟩

theorem ends_startFunction_started (hw : w.Reached) :
    Ends (startFunction b params ret) w (fun fn w' => ∃ s r f, w'.functions[fn]? = some s ∧
      w'.runtimes[s.runtime]? = some r ∧ s.Started r.engine f (params.map (·.id)) ret.id)
      fun _ _ => True := by
  refine ends_build (fun _ => trivial) fun s hs => ends_context (fun _ => trivial) fun q hq => ?_
  have hsame : Leaves Workspace.SameCode (signatureTy q.runtime params ret .cdecl) :=
    leaves_signatureTy _ params ret .cdecl (EngineM.quiet_signatureType _ _ _)
  refine .bind' (((ends_signatureTy_shaped hw.founded params ret .cdecl).and' (hsame.ends w)).imp_stop fun _ _ _ => trivial) ?_
  rintro sig w₁ ⟨⟨hmoves, hsig⟩, -, ⟨hcontexts, hbuilds⟩, -⟩
  obtain ⟨r, hr, -⟩ := hsig.table
  refine (ends_newFunction_started (hmoves.reached hw).founded (fun s' q' hs' hq' => ?_) "" hsig
    hr).imp ?_
  · rw [hbuilds] at hs'
    obtain rfl := Option.mem_unique hs hs'
    rw [hcontexts] at hq'
    obtain rfl := Option.mem_unique hq hq'
    rfl
  · rintro fn w₂ ⟨s', r', f, hs', ⟨hr', -⟩, hstarted⟩
    exact ⟨s', r', f, hs', hr', hstarted⟩

end BuildM

namespace Function.Started

variable {s : Function} {e : Engine} {f : Func} {params : List TypeId} {result : TypeId} {r : Rep}
  {reps : List Rep} {c : Setting}

theorem count (h : s.Started e f params result) : s.params.length = params.length := by
  have hids := congrArg List.length (BuildM.map_id_of_mapM_wrap? h.params)
  simpa using hids

theorem paramReps_eq (h : s.Started e f params result)
    (hheld : List.Forall₂ (e.types.HasRep e.target) params reps) : s.paramReps = reps :=
  have hunique : Relator.RightUnique (e.types.HasRep e.target) := fun _ _ _ h h' => h.unique h'
  List.right_unique_forall₂' hunique h.paramReps hheld

theorem givesBack (h : s.Started e f params result) (htypes : e.types = c.types)
    (hr : c.types.Firm c.target result s.retRep) (hi : s.retRep.IsInteger) : f.GivesBack c := by
  obtain ⟨ctx, name, sig, abi, rfl, hsig⟩ := h.fresh
  exact .inr ⟨_, htypes ▸ hsig, hr, hi⟩

end Function.Started

/-! ## Functions of integers -/

/-- Where parameters are held in registers, the function can be built further. -/
theorem Function.Started.drafts {w : Workspace} {fn : FnId} {s : Function} {r : Runtime} {f : Func}
    {c : Setting} {params : List TypeId} {result : TypeId} (h : s.Started r.engine f params result)
    (hl : w.Linked) (hs : w.functions[fn]? = some s) (hr : w.runtimes[s.runtime]? = some r)
    (htarget : r.engine.target = c.target) (htypes : r.engine.types = c.types)
    (hparams : ∀ p ∈ s.paramReps, p.IsWhole) :
    w.Drafts c fn s f where
  linked := hl
  function := hs
  problem := h.problem
  plain := by
    obtain ⟨ctx, name, sig, abi, rfl, -⟩ := h.fresh
    exact Func.plain_fresh fun p hp => hparams p.2 (List.of_mem_zip hp).2
  engine := by
    refine ⟨r, hr, htarget, htypes, ?_, h.func⟩
    rw [← htarget, ← htypes]
    exact h.founded.numbers

end TypedIR
