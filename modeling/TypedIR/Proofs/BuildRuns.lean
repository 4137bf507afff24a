import TypedIR.Build.Value
import TypedIR.Proofs.BuildSites

/-
  Returning, compiling and calling, at the place where a function is built.

  Compiling a function whose end cannot be reached and whose jumps and calls are
  in order gives its values their slots and changes nothing else
  (`Workspace.Site.ends_compile`). A call of what is compiled ends
  as the machine ends (`Workspace.Site.ends_call`).
-/

namespace TypedIR

/-! ## Compiling -/

namespace Engine.Shows

variable {e : Engine} {c : Setting} {id : FuncId} {f : Func}

theorem forgetting (h : e.Shows c id f) (notes : Array Trace.Note) :
    { e with notes : Engine }.Shows c id f :=
  h.congr rfl rfl rfl h.layouts rfl rfl

theorem ends_compile (h : e.Shows c id f) (hopen : f.Open c) (hleads : e.Leads f) :
    Ends (EngineM.compile id) e (fun _ e' => ∃ f', f.Framed f' ∧ e'.Shows c id f')
      fun _ _ => False := by
  refine (EngineM.ends_compile id e).mono ?_ fun _ _ hno => hno.2 f (h.findOpen hopen) hleads
  rintro _ _ ⟨g, hg, hcases⟩
  obtain rfl := Except.ok.inj (h.func.symm.trans hg)
  rcases hcases with ⟨hc, -⟩ | ⟨-, -, notes, rfl⟩
  · cases hopen.1.symm.trans hc
  refine ⟨e.framed f, e.framed_framed f, {
    target := h.target
    types := h.types
    building := h.building
    layouts := Engine.keeps_slots h.layouts fun v _ cache hcache => ?_
    depth := h.depth
    func := EngineM.findFunc_set h.func rfl rfl
    first := by simp [Engine.framed] }⟩
  rw [h.target, h.types]
  exact (hcache.run_layoutOf (Layout.laid_ledTo c.ordered v.type)).2

end Engine.Shows

/-! ## Returning a value -/

theorem Emit.ends_ret {b : Bench} {v : ValueId} {info : ValueInfo} (hv : b.func.value? v = some info)
    (hret : b.func.ret.cls ≠ .void) {g : Signature} (hsig : b.types.signature? b.func.sig = some g)
    (hresult : g.result = info.type) :
    Ends (Emit.ret v) b (fun _ b' => b'.types = b.types ∧ b'.layouts = b.layouts ∧
      b'.func = b.func.push { op := .ret, a := v, rep := b.func.ret }) fun _ _ => False := by
  have hpos := (Func.value?_lt hv).1
  have hcoerce : Ends (Emit.coerce v g.result) b (fun a b' => a = v ∧ b' = b) fun _ _ => False := by
    have hvalue : Ends (Emit.value v) b (fun a b' => a = info ∧ b' = b) fun _ _ => False := by
      refine .bind_get ?_
      rw [hv]
      exact .pure' ⟨rfl, rfl⟩
    refine .bind' hvalue ?_
    rintro _ _ ⟨rfl, rfl⟩
    rw [if_pos hresult.symm]
    exact .pure' ⟨rfl, rfl⟩
  refine .bind_get (.ite' (fun h => ?_) fun _ => .ite' (fun h => absurd h hret) fun _ => .bind_get ?_)
  · exact absurd h (Nat.ne_of_gt hpos)
  · rw [hsig]
    refine .bind' hcoerce ?_
    rintro _ _ ⟨rfl, rfl⟩
    exact .modify' ⟨rfl, rfl, rfl⟩

theorem Emit.ends_defaultReturn {b : Bench} (hend : b.func.endReachable = some false) :
    Ends Emit.defaultReturn b (fun a b' => a = some false ∧ b' = b) fun _ _ => False := by
  refine .bind_get ?_
  rw [hend]
  exact .pure' ⟨rfl, rfl⟩

def Stop.ofHalt (op : String) : Halt Failure → Stop
  | .failed err => .problem (.engine op err)
  | .crashed => .crashed

/-- Arguments that go into registers as they are. -/
inductive Marshals : List (Ty × Rep) → List HostValue → List Word → Prop
  | nil : Marshals [] [] []
  | cons {t : Ty} {r : Rep} {x : HostValue} {word : Word} {params : List (Ty × Rep)}
      {xs : List HostValue} {words : List Word} (hx : ∀ text, x ≠ .str text)
      (hword : BuildM.marshal r x = .ok word) (hrest : Marshals params xs words) :
      Marshals ((t, r) :: params) (x :: xs) (word :: words)

theorem Marshals.marshalArgs_eq {params : List (Ty × Rep)} {xs : List HostValue} {words : List Word}
    (h : Marshals params xs words) (fn : FnId) (s : Function) (name : String) (i : Nat)
    (bits temps : List Word) : BuildM.marshalArgs fn s name i params xs bits temps =
      pure (.ok (bits ++ words), temps) := by
  induction h generalizing i bits with
  | nil =>
    unfold BuildM.marshalArgs
    simp
  | cons hx hword _ ih =>
    unfold BuildM.marshalArgs
    split
    · exact absurd rfl (hx _)
    · rw [hword]
      dsimp only
      rw [ih, List.append_assoc]
      rfl

theorem BuildM.ends_onMachine {α : Type} {w : Workspace} {r : Runtime} {rt : RuntimeId}
    (hr : w.runtimes[rt]? = some r) (op : String)
    {act : RunM α} {ok : α → Engine → Prop} {stop : Halt Failure → Engine → Prop}
    (hact : Ends act r.engine ok stop) :
    Ends (BuildM.onMachine rt op act) w
      (fun a w' => ∃ e spans tracing, ok a e ∧
        w' = w.advance rt r { e with notes := #[] } spans tracing)
      (fun how w' => ∃ halt e spans tracing, how = Stop.ofHalt op halt ∧ stop halt e ∧
        w' = w.advance rt r { e with notes := #[] } spans tracing) := by
  obtain ⟨spans, tracing, hrun⟩ := BuildM.run_onEngineState hr
    fun e => (act.run e : Except (Halt Failure) α × Engine)
  unfold Ends at hact
  rcases hr' : (act.run r.engine : Except (Halt Failure) α × Engine) with ⟨(err | _) | a, e⟩ <;>
    rw [hr'] at hact hrun
  · exact .bind_ok hrun (.throw' ⟨_, e, spans, tracing, rfl, hact, rfl⟩)
  · exact .bind_ok hrun (.throw' ⟨_, e, spans, tracing, rfl, hact, rfl⟩)
  · exact .bind_ok hrun (.pure' ⟨e, spans, tracing, hact, rfl⟩)

namespace Workspace.Place

open BuildM

variable {w : Workspace} {fn : FnId} {s : Function} {P : Engine → Prop}

/-- A call of a compiled function whose arguments need no memory ends as the code
does. -/
theorem ends_call_args (h : w.Place fn s P) (hs : s.compiled = true) {xs : List HostValue}
    {ws : List Word} (hlen : xs.length = s.params.length)
    (hargs : Marshals (s.params.zip s.paramReps) xs ws) {ok : Word → Prop} {stop : Halt Failure → Prop}
    (happly : ∀ e : Engine, P e → Ends (RunM.apply s.id ws) e (fun bits _ => ok bits)
      fun halt _ => stop halt) :
    Ends (call fn xs) w
      (fun a _ => ∃ bits, ok bits ∧ a = unmarshal s.retRep (s.ret.kind == .bool) bits)
      fun how _ => ∃ halt, stop halt ∧ how = Stop.ofHalt "call" halt := by
  refine h.ends_function (.bind' h.ends_functionName.total ?_)
  rintro name _ rfl
  refine .ite' (fun hno => ?_) fun _ => .ite' (fun hno => absurd hlen hno) fun _ => ?_
  · rw [hs] at hno
    cases hno
  · have hmarshal : ((marshalArgs fn s name 0 (s.params.zip s.paramReps) xs [] []).run w :
        Except Stop (Except Problem (List Word) × List Word) × Workspace) =
        (.ok (.ok ws, []), w) := by
      rw [hargs.marshalArgs_eq fn s name 0 [] []]
      rfl
    refine .bind_ok hmarshal ?_
    obtain ⟨r, hr, he⟩ := h.engine
    refine .bind' ((ends_attempt (ends_onMachine hr "call" (happly r.engine he))).imp_stop ?_) ?_
    · rintro _ _ ⟨-, halt, -, -, -, hhow, hstop, -⟩
      exact ⟨halt, hstop, hhow⟩
    · rintro (p | bits) w₁ hout
      · obtain ⟨halt, -, -, -, hhow, hstop, -⟩ := hout
        exact .bind_pure (.throw' ⟨halt, hstop, hhow⟩)
      · obtain ⟨-, -, -, hok, -⟩ := hout
        exact .bind_pure (.pure' ⟨bits, hok, rfl⟩)

end Workspace.Place

namespace Workspace.Site

open BuildM

variable {α : Type} {w : Workspace} {c : Setting} {fn : FnId} {s : Function} {f : Func}

theorem ends_ret (h : w.Site c fn s f) (hopen : f.Open c) {v : Val} (hfn : v.fn = some fn)
    {info : ValueInfo} (hv : f.value? v.id = some info) (hret : f.ret.cls ≠ .void)
    {g : Signature} (hsig : c.types.signature? f.sig = some g) (hresult : g.result = info.type) :
    Ends (ret fn (.value v)) w
      (fun _ w' => w'.Site c fn s (f.push { op := .ret, a := v.id, rep := f.ret }))
      fun _ _ => False := by
  have hemit : ∀ e : Engine, e.Shows c s.id f → Ends (EngineM.ret s.id v.id) e
      (fun _ e' => ∃ f', f' = f.push { op := .ret, a := v.id, rep := f.ret } ∧ e'.Shows c s.id f')
      fun _ _ => False := by
    intro e he
    refine he.ends_emitInto hopen fun b _ htypes hlayouts hfunc => ?_
    subst hfunc
    refine (Emit.ends_ret hv hret (htypes ▸ hsig) hresult).imp ?_
    rintro _ b' ⟨htypes', hlayouts', hfunc'⟩
    rw [hfunc']
    exact ⟨htypes'.trans htypes, hlayouts' ▸ hlayouts, rfl, he.first, rfl⟩
  refine (h.place.ends_ret hfn (Func.value?_lt hv).1 hemit ?_).imp ?_
  · rintro e notes ⟨f', hf', he⟩
    exact ⟨f', hf', Engine.Shows.blind c s.id f' notes he⟩
  · intro _ w' h'
    obtain ⟨_, rfl, h'⟩ := exists_of_place h'
    exact h'

theorem ends_compile (h : w.Site c fn s f) (hopen : f.Open c) (hp : s.problem = none)
    (hc : s.compiled = false) (hend : f.endReachable = some false)
    (hleads : ∀ e : Engine, e.Leads f) : Ends (compile fn) w
      (fun _ w' => ∃ f', f.Framed f' ∧ w'.Site c fn s.finished f')
      fun _ _ => False := by
  have hreach : ∀ e : Engine, e.Shows c s.id f → Ends (EngineM.defaultReturn s.id) e
      (fun a e' => a = some false ∧ e'.Shows c s.id f) fun _ _ => False := by
    intro e he
    have hemit : Ends (EngineM.defaultReturn s.id) e
        (fun a e' => ∃ f', (a = some false ∧ f' = f) ∧ e'.Shows c s.id f') fun _ _ => False := by
      refine he.ends_emitInto hopen fun b _ htypes hlayouts hfunc => ?_
      subst hfunc
      refine (Emit.ends_defaultReturn hend).imp ?_
      rintro _ _ ⟨rfl, rfl⟩
      exact ⟨htypes, hlayouts, rfl, he.first, rfl, rfl⟩
    refine hemit.imp ?_
    rintro a e' ⟨f', ⟨ha, rfl⟩, he'⟩
    exact ⟨ha, he'⟩
  have hframe : ∀ e : Engine, e.Shows c s.id f → Ends (EngineM.compile s.id) e
      (fun _ e' => ∃ f', f.Framed f' ∧ e'.Shows c s.id f') fun _ _ => False :=
    fun e he => he.ends_compile hopen (hleads e)
  refine (h.place.ends_compile hp hc hreach hframe (Engine.Shows.blind c s.id f) ?_).mono
    (fun _ _ h => exists_of_place h) fun _ _ h => h
  rintro e notes ⟨f', hframed, he⟩
  exact ⟨f', hframed, Engine.Shows.blind c s.id f' notes he⟩

/-! ## Calls -/

theorem ends_request (h : w.Site c fn s f) (op : String) (q : Memory.Request α) :
    Ends (onMachine s.runtime op (EngineM.request q)) w (fun _ w' => w'.Site c fn s f)
      fun _ w' => w'.Site c fn s f := by
  obtain ⟨r, hr, he⟩ := h.engine
  have hrequest : Ends (EngineM.request q) r.engine (fun _ e' => e'.Shows c s.id f)
      fun _ e' => e'.Shows c s.id f := by
    refine .bind_get (.bind_set ?_)
    have hshows : ∀ host, Engine.Shows { r.engine with host } c s.id f :=
      fun _ => he.congr rfl rfl rfl he.layouts rfl rfl
    rcases (q.run r.engine.host.memory : Except (Halt Fault) α × Memory) with ⟨(_ | _) | a, memory⟩
    · exact .bind_modify (.throw' (hshows _))
    · exact .bind_modify (.throw' (hshows _))
    · exact .bind_modify (.pure' (hshows _))
  refine (ends_onMachine hr op hrequest).mono ?_ ?_
  · rintro a _ ⟨e, spans, tracing, hshows, rfl⟩
    exact of_place (h.place.advance hr (hshows.forgetting #[]) spans tracing)
  · rintro _ _ ⟨halt, e, spans, tracing, -, hshows, rfl⟩
    exact of_place (h.place.advance hr (hshows.forgetting #[]) spans tracing)

theorem ends_marshalArgs (h : w.Site c fn s f) (name : String) (i : Nat)
    (params : List (Ty × Rep)) (xs : List HostValue) (bits temps : List Word) :
    Ends (marshalArgs fn s name i params xs bits temps) w (fun _ w' => w'.Site c fn s f)
      fun _ _ => True := by
  induction params generalizing w i xs bits temps with
  | nil =>
    unfold marshalArgs
    exact .pure' h
  | cons p params ih =>
    cases xs with
    | nil => exact .pure' h
    | cons x rest =>
      unfold marshalArgs
      split
      · refine .bind' ((ends_attempt (h.ends_request "call" _)).imp_stop
          fun _ _ _ => trivial) ?_
        rintro (p | addr) w' h'
        · exact .pure' h'
        · exact ih h' _ _ _ _
      · generalize marshal p.2 _ = word
        cases word with
        | ok word => exact ih h _ _ _ _
        | error why => exact .pure' h

theorem ends_call (h : w.Site c fn s f) {post : Word → Prop}
    (hpost : ∀ e : Engine, e.Shows c s.id f → ∀ args, Ends (RunM.apply s.id args) e
      (fun bits _ => post bits) fun _ _ => True) (xs : List HostValue) :
    Ends (call fn xs) w
      (fun a _ => ∃ bits, post bits ∧ a = unmarshal s.retRep (s.ret.kind == .bool) bits)
      fun _ _ => True := by
  refine h.ends_function (.bind' h.ends_functionName.total ?_)
  rintro name _ rfl
  refine .ite' (fun _ => .bind_throw trivial) fun _ => .ite' (fun _ => .bind_throw trivial) fun _ => ?_
  refine .bind' (h.ends_marshalArgs name 0 _ xs [] []) ?_
  rintro ⟨bits, temps⟩ w₁ h₁
  cases bits with
  | error p => exact .bind_pure (.bind_any fun _ _ => .throw' trivial)
  | ok bits =>
    obtain ⟨r, hr, he⟩ := h₁.engine
    have happly := ends_attempt (ends_onMachine hr "call" (hpost r.engine he bits))
    refine .bind' (happly.imp_stop fun _ _ _ => trivial) ?_
    intro outcome w₂ hout
    refine .bind_any fun _ _ => ?_
    cases outcome with
    | ok res =>
      obtain ⟨-, -, -, hres, -⟩ := hout
      exact .pure' ⟨res, hres, rfl⟩
    | error p => exact .throw' trivial

end Workspace.Site

end TypedIR
