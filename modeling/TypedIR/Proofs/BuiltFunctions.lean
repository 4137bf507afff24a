import TypedIR.Proofs.EngineEdits
import TypedIR.Proofs.Workspaces

/-
  Functions of the builder and the functions of the engine they stand for.

  In a workspace that clients made, every function of the builder stands for a
  function of the engine of its runtime, and no two for the same one
  (`Workspace.Linked`). A function that was built is sound from when it is made
  on: once it is compiled control cannot leave its code, and while it has no
  problem its returns have the operands they need (`Function.Sound`). Every
  operation of the builder keeps that (`Workspace.Goes`).
-/

namespace TypedIR

/-- A function of the workspace, and what its engine has of it. -/
def Workspace.Has (w : Workspace) (fn : FnId) (s : Function) (f : Func) : Prop :=
  w.functions[fn]? = some s ∧ ∃ r, w.runtimes[s.runtime]? = some r ∧ r.engine.func? s.id = some f

/-- Functions of the builder stand for functions of engines, each for one of its
own, and what they give back is a type of a runtime that is there. -/
structure Workspace.Linked (w : Workspace) : Prop where
  has : ∀ {fn : FnId} {s : Function}, w.functions[fn]? = some s → ∃ f, w.Has fn s f
  own : ∀ {fn gn : FnId} {s t : Function}, w.functions[fn]? = some s → w.functions[gn]? = some t →
    s.runtime = t.runtime → s.id = t.id → fn = gn
  result : ∀ {fn : FnId} {s : Function} {rt : RuntimeId}, w.functions[fn]? = some s →
    s.ret.owner = some rt → rt < w.runtimes.size

/-- What holds of a built function and the function it stands for. Without a
result of its own a function may end without giving one. -/
structure Function.Sound (s : Function) (f : Func) : Prop where
  labels : f.LabelsInside
  closed : f.compiled = true → f.Closed
  compiled : s.compiled = true → f.compiled = true
  returns : (s.ret.kind = .void → f.ret.cls = .void) →
    (s.problem = none ∨ f.compiled = true) → f.ReturnsOperands

/-- What becomes of a function of the builder and the one it stands for. A problem
stays. -/
structure Function.Goes (s : Function) (f : Func) (s' : Function) (f' : Func) : Prop where
  runtime : s'.runtime = s.runtime
  id : s'.id = s.id
  result : s'.ret = s.ret
  ret : f'.ret = f.ret
  compiled : s.compiled = true → s'.compiled = true
  problem : s'.problem = none → s.problem = none
  sound : s.Sound f → s'.Sound f'

def Workspace.Goes (w w' : Workspace) : Prop :=
  w.Linked → w'.Linked ∧ ∀ (fn : FnId) (s : Function) (f : Func), w.Has fn s f →
    ∃ s' f', w'.Has fn s' f' ∧ s.Goes f s' f'

def Workspace.Compiled (w : Workspace) (fn : FnId) : Prop :=
  ∃ s, w.functions[fn]? = some s ∧ s.compiled = true

namespace Function

variable {s s' : Function} {f f' : Func}

theorem Goes.refl (s : Function) (f : Func) : s.Goes f s f :=
  ⟨rfl, rfl, rfl, rfl, fun h => h, fun h => h, fun h => h⟩

theorem Goes.trans {s'' : Function} {f'' : Func} (h : s.Goes f s' f') (h' : s'.Goes f' s'' f'') :
    s.Goes f s'' f'' :=
  ⟨h'.runtime.trans h.runtime, h'.id.trans h.id, h'.result.trans h.result, h'.ret.trans h.ret,
    fun hc => h'.compiled (h.compiled hc), fun hp => h.problem (h'.problem hp),
    fun hs => h'.sound (h.sound hs)⟩

theorem Sound.becomes (h : s.Sound f) (hf : f.Becomes f') : s.Sound f' where
  labels := hf.labels h.labels
  closed hc := by
    rw [hf.compiled] at hc
    exact (h.closed hc).congr (hf.frozen hc).1 (hf.frozen hc).2
  compiled hc := hf.compiled.trans (h.compiled hc)
  returns hkind how := by
    rw [hf.ret] at hkind
    rw [hf.compiled] at how
    exact hf.returns (h.returns hkind how)

theorem Goes.of_becomes (s : Function) (h : f.Becomes f') : s.Goes f s f' :=
  ⟨rfl, rfl, rfl, h.ret, fun hc => hc, fun hp => hp, fun hs => hs.becomes h⟩

theorem Goes.of_problem (s : Function) (f : Func) (p : Problem) :
    s.Goes f { s with problem := some p } f :=
  ⟨rfl, rfl, rfl, rfl, fun hc => hc, nofun, fun h =>
    ⟨h.labels, h.closed, h.compiled, fun hk how => h.returns hk (.inr (how.resolve_left nofun))⟩⟩

end Function

namespace Workspace

instance : Std.Refl Goes := ⟨fun _ h => ⟨h, fun _ s f hs => ⟨s, f, hs, .refl s f⟩⟩⟩

instance : Trans Goes Goes Goes where
  trans h h' hl := by
    obtain ⟨hl₁, hs₁⟩ := h hl
    obtain ⟨hl₂, hs₂⟩ := h' hl₁
    refine ⟨hl₂, fun fn s f hs => ?_⟩
    obtain ⟨s₁, f₁, hh₁, hg₁⟩ := hs₁ fn s f hs
    obtain ⟨s₂, f₂, hh₂, hg₂⟩ := hs₂ fn s₁ f₁ hh₁
    exact ⟨s₂, f₂, hh₂, hg₁.trans hg₂⟩

variable {w w' : Workspace} {fn : FnId} {s t : Function} {f f' : Func}

theorem Has.unique (h : w.Has fn s f) (h' : w.Has fn t f') : s = t ∧ f = f' := by
  obtain ⟨hs, r, hr, hf⟩ := h
  obtain ⟨ht, r', hr', hf'⟩ := h'
  obtain rfl := Option.mem_unique hs ht
  obtain rfl := Option.mem_unique hr hr'
  exact ⟨rfl, Option.mem_unique hf hf'⟩

theorem Linked.of_engines (hl : w.Linked) (hf : w'.functions = w.functions)
    (hr : ∀ (rt : RuntimeId) (r : Runtime), w.runtimes[rt]? = some r →
      ∃ r', w'.runtimes[rt]? = some r' ∧
        ∀ id f, r.engine.func? id = some f → ∃ f', r'.engine.func? id = some f') : w'.Linked := by
  refine ⟨?_, ?_, ?_⟩
  · intro fn s hs
    obtain ⟨f, -, r, hr₁, hfunc⟩ := hl.has (hf ▸ hs)
    obtain ⟨r', hr', hfuncs⟩ := hr _ r hr₁
    obtain ⟨f', hf'⟩ := hfuncs _ f hfunc
    exact ⟨f', hs, r', hr', hf'⟩
  · rw [hf]
    exact hl.own
  · intro fn s rt hs hrt
    obtain ⟨r', hr', -⟩ := hr rt _ (Array.getElem?_eq_getElem (hl.result (hf ▸ hs) hrt))
    exact lt_of_getElem? hr'

/-- An operation under which the functions of the engines evolve, and which
leaves those of the builder alone. -/
theorem Goes.of_engines (hf : w'.functions = w.functions)
    (hr : ∀ (rt : RuntimeId) (r : Runtime), w.runtimes[rt]? = some r →
      ∃ r', w'.runtimes[rt]? = some r' ∧ r.engine.Evolves r'.engine) : w.Goes w' := by
  refine fun hl => ⟨hl.of_engines hf fun rt r h => ?_, ?_⟩
  · obtain ⟨r', hr', hevolves⟩ := hr rt r h
    exact ⟨r', hr', fun id f hid => (hevolves id f hid).imp fun _ h => h.1⟩
  · rintro fn s f ⟨hs, r, hr₁, hfunc⟩
    obtain ⟨r', hr', hevolves⟩ := hr _ r hr₁
    obtain ⟨f', hf', hbecomes⟩ := hevolves _ f hfunc
    exact ⟨s, f', ⟨hf ▸ hs, r', hr', hf'⟩, .of_becomes s hbecomes⟩

def SameLinks (g : Function → Function) : Prop :=
  ∀ s, (g s).runtime = s.runtime ∧ (g s).id = s.id ∧ (g s).ret = s.ret

theorem getElem?_modify (fn gn : FnId) (g : Function → Function) :
    (w.functions.modify fn g)[gn]? =
      (w.functions[gn]?).map fun s => if fn = gn then g s else s := by
  rw [Array.getElem?_modify]
  split <;> simp

theorem Has.modify {g : Function → Function} {gn : FnId} (h : w.Has gn s f) (hg : SameLinks g)
    (fn : FnId) :
    ({ w with functions := w.functions.modify fn g } : Workspace).Has gn
      (if fn = gn then g s else s) f := by
  obtain ⟨hs, r, hr, hf⟩ := h
  refine ⟨(getElem?_modify fn gn g).trans (congrArg _ hs), r, ?_, ?_⟩ <;> split
  · exact (hg s).1 ▸ hr
  · exact hr
  · exact (hg s).2.1 ▸ hf
  · exact hf

theorem Linked.modify {g : Function → Function} (hg : SameLinks g) (hl : w.Linked) (fn : FnId) :
    ({ w with functions := w.functions.modify fn g } : Workspace).Linked := by
  have hold : ∀ (gn : FnId) (s : Function), (w.functions.modify fn g)[gn]? = some s →
      ∃ t, w.functions[gn]? = some t ∧ s = (if fn = gn then g t else t) ∧
        s.runtime = t.runtime ∧ s.id = t.id ∧ s.ret = t.ret := by
    intro gn s hs
    rw [getElem?_modify] at hs
    obtain ⟨t, ht, rfl⟩ := Option.map_eq_some_iff.mp hs
    refine ⟨t, ht, rfl, ?_⟩
    split
    · exact hg t
    · exact ⟨rfl, rfl, rfl⟩
  refine ⟨?_, ?_, ?_⟩
  · intro gn s hs
    obtain ⟨t, ht, rfl, -⟩ := hold gn s hs
    obtain ⟨f, hf⟩ := hl.has ht
    exact ⟨f, hf.modify hg fn⟩
  · intro gn kn s t hs ht hrt hid
    obtain ⟨s₁, hs₁, -, hrs, his, -⟩ := hold gn s hs
    obtain ⟨t₁, ht₁, -, hrt₁, hit, -⟩ := hold kn t ht
    exact hl.own hs₁ ht₁ (hrs.symm.trans (hrt.trans hrt₁)) (his.symm.trans (hid.trans hit))
  · intro gn s rt hs hrt
    obtain ⟨t, ht, -, -, -, hret⟩ := hold gn s hs
    exact hl.result ht (hret ▸ hrt)

/-- An operation that changes functions of the builder, but not what they stand
for. -/
theorem Goes.of_modify {g : Function → Function}
    (hg : ∀ (s : Function) (f : Func), s.Goes f (g s) f) (fn : FnId) :
    w.Goes { w with functions := w.functions.modify fn g } := by
  have hlinks : SameLinks g := fun s =>
    ⟨(hg s default).runtime, (hg s default).id, (hg s default).result⟩
  refine fun hl => ⟨hl.modify hlinks fn, fun gn s f h => ⟨_, f, h.modify hlinks fn, ?_⟩⟩
  split
  · exact hg s f
  · exact .refl s f

theorem getElem?_advance {rt : RuntimeId} {r : Runtime} (e : Engine) (spans : List Trace.Span)
    (tracing : Trace.Tracing) (hr : w.runtimes[rt]? = some r) (rt' : RuntimeId) :
    (w.advance rt r e spans tracing).runtimes[rt']? =
      if rt = rt' then some { r with engine := e, spans } else w.runtimes[rt']? := by
  unfold advance
  rw [Array.getElem?_setIfInBounds]
  split
  · next heq => exact if_pos (heq ▸ (Array.getElem?_eq_some_iff.mp hr).1)
  · rfl

theorem Goes.of_advance {rt : RuntimeId} {r : Runtime} {e : Engine} (spans : List Trace.Span)
    (tracing : Trace.Tracing) (hr : w.runtimes[rt]? = some r) (he : r.engine.Evolves e) :
    w.Goes (w.advance rt r e spans tracing) := by
  refine .of_engines rfl fun rt' r' hr' => ?_
  rw [getElem?_advance e spans tracing hr]
  split
  · next heq =>
    obtain rfl := Option.mem_unique hr (heq ▸ hr')
    exact ⟨_, rfl, he⟩
  · exact ⟨r', hr', Std.Refl.refl _⟩

/-- What an engine does, the workspace follows. -/
instance : Follows Goes Engine.Evolves where
  advance spans tracing hr he := .of_advance spans tracing hr he
  traced spans tracing hr := .of_advance spans tracing hr (Std.Refl.refl _)

/-! ## One function at a time -/

/-- The workspace has come from another by changes of one function. -/
structure Only (w : Workspace) (fn : FnId) (s : Function) (f : Func) (w' : Workspace) : Prop where
  linked : w'.Linked
  has : w'.Has fn s f
  others : ∀ (gn : FnId) (t : Function) (g : Func), gn ≠ fn → w.Has gn t g → w'.Has gn t g

theorem Only.goes {s' : Function} {f' : Func} (h : w.Only fn s' f' w') (hs : w.Has fn s f)
    (hg : s.Goes f s' f') : w.Goes w' := by
  refine fun _ => ⟨h.linked, fun gn t g ht => ?_⟩
  by_cases hgn : gn = fn
  · subst hgn
    obtain ⟨rfl, rfl⟩ := ht.unique hs
    exact ⟨s', f', h.has, hg⟩
  · exact ⟨t, g, h.others gn t g hgn ht, .refl t g⟩

theorem Only.modify (h : w.Only fn s f w') {g : Function → Function} (hg : SameLinks g) :
    w.Only fn (g s) f { w' with functions := w'.functions.modify fn g } where
  linked := h.linked.modify hg fn
  has := by
    have hhas := h.has.modify hg fn
    rwa [if_pos rfl] at hhas
  others gn t k hgn ht := by
    have hhas := (h.others gn t k hgn ht).modify hg fn
    rwa [if_neg (Ne.symm hgn)] at hhas

theorem Only.advance (h : w.Only fn s f w') {r : Runtime} (hr : w'.runtimes[s.runtime]? = some r)
    {e : Engine} {f' : Func} (he : e.funcs = r.engine.funcs.setIfInBounds (s.id - 1) f')
    (spans : List Trace.Span) (tracing : Trace.Tracing) :
    w.Only fn s f' (w'.advance s.runtime r e spans tracing) := by
  obtain ⟨hs, r₁, hr₁, hf⟩ := h.has
  obtain rfl := Option.mem_unique hr hr₁
  have hfunc := fun id => Engine.func?_set hf id e he
  have hget := getElem?_advance e spans tracing hr
  refine ⟨h.linked.of_engines rfl fun rt r' hr' => ?_,
    ⟨hs, { r with engine := e, spans }, ?_, ?_⟩, ?_⟩
  · rw [hget]
    split
    · next heq =>
      obtain rfl := Option.mem_unique hr (heq ▸ hr')
      refine ⟨_, rfl, fun id g hg => ?_⟩
      rw [hfunc id]
      split
      · exact ⟨f', rfl⟩
      · exact ⟨g, hg⟩
    · exact ⟨r', hr', fun id g hg => ⟨g, hg⟩⟩
  · rw [hget, if_pos rfl]
  · exact (hfunc s.id).trans (if_pos rfl)
  · intro gn t g hgn ht
    obtain ⟨ht, r', hr', hg⟩ := h.others gn t g hgn ht
    refine ⟨ht, ?_⟩
    rw [hget]
    split
    · next heq =>
      obtain rfl := Option.mem_unique hr (heq ▸ hr')
      refine ⟨_, rfl, ?_⟩
      rw [hfunc t.id]
      split
      · next hid => exact absurd (h.linked.own ht hs heq.symm hid) hgn
      · exact hg
    · exact ⟨r', hr', hg⟩

theorem Only.refl (hl : w.Linked) (hs : w.Has fn s f) : w.Only fn s f w :=
  ⟨hl, hs, fun _ _ _ _ h => h⟩

end Workspace

/-! ## Compiling -/

namespace Function

variable {s : Function} {f f' : Func}

def closedOff (f : Func) : Func :=
  if f.endReachable = some true then f.push { op := .ret, implicit := true } else f

theorem Sound.closedOff_closed (h : s.Sound f) : (closedOff f).Closed := by
  unfold closedOff
  split
  · exact Func.closed_push_ret h.labels rfl
  · next hend => exact Func.closed_of_endReachable h.labels hend

theorem Goes.of_closedOff (hopen : f.compiled = false) (p : Problem) :
    s.Goes f { s with problem := some p } (closedOff f) := by
  have hsame : (closedOff f).ret = f.ret ∧ (closedOff f).compiled = false := by
    unfold closedOff
    split <;> exact ⟨rfl, hopen⟩
  refine ⟨rfl, rfl, rfl, hsame.1, fun hc => hc, nofun, fun h => ⟨?_, ?_, ?_, ?_⟩⟩
  · unfold closedOff
    split
    · exact h.labels.push _
    · exact h.labels
  · exact fun hc => absurd (hsame.2.symm.trans hc) nofun
  · exact fun hc => absurd (hopen.symm.trans (h.compiled hc)) nofun
  · exact fun _ how => absurd (hsame.2.symm.trans (how.resolve_left nofun)) nofun

theorem Goes.of_compiled (hs : s.problem = none)
    (hend : f.endReachable = some true → s.ret.kind = .void) (hf : (closedOff f).Finishes f') :
    s.Goes f { s with compiled := true } f' := by
  have hret : f'.ret = f.ret := by
    rw [hf.ret]
    unfold closedOff
    split <;> rfl
  refine ⟨rfl, rfl, rfl, hret, fun _ => rfl, fun _ => hs, fun h => ⟨?_, ?_, fun _ => hf.compiled, ?_⟩⟩
  · intro l pos hpos
    have hlabels : (closedOff f).LabelsInside := by
      unfold closedOff
      split
      · exact h.labels.push _
      · exact h.labels
    rw [hf.labels] at hpos
    rw [hf.insns]
    exact hlabels l pos hpos
  · exact fun _ => h.closedOff_closed.congr hf.insns hf.labels
  · intro hkind _ i hi hop h0
    rw [hret] at hkind ⊢
    have hold := h.returns hkind (.inl hs)
    rw [hf.insns] at hi
    unfold closedOff at hi
    split at hi
    · next hreach => exact hkind (hend hreach)
    · exact hold i hi hop h0

end Function

namespace BuildM

variable {α β : Type} {w w' : Workspace} {fn : FnId} {s : Function} {f : Func}

theorem ends_function (hs : w.functions[fn]? = some s) {k : Function → BuildM β}
    {ok : β → Workspace → Prop} {stop : Stop → Workspace → Prop} (h : Ends (k s) w ok stop) :
    Ends (function fn >>= k) w ok stop :=
  Ends.bind_ok (by rw [run_function, hs]; rfl) h

theorem ends_onFunc {op : String} {act : FuncId → EngineM α} {post : α → Func → Prop}
    (h : w.Only fn s f w')
    (hact : ∀ e : Engine, e.func? s.id = some f → Ends (act s.id) e
      (fun a e' => ∃ f', post a f' ∧ e'.funcs = e.funcs.setIfInBounds (s.id - 1) f')
      fun _ e' => e'.funcs = e.funcs) :
    Ends (onFunc fn op act) w' (fun a w'' => ∃ f', post a f' ∧ w.Only fn s f' w'')
      (fun how w'' => ∃ p, how = .problem p ∧ w.Only fn s f w'') := by
  obtain ⟨hs, r, hr, hf⟩ := h.has
  refine ends_function hs ?_
  refine (ends_operation op hr (hact r.engine hf)).mono ?_ ?_
  · rintro a _ ⟨e, spans, tracing, ⟨f', hpost, hset⟩, rfl⟩
    exact ⟨f', hpost, h.advance (e := { e with notes := #[] }) hr hset spans tracing⟩
  · rintro _ _ ⟨err, e, spans, tracing, rfl, hsame, rfl⟩
    have hset : e.funcs = r.engine.funcs.setIfInBounds (s.id - 1) f := by
      obtain ⟨hlt, hget⟩ := Array.getElem?_eq_some_iff.mp (Engine.func?_lt hf).2.1
      simp [hsame, Array.setIfInBounds, hlt, ← hget]
    exact ⟨_, rfl, h.advance (e := { e with notes := #[] }) hr hset spans tracing⟩

theorem ends_functionName (h : w.Has fn s f) :
    Ends (functionName fn) w (fun _ w' => w = w') fun _ _ => False := by
  obtain ⟨hs, r, hr, -⟩ := h
  refine ends_function hs ?_
  have hengine := run_engine s.runtime w
  rw [hr] at hengine
  refine Ends.bind_ok hengine ?_
  cases r.engine.findFunc s.id with
  | ok ef => exact Ends.pure' rfl
  | error err => exact Ends.pure' rfl

theorem ends_tyText {t : Ty} (h : ∀ rt, t.owner = some rt → rt < w.runtimes.size) :
    Ends (tyText t) w (fun _ w' => w = w') fun _ _ => False := by
  unfold tyText
  split
  · next rt howner =>
    refine Ends.ite' (fun _ => ?_) fun _ => Ends.pure' rfl
    obtain ⟨r, hr⟩ : ∃ r, w.runtimes[rt]? = some r := ⟨_, Array.getElem?_eq_getElem (h rt howner)⟩
    have htable := run_table rt w
    rw [hr] at htable
    exact Ends.bind_ok htable (Ends.pure' rfl)
  · exact Ends.pure' rfl

theorem ends_reachesEnd (h : w.Only fn s f w') :
    Ends (reachesEnd fn) w'
      (fun reach w'' => ∃ f', (f.compiled = false ∧ f.endReachable = some reach ∧
        f' = Function.closedOff f) ∧ w.Only fn s f' w'')
      (fun how w'' => (how = .crashed ∧ f.endReachable = none ∨ ∃ p, how = .problem p) ∧
        w.Only fn s f w'') := by
  have hcheck : Ends (onFunc fn "compile" EngineM.defaultReturn) w'
      (fun reach w'' => ∃ f', (f.compiled = false ∧ reach = f.endReachable ∧
        f' = Function.closedOff f) ∧ w.Only fn s f' w'')
      (fun how w'' => ∃ p, how = .problem p ∧ w.Only fn s f w'') := by
    refine ends_onFunc h fun e he => (EngineM.ends_defaultReturn s.id e).imp ?_
    rintro reach e' ⟨f₀, f', hf₀, hopen, rfl, rfl, hset⟩
    obtain rfl := Option.mem_unique he hf₀
    exact ⟨_, ⟨hopen, rfl, rfl⟩, hset⟩
  refine .bind' (hcheck.imp_stop fun how w₁ ⟨p, hp, h₁⟩ => ⟨.inr ⟨p, hp⟩, h₁⟩) ?_
  rintro (_ | reach) w₁ ⟨_, ⟨hopen, hanswer, rfl⟩, h₁⟩
  · have hsame : Function.closedOff f = f := if_neg (by rw [← hanswer]; nofun)
    rw [hsame] at h₁
    exact .throw' ⟨.inl ⟨rfl, hanswer.symm⟩, h₁⟩
  · exact .pure' ⟨_, ⟨hopen, hanswer.symm, rfl⟩, h₁⟩

theorem ends_compileFunc (h : w.Only fn s f w') :
    Ends (onFunc fn "compile" EngineM.compile) w'
      (fun _ w'' => ∃ f', f.Finishes f' ∧ w.Only fn s f' w'')
      (fun how w'' => ∃ p, how = .problem p ∧ w.Only fn s f w'') := by
  refine ends_onFunc h fun e he => (EngineM.compiles_compile s.id e).imp ?_
  rintro _ e' ⟨f₀, f', hf₀, hfinish, hset⟩
  obtain rfl := Option.mem_unique he hf₀
  exact ⟨f', hfinish, hset⟩

theorem ends_finishing (hl : w.Linked) (hs : w.Has fn s f) (hp : s.problem = none) :
    Ends (finishing fn) w
      (fun _ w' => ∃ f', w.Only fn { s with compiled := true } f' w' ∧
        s.Goes f { s with compiled := true } f')
      (fun how w' => how = .crashed ∧ f.endReachable = none ∧ w.Only fn s f w' ∨
        ∃ p f', how = .problem p ∧ w.Only fn s f' w' ∧
          s.Goes f { s with problem := some p } f') := by
  refine ends_function hs.1 ?_
  refine .bind' ((ends_reachesEnd (.refl hl hs)).imp_stop ?_) ?_
  · rintro _ w₁ ⟨⟨rfl, hnone⟩ | ⟨p, rfl⟩, h₁⟩
    · exact .inl ⟨rfl, hnone, h₁⟩
    · exact .inr ⟨p, f, rfl, h₁, .of_problem s f p⟩
  rintro reach w₁ ⟨_, ⟨hopen, hreach, rfl⟩, h₁⟩
  refine .ite' (fun _ => ?_) fun hend => ?_
  · refine .bind' (ends_functionName h₁.has).total ?_
    rintro name _ rfl
    refine .bind' (ends_tyText fun _ => h₁.linked.result h₁.has.1).total ?_
    rintro text _ rfl
    exact .bind_throw (.inr ⟨_, _, rfl, h₁, .of_closedOff hopen _⟩)
  · refine .bind' ((ends_compileFunc h₁).imp_stop ?_) ?_
    · rintro _ w₂ ⟨p, rfl, h₂⟩
      exact .inr ⟨p, _, rfl, h₂, .of_closedOff hopen p⟩
    rintro _ w₂ ⟨f', hfinish, h₂⟩
    have h₃ := h₂.modify (g := ({ · with compiled := true })) fun _ => ⟨rfl, rfl, rfl⟩
    refine .modify' ⟨f', h₃, .of_compiled hp ?_ hfinish⟩
    simpa [hreach] using hend

theorem ends_noted (h : w.Only fn s f w') (n : Trace.Note) :
    Ends (trace s.runtime n) w' (fun _ w'' => w.Only fn s f w'') fun _ _ => False := by
  obtain ⟨-, r, hr, hf⟩ := h.has
  obtain ⟨spans, tracing, hrun⟩ := run_trace hr n
  have hsame : r.engine.funcs = r.engine.funcs.setIfInBounds (s.id - 1) f := by
    obtain ⟨hlt, hget⟩ := Array.getElem?_eq_some_iff.mp (Engine.func?_lt hf).2.1
    simp [Array.setIfInBounds, hlt, ← hget]
  unfold Ends
  rw [hrun]
  exact h.advance hr hsame spans tracing

theorem ends_keep (h : w.Only fn s f w') (hp : s.problem = none) (p : Problem) :
    Ends (keep fn p) w' (fun _ w'' => w.Only fn { s with problem := some p } f w'')
      fun _ _ => False := by
  refine ends_function h.has.1 (.ite' (fun _ => .bind_modify ?_) fun hsome => ?_)
  · exact ends_noted (h.modify (g := ({ · with problem := some p })) fun _ => ⟨rfl, rfl, rfl⟩) _
  · simp [hp] at hsome

theorem ends_finish (hl : w.Linked) (hs : w.Has fn s f) (hp : s.problem = none) :
    Ends (finish fn) w (fun _ w' => w.Goes w' ∧ w'.Compiled fn) fun _ w' => w.Goes w' := by
  refine .bind' ((ends_attempt (ends_finishing hl hs hp)).imp_stop ?_) ?_
  · rintro _ w₁ ⟨hhow, ⟨rfl, -, h₁⟩ | ⟨p, f', rfl, -⟩⟩
    · exact h₁.goes hs (.refl s f)
    · exact absurd rfl (hhow p)
  rintro (p | _) w₁ h₁
  · obtain ⟨⟨⟩, -⟩ | ⟨_, f', ⟨⟩, h₁, hgo⟩ := h₁
    refine .bind' (ends_keep h₁ hp p).total fun _ w₂ h₂ => ?_
    exact .throw' (h₂.goes hs hgo)
  · obtain ⟨f', h₁, hgo⟩ := h₁
    exact .pure' ⟨h₁.goes hs hgo, _, h₁.has.1, rfl⟩

/-- Compiling keeps what is known of functions, and a function that compiled is
compiled. -/
theorem ends_compile (hl : w.Linked) (fn : FnId) :
    Ends (compile fn) w
      (fun _ w' => w.Goes w' ∧ w'.Compiled fn) fun _ w' => w.Goes w' := by
  have hrefl : w.Goes w := Std.Refl.refl w
  cases hget : w.functions[fn]? with
  | none =>
    unfold compile Ends
    rw [run_bind, run_function, hget]
    exact hrefl
  | some s =>
    obtain ⟨f, hs⟩ := hl.has hget
    refine ends_function hget ?_
    cases hp : s.problem with
    | some p => exact .throw' hrefl
    | none =>
      refine .ite' (fun hc => .pure' ⟨hrefl, s, hget, hc⟩) fun _ => ?_
      refine .bind' (ends_functionName hs).total ?_
      rintro name _ rfl
      have hopened := ends_noted (.refl hl hs) (.opened .function "compile")
      refine .bind' hopened.total fun _ w₁ h₁ => ?_
      have hgo₁ : w.Goes w₁ := h₁.goes hs (.refl s f)
      have hclosing : ∀ w₂ (n : Trace.Note), w₁.Goes w₂ →
          Ends (trace s.runtime n) w₂ (fun _ w' => w.Goes w' ∧ w₂.Goes w') fun _ w' => w.Goes w' :=
        fun w₂ n h₂ => ((asks_trace s.runtime n).leaves.ends w₂).mono
          (fun _ _ h => ⟨Trans.trans (Trans.trans hgo₁ h₂) h, h⟩)
          fun _ _ h => Trans.trans (Trans.trans hgo₁ h₂) h
      have hfinish := ends_attempt (ends_finish h₁.linked h₁.has hp)
      refine .bind' (hfinish.imp_stop fun _ _ h => Trans.trans hgo₁ h.2) ?_
      rintro (p | _) w₂ h₂
      · exact .bind' (hclosing w₂ _ h₂) fun _ w₃ h₃ => .throw' h₃.1
      · obtain ⟨hgo₂, t, ht, hc⟩ := h₂
        refine (hclosing w₂ _ hgo₂).imp fun _ w₃ h₃ => ⟨h₃.1, ?_⟩
        obtain ⟨hl₂, -⟩ := hgo₂ h₁.linked
        obtain ⟨g, hg⟩ := hl₂.has ht
        obtain ⟨t', g', hhas, hgoes⟩ := (h₃.2 hl₂).2 fn t g hg
        exact ⟨t', hhas.1, hgoes.compiled hc⟩

end BuildM

end TypedIR
