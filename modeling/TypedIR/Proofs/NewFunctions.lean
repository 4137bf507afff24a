import TypedIR.Proofs.BuiltFunctions
import TypedIR.Proofs.TypeQuestions

/-
  How functions of the builder are made.

  A new function stands for the newest function of an engine, which no other
  function stands for. A function made from a signature of its own runtime gives
  back what its function of the engine gives back; a signature of another
  runtime can say anything (`Workspace.Owns`).
-/

namespace TypedIR

def Workspace.SameCode (w w' : Workspace) : Prop :=
  w'.functions = w.functions ∧ (w'.contexts = w.contexts ∧ w'.builds = w.builds) ∧
    ∀ rt : RuntimeId, (w'.runtimes[rt]?).map (·.engine.funcs) =
      (w.runtimes[rt]?).map (·.engine.funcs)

/-- The type is of the runtime of the build. -/
def Workspace.Owns (w : Workspace) (b : BuildId) (t : Ty) : Prop :=
  ∃ s q, w.builds[b]? = some s ∧ w.contexts[s.ctx]? = some q ∧ t.owner = some q.runtime

/-- A function was made: it is sound, and others are what they were. With a
signature of its own runtime it gives back what its function of the engine
does. -/
structure Workspace.Makes (w : Workspace) (own : Prop) (fn : FnId) (w' : Workspace) : Prop where
  linked : w'.Linked
  has : ∃ s f, w'.Has fn s f ∧ s.Sound f ∧ (own → s.ret.kind = .void → f.ret.cls = .void)
  others : ∀ (gn : FnId) (t : Function) (g : Func), w.Has gn t g →
    ∃ t' g', w'.Has gn t' g' ∧ t.Goes g t' g'

theorem Workspace.Makes.goes {w w' : Workspace} {own : Prop} {fn : FnId}
    (h : w.Makes own fn w') : w.Goes w' := fun _ => ⟨h.linked, h.others⟩

namespace Workspace

instance : Std.Refl SameCode := ⟨fun _ => ⟨rfl, ⟨rfl, rfl⟩, fun _ => rfl⟩⟩

instance : Trans SameCode SameCode SameCode :=
  ⟨fun h h' => ⟨h'.1.trans h.1, ⟨h'.2.1.1.trans h.2.1.1, h'.2.1.2.trans h.2.1.2⟩,
    fun rt => (h'.2.2 rt).trans (h.2.2 rt)⟩⟩

variable {w w' : Workspace} {fn : FnId} {s : Function} {f : Func}

theorem SameCode.of_advance {rt : RuntimeId} {r : Runtime} {e : Engine} (spans : List Trace.Span)
    (tracing : Trace.Tracing) (hr : w.runtimes[rt]? = some r) (he : r.engine.SameCode e) :
    w.SameCode (w.advance rt r e spans tracing) := by
  refine ⟨rfl, ⟨rfl, rfl⟩, fun rt' => ?_⟩
  rw [getElem?_advance e spans tracing hr]
  split
  · next heq =>
    rw [← heq, hr]
    exact congrArg some he
  · rfl

instance : Follows SameCode Engine.SameCode where
  advance spans tracing hr he := .of_advance spans tracing hr he
  traced spans tracing hr := .of_advance spans tracing hr rfl

theorem SameCode.runtime (h : w.SameCode w') {rt : RuntimeId} {r : Runtime}
    (hr : w.runtimes[rt]? = some r) :
    ∃ r', w'.runtimes[rt]? = some r' ∧ r'.engine.funcs = r.engine.funcs := by
  have hmap := h.2.2 rt
  rw [hr] at hmap
  obtain ⟨r', hr', heq⟩ := Option.map_eq_some_iff.mp hmap
  exact ⟨r', hr', heq⟩

theorem SameCode.goes (h : w.SameCode w') : w.Goes w' := by
  refine .of_engines h.1 fun rt r hr => ?_
  obtain ⟨r', hr', heq⟩ := h.runtime hr
  exact ⟨r', hr', Engine.SameCode.evolves heq⟩

theorem SameCode.has (h : w.SameCode w') (hs : w.Has fn s f) : w'.Has fn s f := by
  obtain ⟨hs, r, hr, hf⟩ := hs
  obtain ⟨r', hr', heq⟩ := h.runtime hr
  exact ⟨h.1 ▸ hs, r', hr', (Engine.SameCode.func? heq s.id).trans hf⟩

/-- A new function of the builder, which stands for a function of an engine that
none stands for. -/
theorem Linked.push (hl : w.Linked) {s : Function} {f : Func}
    (hf : ∃ r, w.runtimes[s.runtime]? = some r ∧ r.engine.func? s.id = some f)
    (hfree : ∀ (gn : FnId) (t : Function), w.functions[gn]? = some t → t.runtime = s.runtime →
      t.id ≠ s.id)
    (hret : ∀ rt, s.ret.owner = some rt → rt < w.runtimes.size) (contexts : Array Context) :
    ({ w with functions := w.functions.push s, contexts } : Workspace).Linked ∧
    ({ w with functions := w.functions.push s, contexts } : Workspace).Has w.functions.size s f ∧
      ∀ (gn : FnId) (t : Function) (g : Func), w.Has gn t g →
        ({ w with functions := w.functions.push s, contexts } : Workspace).Has gn t g := by
  generalize hw : ({ w with functions := w.functions.push s, contexts } : Workspace) = w'
  have hrs : w'.runtimes = w.runtimes := hw ▸ rfl
  have hget : ∀ gn : FnId, w'.functions[gn]? =
      if gn = w.functions.size then some s else w.functions[gn]? := by
    intro gn
    rw [← hw]
    exact Array.getElem?_push
  have hhas : ∀ (gn : FnId) (t : Function) (g : Func), w.Has gn t g → w'.Has gn t g := by
    rintro gn t g ⟨ht, r, hr, hg⟩
    have hlt := lt_of_getElem? ht
    refine ⟨?_, r, hrs ▸ hr, hg⟩
    rw [hget, if_neg (Nat.ne_of_lt hlt)]
    exact ht
  have hnew : w'.Has w.functions.size s f :=
    ⟨(hget _).trans (if_pos rfl), hrs ▸ hf⟩
  refine ⟨⟨?_, ?_, ?_⟩, hnew, hhas⟩
  · intro gn t ht
    rw [hget] at ht
    split at ht
    · next hgn =>
      obtain rfl := Option.some.inj ht
      exact ⟨f, hgn ▸ hnew⟩
    · exact (hl.has ht).imp fun g hg => hhas gn t g hg
  · intro gn kn t u ht hu hrt hid
    rw [hget] at ht hu
    split at ht <;> split at hu
    · next hgn hkn => exact hgn.trans hkn.symm
    · obtain rfl := Option.some.inj ht
      exact absurd hid.symm (hfree kn u hu hrt.symm)
    · obtain rfl := Option.some.inj hu
      exact absurd hid (hfree gn t ht hrt)
    · exact hl.own ht hu hrt hid
  · intro gn t rt ht hrt
    rw [hget] at ht
    rw [hrs]
    split at ht
    · obtain rfl := Option.some.inj ht
      exact hret rt hrt
    · exact hl.result ht hrt

end Workspace

namespace BuildM

variable {α β : Type} {w : Workspace}

theorem ends_table {rt : RuntimeId} {k : TypeTable → BuildM β} {ok : β → Workspace → Prop}
    {stop : Stop → Workspace → Prop} (hnone : w.runtimes[rt]? = none → stop .crashed w)
    (hsome : ∀ r, w.runtimes[rt]? = some r → Ends (k r.engine.types) w ok stop) :
    Ends (table rt >>= k) w ok stop := by
  cases hr : w.runtimes[rt]? with
  | none =>
    unfold Ends
    rw [run_bind, run_table, hr]
    exact hnone hr
  | some r => exact Ends.bind_ok (by rw [run_table, hr]; rfl) (hsome r hr)

def VoidResult (w : Workspace) (sig : Ty) : Prop :=
  ∀ (rt : RuntimeId) (r : Runtime) (g : Signature), sig.owner = some rt →
    w.runtimes[rt]? = some r → r.engine.types.signature? sig.id = some g →
    ∃ d, r.engine.types.find? (r.engine.types.underlying g.result) = some d ∧ d.kind = .void

theorem kind_void_of_tyKind? {t : TypeTable} {id : TypeId} (h : t.tyKind? id = some .void) :
    ∃ d, t.find? (t.underlying id) = some d ∧ d.kind = .void := by
  have hkind : t.kindOf (t.underlying id) = .void := by
    unfold TypeTable.tyKind? at h
    split at h
    · cases h
    · split at h <;> first | assumption | cases h
  unfold TypeTable.kindOf at hkind
  cases hd : t.find? (t.underlying id) with
  | none =>
    rw [hd] at hkind
    cases hkind
  | some d =>
    rw [hd] at hkind
    exact ⟨d, rfl, hkind⟩

theorem underlying_of_signature? {t : TypeTable} {id : TypeId} {g : Signature}
    (h : t.signature? id = some g) : t.underlying id = id := by
  unfold TypeTable.signature? at h
  split at h
  · next d hd =>
    split at h
    · next hk => exact TypeTable.underlying_of_not_tagged hd (by rw [hk]; nofun)
    · cases h
  · cases h

theorem ends_signatureOf? {sig : Ty} {rt : RuntimeId} {w : Workspace}
    (hkind : sig.kind = .signature) (howner : sig.owner = some rt) :
    Ends (signatureOf? sig) w (fun g w' => w = w' ∧
      ∀ r, w.runtimes[rt]? = some r → r.engine.signature? sig.id = g) fun _ w' => w = w' := by
  unfold signatureOf? ownerOf
  rw [if_neg (not_not_intro hkind), howner]
  refine .bind_pure ?_
  cases hr : w.runtimes[rt]? with
  | none =>
    unfold Ends
    rw [run_bind, run_engine, hr]
    rfl
  | some r =>
    have hengine := run_engine rt w
    rw [hr] at hengine
    refine Ends.bind_ok hengine (Ends.pure' ⟨rfl, ?_⟩)
    rintro _ ⟨⟩
    rfl

theorem ends_returnOf (sig : Ty) (w : Workspace) :
    Ends (returnOf sig) w (fun ret w' => w = w' ∧
      (∀ rt, ret.owner = some rt → rt < w.runtimes.size) ∧
      (ret.kind = .void → VoidResult w sig))
      fun _ w' => w = w' := by
  unfold returnOf
  refine .ite' (fun _ => .pure' ⟨rfl, nofun, nofun⟩) fun hkind => ?_
  have hkind : sig.kind = .signature := by simpa using hkind
  cases howner : sig.owner with
  | none =>
    unfold ownerOf
    rw [howner]
    exact .bind_throw rfl
  | some rt =>
    unfold ownerOf
    rw [howner]
    refine .bind_pure (.bind' (ends_signatureOf? hkind howner) ?_)
    rintro g _ ⟨rfl, hg⟩
    unfold mustWrap
    refine ends_table (fun _ => rfl) fun r hr => ?_
    obtain rfl := hg r hr
    cases hwrap : r.engine.types.wrap? rt
        (((r.engine.signature? sig.id).map (·.result)).getD 0) with
    | none => exact .throw' rfl
    | some ret =>
      obtain ⟨kind, hty, rfl⟩ := Option.map_eq_some_iff.mp hwrap
      refine .pure' ⟨rfl, ?_, ?_⟩
      · rintro _ ⟨⟩
        exact lt_of_getElem? hr
      · rintro rfl rt' r' g ho hr' hsig
        obtain rfl := Option.mem_unique howner ho
        obtain rfl := Option.mem_unique hr hr'
        have hfound : r.engine.signature? sig.id = some g := by
          unfold Engine.signature?
          rw [underlying_of_signature? hsig]
          exact hsig
        rw [hfound] at hty
        exact kind_void_of_tyKind? hty

/-- Only what the engine made last can be taken into the builder: no function
stands for it yet. -/
def Unclaimed (w : Workspace) (rt : RuntimeId) (id : FuncId) (f : Func) : Prop :=
  (∃ r, w.runtimes[rt]? = some r ∧ r.engine.func? id = some f) ∧
    ∀ (gn : FnId) (t : Function), w.functions[gn]? = some t → t.runtime = rt → t.id ≠ id

theorem Unclaimed.same {w' : Workspace} {rt : RuntimeId} {id : FuncId} {f : Func}
    (h : Unclaimed w rt id f) (hs : w.SameCode w') : Unclaimed w' rt id f := by
  obtain ⟨⟨r, hr, hf⟩, hfree⟩ := h
  obtain ⟨r', hr', heq⟩ := hs.runtime hr
  refine ⟨⟨r', hr', (Engine.SameCode.func? heq id).trans hf⟩, ?_⟩
  rw [hs.1]
  exact hfree

/-- A function that was just made, in the workspace before and the one after. -/
structure Made (w : Workspace) (rt : RuntimeId) (id : FuncId) (f : Func) (sig : Ty)
    (compiled : Bool) (fn : FnId) (w' : Workspace) : Prop where
  linked : w'.Linked
  has : ∃ s, w'.Has fn s f ∧ s.runtime = rt ∧ s.id = id ∧ s.problem = none ∧ s.compiled = compiled ∧
    (s.ret.kind = .void → VoidResult w sig)
  others : ∀ (gn : FnId) (t : Function) (g : Func), w.Has gn t g → w'.Has gn t g

theorem Made.goes {rt : RuntimeId} {id : FuncId} {f : Func} {sig : Ty} {compiled : Bool} {fn : FnId}
    {w' : Workspace} (h : Made w rt id f sig compiled fn w') : w.Goes w' :=
  fun _ => ⟨h.linked, fun gn t g hg => ⟨t, g, h.others gn t g hg, .refl t g⟩⟩

theorem ends_adopt {c : CtxId} {q : Context} {id : FuncId} {f : Func} (sig : Ty) (compiled : Bool)
    (hl : w.Linked) (hc : w.contexts[c]? = some q) (h : Unclaimed w q.runtime id f) :
    Ends (adopt c id sig compiled) w
      (fun fn w' => Made w q.runtime id f sig compiled fn w')
      fun _ w' => w.SameCode w' := by
  have hrefl : w.SameCode w := Std.Refl.refl w
  refine ends_context (fun hnone => ?_) fun q' hq' => ?_
  · rw [hc] at hnone
    cases hnone
  obtain rfl := Option.mem_unique hc hq'
  refine .bind' ((ends_returnOf sig w).mono (fun _ _ h => h) fun _ _ h => h ▸ hrefl) ?_
  rintro ret _ ⟨rfl, hret, hvoid⟩
  have hrep : ∀ id, Leaves Workspace.SameCode (onEngine q.runtime "function" (EngineM.repOf id)) :=
    fun id => leaves_onEngine _ _ (EngineM.quiet_repOf id)
  refine .bind' ((asks_paramsOf sig).leaves.ends w) fun params w₁ h₁ => ?_
  refine .bind' (((Leaves.mapM' params fun p => hrep p.id).ends w₁).mono
    (fun _ _ h => Trans.trans h₁ h) fun _ _ h => Trans.trans h₁ h) fun paramReps w₂ h₂ => ?_
  refine .bind' (((hrep ret.id).ends w₂).mono (fun _ _ h => Trans.trans h₂ h)
    fun _ _ h => Trans.trans h₂ h) fun retRep w₃ h₃ => ?_
  obtain ⟨hcode, hfree⟩ := h.same h₃
  obtain ⟨hl₃, -⟩ := h₃.goes hl
  have howner : ∀ rt, ret.owner = some rt → rt < w₃.runtimes.size := fun rt hrt => by
    obtain ⟨r', hr', -⟩ := h₃.runtime (Array.getElem?_eq_getElem (hret rt hrt))
    exact lt_of_getElem? hr'
  obtain ⟨hl₄, hnew, hold⟩ := hl₃.push
    (s := { runtime := q.runtime, id, sig, ret, params, paramReps, retRep, compiled })
    hcode hfree howner
    (w₃.contexts.modify c fun s => { s with functions := s.functions ++ [w₃.functions.size] })
  refine .bind_get (.bind_modify (.bind_modify (.pure' ?_)))
  exact ⟨hl₄, ⟨_, hnew, rfl, rfl, rfl, rfl, hvoid⟩, fun gn t g ht => hold gn t g (h₃.has ht)⟩

theorem unclaimed_next (hl : w.Linked) {rt : RuntimeId} {r : Runtime} {e : Engine} {f : Func}
    (hr : w.runtimes[rt]? = some r) (he : e.func? (r.engine.funcs.size + 1) = some f)
    (spans : List Trace.Span) (tracing : Trace.Tracing) :
    Unclaimed (w.advance rt r e spans tracing) rt (r.engine.funcs.size + 1) f := by
  refine ⟨⟨{ r with engine := e, spans }, ?_, he⟩, fun gn t ht hrt hid => ?_⟩
  · rw [Workspace.getElem?_advance e spans tracing hr, if_pos rfl]
  · obtain ⟨g, -, r', hr', hg⟩ := hl.has ht
    obtain rfl := Option.mem_unique hr (hrt ▸ hr')
    have hlt := (Engine.func?_lt (hid ▸ hg)).2.2
    simp at hlt

theorem ends_checkActive (b : BuildId) (op : String) (w : Workspace) :
    Ends (checkActive b op) w (fun t w' => w = w' ∧ w.builds[b]? = some t)
      fun _ w' => w.SameCode w' := by
  have hrefl : w.SameCode w := Std.Refl.refl w
  refine ends_build (fun _ => hrefl) fun t ht => .ite' (fun _ => ?_) fun _ => .pure' ⟨rfl, ht⟩
  exact ends_context (fun _ => hrefl) fun q _ => .bind_throw hrefl

theorem sound_fresh {s : Function} {f : Func} {t : TypeTable} {sig : TypeId} {id : FuncId}
    (h : f.Fresh t sig id) (hs : s.compiled = false) : s.Sound f where
  labels l pos hpos := by
    rw [h.labels] at hpos
    have hlt := lt_of_getElem? hpos
    obtain rfl : l = 0 := by simpa using hlt
    obtain rfl : -1 = pos := by simpa using hpos
    exact Int.le_trans (by decide) (Int.natCast_nonneg f.insns.size)
  closed hc := absurd (h.compiled.symm.trans hc) nofun
  compiled hc := absurd (hs.symm.trans hc) nofun
  returns _ _ i hi := by simp [h.insns] at hi

theorem ends_newFunction (hl : w.Linked) (b : BuildId) (name : String) (sig : Ty) :
    Ends (newFunction b name sig) w (fun fn w' => w.Makes (w.Owns b sig) fn w')
      fun _ w' => w.Goes w' := by
  have hrefl : w.Goes w := Std.Refl.refl w
  refine .bind' ((ends_checkActive b "function" w).imp_stop fun _ _ h => h.goes) ?_
  rintro t _ ⟨rfl, ht⟩
  have hcreate : Ends (do
      let c ← context t.ctx
      let id ← onEngine c.runtime "function" (EngineM.createFunction c.id sig.id name)
      adopt t.ctx id sig false) w (fun fn w' => w.Makes (w.Owns b sig) fn w')
      fun _ w' => w.Goes w' := by
    refine ends_context (fun _ => hrefl) fun q hq => ?_
    cases hr : w.runtimes[q.runtime]? with
    | none =>
      exact .stopped ((ends_operation_none _ hr).mono (fun _ _ h => h) fun _ _ h => h ▸ hrefl)
    | some r =>
      refine .bind' ((ends_operation _ hr
        (EngineM.ends_createFunction q.id sig.id name r.engine)).imp_stop ?_) ?_
      · rintro _ _ ⟨err, e, spans, tracing, -, hsame, rfl⟩
        exact .of_advance spans tracing hr (Engine.SameCode.evolves hsame)
      rintro id _ ⟨e, spans, tracing, ⟨rfl, htypes, f, hpush, hfresh⟩, rfl⟩
      have hgo₁ : w.Goes (w.advance q.runtime r { e with notes := #[] } spans tracing) :=
        .of_advance spans tracing hr (Engine.SameBelow.of_push hpush _).evolves
      have hnew : e.func? (r.engine.funcs.size + 1) = some f := by simp [Engine.func?, hpush]
      have hunclaimed := unclaimed_next hl hr (e := { e with notes := #[] }) hnew spans tracing
      refine (ends_adopt sig false (hgo₁ hl).1 hq hunclaimed).mono (fun fn w₂ h₂ => ?_)
        fun _ _ h => Trans.trans hgo₁ h.goes
      obtain ⟨s, hs, -, -, -, hc, hvoid⟩ := h₂.has
      refine ⟨h₂.linked, ⟨s, f, hs, sound_fresh hfresh hc, ?_⟩,
        ((Trans.trans hgo₁ h₂.goes : Workspace.Goes _ _) hl).2⟩
      · rintro ⟨t', q', ht', hq', howner⟩ hkind
        obtain rfl := Option.mem_unique ht ht'
        obtain rfl := Option.mem_unique hq hq'
        obtain ⟨g, hsig, hret⟩ := hfresh.ret
        rw [← htypes] at hsig hret
        obtain ⟨d, hd, hk⟩ := hvoid hkind q.runtime _ g howner
          ((Workspace.getElem?_advance _ spans tracing hr q.runtime).trans (if_pos rfl)) hsig
        exact hret d hd hk
  refine .ite' (fun _ => ?_) fun _ => hcreate
  refine .bind' (((asks_tyText sig).leaves.ends w).imp fun _ _ h => h) fun _ _ h => ?_
  exact .bind_throw h

theorem ends_signatureTy (rt : RuntimeId) (params : List Ty) (ret : Ty) (abi : Abi) :
    Ends (signatureTy rt params ret abi) w (fun sig w' => sig.owner = some rt ∧ w.SameCode w')
      fun _ w' => w.SameCode w' := by
  have howner : Ends (signatureTy rt params ret abi) w (fun sig _ => sig.owner = some rt)
      fun _ _ => True := by
    have hmake : ∀ w, Ends (do
        validParams 0 params
        let id ← onEngine rt "create" (EngineM.signatureType abi ret.id (params.map (·.id)))
        wrapType rt id) w (fun sig _ => sig.owner = some rt) fun _ _ => True := by
      refine fun w => .bind_any fun _ w₁ => .bind_any fun id w₂ => ends_table (fun _ => trivial)
        fun r _ => ?_
      cases hwrap : r.engine.types.wrap? rt id with
      | none => exact .throw' trivial
      | some t =>
        obtain ⟨kind, -, rfl⟩ := Option.map_eq_some_iff.mp hwrap
        exact .pure' rfl
    exact .ite' (fun _ => .bind_throw trivial) fun _ => hmake w
  have hsame : Leaves Workspace.SameCode (signatureTy rt params ret abi) :=
    leaves_signatureTy rt params ret abi (EngineM.quiet_signatureType _ _ _)
  exact (howner.and' (hsame.ends w)).imp_stop fun _ _ h => h.2

/-- A function of parameter and result types is one of a signature of its own
runtime. -/
theorem ends_startFunction (hl : w.Linked) (b : BuildId) (params : List Ty) (ret : Ty) :
    Ends (startFunction b params ret) w (fun fn w' => w.Makes True fn w')
      fun _ w' => w.Goes w' := by
  have hrefl : w.Goes w := Std.Refl.refl w
  refine ends_build (fun _ => hrefl) fun t ht => ends_context (fun _ => hrefl) fun q hq => ?_
  refine .bind' ((ends_signatureTy q.runtime params ret .cdecl).imp_stop
    fun _ _ h => h.goes) fun sig w₁ ⟨howner, h₁⟩ => ?_
  have hgo₁ := h₁.goes
  refine (ends_newFunction (hgo₁ hl).1 b "" sig).mono (fun fn w₂ h₂ => ?_)
    fun _ _ h => Trans.trans hgo₁ h
  obtain ⟨s, f, hs, hsound, hown⟩ := h₂.has
  have howns : w₁.Owns b sig := ⟨t, q, by rw [h₁.2.1.2, ht], by rw [h₁.2.1.1, hq], howner⟩
  exact ⟨h₂.linked, ⟨s, f, hs, hsound, fun _ => hown howns⟩,
    ((Trans.trans hgo₁ h₂.goes : Workspace.Goes _ _) hl).2⟩

theorem ends_loadImage (hl : w.Linked) (b : BuildId) (img : Option Image) :
    Ends (loadImage b img) w (fun _ w' => w.Goes w') fun _ w' => w.Goes w' := by
  have hrefl : w.Goes w := Std.Refl.refl w
  refine .bind' ((ends_checkActive b "load_image" w).imp_stop fun _ _ h => h.goes) ?_
  rintro t _ ⟨rfl, ht⟩
  refine ends_context (fun _ => hrefl) fun q hq => ?_
  cases hr : w.runtimes[q.runtime]? with
  | none =>
    exact .stopped ((ends_operation_none _ hr).mono (fun _ _ h => h) fun _ _ h => h ▸ hrefl)
  | some r =>
    refine .bind' ((ends_operation _ hr (EngineM.ends_importImage q.id img r.engine)).imp_stop ?_) ?_
    · rintro _ _ ⟨err, e, spans, tracing, -, hbelow, rfl⟩
      exact .of_advance spans tracing hr hbelow.evolves
    rintro id _ ⟨e, spans, tracing, ⟨rfl, hbelow⟩, rfl⟩
    have hgo₁ : w.Goes (w.advance q.runtime r { e with notes := #[] } spans tracing) :=
      .of_advance spans tracing hr hbelow.evolves
    have hr₁ := (Workspace.getElem?_advance { e with notes := #[] } spans tracing hr
      q.runtime).trans (if_pos rfl)
    have hask : Ends (EngineM.func (r.engine.funcs.size + 1)) ({ e with notes := #[] } : Engine)
        (fun f e' => e'.funcs = e.funcs ∧ e.func? (r.engine.funcs.size + 1) = some f)
        fun _ e' => e'.funcs = e.funcs := by
      refine .bind_get ?_
      dsimp only
      cases hfind : ({ e with notes := #[] } : Engine).findFunc (r.engine.funcs.size + 1) with
      | ok f => exact .pure' ⟨rfl, (EngineM.findFunc_ok hfind).1⟩
      | error err => exact .throw' rfl
    refine .bind' ((ends_operation _ hr₁ hask).imp_stop ?_) ?_
    · rintro _ _ ⟨err, e₂, spans₂, tracing₂, -, hsame, rfl⟩
      have h₂ := Workspace.SameCode.of_advance (e := { e₂ with notes := #[] }) spans₂ tracing₂ hr₁
        hsame
      exact Trans.trans hgo₁ h₂.goes
    rintro f _ ⟨e₂, spans₂, tracing₂, ⟨hsame, hf⟩, rfl⟩
    have h₂ := Workspace.SameCode.of_advance (e := { e₂ with notes := #[] }) spans₂ tracing₂ hr₁
      hsame
    have hunclaimed := unclaimed_next hl hr (e := { e with notes := #[] }) hf spans tracing
    have hwrap : Leaves Workspace.SameCode (wrapType q.runtime f.sig) := leaves_wrapType _ _
    refine .bind' ((hwrap.ends _).imp_stop fun _ _ h =>
      Trans.trans hgo₁ (Trans.trans h₂ h : Workspace.SameCode _ _).goes) fun sig w₃ h => ?_
    have h₃ : Workspace.SameCode _ w₃ := Trans.trans h₂ h
    have hgo₃ := Trans.trans hgo₁ (Workspace.SameCode.goes h₃)
    have hq₃ : w₃.contexts[t.ctx]? = some q := by
      rw [h₃.2.1.1]
      exact hq
    refine (ends_adopt sig true (hgo₃ hl).1 hq₃ (hunclaimed.same h₃)).mono (fun fn w₄ h₄ => ?_)
      fun _ _ h => Trans.trans hgo₃ h.goes
    exact Trans.trans hgo₃ h₄.goes

end BuildM

end TypedIR
