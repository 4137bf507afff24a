import TypedIR.Proofs.Emitting
import TypedIR.Proofs.Frames

/-
  Engines hold typed functions.

  A step takes an engine whose functions are typed to one whose functions are
  typed; types stay and no function changes what its callers rely on. Every
  operation of the engine keeps to such steps, also when it fails. Compiling
  adds that jumps go to placed labels and that a value has a slot if and only if
  it needs one. What it answers and leaves is said once (`EngineM.ends_compile`).
-/

namespace TypedIR

namespace Engine

def heads (e : Engine) (fn : FuncId) : Option Head := (e.func? fn).map (·.head)

def scope (e : Engine) : Scope := ⟨e.target, e.types, e.heads⟩

/-- The rules for engines. With `strict` no remembered refusal of a layout is
out of date. -/
structure Typed (strict : Prop) (e : Engine) : Prop where
  ordered : e.types.Ordered
  honest : Layout.Honest e.target e.types strict e.layouts
  id : ∀ {fn f}, e.func? fn = some f → f.id = fn
  func : ∀ {fn f}, e.func? fn = some f → f.Typed e.scope
  ready : ∀ {fn f}, e.func? fn = some f → f.compiled = true →
    f.Ready strict e.scope

/-- What an operation may do to an engine. -/
structure Step (strict : Prop) (e e' : Engine) : Prop where
  typed : e'.Typed strict
  scope : e.scope.Grows e'.scope
  shape : e'.host.memory.offsetBits = e.host.memory.offsetBits

variable {strict : Prop}

instance : Trans (Step strict) (Step strict) (Step strict) where
  trans h h' := ⟨h'.typed, ⟨h'.scope.target.trans h.scope.target, h.scope.types.trans h'.scope.types,
    fun hh => h'.scope.heads (h.scope.heads hh)⟩, h'.shape.trans h.shape⟩

theorem Step.refl {e : Engine} (h : e.Typed strict) : Step strict e e :=
  ⟨h, ⟨rfl, .refl _, fun h => h⟩, rfl⟩

/-- An operation that keeps what callers rely on, and whose new functions are
well-formed. -/
theorem Step.of_funcs {e e' : Engine} (h : e.Typed strict) (htarget : e'.target = e.target)
    (hshape : e'.host.memory.offsetBits = e.host.memory.offsetBits)
    (hgrows : e.types.Grows e'.types) (hordered : e'.types.Ordered)
    (hhonest : Layout.Honest e'.target e'.types strict e'.layouts)
    (hold : ∀ fn f, e.func? fn = some f → ∃ f', e'.func? fn = some f' ∧ f'.head = f.head)
    (hnew : ∀ fn f', e'.func? fn = some f' → e.func? fn = some f' ∨
      f'.id = fn ∧ (e.scope.Grows e'.scope → f'.Typed e'.scope) ∧
        (f'.compiled = true → e.scope.Grows e'.scope → f'.Ready strict e'.scope)) : Step strict e e' := by
  have hscope : e.scope.Grows e'.scope := by
    refine ⟨htarget, hgrows, fun {fn hd} hh => ?_⟩
    obtain ⟨f, hf, rfl⟩ := Option.map_eq_some_iff.mp hh
    obtain ⟨f', hf', hhead⟩ := hold fn f hf
    show (e'.func? fn).map (·.head) = _
    rw [hf', Option.map_some, hhead]
  refine ⟨⟨hordered, hhonest, ?_, ?_, ?_⟩, hscope, hshape⟩
  · intro fn f' hf'
    rcases hnew fn f' hf' with hf | ⟨hid, -, -⟩
    · exact h.id hf
    · exact hid
  · intro fn f' hf'
    rcases hnew fn f' hf' with hf | ⟨-, htyped, -⟩
    · exact (h.func hf).grow h.ordered hscope
    · exact htyped hscope
  · intro fn f' hf' hc
    rcases hnew fn f' hf' with hf | ⟨-, -, hready⟩
    · exact (h.ready hf hc).grow h.ordered hscope
    · exact hready hc hscope

theorem Step.of_types {e e' : Engine} (h : e.Typed strict) (htarget : e'.target = e.target)
    (hshape : e'.host.memory.offsetBits = e.host.memory.offsetBits)
    (hgrows : e.types.Grows e'.types) (hordered : e'.types.Ordered)
    (hhonest : Layout.Honest e'.target e'.types strict e'.layouts)
    (hf : e'.funcs = e.funcs) : Step strict e e' := by
  have hfunc : ∀ fn, e'.func? fn = e.func? fn := fun fn => by simp [func?, hf]
  exact .of_funcs h htarget hshape hgrows hordered hhonest
    (fun fn f hf => ⟨f, (hfunc fn).trans hf, rfl⟩) fun fn f' hf' => .inl ((hfunc fn).symm.trans hf')

theorem Step.of_same {e e' : Engine} (h : e.Typed strict) (ht : e'.target = e.target)
    (hshape : e'.host.memory.offsetBits = e.host.memory.offsetBits)
    (hty : e'.types = e.types) (hl : e'.layouts = e.layouts) (hf : e'.funcs = e.funcs) :
    Step strict e e' := by
  refine .of_types h ht hshape (hty ▸ .refl _) (hty ▸ h.ordered) ?_ hf
  rw [ht, hty, hl]
  exact h.honest

end Engine

theorem Func.Typed.head_eq {sc : Scope} {f f' : Func} (h : f.Typed sc) (he : f.Extends f') :
    f'.head = f.head := by
  unfold Func.head
  rw [he.header.params, he.header.ret]
  congr 1
  refine List.filterMap_congr fun v hv => ?_
  obtain ⟨info, hinfo, -⟩ := h.param hv
  have hrep := Func.rep?_of_value? hinfo
  rw [he.rep? hrep, hrep]

theorem Func.Typed.head_of {sc : Scope} {f : Func} (h : f.Typed sc) :
    f.head.Of sc.target sc.types f.sig := by
  obtain ⟨s, hsig, hret, -, hparams, hvalues⟩ := h.sig
  refine ⟨s, hsig, hret, ?_⟩
  have hrep : ∀ i (hi : i < s.params.length),
      ∃ r, f.rep? (i + 1) = some r ∧ sc.types.HasRep sc.target s.params[i] r := by
    intro i hi
    obtain ⟨info, hv, hparam, -⟩ := hvalues i _ (List.getElem?_eq_getElem hi)
    refine ⟨info.rep, Func.rep?_of_value? hv, ?_⟩
    have htype : info.type = s.params[i] := by
      rw [hparam]
    exact htype ▸ (h.value hv).rep
  have hmap : f.params.filterMap f.rep? =
      (List.range s.params.length).map fun i => (f.rep? (i + 1)).getD {} := by
    rw [hparams, List.filterMap_map, ← List.filterMap_eq_map]
    refine List.filterMap_congr fun i hi => ?_
    obtain ⟨r, hr, -⟩ := hrep i (List.mem_range.mp hi)
    simp [hr]
  refine List.forall₂_iff_get.mpr ⟨by simp [Func.head, hmap], fun i hi hi' => ?_⟩
  obtain ⟨r, hr, hhas⟩ := hrep i hi
  simpa [Func.head, hmap, hr] using hhas

theorem Func.Typed.length_head_params {sc : Scope} {f : Func} (h : f.Typed sc) :
    f.head.params.length = f.params.length := by
  obtain ⟨s, hs, -, hall⟩ := h.head_of
  obtain ⟨s', hs', -, -, hparams, -⟩ := h.sig
  obtain rfl := Option.mem_unique hs hs'
  rw [← hall.length_eq, hparams]
  simp

theorem Func.Typed.isScalar_head {sc : Scope} {f : Func} (h : f.Typed sc) :
    ∀ r ∈ f.head.params, r.isScalar = true := by
  intro r hr
  obtain ⟨p, hp, hrep⟩ := List.mem_filterMap.mp hr
  obtain ⟨info, hinfo, hs⟩ := h.param hp
  obtain rfl := Option.mem_unique (Func.rep?_of_value? hinfo) hrep
  exact hs

namespace Engine

variable {strict : Prop} {e : Engine}

theorem func?_lt {fn : Nat} {f : Func} (h : e.func? fn = some f) :
    0 < fn ∧ e.funcs[fn - 1]? = some f ∧ fn - 1 < e.funcs.size := by
  unfold func? at h
  split at h
  · cases h
  · next h0 => exact ⟨Nat.pos_of_ne_zero h0, h, lt_of_getElem? h⟩

theorem head_eq {fn : FuncId} {h : Head} {f : Func} (hh : e.scope.heads fn = some h)
    (hf : e.func? fn = some f) : h = f.head := by
  have hmap : (e.func? fn).map (·.head) = some h := hh
  rw [hf] at hmap
  exact (Option.some.inj hmap).symm

theorem func?_set {fn : Nat} {f f' : Func} (h : e.func? fn = some f) (gn : Nat) (e' : Engine)
    (he : e'.funcs = e.funcs.setIfInBounds (fn - 1) f') :
    e'.func? gn = if gn = fn then some f' else e.func? gn := by
  obtain ⟨hpos, -, hlt⟩ := func?_lt h
  unfold func?
  rw [he]
  by_cases hg : gn = fn
  · subst hg
    simp [Nat.ne_of_gt hpos, hlt]
  · by_cases h0 : gn = 0
    · simp [h0, Nat.ne_of_lt hpos]
    · have hne : fn - 1 ≠ gn - 1 := by omega
      simp [hg, h0, hne]

theorem Step.of_change {e' : Engine} (h : e.Typed strict) {fn : Nat} {f f' : Func}
    (hf : e.func? fn = some f) (hset : e'.funcs = e.funcs.setIfInBounds (fn - 1) f')
    (htarget : e'.target = e.target)
    (hshape : e'.host.memory.offsetBits = e.host.memory.offsetBits)
    (hgrows : e.types.Grows e'.types) (hordered : e'.types.Ordered)
    (hhonest : Layout.Honest e'.target e'.types strict e'.layouts)
    (hid : f'.id = f.id) (hhead : f'.head = f.head)
    (htyped : e.heads = e'.heads → f'.Typed e'.scope)
    (hready : f'.compiled = true → f'.Ready strict e'.scope) : Step strict e e' := by
  have hfunc := fun gn => func?_set hf gn e' hset
  have hheads : e.heads = e'.heads := by
    funext gn
    unfold heads
    rw [hfunc]
    split
    · next hg => rw [hg, hf, Option.map_some, Option.map_some, hhead]
    · rfl
  refine .of_funcs h htarget hshape hgrows hordered hhonest ?_ ?_
  · intro gn g hg
    rw [hfunc]
    split
    · next he =>
      rw [he, hf] at hg
      cases hg
      exact ⟨f', rfl, hhead⟩
    · exact ⟨g, hg, rfl⟩
  · intro gn g' hg'
    rw [hfunc] at hg'
    split at hg'
    · next he =>
      cases hg'
      exact .inr ⟨by rw [he, hid]; exact h.id hf, fun _ => htyped hheads, fun hc _ => hready hc⟩
    · exact .inl hg'

end Engine

/-! ## Operations on functions -/

namespace EngineM

open TypedIR.Keeps

variable {strict : Prop} {e : Engine} {α β : Type}

theorem keeps_get (h : e.Typed strict) :
    Keeps (Engine.Step strict) (get : EngineM Engine) e (fun a e' => e = a ∧ e = e') :=
  get' (.refl h)

theorem keeps_fail {post : α → Engine → Prop} (h : e.Typed strict) (c : Cause) :
    Keeps (Engine.Step strict) (fail c) e post :=
  throw' (.refl h)

theorem keeps_fail_bind {k : α → EngineM β} {after : β → Engine → Prop} (h : e.Typed strict)
    (c : Cause) : Keeps (Engine.Step strict) (fail c >>= k) e after :=
  Ends.bind_throw (.refl h)

theorem keeps_note (h : e.Typed strict) (n : Trace.Note) :
    Keeps (Engine.Step strict) (note n) e (fun _ _ => True) :=
  mono (modify' (.of_same h rfl rfl rfl rfl rfl)) fun _ _ _ _ => trivial

theorem keeps_ask (h : e.Typed strict) (f : Engine → Except Failure α) :
    Keeps (Engine.Step strict) (ask f) e (fun a e' => e = e' ∧ f e = .ok a) := by
  unfold ask
  refine bind' (keeps_get h) ?_
  rintro _ _ - ⟨rfl, rfl⟩
  split
  · next a ha => exact pure' (.refl h) ⟨rfl, ha⟩
  · exact throw' (.refl h)

/-- Walks over a question whose answer is known. -/
theorem ends_answered {α β : Type} {q : Engine → Except Failure α} {a : α} (h : q e = .ok a)
    {k : α → EngineM β} {ok : β → Engine → Prop} {stop : Failure → Engine → Prop}
    (hk : Ends (k a) e ok stop) : Ends (ask q >>= k) e ok stop := by
  have hrun : ((ask q).run e : Except Failure α × Engine) = (.ok a, e) := by
    refine Ends.run_eq (.bind_get ?_)
    rw [h]
    exact .pure' rfl
  exact .bind_ok hrun hk

@[inherit_doc ends_answered]
theorem ends_ask_error {α β : Type} {q : Engine → Except Failure α} {err : Failure}
    (h : q e = .error err) {k : α → EngineM β} {ok : β → Engine → Prop}
    {stop : Failure → Engine → Prop} (hstop : stop err e) : Ends (ask q >>= k) e ok stop := by
  refine .stopped (.bind_get ?_)
  rw [h]
  exact .throw' hstop

theorem findFunc_ok {fn : FuncId} {f : Func} (h : e.findFunc fn = .ok f) :
    e.func? fn = some f ∧ f.destroyed = false := by
  unfold Engine.findFunc at h
  split at h
  · cases h
  · next g hg =>
    split at h
    · cases h
    · next hd =>
      cases h
      exact ⟨hg, Bool.eq_false_iff.mpr hd⟩

theorem findOpen_ok {fn : FuncId} {f : Func} (h : e.findOpen fn = .ok f) :
    e.func? fn = some f ∧ f.destroyed = false ∧ f.compiled = false ∧ e.building = f.ctx := by
  unfold Engine.findOpen at h
  rcases hf : e.findFunc fn with err | g
  · simp [hf, bind, Except.bind] at h
  · simp only [hf, bind, Except.bind] at h
    by_cases hc : g.compiled = true
    · simp [hc, throw, throwThe, MonadExceptOf.throw] at h
    · by_cases hb : e.building = g.ctx
      · simp [hc, hb, pure, Except.pure] at h
        subst h
        exact ⟨(findFunc_ok hf).1, (findFunc_ok hf).2, Bool.eq_false_iff.mpr hc, hb⟩
      · simp [hc, hb, throw, throwThe, MonadExceptOf.throw] at h

theorem findFunc_of {fn : FuncId} {f : Func} (hf : e.func? fn = some f)
    (halive : f.destroyed = false) : e.findFunc fn = .ok f := by
  unfold Engine.findFunc
  rw [hf]
  dsimp only
  rw [halive]
  rfl

theorem findOpen_of {fn : FuncId} {f : Func} (hf : e.func? fn = some f)
    (halive : f.destroyed = false) (hopen : f.compiled = false) (hbuilding : e.building = f.ctx) :
    e.findOpen fn = .ok f := by
  unfold Engine.findOpen
  rw [findFunc_of hf halive]
  simp [bind, Except.bind, hopen, hbuilding, pure, Except.pure]

theorem findFunc_set {fn : FuncId} {f f' : Func} {e' : Engine} (h : e.findFunc fn = .ok f)
    (hf : f'.destroyed = f.destroyed) (he : e'.funcs = e.funcs.setIfInBounds (fn - 1) f') :
    e'.findFunc fn = .ok f' := by
  obtain ⟨hfunc, halive⟩ := findFunc_ok h
  refine findFunc_of ?_ (hf.trans halive)
  rw [Engine.func?_set hfunc fn e' he, if_pos rfl]

/-- An emitter that keeps the bench typed keeps the engine typed, and what holds of the
function on the bench holds of the function then. -/
theorem keeps_emitInto_func (h : e.Typed strict) (fn : FuncId) {act : EmitM α}
    {post : α → Bench → Prop}
    (hact : ∀ b : Bench, b.target = e.target → b.types = e.types → e.func? fn = some b.func →
      b.Typed strict e.heads → Keeps (Bench.Step strict e.heads) act b post) :
    Keeps (Engine.Step strict) (emitInto fn act) e fun a e' => ∃ f b', e.func? fn = some f ∧
      f.Extends b'.func ∧ post a b' ∧ e'.types = b'.types ∧ e'.func? fn = some b'.func := by
  unfold emitInto
  refine bind' (keeps_ask h _) ?_
  rintro f _ - ⟨rfl, hopen⟩
  obtain ⟨hf, -, hcompiled, -⟩ := findOpen_ok hopen
  refine bind' (keeps_get h) ?_
  rintro _ _ - ⟨rfl, rfl⟩
  have hb : Bench.Typed strict e.heads
      { target := e.target, types := e.types, layouts := e.layouts, func := f } :=
    ⟨h.ordered, h.honest, h.func hf⟩
  have hrun := hact _ rfl rfl hf hb
  generalize hbench : Bench.mk e.target e.types e.layouts f #[] = b at hb hrun ⊢
  unfold Keeps Ends at hrun
  rcases hr : (act.run b : Except Failure α × Bench) with ⟨answer, b'⟩
  rw [hr] at hrun
  have hstep : b.Step strict e.heads b' := by
    cases answer with
    | ok a => exact hrun.1
    | error err => exact hrun
  subst hbench
  have hext := hstep.extended
  refine bind' (set' (Engine.Step.of_change h hf rfl rfl rfl hext.types hstep.typed.ordered ?_
    hext.func.header.id ((h.func hf).head_eq hext.func) ?_ ?_)) ?_
  · have := hstep.typed.honest
    rwa [hext.target] at this
  · intro hheads
    have := hstep.typed.func
    rw [hext.target, hheads] at this
    exact this
  · intro hc
    rw [hext.compiled] at hc
    exact absurd (hc.symm.trans hcompiled) nofun
  · rintro _ _ hs rfl
    cases answer with
    | ok a =>
      refine pure' (.refl hs.typed) ⟨f, b', hf, hext.func, hrun.2, rfl, ?_⟩
      exact (Engine.func?_set hf fn _ rfl).trans (if_pos rfl)
    | error err => exact throw' (.refl hs.typed)

theorem keeps_emitInto (h : e.Typed strict) (fn : FuncId) {act : EmitM α}
    (hact : ∀ b : Bench, b.target = e.target → b.types = e.types → b.Typed strict e.heads →
      Keeps (Bench.Step strict e.heads) act b (fun _ _ => True)) :
    Keeps (Engine.Step strict) (emitInto fn act) e (fun _ _ => True) :=
  mono (keeps_emitInto_func h fn fun b htarget htypes _ hb => hact b htarget htypes hb)
    fun _ _ _ _ => trivial

/-! ## Types -/

theorem keeps_knownType (h : e.Typed strict) (id : TypeId) :
    Keeps (Engine.Step strict) (knownType id) e
      (fun _ e' => e = e' ∧ id < e.types.types.size) := by
  unfold knownType
  refine bind' (keeps_get h) ?_
  rintro _ _ - ⟨rfl, rfl⟩
  refine ite' (fun _ => keeps_fail h _) fun hsome => pure' (.refl h) ⟨rfl, ?_⟩
  rcases hd : e.types.find? id with _ | d
  · simp [hd] at hsome
  · exact (TypeTable.find?_lt hd).2

theorem keeps_knownTypes (h : e.Typed strict) (ids : List TypeId) :
    Keeps (Engine.Step strict) (ids.forM knownType) e
      (fun _ e' => e = e' ∧ ∀ id ∈ ids, id < e.types.types.size) := by
  induction ids with
  | nil => exact pure' (.refl h) ⟨rfl, nofun⟩
  | cons id ids ih =>
    refine bind' (keeps_knownType h id) ?_
    rintro _ _ - ⟨rfl, hid⟩
    refine mono ih ?_
    rintro _ _ - ⟨rfl, hids⟩
    exact ⟨rfl, List.forall_mem_cons.mpr ⟨hid, hids⟩⟩

theorem keeps_makeType (h : e.Typed strict) {f : TypeTable → TypeId × TypeTable} {d : Descriptor}
    (hm : e.types.Makes (f e.types) d) :
    Keeps (Engine.Step strict) (makeType f) e
      (fun id e' => e'.types.find? id = some d) := by
  unfold makeType
  refine bind' (keeps_get h) ?_
  rintro _ _ - ⟨rfl, rfl⟩
  refine bind' (set' (.of_types h rfl rfl hm.grows hm.ordered
    (h.honest.grow h.ordered hm.grows) rfl)) ?_
  rintro _ _ hs rfl
  exact pure' (.refl hs.typed) hm.found

theorem keeps_pointerType (h : e.Typed strict) (target : TypeId) :
    Keeps (Engine.Step strict) (pointerType target) e (fun _ _ => True) := by
  unfold pointerType
  refine bind' (keeps_knownType h target) ?_
  rintro _ _ - ⟨rfl, hid⟩
  exact mono (keeps_makeType h (h.ordered.makes_pointer hid)) fun _ _ _ _ => trivial

theorem keeps_layoutOf (h : e.Typed strict) {id : Nat} (hid : strict → id < e.types.types.size) :
    Keeps (Engine.Step strict) (layoutOf id) e (fun _ e' => e'.types = e.types) := by
  unfold layoutOf
  refine bind' (keeps_get h) ?_
  rintro _ _ - ⟨rfl, rfl⟩
  obtain ⟨-, hhonest⟩ := Layout.layoutWithin_right h.ordered (e.types.size + 1) h.honest
    fun hs => ⟨hid hs, Nat.lt_succ_of_lt (hid hs)⟩
  refine bind' (set' (.of_types h rfl rfl (.refl _) h.ordered hhonest rfl)) ?_
  rintro _ _ hs rfl
  exact pure' (.refl hs.typed) rfl

theorem keeps_structType (h : e.Typed strict) (fields : List TypeId) :
    Keeps (Engine.Step strict) (structType fields) e (fun _ _ => True) := by
  unfold structType
  refine bind' (keeps_knownTypes h fields) ?_
  rintro _ _ - ⟨rfl, hids⟩
  refine bind' (keeps_makeType h (h.ordered.makes_addStruct hids)) fun id e₁ hs₁ hd => ?_
  refine bind' (keeps_layoutOf hs₁.typed fun _ => (TypeTable.find?_lt hd).2) fun a e₂ hs₂ _ => ?_
  cases a with
  | ok l => exact pure' (.refl hs₂.typed) trivial
  | error r => exact keeps_fail hs₂.typed _

theorem keeps_signatureType (h : e.Typed strict) (abi : Abi) (result : TypeId)
    (params : List TypeId) :
    Keeps (Engine.Step strict) (signatureType abi result params) e (fun _ _ => True) := by
  unfold signatureType
  refine bind' (keeps_knownType h result) ?_
  rintro _ _ - ⟨rfl, hr⟩
  refine bind' (keeps_knownTypes h params) ?_
  rintro _ _ - ⟨rfl, hp⟩
  obtain ⟨d, hm, -⟩ := h.ordered.makes_addSignature (s := { abi, params, result }) hr hp
  exact mono (keeps_makeType h hm) fun _ _ _ _ => trivial

theorem keeps_taggedType (h : e.Typed strict) (base : TypeId) (tag : Tag) (data : String) :
    Keeps (Engine.Step strict) (taggedType base tag data) e (fun _ _ => True) := by
  unfold taggedType
  refine bind' (keeps_knownType h base) ?_
  rintro _ _ - ⟨rfl, hb⟩
  obtain ⟨d, hm, -⟩ := h.ordered.makes_addTagged { tag, data } hb
  exact mono (keeps_makeType h hm) fun _ _ _ _ => trivial

theorem keeps_setFieldNames (h : e.Typed strict) (id : TypeId) (names : List String) :
    Keeps (Engine.Step strict) (setFieldNames id names) e (fun _ _ => True) := by
  unfold setFieldNames
  refine bind' (keeps_get h) ?_
  rintro _ _ - ⟨rfl, rfl⟩
  split
  · next types ht =>
    obtain ⟨hgrows, hordered⟩ := h.ordered.setNames? ht
    exact mono (set' (.of_types h rfl rfl hgrows hordered (h.honest.grow h.ordered hgrows) rfl))
      fun _ _ _ _ => trivial
  · exact keeps_fail h _

theorem keeps_repOf (h : e.Typed strict) (id : TypeId) :
    Keeps (Engine.Step strict) (repOf id) e
      (fun r e' => e'.types = e.types ∧ e'.funcs = e.funcs ∧ e'.target = e.target ∧
        e.types.HasRep e.target id r) := by
  unfold repOf
  refine bind' (keeps_get h) ?_
  rintro _ _ - ⟨rfl, rfl⟩
  obtain ⟨hright, hhonest⟩ := TypeTable.findRep_right h.ordered id h.honest
  rcases hrun : (e.types.findRep e.target id).run e.layouts with ⟨answer, layouts⟩
  rw [hrun] at hright hhonest
  refine bind' (set' (.of_types h rfl rfl (.refl _) h.ordered hhonest rfl)) ?_
  rintro _ _ hs rfl
  cases answer with
  | ok r => exact pure' (.refl hs.typed) ⟨rfl, rfl, rfl, hright r rfl⟩
  | error c => exact keeps_fail hs.typed c

/-! ## Contexts and functions -/

theorem keeps_liveContext (h : e.Typed strict) (id : ContextId) :
    Keeps (Engine.Step strict) (liveContext id) e (fun _ e' => e = e') := by
  unfold liveContext
  refine bind' (keeps_get h) ?_
  rintro _ _ - ⟨rfl, rfl⟩
  split
  · exact keeps_fail h _
  · exact ite' (fun _ => keeps_fail h _) fun _ => pure' (.refl h) rfl

theorem keeps_createContext (h : e.Typed strict) :
    Keeps (Engine.Step strict) createContext e (fun _ _ => True) := by
  unfold createContext
  refine bind' (modify' (.of_same h rfl rfl rfl rfl rfl)) ?_
  rintro _ _ hs rfl
  refine bind' (keeps_get hs.typed) ?_
  rintro _ _ - ⟨rfl, rfl⟩
  exact pure' (.refl hs.typed) trivial

theorem getElem?_destroy (ids : List FuncId) {fs : Array Func} (n : Nat) :
    (ids.foldl (fun fs fid => fs.modify (fid - 1) ({ · with destroyed := true })) fs)[n]? =
      (fs[n]?).map fun f =>
        { f with destroyed := f.destroyed || decide (n ∈ ids.map (· - 1)) } := by
  induction ids generalizing fs with
  | nil => simp
  | cons fid ids ih =>
    rw [List.foldl_cons, ih, Array.getElem?_modify]
    by_cases hn : fid - 1 = n
    · simp [hn, Function.comp_def]
    · simp [hn, Ne.symm hn]

theorem typed_destroyed {sc : Scope} {f : Func} (hord : sc.types.Ordered) (h : f.Typed sc)
    (d : Bool) : ({ f with destroyed := d } : Func).Typed sc := by
  have hext : f.Extends { f with destroyed := d } :=
    ⟨⟨rfl, rfl, rfl, rfl, rfl, rfl⟩, fun hv => ⟨_, hv, .refl _⟩, fun hl => hl, fun hi => hi⟩
  exact h.extend hord hext h.first h.firstLabel (fun v info => h.value) (fun l pos => h.label)
    (fun pc i => h.placed) fun i hi => .inl hi

theorem step_destroy (h : e.Typed strict) (ids : List FuncId) {e' : Engine}
    (ht : e'.target = e.target)
    (hshape : e'.host.memory.offsetBits = e.host.memory.offsetBits)
    (hty : e'.types = e.types) (hl : e'.layouts = e.layouts)
    (hf : e'.funcs =
      ids.foldl (fun fs fid => fs.modify (fid - 1) ({ · with destroyed := true })) e.funcs) :
    Engine.Step strict e e' := by
  have hfuncs : ∀ fn : Nat, e'.func? fn = (e.func? fn).map fun f =>
      { f with destroyed := f.destroyed || decide (fn - 1 ∈ ids.map (· - 1)) } := by
    intro fn
    unfold Engine.func?
    split
    · rfl
    · rw [hf, getElem?_destroy]
  refine .of_funcs h ht hshape (hty ▸ .refl _) (hty ▸ h.ordered) ?_ ?_ ?_
  · rw [ht, hty, hl]
    exact h.honest
  · intro fn f hfn
    have := hfuncs fn
    rw [hfn] at this
    exact ⟨_, this, rfl⟩
  · intro fn f' hf'
    rw [hfuncs fn] at hf'
    obtain ⟨f, hfn, rfl⟩ := Option.map_eq_some_iff.mp hf'
    have hid : f.id = fn := h.id hfn
    have hready := h.ready hfn
    have hordered : e'.types.Ordered := hty ▸ h.ordered
    refine .inr ⟨hid, fun hscope => ?_, fun hc hscope => ?_⟩
    · exact typed_destroyed hordered ((h.func hfn).grow h.ordered hscope) _
    · have hold := (hready hc).grow h.ordered hscope
      exact ⟨hold.placed, hold.frame⟩

theorem keeps_destroyContext (h : e.Typed strict) (id : ContextId) :
    Keeps (Engine.Step strict) (destroyContext id) e (fun _ _ => True) := by
  unfold destroyContext
  refine bind' (keeps_liveContext h id) ?_
  rintro c _ - rfl
  exact mono (modify' (step_destroy h c.funcs rfl rfl rfl rfl rfl)) fun _ _ _ _ => trivial

theorem keeps_buildStart (h : e.Typed strict) (id : ContextId) :
    Keeps (Engine.Step strict) (buildStart id) e (fun _ _ => True) := by
  unfold buildStart
  refine bind' (keeps_liveContext h id) ?_
  rintro c _ - rfl
  refine bind' (keeps_get h) ?_
  rintro _ _ - ⟨rfl, rfl⟩
  dsimp only
  refine ite' (fun _ => ?_) fun _ => ?_
  · exact keeps_fail_bind h _
  · exact mono (modify' (.of_same h rfl rfl rfl rfl rfl)) fun _ _ _ _ => trivial

theorem keeps_buildEnd (h : e.Typed strict) (id : ContextId) :
    Keeps (Engine.Step strict) (buildEnd id) e (fun _ _ => True) := by
  unfold buildEnd
  refine bind' (keeps_get h) ?_
  rintro _ _ - ⟨rfl, rfl⟩
  dsimp only
  refine ite' (fun _ => ?_) fun _ => ?_
  · exact keeps_fail_bind h _
  · exact mono (modify' (.of_same h rfl rfl rfl rfl rfl)) fun _ _ _ _ => trivial

theorem keeps_paramReps (h : e.Typed strict) (i : Nat) (params : List TypeId) :
    Keeps (Engine.Step strict) (paramReps i params) e
      (fun rs e' => e'.types = e.types ∧ e'.funcs = e.funcs ∧ e'.target = e.target ∧
        List.Forall₂ (fun p r => e.types.HasRep e.target p r ∧ r.isScalar = true) params rs) := by
  induction params generalizing i e with
  | nil => exact pure' (.refl h) ⟨rfl, rfl, rfl, .nil⟩
  | cons p rest ih =>
    refine bind' (keeps_repOf h p) ?_
    rintro r e₁ hs₁ ⟨hty, hfs, htg, hr⟩
    dsimp only
    refine ite' (fun _ => ?_) fun hne => ?_
    · refine bind' (keeps_get hs₁.typed) ?_
      rintro _ _ - ⟨rfl, rfl⟩
      exact keeps_fail_bind hs₁.typed _
    · refine bind' (ih hs₁.typed (i + 1)) ?_
      rintro rs e₂ hs₂ ⟨hty₂, hfs₂, htg₂, hrs⟩
      refine pure' (.refl hs₂.typed) ⟨hty₂.trans hty, hfs₂.trans hfs, htg₂.trans htg, ?_⟩
      rw [hty, htg] at hrs
      refine .cons ⟨hr, ?_⟩ hrs
      simp only [not_or] at hne
      simp [Rep.isScalar, hne.1, hne.2]

def paramInfos (s : Signature) (reps : List Rep) : List ValueInfo :=
  (s.params.zip reps).mapIdx fun i (p, r) => { type := p, rep := r, origin := .param, param := i }

theorem getElem?_paramInfos {s : Signature} {reps : List Rep} {rel : TypeId → Rep → Prop}
    (hreps : List.Forall₂ rel s.params reps) (i : Nat) :
    (∀ p, s.params[i]? = some p → ∃ r, rel p r ∧
      (paramInfos s reps)[i]? = some { type := p, rep := r, origin := .param, param := i }) ∧
    (s.params[i]? = none → (paramInfos s reps)[i]? = none) := by
  have hlen := hreps.length_eq
  refine ⟨fun p hp => ?_, fun hp => ?_⟩
  · obtain ⟨hi, rfl⟩ := List.getElem?_eq_some_iff.mp hp
    have hir : i < reps.length := hlen ▸ hi
    have hzip : (s.params.zip reps)[i]? = some (s.params[i], reps[i]) :=
      List.getElem?_zip_eq_some.mpr
        ⟨List.getElem?_eq_getElem hi, List.getElem?_eq_getElem hir⟩
    refine ⟨reps[i], hreps.get hi hir, ?_⟩
    rw [paramInfos, List.getElem?_mapIdx, hzip]
    rfl
  · have := List.getElem?_eq_none_iff.mp hp
    rw [List.getElem?_eq_none_iff, paramInfos, List.length_mapIdx, List.length_zip]
    omega

theorem typed_created {sc : Scope} {f : Func} {s : Signature} {reps : List Rep}
    (hname : f.name ≠ "") (hsig : sc.types.signature? f.sig = some s)
    (hret : sc.types.HasRep sc.target s.result f.ret) (hstruct : f.ret.cls ≠ .struct)
    (hreps : List.Forall₂ (fun p r => sc.types.HasRep sc.target p r ∧ r.isScalar = true)
      s.params reps)
    (hvalues : f.values = #[ValueInfo.placeholder] ++ (paramInfos s reps).toArray)
    (hparams : f.params = (List.range (paramInfos s reps).length).map (· + 1))
    (hlabels : f.labels = #[-1]) (hinsns : f.insns = #[]) : f.Typed sc := by
  have hget := getElem?_paramInfos hreps
  have hlen : (paramInfos s reps).length = s.params.length := by
    rw [paramInfos, List.length_mapIdx, List.length_zip, ← hreps.length_eq, Nat.min_self]
  refine ⟨hname, by simp [hvalues], by rw [hlabels]; rfl, ?_, ⟨s, hsig, hret, hstruct, ?_, ?_⟩,
    ?_, ?_, ?_⟩
  · intro v info hv
    rcases v with _ | i
    · cases hv
    · rw [Func.value?_of_list hvalues] at hv
      rcases hp : s.params[i]? with _ | p
      · rw [(hget i).2 hp] at hv
        cases hv
      · obtain ⟨r, ⟨hr, -⟩, hi⟩ := (hget i).1 p hp
        obtain rfl := Option.mem_unique hv hi
        exact ⟨hr, nofun, nofun⟩
  · rw [hparams, hlen]
  · intro i p hp
    obtain ⟨r, ⟨-, hscalar⟩, hi⟩ := (hget i).1 p hp
    exact ⟨_, (Func.value?_of_list hvalues i).trans hi, rfl, hscalar⟩
  · intro l pos hl
    obtain ⟨hpos, -, hlt⟩ := Func.label?_lt hl
    rw [hlabels] at hlt
    simp at hlt
    omega
  · intro pc i hi
    rw [hinsns] at hi
    simp at hi
  · intro i hi
    rw [hinsns] at hi
    simp at hi

theorem step_create (h : e.Typed strict) {e' : Engine} {f : Func} (ht : e'.target = e.target)
    (hshape : e'.host.memory.offsetBits = e.host.memory.offsetBits)
    (hty : e'.types = e.types) (hl : e'.layouts = e.layouts) (hf : e'.funcs = e.funcs.push f)
    (hid : f.id = e.funcs.size + 1) (hc : f.compiled = false) (htyped : f.Typed e'.scope) :
    Engine.Step strict e e' := by
  have hfunc : ∀ fn : Nat, e'.func? fn = if fn = e.funcs.size + 1 then some f else e.func? fn := by
    intro fn
    unfold Engine.func?
    rw [hf, Array.getElem?_push]
    by_cases h0 : fn = 0
    · simp [h0]
    · by_cases hn : fn = e.funcs.size + 1
      · simp [hn]
      · simp [h0, hn, show fn - 1 ≠ e.funcs.size by omega]
  refine .of_funcs h ht hshape (hty ▸ .refl _) (hty ▸ h.ordered) ?_ ?_ ?_
  · rw [ht, hty, hl]
    exact h.honest
  · intro fn g hg
    have hlt := (Engine.func?_lt hg).2.2
    refine ⟨g, ?_, rfl⟩
    rw [hfunc, if_neg (by omega)]
    exact hg
  · intro fn g hg
    rw [hfunc] at hg
    split at hg
    · next hn =>
      cases hg
      exact .inr ⟨hid.trans hn.symm, fun _ => htyped, fun hc' _ => absurd (hc'.symm.trans hc) nofun⟩
    · exact .inl hg

theorem name_ne_empty (name : String) (id : FuncId) :
    (if name = "" then defaultName id else name) ≠ "" := by
  split
  · intro h
    have := congrArg String.length h
    simp [defaultName] at this
  · assumption

theorem keeps_createFunction (h : e.Typed strict) (ctx : ContextId) (sig : TypeId)
    (name : String) : Keeps (Engine.Step strict) (createFunction ctx sig name) e
      (fun _ _ => True) := by
  unfold createFunction
  refine bind' (keeps_get h) ?_
  rintro _ _ - ⟨rfl, rfl⟩
  split
  · exact keeps_fail h _
  · next s hs =>
    refine bind' (keeps_repOf h s.result) ?_
    rintro ret e₁ hs₁ ⟨hty₁, -, htg₁, hret⟩
    dsimp only
    refine ite' (fun _ => ?_) fun hstruct => ?_
    · exact keeps_fail_bind hs₁.typed _
    refine bind' (keeps_paramReps hs₁.typed 0 s.params) ?_
    rintro reps e₂ hs₂ ⟨hty₂, -, htg₂, hreps⟩
    refine bind' (keeps_liveContext hs₂.typed ctx) ?_
    rintro _ _ - rfl
    refine bind' (keeps_get hs₂.typed) ?_
    rintro _ _ - ⟨rfl, rfl⟩
    refine ite' (fun _ => ?_) fun _ => ?_
    · exact keeps_fail_bind hs₂.typed _
    refine bind' (keeps_get hs₂.typed) ?_
    rintro _ _ - ⟨rfl, rfl⟩
    refine bind' (modify' (step_create hs₂.typed rfl rfl rfl rfl rfl rfl rfl ?_)) ?_
    · refine @typed_created _ _ s reps (name_ne_empty name _) ?_ ?_ hstruct ?_ rfl rfl rfl rfl
      · show e₂.types.signature? sig = some s
        rw [hty₂, hty₁]
        exact hs
      · show e₂.types.HasRep e₂.target s.result ret
        rw [hty₂, hty₁, htg₂, htg₁]
        exact hret
      · show List.Forall₂ (fun p r => e₂.types.HasRep e₂.target p r ∧ r.isScalar = true) _ _
        rw [hty₂, htg₂]
        exact hreps
    rintro _ _ hs₃ rfl
    refine bind' (keeps_note hs₃.typed _) fun _ e₄ hs₄ _ => ?_
    exact pure' (.refl hs₄.typed) trivial

theorem keeps_registerNative (h : e.Typed strict) (name : String) (run : NativeFunc) :
    Keeps (Engine.Step strict) (registerNative name run) e (fun _ _ => True) :=
  mono (modify' (.of_same h rfl rfl rfl rfl rfl)) fun _ _ _ _ => trivial

theorem keeps_removeNative (h : e.Typed strict) (name : String) :
    Keeps (Engine.Step strict) (removeNative name) e (fun _ _ => True) :=
  mono (modify' (.of_same h rfl rfl rfl rfl rfl)) fun _ _ _ _ => trivial

theorem keeps_constFloat32 (h : e.Typed strict) (fn : FuncId) (type : TypeId) (bits : UInt32) :
    Keeps (Engine.Step strict) (constFloat32 fn type bits) e (fun _ _ => True) := by
  unfold constFloat32
  refine bind' (keeps_repOf h type) ?_
  rintro r e₁ hs₁ -
  dsimp only
  refine ite' (fun _ => ?_) fun _ => ?_
  · refine bind' (keeps_get hs₁.typed) ?_
    rintro _ _ - ⟨rfl, rfl⟩
    exact keeps_fail_bind hs₁.typed _
  · exact keeps_emitInto hs₁.typed fn fun b _ _ hb => Emit.Keeps.constant hb _ _ (.inr rfl)

theorem keeps_constFloat64 (h : e.Typed strict) (fn : FuncId) (type : TypeId) (bits : Word) :
    Keeps (Engine.Step strict) (constFloat64 fn type bits) e (fun _ _ => True) := by
  unfold constFloat64
  refine bind' (keeps_repOf h type) ?_
  rintro r e₁ hs₁ -
  dsimp only
  refine ite' (fun _ => ?_) fun _ => ?_
  · refine bind' (keeps_get hs₁.typed) ?_
    rintro _ _ - ⟨rfl, rfl⟩
    exact keeps_fail_bind hs₁.typed _
  · exact keeps_emitInto hs₁.typed fn fun b _ _ hb => Emit.Keeps.constant hb _ _ (.inr rfl)

theorem keeps_call (h : e.Typed strict) (fn callee : FuncId) (args : List ValueId) :
    Keeps (Engine.Step strict) (call fn callee args) e (fun _ _ => True) := by
  unfold call
  refine bind' (keeps_ask h _) ?_
  rintro _ _ - ⟨rfl, -⟩
  refine bind' (keeps_ask h _) ?_
  rintro target _ - ⟨rfl, hfind⟩
  obtain ⟨hf, -⟩ := findFunc_ok hfind
  have hhead : e.heads callee = some target.head := by
    unfold Engine.heads
    rw [hf]
    rfl
  refine keeps_emitInto h fn fun b htg hty hb => ?_
  have hof : target.head.Of b.target b.types target.sig := by
    rw [htg, hty]
    exact (h.func hf).head_of
  exact Emit.Keeps.call hb hhead hof args

/-! ## Compiling -/

theorem step_compiled (h : e.Typed strict) {fn : FuncId} {f : Func} (hf : e.func? fn = some f)
    (hleads : e.Leads f) (notes : Array Trace.Note) :
    Engine.Step strict e { e.compiled fn f with notes } := by
  have htyped := h.func hf
  have hknown : ∀ v ∈ f.values.toList.drop 1, ∀ c, Layout.Honest e.target e.types strict c →
      Layout.AlignOf e.target e.types strict v.type
        ((Layout.layoutOf e.target e.types v.type).run c).1.slotAlign ∧
      Layout.Honest e.target e.types strict
        ((Layout.layoutOf e.target e.types v.type).run c).2 := by
    intro v hv c hc
    obtain ⟨i, hi, rfl⟩ := List.getElem_of_mem hv
    have hlt := (htyped.value (Func.value?_succ hi)).rep.known
    obtain ⟨hright, hhonest⟩ := Layout.layoutWithin_right h.ordered (e.types.size + 1) hc
      fun _ => ⟨hlt, Nat.lt_succ_of_lt hlt⟩
    exact ⟨⟨_, hright, rfl⟩, hhonest⟩
  obtain ⟨-, hplaced, hhonest⟩ : _ ∧ Placed (Layout.AlignOf e.target e.types strict) 0
      (e.slots f).1.1 (e.slots f).1.2 ∧ _ := placeSlots_spec _ hknown 0 h.honest
  have hframed := e.framed_framed f
  refine .of_change h hf rfl rfl rfl (.refl _) h.ordered hhonest rfl ?_ ?_ fun _ => ⟨?_, ?_⟩
  · exact htyped.head_eq hframed.old
  · intro hheads
    have hsame := hframed.typed h.ordered htyped
    unfold Engine.scope at hsame
    rw [hheads] at hsame
    exact hsame
  · exact fun i hi => (hleads i hi).1
  · show Placed (Layout.AlignOf e.target e.types strict) 0
      ((#[ValueInfo.placeholder] ++ (e.slots f).1.1.toArray).toList.drop 1) (e.slots f).1.2
    simpa using hplaced

/-- Compiling an open function. It is refused only for a jump or a call that leads
nowhere. -/
theorem ends_compileOpen (fn : FuncId) (e : Engine) :
    Ends (compileOpen fn) e
      (fun _ e' => ∃ f, e.findOpen fn = .ok f ∧ e.Leads f ∧ e' = e.compiled fn f)
      fun _ e' => e' = e ∧ ∀ f, e.findOpen fn = .ok f → ¬ e.Leads f := by
  cases hopen : e.findOpen fn with
  | error err => exact ends_ask_error hopen ⟨rfl, nofun⟩
  | ok f =>
    refine ends_answered hopen ?_
    cases hchecked : e.checkInsns f 0 f.insns.toList with
    | error err =>
      refine ends_ask_error hchecked ⟨rfl, fun g hg hleads => ?_⟩
      obtain rfl := Except.ok.inj hg
      cases hchecked.symm.trans (Engine.checkInsns_leads.mpr hleads)
    | ok _ =>
      refine ends_answered hchecked (.bind_get (.set' ?_))
      exact ⟨f, rfl, Engine.checkInsns_leads.mp hchecked, rfl⟩

/-- Compiling is noted, and nothing else is left of what is refused. -/
theorem ends_compile (fn : FuncId) (e : Engine) :
    Ends (compile fn) e
      (fun _ e' => ∃ f, e.findFunc fn = .ok f ∧ (f.compiled = true ∧ e' = e ∨
        e.findOpen fn = .ok f ∧ e.Leads f ∧ ∃ notes, e' = { e.compiled fn f with notes }))
      fun _ e' => (∃ notes, e' = { e with notes }) ∧
        ∀ f, e.findOpen fn = .ok f → ¬ e.Leads f := by
  cases hf : e.findFunc fn with
  | error err =>
    refine ends_ask_error hf ⟨⟨e.notes, rfl⟩, fun g hg => ?_⟩
    obtain ⟨hg, halive, -⟩ := findOpen_ok hg
    cases hf.symm.trans (findFunc_of hg halive)
  | ok f =>
    refine ends_answered hf (.ite' (fun hc => .pure' ⟨f, rfl, .inl ⟨hc, rfl⟩⟩) fun _ => ?_)
    have hopen := ends_compileOpen fn
      { e with notes := e.notes.push (.opened .function "engine_compile") }
    refine .bind_modify (.bind' (.tryCatch' (hopen.imp_stop fun err e' h => ?_)) ?_)
    · obtain ⟨rfl, hno⟩ := h
      exact .bind_modify (.throw' ⟨⟨_, rfl⟩, hno⟩)
    · rintro _ _ ⟨g, hg, hleads, rfl⟩
      obtain rfl := Except.ok.inj (hf.symm.trans (findFunc_of (findOpen_ok hg).1 (findOpen_ok hg).2.1))
      exact .modify' ⟨_, rfl, .inr ⟨hg, hleads, _, rfl⟩⟩

theorem keeps_compile (h : e.Typed strict) (fn : FuncId) :
    Keeps (Engine.Step strict) (compile fn) e (fun _ _ => True) := by
  refine Ends.mono (ends_compile fn e) ?_ ?_
  · rintro _ _ ⟨f, hf, ⟨-, rfl⟩ | ⟨-, hleads, notes, rfl⟩⟩
    · exact ⟨.refl h, trivial⟩
    · exact ⟨step_compiled h (findFunc_ok hf).1 hleads notes, trivial⟩
  · rintro _ _ ⟨⟨notes, rfl⟩, -⟩
    exact .of_same h rfl rfl rfl rfl rfl

end EngineM

end TypedIR
