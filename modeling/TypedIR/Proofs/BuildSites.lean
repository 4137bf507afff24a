import TypedIR.Proofs.BuildPlaces
import TypedIR.Proofs.Frames
import TypedIR.Proofs.LayoutOutcomes
import TypedIR.Proofs.Reps

/-
  Where a function is built.

  What the builder does with one function depends on little: the target and the
  types of its engine, which context builds, and that the layouts remembered are
  the layouts (`Setting`, `Engine.Shows`). Operations that make no types stay in
  the setting, so they are walked through one after the other with the function
  they leave as all that changes (`Workspace.Site`). With layouts that are so,
  asking for the representation of a type gives the one it has.
-/

namespace TypedIR

/-! ## Representations from truthful layouts -/

namespace Layout

variable {target : Target} {t : TypeTable} {c : Cache}

theorem Laid.of_underlying (ht : t.Ordered) {id : Nat} {a : Answer}
    (h : Laid target t (t.underlying id) a) : Laid target t id a := by
  induction id using Nat.strongRecOn with
  | ind id ih =>
    rcases hd : t.find? id with _ | d
    · rwa [TypeTable.underlying_of_unknown hd] at h
    · by_cases hk : d.kind = .tagged
      · have helem := ht.older hd d.elem (by simp [TypeTable.parts, hk])
        rw [ht.underlying_tagged hd hk] at h
        have hbelow := ih d.elem helem h
        have hworked : worked target t (fun _ => a) id = a := by
          unfold worked workOut
          rw [hd]
          simp only [hk]
          rfl
        rw [← hworked]
        apply Laid.of_parts
        intro p hp
        unfold asked at hp
        rw [hd] at hp
        simp only [hk] at hp
        rwa [List.mem_singleton.mp hp]
      · rwa [TypeTable.underlying_of_not_tagged hd hk] at h

theorem Truthful.run_findRep (hc : Truthful target t c) (ht : t.Ordered) {id : TypeId} {r : Rep}
    (hr : t.HasRep target id r) :
    ((t.findRep target id).run c).1 = .ok r ∧
      Truthful target t ((t.findRep target id).run c).2 := by
  obtain ⟨d, hd⟩ := hr.found
  have hlaid : Laid target t (t.underlying id) (ledTo target t [] (t.underlying id)) :=
    laid_ledTo ht _
  have hafresh : ((t.findRep target id).run []).1 = .ok r := hr.findRep ht honest_nil
  obtain ⟨hanswer, htruthful⟩ := hc.run_layoutOf hlaid
  rw [TypeTable.run_findRep, hd] at hafresh ⊢
  dsimp only at hafresh ⊢
  rw [(truthful_nil.run_layoutOf hlaid).1] at hafresh
  rw [hanswer]
  exact ⟨hafresh, htruthful⟩

theorem Truthful.run_layoutOf_rep (hc : Truthful target t c) (ht : t.Ordered) {id : TypeId}
    {r : Rep} (hr : t.HasRep target id r) (hv : r.cls ≠ .void) :
    (∃ l, ((layoutOf target t id).run c).1 = .ok l ∧ l.size = r.size) ∧
      Truthful target t ((layoutOf target t id).run c).2 := by
  obtain ⟨d, hd⟩ := hr.found
  have hlaid : Laid target t (t.underlying id) (ledTo target t [] (t.underlying id)) :=
    laid_ledTo ht _
  obtain ⟨hanswer, htruthful⟩ := hc.run_layoutOf (hlaid.of_underlying ht)
  refine ⟨?_, htruthful⟩
  rw [hanswer]
  have hafresh : ((t.findRep target id).run []).1 = .ok r := hr.findRep ht honest_nil
  rw [TypeTable.run_findRep, hd] at hafresh
  dsimp only at hafresh
  rw [(truthful_nil.run_layoutOf hlaid).1] at hafresh
  unfold TypeTable.repOf at hafresh
  rw [hd] at hafresh
  rcases ha : ledTo target t [] (t.underlying id) with e | l <;> rw [ha] at hafresh
  · cases hafresh
  · refine ⟨l, rfl, ?_⟩
    dsimp only at hafresh
    cases hk : d.kind <;> rw [hk] at hafresh <;> cases hafresh
    case ok.void.refl => exact absurd rfl hv
    all_goals rfl

end Layout

/-! ## The setting of a function -/

/-- What building goes by: the target and the types of the engine, and the context
that builds. -/
structure Setting where
  target : Target
  types : TypeTable
  building : ContextId
  usual : target.Usual
  ordered : types.Ordered

/-- The engine is in the setting, remembers layouts as they are, can call a
function, and has the function. -/
structure Engine.Shows (e : Engine) (c : Setting) (id : FuncId) (f : Func) : Prop where
  target : e.target = c.target
  types : e.types = c.types
  building : e.building = c.building
  layouts : Layout.Truthful c.target c.types e.layouts
  depth : 0 < e.maxDepth
  func : e.findFunc id = .ok f
  first : 0 < f.values.size

/-- The function takes code: it is not compiled, and its context holds the cursor. -/
def Func.Open (c : Setting) (f : Func) : Prop := f.compiled = false ∧ f.ctx = c.building

/-- A function of the builder and the function it stands for, in the setting. -/
structure Workspace.Site (w : Workspace) (c : Setting) (fn : FnId) (s : Function) (f : Func) :
    Prop where
  function : w.functions[fn]? = some s
  engine : ∃ r, w.runtimes[s.runtime]? = some r ∧ r.engine.Shows c s.id f

namespace Engine.Shows

variable {α : Type} {e e' : Engine} {c : Setting} {id : FuncId} {f f' : Func}

theorem congr (h : e.Shows c id f) (htarget : e'.target = e.target) (htypes : e'.types = e.types)
    (hbuilding : e'.building = e.building) (hlayouts : Layout.Truthful c.target c.types e'.layouts)
    (hdepth : e'.maxDepth = e.maxDepth) (hfuncs : e'.funcs = e.funcs) : e'.Shows c id f where
  target := htarget.trans h.target
  types := htypes.trans h.types
  building := hbuilding.trans h.building
  layouts := hlayouts
  depth := hdepth ▸ h.depth
  func := by
    have hfunc := h.func
    unfold Engine.findFunc Engine.func? at hfunc ⊢
    rwa [hfuncs]
  first := h.first

theorem findOpen (h : e.Shows c id f) (hopen : f.Open c) : e.findOpen id = .ok f := by
  obtain ⟨hfunc, halive⟩ := EngineM.findFunc_ok h.func
  exact EngineM.findOpen_of hfunc halive hopen.1 (h.building.trans hopen.2.symm)

theorem ends_emitInto (h : e.Shows c id f) (hopen : f.Open c) {act : EmitM α}
    {post : α → Func → Prop} (hact : ∀ b : Bench, b.target = c.target → b.types = c.types →
      Layout.Truthful c.target c.types b.layouts → b.func = f →
      Ends act b (fun a b' => b'.types = c.types ∧ Layout.Truthful c.target c.types b'.layouts ∧
        b'.func.destroyed = f.destroyed ∧ 0 < b'.func.values.size ∧ post a b'.func)
        fun _ _ => False) :
    Ends (EngineM.emitInto id act) e (fun a e' => ∃ f', post a f' ∧ e'.Shows c id f')
      fun _ _ => False := by
  refine EngineM.ends_emitOpen (h.findOpen hopen)
    ((hact (e.bench f) h.target h.types h.layouts rfl).imp ?_)
  rintro a b ⟨htypes, hlayouts, halive, hfirst, hpost⟩
  exact ⟨b.func, hpost, {
    target := h.target
    types := htypes
    building := h.building
    layouts := hlayouts
    depth := h.depth
    func := EngineM.findFunc_set h.func halive rfl
    first := hfirst }⟩

end Engine.Shows

/-! ## Walking through operations of the builder -/

theorem Engine.Shows.blind (c : Setting) (id : FuncId) (f : Func) :
    Engine.Blind fun e => e.Shows c id f :=
  fun _ _ h => h.congr rfl rfl rfl h.layouts rfl rfl

namespace Workspace.Site

open BuildM

variable {α β : Type} {w : Workspace} {c : Setting} {fn : FnId} {s : Function} {f f' : Func}

theorem place (h : w.Site c fn s f) : w.Place fn s fun e => e.Shows c s.id f :=
  ⟨h.function, h.engine⟩

theorem of_place (h : w.Place fn s fun e => e.Shows c s.id f) : w.Site c fn s f :=
  ⟨h.function, h.engine⟩

theorem exists_of_place {post : Func → Prop}
    (h : w.Place fn s fun e => ∃ f', post f' ∧ e.Shows c s.id f') :
    ∃ f', post f' ∧ w.Site c fn s f' := by
  obtain ⟨hs, r, hr, f', hpost, he⟩ := h
  exact ⟨f', hpost, hs, r, hr, he⟩

theorem first (h : w.Site c fn s f) : 0 < f.values.size := by
  obtain ⟨r, hr, he⟩ := h.engine
  exact he.first

theorem ends_function (h : w.Site c fn s f) {k : Function → BuildM β}
    {ok : β → Workspace → Prop} {stop : Stop → Workspace → Prop} (hk : Ends (k s) w ok stop) :
    Ends (BuildM.function fn >>= k) w ok stop :=
  h.place.ends_function hk

theorem ends_table (h : w.Site c fn s f) {k : TypeTable → BuildM β}
    {ok : β → Workspace → Prop} {stop : Stop → Workspace → Prop} (hk : Ends (k c.types) w ok stop) :
    Ends (table s.runtime >>= k) w ok stop :=
  h.place.ends_table fun _ he => he.types ▸ hk

theorem ends_engine (h : w.Site c fn s f) {k : Engine → BuildM β} {ok : β → Workspace → Prop}
    {stop : Stop → Workspace → Prop} (hk : ∀ e : Engine, e.Shows c s.id f → Ends (k e) w ok stop) :
    Ends (BuildM.engine s.runtime >>= k) w ok stop :=
  h.place.ends_engine hk

theorem ends_tryEngine (h : w.Site c fn s f) {act : EngineM α} {post : α → Prop}
    (hact : ∀ e : Engine, e.Shows c s.id f →
      Ends act e (fun a e' => post a ∧ e'.Shows c s.id f) fun _ _ => False) :
    Ends (tryEngine s.runtime act) w (fun a w' => (∃ b, a = .ok b ∧ post b) ∧ w'.Site c fn s f)
      fun _ _ => False := by
  refine (h.place.ends_tryEngine hact fun _ _ notes he =>
    ⟨he.1, Engine.Shows.blind c s.id f notes he.2⟩).imp ?_
  rintro _ w' ⟨b, rfl, hs, r, hr, hpost, he⟩
  exact ⟨⟨b, rfl, hpost⟩, hs, r, hr, he⟩

theorem ends_tyText (h : w.Site c fn s f) {t : Ty} (ht : t.owner = some s.runtime) :
    Ends (tyText t) w (fun _ w' => w = w') fun _ _ => False :=
  h.place.ends_tyText ht

theorem ends_functionName (h : w.Site c fn s f) :
    Ends (functionName fn) w (fun _ w' => w = w') fun _ _ => False :=
  h.place.ends_functionName

theorem ends_emit (h : w.Site c fn s f) (op : String) {act : FuncId → EngineM ValueId} {t : Ty}
    {post : ValueId → Func → Prop}
    (hact : ∀ e : Engine, e.Shows c s.id f →
      Ends (act s.id) e (fun a e' => ∃ f', post a f' ∧ e'.Shows c s.id f') fun _ _ => False)
    (hpost : ∀ id f', post id f' → ∃ info, f'.value? id = some info ∧
      c.types.wrap? s.runtime info.type = some t) :
    Ends (emit fn op act) w
      (fun v w' => ∃ id f', v = { fn := some fn, id, kind := .ofTy t, type := t } ∧ post id f' ∧
        w'.Site c fn s f') fun _ _ => False := by
  have hblind : ∀ id, Engine.Blind fun e => ∃ f', post id f' ∧ e.Shows c s.id f' := by
    rintro id e notes ⟨f', hid, he⟩
    exact ⟨f', hid, Engine.Shows.blind c s.id f' notes he⟩
  have hwraps : ∀ id, Place.Wraps s (fun e => ∃ f', post id f' ∧ e.Shows c s.id f') id t := by
    rintro id e ⟨f', hid, he⟩
    obtain ⟨info, hv, ht⟩ := hpost id f' hid
    exact ⟨f', info, he.func, hv, he.types ▸ ht⟩
  refine (h.place.ends_emit op hact hblind hwraps).imp ?_
  rintro v w' ⟨hv, h'⟩
  obtain ⟨f', hid, h'⟩ := exists_of_place h'
  exact ⟨v.id, f', hv, hid, h'⟩

theorem ends_reject (h : w.Site c fn s f) (op : String) (why : Complaint) :
    Ends (reject fn op why) w
      (fun v w' => v = {} ∧ w'.Site c fn (s.withProblem (.complaint op why)) f)
      fun _ _ => False :=
  (h.place.ends_reject op why).imp fun _ _ h => ⟨h.1, of_place h.2⟩

end Workspace.Site

end TypedIR
