import TypedIR.Proofs.CodeOperations
import TypedIR.Proofs.ConstantNumbers
import TypedIR.Proofs.IntegerEmitting

/-
  A function of integers under construction.

  An operation of the builder that meets a problem keeps it with the function, and a
  function with a problem never compiles. So an operation is described by what it
  comes to as long as the function has none (`BuildM.Yields`), and what comes after a
  problem does not matter. The function that is built is known up to the code that was
  added (`Workspace.Drafts`, `BuildM.Builds`).
-/

namespace TypedIR

variable {α β : Type}

/-! ## Operations without a problem -/

def Workspace.Clean (w : Workspace) (fn : FnId) : Prop :=
  ∀ s, w.functions[fn]? = some s → s.problem = none

theorem Workspace.Goes.clean {w w' : Workspace} (h : w.Goes w') (hl : w.Linked) {fn : FnId}
    (hclean : w'.Clean fn) : w.Clean fn := by
  intro s hs
  obtain ⟨f, hf⟩ := hl.has hs
  obtain ⟨s', f', hs', hgoes⟩ := (h hl).2 fn s f hf
  exact hgoes.problem (hclean s' hs'.1)

open Workspace (Goes)

namespace BuildM

/-- If the operation gives an answer, and the function has no problem then, `post`
holds. -/
def Yields (fn : FnId) (act : BuildM α) (w : Workspace) (post : α → Workspace → Prop) : Prop :=
  Ends act w (fun a w' => w'.Linked ∧ (w'.Clean fn → post a w')) fun _ _ => True

namespace Yields

variable {fn : FnId} {act : BuildM α} {w : Workspace} {post post' : α → Workspace → Prop}

theorem of_ends (hl : w.Linked) (hgo : Leaves Goes act)
    (h : Ends act w (fun a w' => w'.Clean fn → post a w') fun _ _ => True) : Yields fn act w post :=
  (h.and' (hgo.ends w)).mono (fun _ _ ⟨hpost, hgoes⟩ => ⟨(hgoes hl).1, hpost⟩) fun _ _ _ => trivial

theorem pure' (hl : w.Linked) {a : α} (h : post a w) : Yields fn (pure a) w post :=
  Ends.pure' ⟨hl, fun _ => h⟩

theorem mono (h : Yields fn act w post) (himp : ∀ a w', post a w' → post' a w') :
    Yields fn act w post' :=
  Ends.mono h (fun a w' ⟨hl, hpost⟩ => ⟨hl, fun hclean => himp a w' (hpost hclean)⟩) fun _ _ h => h

theorem bind' {k : α → BuildM β} {after : β → Workspace → Prop} (h : Yields fn act w post)
    (hgo : ∀ a, Leaves Goes (k a)) (hk : ∀ a w', post a w' → Yields fn (k a) w' after) :
    Yields fn (act >>= k) w after := by
  refine Ends.bind' h fun a w' ⟨hl, hpost⟩ => ?_
  by_cases hclean : w'.Clean fn
  · exact hk a w' (hpost hclean)
  · refine of_ends hl (hgo a) (((hgo a).ends w').mono (fun b w'' hgoes => ?_) fun _ _ _ => trivial)
    exact fun hclean' => absurd (hgoes.clean hl hclean') hclean

theorem ite' {p : Prop} [Decidable p] {other : BuildM α} (hpos : p → Yields fn act w post)
    (hneg : ¬ p → Yields fn other w post) : Yields fn (if p then act else other) w post :=
  Ends.ite' hpos hneg

theorem asking {k : α → BuildM β} {after : β → Workspace → Prop} (hact : Leaves (· = ·) act)
    (hk : ∀ a, Yields fn (k a) w after) : Yields fn (act >>= k) w after := by
  refine Ends.bind' ((hact.ends w).imp_stop fun _ _ _ => trivial) ?_
  rintro a _ rfl
  exact hk a

theorem keep' (hl : w.Linked) (p : Problem) : Yields fn (keep fn p) w fun _ _ => False := by
  refine of_ends hl (goes_keep fn p) ?_
  unfold keep
  rcases hs : w.functions[fn]? with _ | s
  · unfold Ends
    rw [run_bind, run_function, hs]
    trivial
  refine ends_function hs (.ite' (fun _ => .bind_modify ?_) fun hsome => .pure' fun hclean => ?_)
  · have hlinked := hl.modify (g := ({ · with problem := some p })) (fun _ => ⟨rfl, rfl, rfl⟩) fn
    have htraced : Leaves Goes (trace s.runtime (.point .function "builder_error" p.message)) :=
      (asks_trace _ _).leaves
    refine (htraced.ends _).mono (fun _ w' hgoes hclean => ?_) fun _ _ _ => trivial
    have hkept := hgoes.clean hlinked hclean { s with problem := some p } (by
      rw [Workspace.getElem?_modify, hs]
      simp)
    cases hkept
  · exact hsome (by rw [hclean s hs]; rfl)

theorem keep_bind (hl : w.Linked) (p : Problem) {k : Unit → BuildM β} (hgo : ∀ a, Leaves Goes (k a))
    {after : β → Workspace → Prop} : Yields fn (keep fn p >>= k) w after :=
  (keep' hl p).bind' hgo fun _ _ h => h.elim

theorem reject' (hl : w.Linked) (op : String) (why : Complaint) {after : Val → Workspace → Prop} :
    Yields fn (reject fn op why) w after :=
  keep_bind hl _ fun _ => .pure' _

theorem rejectText (hl : w.Linked) (op : String) (t : Ty) (why : String → Complaint)
    {after : Val → Workspace → Prop} :
    Yields fn (do reject fn op (why (← tyText t))) w after :=
  asking (asks_tyText t).leaves fun _ => reject' hl op _

theorem attempt_bind (hl : w.Linked) (hgo : Leaves Goes act) {ok : α → Workspace → Prop}
    (h : Ends act w ok fun _ _ => True) {k : Except Problem α → BuildM β} {z : α → β}
    {y : Problem → β} (hok : ∀ a, k (.ok a) = pure (z a))
    (herror : ∀ p, k (.error p) = (do keep fn p; pure (y p))) :
    Yields fn (attempt act >>= k) w fun b w' => ∃ a, b = z a ∧ ok a w' := by
  have hboth := ends_attempt (h.and' (hgo.ends w))
  refine Ends.bind' (hboth.imp_stop fun _ _ _ => trivial) ?_
  rintro (p | a) w' ha
  · rw [herror]
    exact keep_bind (ha.2 hl).1 p fun _ => .pure' _
  · rw [hok]
    exact pure' (ha.2 hl).1 ⟨a, rfl, ha.1⟩

theorem guarded' (hl : w.Linked) (hgo : Leaves Goes act) {ok : α → Workspace → Prop}
    (h : Ends act w ok fun _ _ => True) (fallback : α) :
    Yields fn (guarded fn fallback act) w ok := by
  have hkept : Yields fn (guarded fn fallback act) w fun b w' => ∃ a, b = id a ∧ ok a w' :=
    attempt_bind hl hgo h (fun _ => rfl) fun _ => rfl
  refine hkept.mono ?_
  rintro _ w' ⟨a, rfl, ha⟩
  exact ha

end Yields

end BuildM

/-! ## Where the function is built -/

/-- The engine is in the setting and has the function. -/
structure Engine.Drafts (e : Engine) (c : Setting) (id : FuncId) (f : Func) : Prop where
  target : e.target = c.target
  types : e.types = c.types
  layouts : Layout.Numbers c.target c.types e.layouts
  func : e.findFunc id = .ok f

/-- A function of the builder without a problem, and the function it stands for. -/
structure Workspace.Drafts (w : Workspace) (c : Setting) (fn : FnId) (s : Function) (f : Func) :
    Prop where
  linked : w.Linked
  function : w.functions[fn]? = some s
  problem : s.problem = none
  plain : f.Plain
  engine : ∃ r, w.runtimes[s.runtime]? = some r ∧ r.engine.Drafts c s.id f

namespace Engine.Drafts

variable {e e' : Engine} {c : Setting} {id : FuncId} {f f' : Func}

theorem congr (h : e.Drafts c id f) (htarget : e'.target = e.target) (htypes : e'.types = e.types)
    (hlayouts : Layout.Numbers c.target c.types e'.layouts) (hfuncs : e'.funcs = e.funcs) :
    e'.Drafts c id f where
  target := htarget.trans h.target
  types := htypes.trans h.types
  layouts := hlayouts
  func := by
    have hfunc := h.func
    unfold Engine.findFunc Engine.func? at hfunc ⊢
    rwa [hfuncs]

theorem ends_emitInto (h : e.Drafts c id f) {act : EmitM α} {post : α → Func → Prop}
    (hact : ∀ b : Bench, b.Drafts c f → Ends act b
      (fun a b' => ∃ f', b'.Drafts c f' ∧ f.Continues f' ∧ post a f') fun _ _ => True) :
    Ends (EngineM.emitInto id act) e
      (fun a e' => ∃ f', e'.Drafts c id f' ∧ f.Continues f' ∧ post a f') fun _ _ => True := by
  refine EngineM.ends_emitInto (fun _ => trivial) fun f₀ hf₀ => ?_
  obtain ⟨hfunc, -⟩ := EngineM.findOpen_ok hf₀
  obtain rfl : f = f₀ := Option.some.inj ((EngineM.findFunc_ok h.func).1.symm.trans hfunc)
  refine (hact _ ⟨h.target, h.types, h.layouts, rfl⟩).imp ?_
  rintro a b ⟨f', hb, hcont, hpost⟩
  refine ⟨f', ⟨h.target, hb.types, hb.layouts, ?_⟩, hcont, hpost⟩
  exact EngineM.findFunc_set h.func hcont.destroyed (hb.func ▸ rfl)

end Engine.Drafts

/-- The operation builds the function further, and `post` holds of what it answers and
of the function then. -/
def BuildM.Builds (act : BuildM α) (w : Workspace) (c : Setting) (fn : FnId) (s : Function)
    (f : Func) (post : α → Func → Prop) : Prop :=
  BuildM.Yields fn act w fun a w' => ∃ f', w'.Drafts c fn s f' ∧ f.Continues f' ∧ post a f'

/-- The type of the value of the builder is that of the value of the function. -/
def Val.Typed (v : Val) (c : Setting) (rt : RuntimeId) (f : Func) : Prop :=
  ∃ info, f.value? v.id = some info ∧ c.types.wrap? rt info.type = some v.type

theorem Val.Typed.within {v : Val} {c : Setting} {rt : RuntimeId} {f f' : Func}
    (h : v.Typed c rt f) (hf : f.Within f') : v.Typed c rt f' := by
  obtain ⟨info, hv, htype⟩ := h
  exact ⟨info, hf.value hv, htype⟩

namespace Workspace.Drafts

open BuildM

variable {w : Workspace} {c : Setting} {fn : FnId} {s : Function} {f f' : Func}

theorem advance (h : w.Drafts c fn s f) {r : Runtime} (hr : w.runtimes[s.runtime]? = some r)
    {e : Engine} (he : e.Drafts c s.id f') (hf : f'.Plain) (spans : List Trace.Span)
    (tracing : Trace.Tracing)
    (hl : (w.advance s.runtime r { e with notes := #[] } spans tracing).Linked) :
    (w.advance s.runtime r { e with notes := #[] } spans tracing).Drafts c fn s f' where
  linked := hl
  function := h.function
  problem := h.problem
  plain := hf
  engine := by
    refine ⟨{ r with engine := { e with notes := #[] }, spans }, ?_, ?_⟩
    · rw [getElem?_advance _ spans tracing hr, if_pos rfl]
    · exact he.congr rfl rfl he.layouts rfl

theorem ends_onEngine (h : w.Drafts c fn s f) (op : String) {act : EngineM α}
    {post : α → Func → Prop} (hgo : Leaves Engine.Evolves act)
    (hact : ∀ e : Engine, e.Drafts c s.id f → Ends act e
      (fun a e' => ∃ f', e'.Drafts c s.id f' ∧ f.Continues f' ∧ post a f') fun _ _ => True) :
    Ends (onEngine s.runtime op act) w
      (fun a w' => ∃ f', w'.Drafts c fn s f' ∧ f.Continues f' ∧ post a f') fun _ _ => True := by
  obtain ⟨r, hr, he⟩ := h.engine
  have hgoes : Leaves Goes (onEngine s.runtime op act) := leaves_onEngine s.runtime op hgo
  refine ((ends_operation op hr (hact r.engine he)).and' (hgoes.ends w)).mono ?_ fun _ _ _ => trivial
  rintro a _ ⟨⟨e, spans, tracing, ⟨f', he', hcont, hpost⟩, rfl⟩, hgoes⟩
  exact ⟨f', h.advance hr he' hcont.plain spans tracing (hgoes h.linked).1, hcont, hpost⟩

theorem ends_onFunc (h : w.Drafts c fn s f) (op : String) {act : FuncId → EngineM α}
    {post : α → Func → Prop} (hgo : ∀ id, EngineM.EditsIn id (act id))
    (hact : ∀ e : Engine, e.Drafts c s.id f → Ends (act s.id) e
      (fun a e' => ∃ f', e'.Drafts c s.id f' ∧ f.Continues f' ∧ post a f') fun _ _ => True) :
    Ends (onFunc fn op act) w
      (fun a w' => ∃ f', w'.Drafts c fn s f' ∧ f.Continues f' ∧ post a f') fun _ _ => True :=
  ends_function h.function (h.ends_onEngine op (hgo s.id).evolves hact)

theorem ends_wrapValue (h : w.Drafts c fn s f) (id : ValueId) :
    Ends (wrapValue fn id) w (fun v w' => v.fn = some fn ∧ v.id = id ∧ v.Typed c s.runtime f ∧
      w'.Drafts c fn s f) fun _ _ => True := by
  have hinfo : ∀ e : Engine, e.Drafts c s.id f → Ends (EngineM.valueInfo s.id id) e
      (fun info e' => ∃ f', e'.Drafts c s.id f' ∧ f.Continues f' ∧ f' = f ∧ f.value? id = some info)
      fun _ _ => True := by
    intro e he
    refine EngineM.ends_answered he.func ?_
    cases hv : f.value? id with
    | some info => exact .pure' ⟨f, he, .refl h.plain, rfl, rfl⟩
    | none => exact .throw' trivial
  refine ends_function h.function (.bind' (h.ends_onEngine "wrap"
    (EngineM.evolves_of_same (EngineM.quiet_valueInfo _ _)) hinfo) ?_)
  rintro info w₁ ⟨_, h₁, -, rfl, hv⟩
  have htype : Ends (wrapType s.runtime info.type) w₁
      (fun t w' => w₁ = w' ∧ c.types.wrap? s.runtime info.type = some t) fun _ _ => True := by
    obtain ⟨r, hr, he⟩ := h₁.engine
    refine .bind_ok (by rw [run_table, hr]; rfl) ?_
    rw [he.types]
    cases hwrap : c.types.wrap? s.runtime info.type with
    | some t => exact .pure' ⟨rfl, rfl⟩
    | none => exact .throw' trivial
  refine .bind' htype ?_
  rintro t _ ⟨rfl, hwrap⟩
  exact .pure' ⟨rfl, rfl, ⟨info, hv, hwrap⟩, h₁⟩

/-! ## Emitting -/

theorem emitTyped (h : w.Drafts c fn s f) (op : String) {act : FuncId → EngineM ValueId}
    {post : ValueId → Func → Prop} (hgo : ∀ id, EngineM.EditsIn id (act id))
    (hact : ∀ e : Engine, e.Drafts c s.id f → Ends (act s.id) e
      (fun a e' => ∃ f', e'.Drafts c s.id f' ∧ f.Continues f' ∧ post a f') fun _ _ => True) :
    Builds (BuildM.emit fn op act) w c fn s f fun v f' =>
      v.fn = some fn ∧ v.Typed c s.runtime f' ∧ post v.id f' := by
  have hvalue : Leaves Goes (do
      let id ← onFunc fn op act
      wrapValue fn id) :=
    .bind' (goes_edited fn op hgo) fun id => goes_wrapValue fn id
  refine Yields.guarded' h.linked hvalue (.bind' (h.ends_onFunc op hgo hact) ?_) _
  rintro id w₁ ⟨f', h₁, hcont, hpost⟩
  refine (h₁.ends_wrapValue id).imp ?_
  rintro v w₂ ⟨hfn, rfl, htyped, h₂⟩
  exact ⟨f', h₂, hcont, hfn, htyped, hpost⟩

theorem emit (h : w.Drafts c fn s f) (op : String) {act : FuncId → EngineM ValueId}
    {post : ValueId → Func → Prop} (hgo : ∀ id, EngineM.EditsIn id (act id))
    (hact : ∀ e : Engine, e.Drafts c s.id f → Ends (act s.id) e
      (fun a e' => ∃ f', e'.Drafts c s.id f' ∧ f.Continues f' ∧ post a f') fun _ _ => True) :
    Builds (BuildM.emit fn op act) w c fn s f fun v f' => v.fn = some fn ∧ post v.id f' := by
  refine Yields.mono (h.emitTyped op hgo hact) ?_
  rintro v w' ⟨f', h', hcont, hfn, -, hpost⟩
  exact ⟨f', h', hcont, hfn, hpost⟩

theorem emitting (h : w.Drafts c fn s f) (op : String) {act : FuncId → EngineM Unit}
    {P : Func → Prop} (hgo : ∀ id, EngineM.EditsIn id (act id))
    (hact : ∀ e : Engine, e.Drafts c s.id f → Ends (act s.id) e
      (fun _ e' => ∃ f', e'.Drafts c s.id f' ∧ f.Continues f' ∧ P f') fun _ _ => True) :
    Builds (guarded fn () (onFunc fn op act)) w c fn s f fun _ f' => P f' :=
  Yields.guarded' h.linked (goes_edited fn op hgo) (h.ends_onFunc op hgo hact) _

theorem keptProblem (h : w.Drafts c fn s f) (op : String) {act : FuncId → EngineM Unit}
    {post : Func → Prop} (hgo : ∀ id, EngineM.EditsIn id (act id))
    (hact : ∀ e : Engine, e.Drafts c s.id f → Ends (act s.id) e
      (fun _ e' => ∃ f', e'.Drafts c s.id f' ∧ f.Continues f' ∧ post f') fun _ _ => True) :
    Builds (BuildM.keptProblem fn (onFunc fn op act)) w c fn s f fun p f' => p = none ∧ post f' := by
  have hkept : Yields fn (BuildM.keptProblem fn (onFunc fn op act)) w fun p w' => ∃ a : Unit,
      p = none ∧ ∃ f', w'.Drafts c fn s f' ∧ f.Continues f' ∧ post f' :=
    Yields.attempt_bind h.linked (goes_edited fn op hgo) (h.ends_onFunc op hgo hact)
      (fun _ => rfl) fun _ => rfl
  refine hkept.mono ?_
  rintro p w' ⟨-, rfl, f', h', hcont, hpost⟩
  exact ⟨f', h', hcont, rfl, hpost⟩

end Workspace.Drafts

end TypedIR
