import TypedIR.Proofs.BuildRuns
import TypedIR.Proofs.ImageLoading
import TypedIR.Proofs.StartedFunctions
import TypedIR.Proofs.StatementBuilds

/-
  Building programs, and compiling what was built.

  The variables of a program are the parameters of its function and then the locals, in
  this order: they are the first values of the function, and declaring adds no code
  (`Func.Owns`). The body comes after them. So what is built runs as the program does,
  from the first instruction on (`Program.builds`).

  Compiling a function whose values are in registers changes none of its code. It is
  refused if control can come to the end of a function that gives a value back, and if
  a jump or a call leads nowhere. So the compiled function runs as it was built, and
  never comes to its end (`Workspace.Drafts.ends_compile`).
-/

namespace TypedIR

open Func (Reads)
open Workspace (Goes)

variable {α β γ : Type}

/-! ## Operations on lists -/

namespace BuildM

theorem Yields.mapM' {fn : FnId} {act : α → BuildM β} {xs : List α}
    (post : List α → List β → Workspace → Prop)
    (hstep : ∀ (done : List α) (x : α) (outs : List β) (w : Workspace), x ∈ xs → post done outs w →
      Yields fn (act x) w fun b w' => post (done ++ [x]) (outs ++ [b]) w')
    (hgo : ∀ x, Leaves Goes (act x)) (hl : ∀ {done outs w}, post done outs w → w.Linked)
    {done : List α} {outs : List β} {w : Workspace} (h : post done outs w) :
    Yields fn (xs.mapM act) w fun bs w' => post (done ++ xs) (outs ++ bs) w' := by
  induction xs generalizing done outs w with
  | nil =>
    rw [List.mapM_nil]
    exact Yields.pure' (hl h) (by rwa [List.append_nil, List.append_nil])
  | cons x rest ih =>
    rw [List.mapM_cons]
    refine Yields.bind' (hstep done x outs w List.mem_cons_self h)
      (fun b => .bind' (.mapM' rest hgo) fun bs => .pure' _) fun b w₁ h₁ => ?_
    refine Yields.bind' (ih (fun done y outs w hy => hstep done y outs w (List.mem_cons_of_mem x hy))
      h₁) (fun bs => .pure' _) fun bs w₂ h₂ => ?_
    refine Yields.pure' (hl h₂) ?_
    rwa [List.append_assoc, List.append_assoc] at h₂

end BuildM

/-! ## Variables -/

/-- The value is one of the function that can be assigned to, and holds integers. -/
structure Func.Variable (f : Func) (c : Setting) (fn : FnId) (v : Val) (r : Rep) : Prop where
  fn : v.fn = some fn
  number : f.Number c v.id r
  assignable : ∀ info, f.value? v.id = some info → info.origin ≠ .const

/-- The values of the function are these variables, in this order. -/
structure Func.Owns (f : Func) (c : Setting) (fn : FnId) (vs : List Val) (reps : List Rep) : Prop where
  each : List.Forall₂ (f.Variable c fn) vs reps
  ids : vs.map (·.id) = (List.range vs.length).map (· + 1)
  size : f.values.size = vs.length + 1

/-- These are variables of the function, each of its own. -/
structure Func.Names (f : Func) (c : Setting) (fn : FnId) (vs : List Val) (reps : List Rep) : Prop where
  each : List.Forall₂ (f.Variable c fn) vs reps
  nodup : (vs.map (·.id)).Nodup

namespace Func

variable {f f' : Func} {c : Setting} {fn : FnId} {v : Val} {vs ws : List Val} {reps reps' : List Rep}
  {r : Rep}

theorem Variable.continues (h : f.Variable c fn v r) (hf : f.Continues f') :
    f'.Variable c fn v r where
  fn := h.fn
  number := h.number.within hf.within
  assignable info hinfo := by
    obtain ⟨⟨own, hown, -⟩, -⟩ := h.number
    rw [hf.within.value hown] at hinfo
    exact Option.some.inj hinfo ▸ h.assignable own hown

theorem Owns.declared (h : f.Owns c fn vs reps) (hf : f.Continues f') (hv : f'.Variable c fn v r)
    (hid : v.id = f.values.size) (hsize : f'.values.size = f.values.size + 1) :
    f'.Owns c fn (vs ++ [v]) (reps ++ [r]) where
  each := List.rel_append (h.each.imp fun _ _ hv => hv.continues hf) (.cons hv .nil)
  ids := by
    rw [List.length_append, List.length_singleton, List.range_succ, List.map_append, List.map_append,
      h.ids, List.map_singleton, List.map_singleton, hid, h.size]
  size := by
    rw [hsize, h.size, List.length_append, List.length_singleton]

theorem Owns.id (h : f.Owns c fn vs reps) {i : Nat} (hi : i < vs.length) :
    (vs.getD i {}).id = i + 1 := by
  have hget : (vs.map (·.id))[i]? = some (i + 1) := by
    rw [h.ids, List.getElem?_map, List.getElem?_range hi]
    rfl
  rw [List.getElem?_map, List.getElem?_eq_getElem hi] at hget
  rw [List.getD_eq_getElem?_getD, List.getElem?_eq_getElem hi]
  exact Option.some.inj hget

theorem Owns.names (h : f.Owns c fn vs reps) : f.Names c fn vs reps where
  each := h.each
  nodup := h.ids ▸ List.nodup_range.map Nat.succ_injective

theorem Names.continues (h : f.Names c fn vs reps) (hf : f.Continues f') : f'.Names c fn vs reps where
  each := h.each.imp fun _ _ hv => hv.continues hf
  nodup := h.nodup

theorem Names.declared (h : f.Names c fn vs reps) (hf : f.Continues f') (hv : f'.Variable c fn v r)
    (hid : v.id = f.values.size) : f'.Names c fn (vs ++ [v]) (reps ++ [r]) where
  each := List.rel_append (h.continues hf).each (.cons hv .nil)
  nodup := by
    rw [List.map_append, List.map_singleton]
    refine List.Nodup.append h.nodup (List.nodup_singleton _) fun u hu hu' => ?_
    obtain ⟨a, ha, rfl⟩ := List.mem_map.mp hu
    obtain ⟨i, hi, rfl⟩ := List.mem_iff_getElem.mp ha
    have hnumber := (h.each.get hi (h.each.length_eq ▸ hi)).number
    obtain ⟨⟨info, hinfo, -⟩, -⟩ := hnumber
    exact absurd ((List.mem_singleton.mp hu').trans hid) (Nat.ne_of_lt (value?_lt hinfo).2.2)

theorem Names.variables {k : Nat} (h : f.Names c fn vs reps) (hk : vs.length = k)
    {names : Fin k → Rep} (hreps : ∀ i : Fin k, reps[(i : Nat)]? = some (names i)) :
    f.Variables c fn (fun i : Fin k => vs.getD i {}) names := by
  subst hk
  have hvar : ∀ i : Fin vs.length, f.Variable c fn (vs.getD i {}) (names i) := by
    intro i
    have hget := h.each.get i.isLt (h.each.length_eq ▸ i.isLt)
    have hr : reps.get ⟨i, h.each.length_eq ▸ i.isLt⟩ = names i :=
      Option.mem_unique (List.getElem?_eq_getElem _) (hreps i)
    rw [hr] at hget
    rwa [List.getD_eq_getElem?_getD, List.getElem?_eq_getElem i.isLt]
  have hat : ∀ i : Fin vs.length, (vs.map (·.id))[(i : Nat)]? = some (vs.getD i {}).id := by
    intro i
    rw [List.getElem?_map, List.getD_eq_getElem?_getD, List.getElem?_eq_getElem i.isLt]
    rfl
  exact {
    fn := fun i => (hvar i).fn
    number := fun i => (hvar i).number
    distinct := by
      intro i j hij
      have hlt : (i : Nat) < (vs.map (·.id)).length := by simp
      exact Fin.ext ((List.getElem?_inj hlt h.nodup).mp ((hat i).trans (hij ▸ (hat j).symm)))
    assignable := fun {i info} hinfo => (hvar i).assignable info hinfo }

theorem owns_fresh {id : FuncId} {ctx : ContextId} {name : String} {sig : TypeId} {ret : Rep}
    {params : List (TypeId × Rep)} (hvs : List.Forall₂ (fun i v => v.fn = some fn ∧ v.id = i + 1)
      (List.range params.length) vs)
    (hparams : ∀ p ∈ params, c.types.Firm c.target p.1 p.2 ∧ p.2.IsInteger) :
    (fresh id ctx name sig ret params).Owns c fn vs (params.map (·.2)) where
  each := by
    have hlen : params.length = vs.length := by simpa using hvs.length_eq
    refine List.forall₂_iff_get.mpr ⟨by simp [hlen], fun i hi hi' => ?_⟩
    have hip : i < params.length := hlen ▸ hi
    obtain ⟨hfn, hid⟩ := hvs.get (by simpa using hip) hi
    have hinfo : (fresh id ctx name sig ret params).value? (i + 1) =
        some { type := params[i].1, rep := params[i].2, origin := .param, param := i } := by
      rw [value?_fresh, List.getElem?_eq_getElem hip]
      rfl
    have hrep := hparams _ (List.getElem_mem hip)
    have hvid : (vs.get ⟨i, hi⟩).id = i + 1 := by simpa using hid
    refine ⟨hfn, ⟨⟨_, hvid ▸ hinfo, by simp, ?_⟩, ?_⟩, fun info h => ?_⟩
    · simpa using hrep.1
    · simpa using hrep.2
    · rw [hvid, hinfo] at h
      obtain rfl := Option.some.inj h
      exact nofun
  ids := by
    have hlen : params.length = vs.length := by simpa using hvs.length_eq
    refine List.ext_getElem (by simp) fun i hi hi' => ?_
    have hiv : i < vs.length := by simpa using hi
    have hid := (hvs.get (by simpa [hlen] using hiv) hiv).2
    simpa using hid
  size := by
    have hlen : params.length = vs.length := by simpa using hvs.length_eq
    simp [fresh, hlen]

end Func

namespace Workspace.Drafts

open BuildM

variable {w : Workspace} {c : Setting} {fn : FnId} {s : Function} {f : Func}

theorem ends_arg (h : w.Drafts c fn s f) {i : Nat} (hi : i < s.params.length) {p : ValueId}
    (hp : f.params[i]? = some p) :
    Ends (arg fn i) w (fun v w' => (v.fn = some fn ∧ v.id = p ∧ v.Typed c s.runtime f) ∧
      w'.Drafts c fn s f) fun _ _ => True := by
  have hparam : ∀ e : Engine, e.Drafts c s.id f → Ends (EngineM.paramValue s.id i) e
      (fun a e' => ∃ f', e'.Drafts c s.id f' ∧ f.Continues f' ∧ f' = f ∧ a = p) fun _ _ => True := by
    intro e he
    refine EngineM.ends_answered he.func ?_
    have hget : (if (i : Int) < 0 then none else f.params[(i : Int).toNat]?) = some p := by
      rw [if_neg (by omega), Int.toNat_natCast]
      exact hp
    rw [hget]
    exact .pure' ⟨f, he, .refl h.plain, rfl, rfl⟩
  refine ends_function h.function (.ite' (fun hno => ?_) fun _ => ?_)
  · omega
  refine .bind' (h.ends_onEngine "arg" (EngineM.evolves_of_same (EngineM.quiet_paramValue _ _))
    hparam) ?_
  rintro a w₁ ⟨f', h₁, -, hf', ha⟩
  subst hf' ha
  refine (h₁.ends_wrapValue a).imp ?_
  rintro v w₂ ⟨hfn, hid, htyped, h₂⟩
  exact ⟨⟨hfn, hid, htyped⟩, h₂⟩

theorem args (h : w.Drafts c fn s f)
    (hparams : ∀ i, i < s.params.length → f.params[i]? = some (i + 1)) :
    Yields fn (BuildM.args fn) w fun vs w' =>
      List.Forall₂ (fun i v => v.fn = some fn ∧ v.id = i + 1 ∧ v.Typed c s.runtime f)
        (List.range s.params.length) vs ∧ w'.Drafts c fn s f := by
  refine ends_function h.function ?_
  let post : List Nat → List Val → Workspace → Prop := fun done outs w =>
    List.Forall₂ (fun i v => v.fn = some fn ∧ v.id = i + 1 ∧ v.Typed c s.runtime f) done outs ∧
      w.Drafts c fn s f
  have hstart : post [] [] w := ⟨.nil, h⟩
  have hstep : ∀ (done : List Nat) (i : Nat) (outs : List Val) (w₁ : Workspace),
      i ∈ List.range s.params.length → post done outs w₁ →
        Yields fn (guarded fn {} (arg fn i)) w₁ fun v w' => post (done ++ [i]) (outs ++ [v]) w' := by
    rintro done i outs w₁ hi ⟨houts, h₁⟩
    have hlt := List.mem_range.mp hi
    refine Yields.guarded' h₁.linked (goes_arg fn i) ((h₁.ends_arg hlt (hparams i hlt)).imp ?_) _
    rintro v w₂ ⟨hv, h₂⟩
    exact ⟨List.rel_append houts (.cons hv .nil), h₂⟩
  exact (Yields.mapM' post hstep (fun i => goes_guarded fn _ (goes_arg fn i)) (fun h => h.2.linked)
    hstart).mono fun _ _ h => h

theorem declareVariable (h : w.Drafts c fn s f) {rt : RuntimeId} (t : c.Integer rt) :
    (BuildM.declare fn t.ty).Builds w c fn s f fun v f' => (f'.Variable c fn v t.rep ∧
      v.id = f.values.size ∧ v.Typed c s.runtime f') ∧ f'.values.size = f.values.size + 1 ∧
        f'.insns = f.insns := by
  let info : ValueInfo := { type := t.ty.id, rep := t.rep, origin := .local }
  have hneeds : info.needsSlot = false := Func.needsSlot_of_integer t.isInteger rfl
  have hlocal : ∀ e : Engine, e.Drafts c s.id f → Ends (EngineM.createValue s.id t.ty.id) e
      (fun a e' => ∃ f', e'.Drafts c s.id f' ∧ f.Continues f' ∧ a = f.values.size ∧
        f' = (f.addValue info).2) fun _ _ => True := by
    intro e he
    refine he.ends_emitInto fun b hb => ?_
    refine (hb.createLocal t.firm t.isInteger).imp ?_
    rintro v b' ⟨hv, hb'⟩
    exact ⟨_, hb', h.plain.addValue hneeds, hv, rfl⟩
  refine .ite' (fun _ => ?_) fun _ => Yields.reject' h.linked _ _
  refine Yields.mono (h.emitTyped "declare" (fun _ => .emits (Emit.edits_createLocal _)) hlocal) ?_
  rintro v w₁ ⟨f', h₁, hcont, hfn, htyped, hid, rfl⟩
  have hinfo : (f.addValue info).2.value? v.id = some info := by
    rw [hid]
    exact (Func.value?_addValue h.plain.first _).trans (if_pos rfl)
  have hvar : (f.addValue info).2.Variable c fn v t.rep := by
    refine ⟨hfn, ⟨⟨info, hinfo, rfl, t.firm⟩, t.isInteger⟩, fun other hother => ?_⟩
    rw [hinfo] at hother
    obtain rfl := Option.some.inj hother
    exact nofun
  exact ⟨_, h₁, hcont, ⟨hvar, hid, htyped⟩, by simp [Func.addValue], rfl⟩

theorem declare (h : w.Drafts c fn s f) {vs : List Val} {reps : List Rep} (hf : f.Owns c fn vs reps)
    {rt : RuntimeId} (t : c.Integer rt) :
    (BuildM.declare fn t.ty).Builds w c fn s f fun v f' =>
      f'.Owns c fn (vs ++ [v]) (reps ++ [t.rep]) ∧ f'.insns = f.insns := by
  refine Yields.mono (h.declareVariable t) ?_
  rintro v w₁ ⟨f', h₁, hcont, ⟨hvar, hid, -⟩, hsize, hinsns⟩
  exact ⟨f', h₁, hcont, hf.declared hcont hvar hid hsize, hinsns⟩

theorem locals (h : w.Drafts c fn s f) {vs : List Val} {reps : List Rep} (hf : f.Owns c fn vs reps)
    {rt : RuntimeId} (ts : List (c.Integer rt)) :
    (ts.mapM fun t => BuildM.declare fn t.ty).Builds w c fn s f fun us f' =>
      f'.Owns c fn (vs ++ us) (reps ++ ts.map (·.rep)) ∧ f'.insns = f.insns := by
  let post : List (c.Integer rt) → List Val → Workspace → Prop := fun done outs w =>
    ∃ f', w.Drafts c fn s f' ∧ f.Continues f' ∧ f'.Owns c fn (vs ++ outs) (reps ++ done.map (·.rep)) ∧
      f'.insns = f.insns
  have hgo : ∀ t : c.Integer rt, Leaves Goes (BuildM.declare fn t.ty) := fun t =>
    .ite' (goes_emit fn _ fun _ => .emits (Emit.edits_createLocal _))
      (goes_reject fn _ _)
  have hstart : post [] [] w := ⟨f, h, .refl h.plain, by simpa using hf, rfl⟩
  have hstep : ∀ (done : List (c.Integer rt)) (t : c.Integer rt) (outs : List Val) (w₁ : Workspace),
      t ∈ ts → post done outs w₁ → Yields fn (BuildM.declare fn t.ty) w₁ fun v w' =>
        post (done ++ [t]) (outs ++ [v]) w' := by
    rintro done t outs w₁ - ⟨f₁, h₁, hcont₁, hf₁, hinsns₁⟩
    refine Yields.mono (h₁.declare hf₁ t) ?_
    rintro v w₂ ⟨f₂, h₂, hcont₂, hf₂, hinsns₂⟩
    refine ⟨f₂, h₂, hcont₁.trans hcont₂, ?_, hinsns₂.trans hinsns₁⟩
    simpa using hf₂
  exact (Yields.mapM' post hstep hgo (fun ⟨_, h, _⟩ => h.linked) hstart).mono fun _ _ h => h

end Workspace.Drafts

/-! ## Programs -/

theorem Program.reps_eq {c : Setting} {rt : RuntimeId} (p : Program c rt)
    (i : Fin (p.params.length + p.locals.length)) :
    (p.params.map (·.rep) ++ p.locals.map (·.rep))[(i : Nat)]? = some (p.reps i) := by
  have hi : (i : Nat) < p.types.length := by
    unfold types
    rw [List.length_append]
    exact i.isLt
  rw [← List.map_append, List.getElem?_map]
  exact congrArg (Option.map (·.rep)) (List.getElem?_eq_getElem hi)

/-- What is built in a function that has only its parameters: after the variables there is
no code yet, and what comes then runs as the body of the program does. -/
theorem Program.builds {w : Workspace} {c : Setting} {rt : RuntimeId} {fn : FnId} {s : Function}
    {f : Func} (p : Program c rt) (h : w.Drafts c fn s f) (hrt : s.runtime = rt)
    (hlen : s.params.length = p.params.length) {ctx : ContextId} {name : String} {sig : TypeId}
    {result : Rep} (hf : f = .fresh s.id ctx name sig result
      ((p.params.map (·.ty.id)).zip (p.params.map (·.rep)))) (hback : f.GivesBack c) :
    (p.emit fn).Builds w c fn s f fun _ f' => ∃ (f₀ : Func)
      (vals : Fin (p.params.length + p.locals.length) → Val), f.Continues f₀ ∧
        f₀.Variables c fn vals p.reps ∧ f₀.insns.size = 0 ∧ (∀ i, (vals i).id = i + 1) ∧
        f₀.Executes f' vals p.reps s.breaks fun n σ => p.body.exec p.reps result n σ := by
  have hzip : ∀ q ∈ (p.params.map (·.ty.id)).zip (p.params.map (·.rep)),
      c.types.Firm c.target q.1 q.2 ∧ q.2.IsInteger := by
    intro q hq
    rw [List.zip_map', List.mem_map] at hq
    obtain ⟨t, -, rfl⟩ := hq
    exact ⟨t.firm, t.isInteger⟩
  have hsize : ((p.params.map (·.ty.id)).zip (p.params.map (·.rep))).length = p.params.length := by
    simp
  have hargs : ∀ i, i < s.params.length → f.params[i]? = some (i + 1) := by
    intro i hi
    have hparams : f.params = (List.range p.params.length).map (· + 1) := by
      rw [hf, ← hsize]
      rfl
    rw [hparams, List.getElem?_map, List.getElem?_range (hlen ▸ hi)]
    rfl
  have hgo : ∀ vals, Leaves Goes (p.body.emit fn vals) := p.body.goes_emit fn
  have hgolocals : Leaves Goes (p.locals.mapM fun t => BuildM.declare fn t.ty) :=
    .mapM' _ fun t => .ite' (BuildM.goes_emit fn _ fun _ => .emits (Emit.edits_createLocal _))
      (BuildM.goes_reject fn _ _)
  refine BuildM.Yields.bind' (h.args hargs) (fun _ => .bind' hgolocals fun _ => hgo _) ?_
  rintro params w₁ ⟨hparams, h₁⟩
  have howns : f.Owns c fn params (p.params.map (·.rep)) := by
    rw [hlen, ← hsize] at hparams
    have hfresh := @Func.owns_fresh c fn params s.id ctx name sig result _
      (hparams.imp fun _ _ hp => ⟨hp.1, hp.2.1⟩) hzip
    have hreps : ((p.params.map (·.ty.id)).zip (p.params.map (·.rep))).map (·.2) =
        p.params.map (·.rep) := List.map_snd_zip (by simp)
    rwa [hreps, ← hf] at hfresh
  refine BuildM.Yields.bind' (h₁.locals howns p.locals) (fun _ => hgo _) ?_
  rintro locals w₂ ⟨f₀, h₂, hcont₂, howns₂, hinsns⟩
  have hcount : (params ++ locals).length = p.params.length + p.locals.length := by
    simpa using howns₂.each.length_eq
  have hvars := howns₂.names.variables hcount p.reps_eq
  have hret : f₀.ret = result := by
    rw [hcont₂.within.header.ret, hf]
    rfl
  refine BuildM.Yields.mono (p.body.builds hrt h₂ ⟨hvars, hback.within hcont₂.within, hret⟩) ?_
  rintro _ w₃ ⟨f', h₃, hcont₃, hexec⟩
  refine ⟨f', h₃, hcont₂.trans hcont₃, f₀, _, hcont₂, hvars, ?_, fun i => ?_, hexec⟩
  · rw [hinsns, hf]
    rfl
  · exact howns₂.id (i.isLt.trans_eq hcount.symm)

/-- A function that was compiled from one whose values are in registers. -/
structure Func.Compiles (f g : Func) : Prop where
  within : f.Within g
  runs : g.Runs
  closed : g.Closed
  compiled : g.compiled = true
  alive : g.destroyed = f.destroyed
  frameSize : g.frameSize = 0
  insns : g.insns = f.insns
  size : g.values.size = f.values.size

theorem Func.Framed.compiles {f g : Func} (h : f.Framed g) (hf : f.Plain)
    (hleads : ∀ i ∈ f.insns, i.op.isBranch = true → (f.target? i).isSome)
    (hend : f.endReachable = some false) : f.Compiles g where
  within := ⟨h.header, fun hv => h.register hv (hf.value hv).2 (hf.value hv).1,
    fun hi => by rwa [h.insns], fun hl _ => by
      unfold Func.label? at hl ⊢
      rwa [h.labels]⟩
  runs := by
    refine ⟨fun v info hv => ?_, fun hi hb => ?_⟩
    · obtain ⟨vs, hvalues, hslotted, -⟩ := h.values
      rcases v with _ | i
      · cases hv
      rw [Func.value?_of_list hvalues] at hv
      obtain ⟨hi, rfl⟩ := List.getElem?_eq_some_iff.mp hv
      have hi' : i < (f.values.toList.drop 1).length := hslotted.length_eq ▸ hi
      have hold := Func.value?_succ hi'
      have hnew := h.register hold (hf.value hold).2 (hf.value hold).1
      rw [Func.value?_of_list hvalues, List.getElem?_eq_getElem hi] at hnew
      rw [Option.some.inj hnew]
      exact (hf.value hold).1
    · rw [h.insns] at hi
      have hsome := hleads _ (Array.mem_of_getElem? hi) hb
      have hsame : ∀ i, g.target? i = f.target? i := by
        intro i
        unfold Func.target? Func.label?
        rw [h.labels]
      rw [hsame]
      exact Option.isSome_iff_exists.mp hsome
  closed := (Func.closed_of_endReachable hf.labels (by rw [hend]; nofun)).congr h.insns h.labels
  compiled := h.compiled
  alive := h.destroyed
  frameSize := h.frameSize fun v info hv => (hf.value hv).2
  insns := h.insns
  size := by
    obtain ⟨vs, hvalues, hslotted, -⟩ := h.values
    have hlen := hslotted.length_eq
    have hfirst := hf.first
    simp only [List.length_drop, Array.length_toList] at hlen
    rw [hvalues]
    simp
    omega

namespace Engine.Drafts

variable {e : Engine} {c : Setting} {id : FuncId} {f : Func}

theorem ends_defaultReturn (h : e.Drafts c id f) (hf : f.Plain) :
    Ends (EngineM.defaultReturn id) e (fun reach e' => ∃ f', e'.Drafts c id f' ∧ f.Continues f' ∧
      f.compiled = false ∧ reach = f.endReachable ∧ (reach = some false → f' = f)) fun _ _ => True := by
  have hopen : Ends (EngineM.defaultReturn id) e (fun _ _ => f.compiled = false) fun _ _ => True := by
    refine (EngineM.ends_defaultReturn id e).mono ?_ fun _ _ _ => trivial
    rintro _ _ ⟨f₀, -, hf₀, hcompiled, -⟩
    obtain rfl := Option.some.inj ((EngineM.findFunc_ok h.func).1.symm.trans hf₀)
    exact hcompiled
  have hemit : Ends (EngineM.defaultReturn id) e (fun reach e' => ∃ f', e'.Drafts c id f' ∧
      f.Continues f' ∧ reach = f.endReachable ∧ (reach = some false → f' = f)) fun _ _ => True := by
    refine h.ends_emitInto fun b hb => hb.defaultReturn.imp ?_
    rintro reach b' ⟨hreach, hb'⟩
    by_cases hend : f.endReachable = some true
    · rw [if_pos hend] at hb'
      refine ⟨_, hb', hf.push _, hreach, fun hno => ?_⟩
      rw [hreach, hend] at hno
      cases hno
    · rw [if_neg hend] at hb'
      exact ⟨f, hb', .refl hf, hreach, fun _ => rfl⟩
  refine (hopen.and' hemit).mono ?_ fun _ _ _ => trivial
  rintro reach e' ⟨hcompiled, f', he', hcont, hreach, hsame⟩
  exact ⟨f', he', hcont, hcompiled, hreach, hsame⟩

theorem ends_compile (h : e.Drafts c id f) (hopen : f.compiled = false) :
    Ends (EngineM.compile id) e (fun _ e' => ∃ g, f.Framed g ∧
      (∀ i ∈ f.insns, i.op.isBranch = true → (f.target? i).isSome) ∧ e'.findFunc id = .ok g)
      fun _ _ => True := by
  refine (EngineM.ends_compile id e).mono ?_ fun _ _ _ => trivial
  rintro _ _ ⟨g, hg, hcases⟩
  obtain rfl := Except.ok.inj (h.func.symm.trans hg)
  rcases hcases with ⟨hc, -⟩ | ⟨-, hleads, notes, rfl⟩
  · cases hopen.symm.trans hc
  · exact ⟨e.framed f, e.framed_framed f, fun i hi => (hleads i hi).1,
      EngineM.findFunc_set h.func rfl rfl⟩

end Engine.Drafts

namespace Workspace.Drafts

open BuildM

variable {w : Workspace} {c : Setting} {fn : FnId} {s : Function} {f : Func}

theorem ends_compile (h : w.Drafts c fn s f) (hc : s.compiled = false) (hret : s.ret.kind ≠ .void) :
    Ends (compile fn) w (fun _ w' => ∃ g, f.Compiles g ∧ w'.Has fn s.finished g) fun _ _ => True := by
  have hfinish : ∀ {w : Workspace}, w.Drafts c fn s f → Ends (finish fn) w
      (fun _ w' => ∃ g, f.Compiles g ∧ w'.Has fn s.finished g) fun _ _ => True := by
    intro w h
    have hsteps : Ends (finishing fn) w
        (fun _ w' => ∃ g, f.Compiles g ∧ w'.Has fn s.finished g) fun _ _ => True := by
      obtain ⟨r, hr, he⟩ := h.engine
      refine ends_function h.function ?_
      have hreaches : Ends (reachesEnd fn) w
          (fun reach w' => ∃ (e₁ : Engine) (spans : List Trace.Span) (tracing : Trace.Tracing),
            (∃ f', e₁.Drafts c s.id f' ∧ f.compiled = false ∧ f.endReachable = some reach ∧
              (reach = false → f' = f)) ∧
            w' = w.advance s.runtime r { e₁ with notes := #[] } spans tracing)
          fun _ _ => True := by
        refine .bind' (ends_function h.function ((ends_operation "compile" hr
          (he.ends_defaultReturn h.plain)).imp_stop fun _ _ _ => trivial)) ?_
        rintro (_ | reach) _ ⟨e₁, spans, tracing, ⟨f', he₁, -, hopen, hreach, hsame⟩, rfl⟩
        · exact .throw' trivial
        · exact .pure' ⟨e₁, spans, tracing, ⟨f', he₁, hopen, hreach.symm, fun hno =>
            hsame (congrArg some hno)⟩, rfl⟩
      refine .bind' hreaches ?_
      rintro reach _ ⟨e₁, spans, tracing, ⟨f', he₁, hopen, hreach, hsame⟩, rfl⟩
      refine .ite' (fun _ => ?_) fun hend => ?_
      · exact .bind_any fun _ _ => .bind_any fun _ _ => .bind_throw trivial
      obtain rfl : reach = false := by simpa [hret] using hend
      obtain rfl : f = f' := (hsame rfl).symm
      have hr₁ := (getElem?_advance { e₁ with notes := #[] } spans tracing hr s.runtime).trans
        (if_pos rfl)
      have he₁' : Engine.Drafts { e₁ with notes := #[] } c s.id f := he₁.congr rfl rfl he₁.layouts rfl
      have hfn : (w.advance s.runtime r { e₁ with notes := #[] } spans tracing).functions[fn]? =
          some s := h.function
      refine .bind' (ends_function hfn ((ends_operation "compile" hr₁
        (he₁'.ends_compile hopen)).imp_stop fun _ _ _ => trivial)) ?_
      rintro _ _ ⟨e₂, spans', tracing', ⟨g, hframed, hleads, hfunc⟩, rfl⟩
      refine .modify' ⟨g, hframed.compiles h.plain hleads hreach, ?_, _,
        (getElem?_advance _ spans' tracing' hr₁ s.runtime).trans (if_pos rfl),
        (EngineM.findFunc_ok hfunc).1⟩
      refine (Workspace.getElem?_modify _ _ _).trans ((congrArg (Option.map _) hfn).trans ?_)
      rw [Option.map_some, if_pos rfl]
      rfl
    refine .bind' ((ends_attempt hsteps).imp_stop fun _ _ _ => trivial) ?_
    rintro (p | _) w' ha
    · exact .bind_any fun _ _ => .throw' trivial
    · exact .pure' ha
  have htraced : ∀ {w : Workspace} (n : Trace.Note), w.Drafts c fn s f →
      Ends (trace s.runtime n) w (fun _ w' => w'.Drafts c fn s f) fun _ _ => True := by
    intro w n h
    obtain ⟨r, hr, he⟩ := h.engine
    obtain ⟨spans, tracing, hrun⟩ := run_trace hr n
    have hgo : Leaves Workspace.Goes (trace s.runtime n) := (asks_trace _ _).leaves
    have hl := (hgo w) h.linked
    rw [hrun] at hl
    unfold Ends
    rw [hrun]
    exact ⟨hl.1, h.function, h.problem, h.plain, _,
      (getElem?_advance _ spans tracing hr s.runtime).trans (if_pos rfl), he⟩
  refine ends_function h.function ?_
  rw [h.problem]
  refine .ite' (fun hyes => ?_) fun _ => ?_
  · rw [hc] at hyes
    cases hyes
  have hname : Leaves (· = ·) (functionName fn) := (asks_functionName fn).leaves
  refine .bind' ((hname.ends w).imp_stop fun _ _ _ => trivial) ?_
  rintro name _ rfl
  refine .bind' (htraced _ h) fun _ w₁ h₁ => ?_
  refine .bind' ((ends_attempt (hfinish h₁)).imp_stop fun _ _ _ => trivial) ?_
  rintro (p | _) w₂ h₂
  · exact .bind_any fun _ _ => .throw' trivial
  obtain ⟨g, hg, hs, r, hr, hfunc⟩ := h₂
  obtain ⟨spans, tracing, hrun⟩ := run_trace hr (.closed "ok" [("func", name)])
  unfold Ends
  rw [show s.runtime = s.finished.runtime from rfl, hrun]
  exact ⟨g, hg, hs, _, (getElem?_advance _ spans tracing hr _).trans (if_pos rfl), hfunc⟩

end Workspace.Drafts

end TypedIR
