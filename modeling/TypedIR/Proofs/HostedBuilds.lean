import TypedIR.Build.Function
import TypedIR.Proofs.ConstantRoundTrip
import TypedIR.Proofs.HostedFunctions
import TypedIR.Proofs.IntegerConstants
import TypedIR.Proofs.MadeTypes

/-
  Functions from the start of a build.

  A build of a runtime whose engine was asked in time gives functions of all signatures of
  whole numbers and addresses (`Workspace.Offers.ends_startFunction`). The new function is
  hosted there, has its parameters and no code (`Func.fresh`). What is emitted for it then
  goes through, one operation after the other (`Workspace.Hosts`), until it is compiled and
  called.
-/

namespace TypedIR

/-! ## Settings with more types -/

/-- There are more types, and nothing else is different. -/
structure Setting.Grows (c c' : Setting) : Prop where
  target : c'.target = c.target
  building : c'.building = c.building
  types : c.types.Grows c'.types
  structs : c'.types.structs = c.types.structs

namespace Setting.Grows

variable {c c' c'' : Setting}

theorem refl (c : Setting) : c.Grows c := ⟨rfl, rfl, .refl _, rfl⟩

theorem trans (h : c.Grows c') (h' : c'.Grows c'') : c.Grows c'' :=
  ⟨h'.target.trans h.target, h'.building.trans h.building, h.types.trans h'.types,
    h'.structs.trans h.structs⟩

end Setting.Grows

namespace Ty.Whole

variable {c c' : Setting} {rt : RuntimeId} {t : Ty} {r : Rep}

theorem grow (h : t.Whole c rt r) (hg : c.Grows c') : t.Whole c' rt r where
  owner := h.owner
  kind := c.ordered.tyKind?_grow hg.types h.kind
  rep := hg.target ▸ h.rep.grow c.ordered hg.types
  cls := h.cls
  bool := h.bool

theorem isWhole (h : t.Whole c rt r) : r.IsWhole := h.known.isWhole

theorem found (h : t.Whole c rt r) : ∃ d, c.types.find? t.id = some d := by
  obtain ⟨d, hd⟩ := h.rep.found
  exact TypeTable.known_of_underlying hd

end Ty.Whole

/-! ## Fresh functions -/

def Func.fresh (id : FuncId) (ctx : ContextId) (name : String) (sig : TypeId) (ret : Rep)
    (params : List (TypeId × Rep)) : Func :=
  { id, ctx, name, sig, ret
    values := #[ValueInfo.placeholder] ++ (params.mapIdx fun i p =>
      { type := p.1, rep := p.2, origin := .param, param := i : ValueInfo }).toArray
    params := (List.range params.length).map (· + 1) }

namespace Func

variable {id : FuncId} {ctx : ContextId} {name : String} {sig : TypeId} {ret : Rep}
  {params : List (TypeId × Rep)}

theorem value?_fresh (i : Nat) : (fresh id ctx name sig ret params).value? (i + 1) =
    params[i]?.map fun p => { type := p.1, rep := p.2, origin := .param, param := i } := by
  rw [value?_of_list rfl, List.getElem?_mapIdx]

theorem of_value?_fresh {v : ValueId} {info : ValueInfo}
    (hv : (fresh id ctx name sig ret params).value? v = some info) :
    ∃ i p, v = i + 1 ∧ params[i]? = some p ∧
      info = { type := p.1, rep := p.2, origin := .param, param := i } := by
  rcases v with _ | i
  · cases hv
  · rw [value?_fresh, Option.map_eq_some_iff] at hv
    obtain ⟨p, hp, rfl⟩ := hv
    exact ⟨i, p, rfl, hp, rfl⟩

theorem straight_fresh : (fresh id ctx name sig ret params).Straight := by
  exact fun i hi => absurd hi (Array.not_mem_empty i)

theorem plain_fresh (hparams : ∀ p ∈ params, p.2.IsWhole) :
    (fresh id ctx name sig ret params).Plain where
  first := by simp [fresh]
  firstLabel := by simp [fresh]
  value := by
    intro v info hv
    obtain ⟨i, p, -, hp, rfl⟩ := of_value?_fresh hv
    exact ⟨rfl, (hparams p (List.mem_of_getElem? hp)).needsSlot rfl rfl⟩
  labels := by
    rintro (_ | l) pos hl
    · cases hl
      exact Int.natCast_nonneg _
    · cases hl

theorem registered_fresh {g : Func} (hext : (fresh id ctx name sig ret params).Extends g)
    (hplace : ∀ v info, g.value? v = some info → v ≤ params.length → info.place? = none) :
    g.Registered g.params := by
  have hsame : g.params = (List.range params.length).map (· + 1) := hext.header.params
  rw [hsame]
  refine ⟨fun p hp => ?_, List.nodup_range.map (Nat.succ_injective)⟩
  obtain ⟨i, hi, rfl⟩ := List.mem_map.mp hp
  have hget := List.getElem?_eq_getElem (List.mem_range.mp hi)
  obtain ⟨info, hv, -⟩ := hext.value ((value?_fresh i).trans (congrArg _ hget))
  exact ⟨info, hv, hplace _ info hv (List.mem_range.mp hi)⟩

end Func

/-! ## Engines that wait for functions -/

theorem TypeTable.structs_intern (t : TypeTable) (d : Descriptor) :
    (t.intern d).2.structs = t.structs := by
  unfold TypeTable.intern TypeTable.append
  split
  · rfl
  · split <;> rfl

theorem TypeTable.structs_addSignature (t : TypeTable) (s : Signature) :
    (t.addSignature s).2.structs = t.structs := by
  unfold TypeTable.addSignature TypeTable.append
  split <;> rfl

theorem TypeTable.Makes.signature {t : TypeTable} {made : TypeId × TypeTable} {d : Descriptor}
    {g : Signature} (h : t.Makes made d) (hkind : d.kind = .signature)
    (hsig : made.2.signatures[d.slot]? = some g) : made.2.underlying made.1 = made.1 ∧
      made.2.tyKind? made.1 = some .signature ∧ made.2.signature? made.1 = some g := by
  have hself := underlying_of_not_tagged h.found (by rw [hkind]; decide)
  have hplain : made.2.isBool made.1 = false :=
    (Tables.base_of_untagged (s := ⟨.amd64, made.2, []⟩) h.found hkind (by decide)).plain
  refine ⟨hself, ?_, ?_⟩
  · unfold tyKind? kindOf
    rw [hplain, hself, h.found, Option.map_some, hkind]
    rfl
  · unfold signature?
    rw [h.found]
    exact (if_pos hkind).trans hsig

/-- The context that builds is there. -/
structure Engine.Awaits (e : Engine) (c : Setting) (limit : Int) : Prop extends e.Serves c limit where
  live : ∃ k, e.context? c.building = some k ∧ k.destroyed = false

namespace Engine

variable {α : Type} {e : Engine} {c : Setting} {limit : Int} {id : FuncId} {f : Func}

theorem Serves.relaid (h : e.Serves c limit) {layouts : Layout.Cache}
    (hlayouts : Layout.Honest c.target c.types True layouts) :
    { e with layouts : Engine }.Serves c limit :=
  { h with layouts := hlayouts }

theorem Serves.ends_repOf (h : e.Serves c limit) {type : TypeId} {r : Rep}
    (hr : c.types.HasRep c.target type r) :
    Ends (EngineM.repOf type) e (fun a e' => a = r ∧ ∃ layouts,
      Layout.Honest c.target c.types True layouts ∧ e' = { e with layouts }) fun _ _ => False := by
  have hfound := hr.findRep c.ordered h.layouts
  have hhonest := (TypeTable.findRep_right c.ordered type h.layouts).2
  unfold EngineM.repOf
  refine .bind_get ?_
  rw [h.types, h.target]
  rcases hrun : (c.types.findRep c.target type).run e.layouts with ⟨answer, layouts⟩
  rw [hrun] at hfound hhonest
  obtain rfl : answer = .ok r := hfound
  exact .bind_set (.pure' ⟨rfl, layouts, hhonest, rfl⟩)

theorem Hosts.ends_repOf (h : e.Hosts c limit id f) {type : TypeId} {r : Rep}
    (hr : c.types.HasRep c.target type r) :
    Ends (EngineM.repOf type) e (fun a e' => a = r ∧ e'.Hosts c limit id f) fun _ _ => False := by
  refine (h.toServes.ends_repOf hr).imp ?_
  rintro a _ ⟨rfl, layouts, hhonest, rfl⟩
  exact ⟨rfl, h.toServes.relaid hhonest, h.func⟩

namespace Awaits

theorem blind (c : Setting) (limit : Int) : Engine.Blind fun e => e.Awaits c limit :=
  fun _ _ h => { h with live := h.live }

theorem ends_repOf (h : e.Awaits c limit) {type : TypeId} {r : Rep}
    (hr : c.types.HasRep c.target type r) :
    Ends (EngineM.repOf type) e (fun a e' => a = r ∧ e'.Awaits c limit) fun _ _ => False := by
  refine (h.toServes.ends_repOf hr).imp ?_
  rintro a _ ⟨rfl, layouts, hhonest, rfl⟩
  exact ⟨rfl, h.toServes.relaid hhonest, h.live⟩

theorem ends_known (h : e.Awaits c limit) {type : TypeId} {d : Descriptor}
    (hd : c.types.find? type = some d) {k : PUnit → EngineM α} {ok : α → Engine → Prop}
    {stop : Failure → Engine → Prop} (hk : Ends (k ⟨⟩) e ok stop) :
    Ends (EngineM.knownType type >>= k) e ok stop := by
  refine .bind_ok ?_ hk
  unfold EngineM.knownType
  rw [run_bind_get, h.types, hd]
  rfl

theorem ends_knownAll (h : e.Awaits c limit) {types : List TypeId}
    (hd : ∀ type ∈ types, ∃ d, c.types.find? type = some d) {k : PUnit → EngineM α}
    {ok : α → Engine → Prop} {stop : Failure → Engine → Prop} (hk : Ends (k ⟨⟩) e ok stop) :
    Ends (types.forM EngineM.knownType >>= k) e ok stop := by
  induction types with
  | nil => exact hk
  | cons type rest ih =>
    obtain ⟨⟨d, htype⟩, hrest⟩ := List.forall_mem_cons.mp hd
    show Ends ((EngineM.knownType type >>= fun _ => rest.forM EngineM.knownType) >>= k) e ok stop
    rw [bind_assoc]
    exact h.ends_known htype (ih hrest)

theorem ends_signatureType (h : e.Awaits c limit) {result : TypeId} {params : List TypeId}
    (hresult : ∃ d, c.types.find? result = some d)
    (hparams : ∀ p ∈ params, ∃ d, c.types.find? p = some d) (abi : Abi) :
    Ends (EngineM.signatureType abi result params) e (fun id e' => ∃ c', c.Grows c' ∧
      e'.Awaits c' limit ∧ c'.types.underlying id = id ∧
        c'.types.tyKind? id = some .signature ∧
        c'.types.signature? id = some { abi, params, result }) fun _ _ => False := by
  obtain ⟨dr, hdr⟩ := hresult
  have hlt : ∀ p ∈ params, p < c.types.types.size := fun p hp =>
    (TypeTable.find?_lt (hparams p hp).choose_spec).2
  obtain ⟨d, hmakes, hkind, hsig⟩ := c.ordered.makes_addSignature
    (s := { abi, params, result }) (TypeTable.find?_lt hdr).2 hlt
  unfold EngineM.signatureType
  refine h.ends_known hdr (h.ends_knownAll hparams (.bind_get ?_))
  rw [h.types]
  dsimp only
  have hstructs := c.types.structs_addSignature { abi, params, result }
  generalize c.types.addSignature { abi, params, result } = made at hmakes hsig hstructs ⊢
  refine .bind_set (.pure' ⟨{ c with types := made.2, ordered := hmakes.ordered },
    ⟨rfl, rfl, hmakes.grows, hstructs⟩, ?_, hmakes.signature hkind hsig⟩)
  exact {
    target := h.target
    types := rfl
    building := h.building
    layouts := h.layouts.grow c.ordered hmakes.grows
    depth := h.depth
    limit := h.limit
    live := h.live }

theorem ends_paramReps (h : e.Awaits c limit) {params : List TypeId} {reps : List Rep}
    (hreps : List.Forall₂ (fun p r => c.types.HasRep c.target p r ∧ r.isScalar = true) params reps)
    (i : Nat) :
    Ends (EngineM.paramReps i params) e (fun a e' => a = reps ∧ e'.Awaits c limit)
      fun _ _ => False := by
  induction hreps generalizing e i with
  | nil => exact .pure' ⟨rfl, h⟩
  | @cons p r ps rs hp _ ih =>
    unfold EngineM.paramReps
    refine .bind' (h.ends_repOf hp.1) ?_
    rintro _ e₁ ⟨rfl, h₁⟩
    refine .ite' (fun hno => ?_) fun _ => .bind' (ih h₁ (i + 1)) ?_
    · rcases hno with hno | hno
      · exact absurd hno (Rep.ne_struct hp.2)
      · exact absurd hno (Rep.ne_void hp.2)
    rintro _ e₂ ⟨rfl, h₂⟩
    exact .pure' ⟨rfl, h₂⟩

theorem ends_createFunction (h : e.Awaits c limit) {sig : TypeId} {g : Signature}
    (hsig : c.types.signature? sig = some g) {ret : Rep} (hret : c.types.HasRep c.target g.result ret)
    (hscalar : ret.isScalar = true) {reps : List Rep}
    (hreps : List.Forall₂ (fun p r => c.types.HasRep c.target p r ∧ r.isScalar = true) g.params reps)
    (name : String) :
    Ends (EngineM.createFunction c.building sig name) e (fun id e' => ∃ name',
      e'.Hosts c limit id (.fresh id c.building name' sig ret (g.params.zip reps)))
      fun _ _ => False := by
  have hstruct : ret.cls ≠ .struct := by
    intro hno
    unfold Rep.isScalar at hscalar
    rw [hno] at hscalar
    cases hscalar
  unfold EngineM.createFunction
  refine .bind_get ?_
  rw [h.types, hsig]
  refine .bind' (h.ends_repOf hret) ?_
  rintro _ e₁ ⟨rfl, h₁⟩
  refine .ite' (fun hno => absurd hno hstruct) fun _ => .bind' (h₁.ends_paramReps hreps 0) ?_
  rintro _ e₂ ⟨rfl, h₂⟩
  obtain ⟨k, hk, hlive⟩ := h₂.live
  have hcontext : ((EngineM.liveContext c.building).run e₂ : Except Failure ContextState × Engine) =
      (.ok k, e₂) := by
    unfold EngineM.liveContext
    rw [run_bind_get, hk]
    dsimp only
    rw [hlive]
    rfl
  refine .bind_ok hcontext (.bind_get (.ite' (fun hno => absurd h₂.building hno) fun _ => ?_))
  refine .bind_get (.bind_modify (.bind_modify (.pure'
    ⟨if name = "" then EngineM.defaultName (e₂.funcs.size + 1) else name, ?_⟩)))
  exact {
    target := h₂.target
    types := h₂.types
    building := h₂.building
    layouts := h₂.layouts
    depth := h₂.depth
    limit := h₂.limit
    func := by simp [Engine.findFunc, Engine.func?, Func.fresh, List.length_mapIdx] }

end Awaits

end Engine

/-! ## Starting a function -/

/-- A build goes on in a context of the runtime, and what is known of the engine. -/
structure Workspace.Offers (w : Workspace) (b : BuildId) (home : CtxId) (rt : RuntimeId)
    (ctx : ContextId) (P : Engine → Prop) : Prop where
  build : ∃ s, w.builds[b]? = some s ∧ s.ended = false ∧ s.ctx = home
  context : ∃ x, w.contexts[home]? = some x ∧ x.runtime = rt ∧ x.id = ctx
  engine : ∃ r, w.runtimes[rt]? = some r ∧ P r.engine

/-- A function of the builder that was just made. -/
structure Function.Fresh (s : Function) (rt : RuntimeId) (params : List Ty) (paramReps : List Rep)
    (ret : Ty) (retRep : Rep) : Prop where
  runtime : s.runtime = rt
  params : s.params = params
  paramReps : s.paramReps = paramReps
  ret : s.ret = ret
  retRep : s.retRep = retRep
  problem : s.problem = none
  compiled : s.compiled = false

namespace Workspace.Offers

open BuildM

variable {α β : Type} {w : Workspace} {b : BuildId} {home : CtxId} {rt : RuntimeId} {ctx : ContextId}
  {P : Engine → Prop} {Q : α → Engine → Prop}

theorem ends_table (h : w.Offers b home rt ctx P) {k : TypeTable → BuildM β}
    {ok : β → Workspace → Prop} {stop : Stop → Workspace → Prop}
    (hk : ∀ e : Engine, P e → Ends (k e.types) w ok stop) : Ends (table rt >>= k) w ok stop := by
  obtain ⟨r, hr, he⟩ := h.engine
  refine .bind_ok ?_ (hk r.engine he)
  rw [run_table, hr]
  rfl

theorem ends_engine (h : w.Offers b home rt ctx P) {k : Engine → BuildM β} {ok : β → Workspace → Prop}
    {stop : Stop → Workspace → Prop} (hk : ∀ e : Engine, P e → Ends (k e) w ok stop) :
    Ends (BuildM.engine rt >>= k) w ok stop := by
  obtain ⟨r, hr, he⟩ := h.engine
  refine .bind_ok ?_ (hk r.engine he)
  rw [run_engine, hr]
  rfl

theorem ends_context (h : w.Offers b home rt ctx P) {k : Context → BuildM β}
    {ok : β → Workspace → Prop} {stop : Stop → Workspace → Prop}
    (hk : ∀ x, x.runtime = rt → x.id = ctx → Ends (k x) w ok stop) :
    Ends (BuildM.context home >>= k) w ok stop := by
  obtain ⟨x, hx, hrt, hctx⟩ := h.context
  refine .bind_ok ?_ (hk x hrt hctx)
  rw [run_context, hx]
  rfl

theorem ends_build (h : w.Offers b home rt ctx P) {k : Build → BuildM β}
    {ok : β → Workspace → Prop} {stop : Stop → Workspace → Prop}
    (hk : ∀ s, s.ended = false → s.ctx = home → Ends (k s) w ok stop) :
    Ends (BuildM.build b >>= k) w ok stop := by
  obtain ⟨s, hs, hended, hctx⟩ := h.build
  refine .bind_ok ?_ (hk s hended hctx)
  rw [run_build, hs]
  rfl

theorem ends_onEngine (h : w.Offers b home rt ctx P) (op : String) {act : EngineM α}
    (hact : ∀ e : Engine, P e → Ends act e Q fun _ _ => False) (hQ : ∀ a, Engine.Blind (Q a)) :
    Ends (onEngine rt op act) w (fun a w' => w'.Offers b home rt ctx (Q a)) fun _ _ => False := by
  obtain ⟨r, hr, he⟩ := h.engine
  refine (ends_operation op hr (hact r.engine he)).mono ?_ ?_
  · rintro a _ ⟨e, spans, tracing, hpost, rfl⟩
    refine ⟨h.build, h.context, { r with engine := { e with notes := #[] }, spans }, ?_, hQ a #[] hpost⟩
    rw [getElem?_advance _ spans tracing hr, if_pos rfl]
  · rintro _ _ ⟨-, -, -, -, -, hfalse, -⟩
    exact hfalse

theorem ends_checkActive (h : w.Offers b home rt ctx P) (op : String) :
    Ends (checkActive b op) w (fun s w' => s.ctx = home ∧ w' = w) fun _ _ => False := by
  refine h.ends_build fun s hended hhome => .ite' (fun hno => ?_) fun _ =>
    .bind_pure (.pure' ⟨hhome, rfl⟩)
  rw [hended] at hno
  cases hno

theorem ends_mustWrap (h : w.Offers b home rt ctx P) {t : Ty}
    (ht : ∀ e : Engine, P e → e.types.wrap? rt t.id = some t) :
    Ends (mustWrap rt t.id) w (fun a w' => a = t ∧ w' = w) fun _ _ => False := by
  refine h.ends_table fun e he => ?_
  rw [ht e he]
  exact .pure' ⟨rfl, rfl⟩

theorem ends_mustWraps (h : w.Offers b home rt ctx P) {ts : List Ty}
    (hts : ∀ e : Engine, P e → ∀ t ∈ ts, e.types.wrap? rt t.id = some t) :
    Ends ((ts.map (·.id)).mapM (mustWrap rt)) w (fun a w' => a = ts ∧ w' = w) fun _ _ => False := by
  induction ts with
  | nil =>
    rw [List.map_nil, List.mapM_nil]
    exact .pure' ⟨rfl, rfl⟩
  | cons t rest ih =>
    rw [List.map_cons, List.mapM_cons]
    refine .bind' (h.ends_mustWrap fun e he => hts e he t List.mem_cons_self) ?_
    rintro _ _ ⟨rfl, rfl⟩
    refine .bind' (ih fun e he u hu => hts e he u (List.mem_cons_of_mem _ hu)) ?_
    rintro _ _ ⟨rfl, rfl⟩
    exact .pure' ⟨rfl, rfl⟩

end Workspace.Offers

namespace Workspace.Offers

open BuildM

variable {w : Workspace} {b : BuildId} {home : CtxId} {rt : RuntimeId} {c : Setting} {limit : Int}
  {params : List Ty} {paramReps : List Rep} {ret : Ty} {retRep : Rep}

theorem ends_validParams (w : Workspace) (hparams : List.Forall₂ (Ty.Whole c rt) params paramReps)
    (i : Nat) : Ends (validParams i params) w (fun _ w' => w' = w) fun _ _ => False := by
  induction hparams generalizing i with
  | nil => exact .pure' rfl
  | @cons t r ts rs ht _ ih =>
    have hvoid : t.kind ≠ .void := by
      obtain ⟨d, -, hread⟩ := ht.known.reading
      intro hno
      rw [hno] at hread
      cases hread
    unfold validParams
    refine .ite' (fun hno => ?_) fun _ => .ite' (fun hno => absurd hno hvoid) fun _ => ih (i + 1)
    rw [ht.known.valid] at hno
    cases hno

theorem ends_signatureTy (h : w.Offers b home rt c.building (·.Awaits c limit))
    (hparams : List.Forall₂ (Ty.Whole c rt) params paramReps) (hret : ret.Whole c rt retRep)
    (abi : Abi) :
    Ends (signatureTy rt params ret abi) w (fun t w' => ∃ c', c.Grows c' ∧
      w'.Offers b home rt c'.building (·.Awaits c' limit) ∧ t = ⟨some rt, t.id, .signature⟩ ∧
        c'.types.underlying t.id = t.id ∧ c'.types.signature? t.id =
          some { abi, params := params.map (·.id), result := ret.id }) fun _ _ => False := by
  have hfound : ∀ p ∈ params.map (·.id), ∃ d, c.types.find? p = some d := by
    intro p hp
    obtain ⟨t, ht, rfl⟩ := List.mem_map.mp hp
    obtain ⟨i, hi, rfl⟩ := List.getElem_of_mem ht
    exact (hparams.get hi (hparams.length_eq ▸ hi)).found
  unfold signatureTy
  refine .ite' (fun hno => ?_) fun _ => .bind' (ends_validParams w hparams 0) ?_
  · rw [hret.known.valid] at hno
    cases hno
  rintro _ _ rfl
  refine .bind' (h.ends_onEngine "create" (fun e he => he.ends_signatureType hret.found hfound abi)
    ?_) ?_
  · rintro id e notes ⟨c', hgrows, he, hmade⟩
    exact ⟨c', hgrows, Engine.Awaits.blind c' limit notes he, hmade⟩
  intro id w₁ h₁
  obtain ⟨hbuild, hcontext, r, hr, c', hgrows, he, hself, hkind, hsig⟩ := h₁
  have h' : w₁.Offers b home rt c'.building (·.Awaits c' limit) :=
    ⟨hbuild, hgrows.building ▸ hcontext, r, hr, he⟩
  unfold wrapType
  refine h'.ends_table fun e he => ?_
  unfold TypeTable.wrap?
  rw [he.types, hkind]
  exact .pure' ⟨c', hgrows, h', rfl, hself, hsig⟩

section

variable {id : FuncId} {f : Func}

theorem ends_repOf (h : w.Offers b home rt c.building (·.Hosts c limit id f)) (op : String)
    {type : TypeId} {r : Rep} (hr : c.types.HasRep c.target type r) :
    Ends (onEngine rt op (EngineM.repOf type)) w
      (fun a w' => a = r ∧ w'.Offers b home rt c.building (·.Hosts c limit id f)) fun _ _ => False := by
  refine (h.ends_onEngine op (fun e he => he.ends_repOf hr) ?_).imp ?_
  · exact fun a e notes he => ⟨he.1, Engine.Hosts.blind c limit id f notes he.2⟩
  · rintro a w' ⟨hbuild, hcontext, r', hr', rfl, he⟩
    exact ⟨rfl, hbuild, hcontext, r', hr', he⟩

theorem ends_repsOf (h : w.Offers b home rt c.building (·.Hosts c limit id f))
    (hparams : List.Forall₂ (Ty.Whole c rt) params paramReps) (op : String) :
    Ends (params.mapM fun p => onEngine rt op (EngineM.repOf p.id)) w
      (fun a w' => a = paramReps ∧ w'.Offers b home rt c.building (·.Hosts c limit id f))
      fun _ _ => False := by
  induction hparams generalizing w with
  | nil =>
    rw [List.mapM_nil]
    exact .pure' ⟨rfl, h⟩
  | @cons t r ts rs ht _ ih =>
    rw [List.mapM_cons]
    refine .bind' (h.ends_repOf op ht.rep) ?_
    rintro _ w₁ ⟨rfl, h₁⟩
    refine .bind' (ih h₁) ?_
    rintro _ w₂ ⟨rfl, h₂⟩
    exact .pure' ⟨rfl, h₂⟩

theorem ends_signatureOf (h : w.Offers b home rt c.building (·.Hosts c limit id f)) {sig : TypeId}
    {g : Signature} (hself : c.types.underlying sig = sig) (hsig : c.types.signature? sig = some g) :
    Ends (signatureOf? ⟨some rt, sig, .signature⟩) w (fun a w' => a = some g ∧ w' = w)
      fun _ _ => False := by
  refine .ite' (fun hno => absurd rfl hno) fun _ => .bind_pure (h.ends_engine fun e he => ?_)
  refine .pure' ⟨?_, rfl⟩
  unfold Engine.signature?
  rw [he.types, hself]
  exact hsig

theorem ends_adopt (h : w.Offers b home rt c.building (·.Hosts c limit id f))
    (hparams : List.Forall₂ (Ty.Whole c rt) params paramReps) (hret : ret.Whole c rt retRep)
    {sig : TypeId} {abi : Abi} (hself : c.types.underlying sig = sig)
    (hsig : c.types.signature? sig = some { abi, params := params.map (·.id), result := ret.id }) :
    Ends (adopt home id ⟨some rt, sig, .signature⟩ false) w
      (fun fn w' => ∃ s', w'.Place fn s' (·.Hosts c limit s'.id f) ∧ s'.id = id ∧
        s'.Fresh rt params paramReps ret retRep) fun _ _ => False := by
  have hwraps : ∀ {t : Ty} {r : Rep}, t.Whole c rt r → ∀ e : Engine, e.Hosts c limit id f →
      e.types.wrap? rt t.id = some t := fun ht e he => he.types ▸ ht.wrap?
  refine h.ends_context fun x hrt hctx => ?_
  rw [hrt]
  have hreturn : Ends (returnOf ⟨some rt, sig, .signature⟩) w (fun a w' => a = ret ∧ w' = w)
      fun _ _ => False := by
    refine .ite' (fun hno => absurd rfl hno) fun _ => .bind_pure
      (.bind' (h.ends_signatureOf hself hsig) ?_)
    rintro _ _ ⟨rfl, rfl⟩
    exact h.ends_mustWrap (hwraps hret)
  have hlist : Ends (paramsOf ⟨some rt, sig, .signature⟩) w (fun a w' => a = params ∧ w' = w)
      fun _ _ => False := by
    refine .bind' (h.ends_signatureOf hself hsig) ?_
    rintro _ _ ⟨rfl, rfl⟩
    refine .bind_pure (h.ends_mustWraps fun e he t ht => ?_)
    obtain ⟨i, hi, rfl⟩ := List.getElem_of_mem ht
    exact hwraps (hparams.get hi (hparams.length_eq ▸ hi)) e he
  refine .bind' hreturn ?_
  rintro _ _ ⟨rfl, rfl⟩
  refine .bind' hlist ?_
  rintro _ _ ⟨rfl, rfl⟩
  refine .bind' (h.ends_repsOf hparams "function") ?_
  rintro _ w₁ ⟨rfl, h₁⟩
  refine .bind' (h₁.ends_repOf "function" hret.rep) ?_
  rintro _ w₂ ⟨rfl, h₂⟩
  refine .bind_get (.bind_modify (.bind_modify (.pure' ?_)))
  obtain ⟨r, hr, he⟩ := h₂.engine
  exact ⟨_, ⟨Array.getElem?_push_size, r, hr, he⟩, rfl, rfl, rfl, rfl, rfl, rfl, rfl, rfl⟩

theorem ends_startFunction (h : w.Offers b home rt c.building (·.Awaits c limit))
    (hparams : List.Forall₂ (Ty.Whole c rt) params paramReps) (hret : ret.Whole c rt retRep) :
    Ends (startFunction b params ret) w (fun fn w' => ∃ s c' name sig abi, c.Grows c' ∧
      s.Fresh rt params paramReps ret retRep ∧
      c'.types.signature? sig = some { abi, params := params.map (·.id), result := ret.id } ∧
      w'.Place fn s (·.Hosts c' limit s.id (.fresh s.id c'.building name sig retRep
        ((params.map (·.id)).zip paramReps)))) fun _ _ => False := by
  have hgrown : ∀ {c' : Setting}, c.Grows c' → List.Forall₂ (Ty.Whole c' rt) params paramReps ∧
      ret.Whole c' rt retRep :=
    fun hgrows => ⟨hparams.imp fun _ _ ht => ht.grow hgrows, hret.grow hgrows⟩
  refine h.ends_build fun s hended hhome => ?_
  rw [hhome]
  refine h.ends_context fun x hrt hctx => ?_
  rw [hrt]
  refine .bind' (h.ends_signatureTy hparams hret .cdecl) ?_
  rintro t w₁ ⟨c', hgrows, h₁, ht, hself, hsig⟩
  obtain ⟨hparams', hret'⟩ := hgrown hgrows
  generalize hid : t.id = sig at ht hself hsig
  subst ht
  refine .bind' (h₁.ends_checkActive "function") ?_
  rintro s _ ⟨hhome, rfl⟩
  refine .ite' (fun hno => absurd rfl hno) fun _ => .bind_pure ?_
  rw [hhome]
  refine h₁.ends_context fun x hrt hctx => ?_
  rw [hrt, hctx]
  have hreps : List.Forall₂ (fun p r => c'.types.HasRep c'.target p r ∧ r.isScalar = true)
      (params.map (·.id)) paramReps :=
    List.forall₂_map_left_iff.mpr (hparams'.imp fun _ _ ht => ⟨ht.rep, ht.isWhole.isScalar⟩)
  refine .bind' (h₁.ends_onEngine "function" (fun e he =>
    he.ends_createFunction hsig hret'.rep hret'.isWhole.isScalar hreps "") ?_) ?_
  · rintro id e notes ⟨name, he⟩
    exact ⟨name, Engine.Hosts.blind c' limit id _ notes he⟩
  rintro id w₂ ⟨hbuild, hcontext, r, hr, name, he⟩
  have h₂ : w₂.Offers b home rt c'.building (·.Hosts c' limit id (.fresh id c'.building name sig retRep
    ((params.map (·.id)).zip paramReps))) := ⟨hbuild, hcontext, r, hr, he⟩
  refine (h₂.ends_adopt hparams' hret' hself hsig).imp ?_
  rintro fn w₃ ⟨s', hplace, hid, hfresh⟩
  subst hid
  exact ⟨s', c', name, sig, .cdecl, hgrows, hfresh, hsig, hplace⟩

end

end Workspace.Offers

/-! ## Going on with a function -/

def Workspace.Hosts (w : Workspace) (c : Setting) (limit : Int) (fn : FnId) (s : Function) (f : Func) :
    Prop :=
  w.Place fn s (·.Hosts c limit s.id f)

/-- A value of the builder stands for one of the function. -/
structure Val.Names (v : Val) (fn : FnId) (f : Func) (c : Setting) (t : Ty) (r : Rep) : Prop where
  eq : v = { fn := some fn, id := v.id, kind := .ofTy t, type := t }
  carries : f.Carries c v.id t.id r

theorem Val.Names.fn_eq {v : Val} {fn : FnId} {f : Func} {c : Setting} {t : Ty} {r : Rep}
    (h : v.Names fn f c t r) : v.fn = some fn := by
  rw [h.eq]

namespace Workspace.Hosts

open BuildM
open Func (Converted)

variable {w : Workspace} {c : Setting} {limit : Int} {fn : FnId} {s : Function} {f : Func} {v : Val}
  {t source : Ty} {r want : Rep}

theorem of_place {post : Func → Prop}
    (h : w.Place fn s fun e => ∃ f', e.Hosts c limit s.id f' ∧ post f') :
    ∃ f', w.Hosts c limit fn s f' ∧ post f' := by
  obtain ⟨hs, r, hr, f', he, hpost⟩ := h
  exact ⟨f', ⟨hs, r, hr, he⟩, hpost⟩

theorem blind (c : Setting) (limit : Int) (id : FuncId) (post : Func → Prop) :
    Engine.Blind fun e => ∃ f', e.Hosts c limit id f' ∧ post f' := by
  rintro e notes ⟨f', he, hpost⟩
  exact ⟨f', Engine.Hosts.blind c limit id f' notes he, hpost⟩

theorem ends_emit (h : w.Hosts c limit fn s f) (op : String) {act : FuncId → EngineM ValueId}
    (hwrap : c.types.wrap? s.runtime t.id = some t) (post : ValueId → Func → Prop)
    (hact : ∀ e : Engine, e.Hosts c limit s.id f → Ends (act s.id) e (fun u e' => ∃ f',
      e'.Hosts c limit s.id f' ∧ f'.Carries c u t.id r ∧ post u f') fun _ _ => False) :
    Ends (emit fn op act) w (fun u w' => ∃ f', w'.Hosts c limit fn s f' ∧ u.Names fn f' c t r ∧
      post u.id f') fun _ _ => False := by
  have hwraps : ∀ id, Place.Wraps s
      (fun e => ∃ f', e.Hosts c limit s.id f' ∧ f'.Carries c id t.id r ∧ post id f') id t := by
    rintro id e ⟨f', he, hcarries, -⟩
    obtain ⟨info, hv, htype, -⟩ := hcarries.value
    exact ⟨f', info, he.func, hv, by rw [he.types, htype]; exact hwrap⟩
  refine (Place.ends_emit h op hact (fun id => blind c limit s.id _) hwraps).imp ?_
  rintro u w' ⟨hu, h'⟩
  obtain ⟨f', h', hcarries, hpost⟩ := of_place h'
  exact ⟨f', h', ⟨hu, hcarries⟩, hpost⟩

theorem ends_arg (h : w.Hosts c limit fn s f) {i : Nat} (hi : i < s.params.length) {p : ValueId}
    (hp : f.params[i]? = some p) (hv : f.Carries c p t.id r) (ht : t.Whole c s.runtime r) :
    Ends (arg fn i) w (fun u w' => w'.Hosts c limit fn s f ∧ u.Names fn f c t r ∧ u.id = p)
      fun _ _ => False := by
  have hblind : Engine.Blind fun e => e.Hosts c limit s.id f := Engine.Hosts.blind c limit s.id f
  have hparam : ∀ e : Engine, e.Hosts c limit s.id f → Ends (EngineM.paramValue s.id i) e
      (fun a e' => a = p ∧ e'.Hosts c limit s.id f) fun _ _ => False := by
    intro e he
    refine EngineM.ends_answered he.func ?_
    have hget : (if (i : Int) < 0 then none else f.params[(i : Int).toNat]?) = some p := by
      rw [if_neg (by omega), Int.toNat_natCast]
      exact hp
    rw [hget]
    exact .pure' ⟨rfl, he⟩
  refine Place.ends_function h (.ite' (fun hno => ?_) fun _ => ?_)
  · omega
  refine .bind' (Place.ends_onEngine h "arg" hparam fun _ _ notes he => ⟨he.1, hblind notes he.2⟩) ?_
  rintro id w₁ ⟨hs, r', hr', rfl, he⟩
  have h₁ : w₁.Place fn s fun e => e.Hosts c limit s.id f := ⟨hs, r', hr', he⟩
  have hwraps : Place.Wraps s (fun e => e.Hosts c limit s.id f) id t := by
    intro e he
    obtain ⟨info, hinfo, htype, -⟩ := hv.value
    exact ⟨f, info, he.func, hinfo, by rw [he.types, htype]; exact ht.wrap?⟩
  refine (h₁.ends_wrapValue hblind hwraps).imp ?_
  rintro u w₂ ⟨rfl, h₂⟩
  exact ⟨h₂, ⟨rfl, hv⟩, rfl⟩

theorem ends_cast (h : w.Hosts c limit fn s f) (hopen : f.Open c) (hv : v.Names fn f c source r)
    (hi : r.IsWhole) (ht : t.Whole c s.runtime want) :
    Ends (BuildM.cast v t) w (fun u w' => ∃ f', w'.Hosts c limit fn s f' ∧ u.Names fn f' c t want ∧
      f.Obtains c 1 f' u.id t.id want (Converted want r v.id)) fun _ _ => False := by
  unfold BuildM.cast
  rw [onValue_eq hv.fn_eq hv.carries.pos, if_pos ht.known.valid]
  refine h.ends_emit "cast" ht.wrap? (fun u f' => f.Obtains c 1 f' u t.id want (Converted want r v.id))
    fun e he => ?_
  have hemit : Ends (EngineM.convert s.id v.id t.id) e (fun u e' => ∃ f', e'.Hosts c limit s.id f' ∧
      f.Obtains c 1 f' u t.id want (Converted want r v.id)) fun _ _ => False := by
    refine he.ends_emitted hopen fun b hb => ?_
    refine (hb.convert hv.carries hi ht.rep ht.isWhole).imp ?_
    rintro u b' ⟨f', hb', hobtains⟩
    exact ⟨f', hb', hobtains.lengthens.destroyed, hobtains⟩
  refine hemit.imp ?_
  rintro u e' ⟨f', he', hobtains⟩
  exact ⟨f', he', hobtains.carries, hobtains⟩

theorem ends_ret (h : w.Hosts c limit fn s f) (hopen : f.Open c) (hv : v.Names fn f c source r)
    (hi : r.IsWhole) (hret : f.ret.IsWhole) {g : Signature} (hsig : c.types.signature? f.sig = some g)
    (hresult : c.types.HasRep c.target g.result f.ret) :
    Ends (BuildM.ret fn (.value v)) w (fun _ w' => ∃ u f' type,
      w'.Hosts c limit fn s (f'.push { op := .ret, a := u, rep := f.ret }) ∧
        f.Obtains c 1 f' u type f.ret (Converted f.ret r v.id)) fun _ _ => False := by
  have hemit : ∀ e : Engine, e.Hosts c limit s.id f → Ends (EngineM.ret s.id v.id) e
      (fun _ e' => ∃ g, e'.Hosts c limit s.id g ∧ ∃ u f' type,
        g = f'.push { op := .ret, a := u, rep := f.ret } ∧
          f.Obtains c 1 f' u type f.ret (Converted f.ret r v.id)) fun _ _ => False := by
    intro e he
    refine he.ends_emitted hopen fun b hb => ?_
    refine (hb.ret hv.carries hi hret hsig hresult).imp ?_
    rintro _ b' ⟨u, f', type, hb', hobtains⟩
    exact ⟨_, hb', hobtains.lengthens.destroyed, u, f', type, rfl, hobtains⟩
  refine (Place.ends_ret h hv.fn_eq hv.carries.pos hemit (blind c limit s.id _)).imp ?_
  intro _ w' h'
  obtain ⟨_, h', u, f', type, rfl, hobtains⟩ := of_place h'
  exact ⟨u, f', type, h', hobtains⟩

theorem ends_compile {i : Insn} (h : w.Hosts c limit fn s (f.push i)) (hopen : f.Open c)
    (hstraight : f.Straight) (hi : i.op = .ret) (hp : s.problem = none) (hc : s.compiled = false) :
    Ends (compile fn) w (fun _ w' => ∃ g, (f.push i).Framed g ∧
      w'.Place fn s.finished (·.Ready limit s.id g)) fun _ _ => False := by
  have hblind : Engine.Blind fun e => e.Hosts c limit s.id (f.push i) :=
    Engine.Hosts.blind c limit s.id _
  have hreach : ∀ e : Engine, e.Hosts c limit s.id (f.push i) →
      Ends (EngineM.defaultReturn s.id) e (fun a e' => a = some false ∧
        e'.Hosts c limit s.id (f.push i))
        fun _ _ => False := by
    intro e he
    have hemit : Ends (EngineM.defaultReturn s.id) e (fun a e' => ∃ f', e'.Hosts c limit s.id f' ∧
        a = some false ∧ f' = f.push i) fun _ _ => False := by
      refine he.ends_emitted hopen fun b hb => ?_
      have hend : b.func.endReachable = some false := by
        rw [hb.func]
        exact hstraight.endReachable_push hi
      refine (Emit.ends_defaultReturn hend).imp ?_
      rintro _ _ ⟨rfl, rfl⟩
      exact ⟨_, hb, rfl, rfl, rfl⟩
    refine hemit.imp ?_
    rintro a e' ⟨_, he', rfl, rfl⟩
    exact ⟨rfl, he'⟩
  have hframe : ∀ e : Engine, e.Hosts c limit s.id (f.push i) → Ends (EngineM.compile s.id) e
      (fun _ e' => ∃ g, (f.push i).Framed g ∧ e'.Ready limit s.id g) fun _ _ => False :=
    fun e he => he.ends_compile hopen (hstraight.leads_push hi e)
  refine (Place.ends_compile h hp hc hreach hframe hblind ?_).imp ?_
  · rintro e notes ⟨g, hframed, he⟩
    exact ⟨g, hframed, { he with func := he.func }⟩
  · rintro _ w' ⟨hs, r, hr, g, hframed, he⟩
    exact ⟨g, hframed, hs, r, hr, he⟩

end Workspace.Hosts

/-! ## A workspace that builds -/

def buildingTypes : TypeTable :=
  (((building.runtimes[0]?.map fun r : Runtime => r.engine.types.signatures.toList).getD []).drop 1).foldl
    (fun t s => (t.addSignature s).2) .initial

theorem ordered_buildingTypes : buildingTypes.Ordered :=
  TypeTable.initial_ordered.addSignatures _ (by decide +kernel)

theorem usual_amd64 : Target.amd64.Usual := .inr rfl

def buildingSetting : Setting where
  target := .amd64
  types := buildingTypes
  building := 1
  usual := usual_amd64
  ordered := ordered_buildingTypes

theorem Workspace.offers_of_state {w : Workspace} {c : Setting} {layouts : Layout.Cache}
    (h : (∃ r ∈ w.runtimes[(0 : Nat)]?, (r.engine.target = c.target ∧
        r.engine.building = c.building ∧ 0 < r.engine.maxDepth ∧ r.engine.maxSteps = 0 ∧
        r.engine.layouts = layouts) ∧
        (r.engine.types.types = c.types.types ∧ r.engine.types.structs = c.types.structs ∧
          r.engine.types.signatures = c.types.signatures ∧
          r.engine.types.decorations = c.types.decorations) ∧
        ∃ k ∈ r.engine.context? c.building, k.destroyed = false) ∧
      (∃ s ∈ w.builds[(0 : Nat)]?, s.ended = false ∧ s.ctx = 0) ∧
      ∃ x ∈ w.contexts[(0 : Nat)]?, x.runtime = 0 ∧ x.id = c.building)
    (hlayouts : Layout.Honest c.target c.types True layouts) :
    w.Offers 0 0 0 c.building (·.Awaits c 0) := by
  obtain ⟨⟨r, hr, ⟨htarget, hbuilding, hdepth, hsteps, rfl⟩, hsame, hlive⟩, hbuild, hcontext⟩ := h
  exact ⟨hbuild, hcontext, r, hr, {
    target := htarget
    types := TypeTable.eq_of_tables hsame
    building := hbuilding
    layouts := hlayouts
    depth := hdepth
    limit := hsteps
    live := hlive }⟩

theorem building_offers :
    building.Offers 0 0 0 buildingSetting.building (·.Awaits buildingSetting 0) :=
  Workspace.offers_of_state (by decide +kernel) Layout.honest_nil

theorem Builtin.tyKind?_initial (b : Builtin) : TypeTable.initial.tyKind? b.id = some b.tyKind := by
  rw [TypeTable.initial_eq]
  cases b <;> rfl

theorem Builtin.whole (c : Setting) (rt : RuntimeId) {b : Builtin}
    (hcls : (b.rep c.target).cls = .int ∨ (b.rep c.target).cls = .uint)
    (hbool : b.tyKind = .bool → b.rep c.target = .bool) : (b.ty rt).Whole c rt (b.rep c.target) where
  owner := rfl
  kind := TypeTable.initial_ordered.tyKind?_grow c.ordered.builtins b.tyKind?_initial
  rep := Builtin.hasRep c.ordered b
  cls := hcls.imp_right .inl
  bool := hbool

end TypedIR
