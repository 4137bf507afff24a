import TypedIR.Demo
import TypedIR.Proofs.BuiltLayouts
import TypedIR.Proofs.LoweredPrograms

/-
  How demos are built.

  The text of a demo uses whole numbers of the host as operands. Next to a value of an
  integer type such a number becomes a constant of that type
  (`Workspace.Drafts.number`), so an operator with it is one with a constant.
-/

namespace TypedIR

open Func (Reads)
open Workspace (Goes)

theorem Func.Gives.weaken {c : Setting} {f f' : Func} {v : ValueId} {r : Rep}
    {p q : Array Word → Except Cause Int → Prop} (h : f.Gives c f' v r p)
    (hq : ∀ regs x, q regs x → p regs x) : f.Gives c f' v r q where
  continues := h.continues
  number := h.number
  computes hx := h.computes (hq _ _ hx)

/-! ## Whole numbers as operands -/

/-- An integer type of the runtime, as the builder sees it. -/
structure Ty.Integral (t : Ty) (c : Setting) (rt : RuntimeId) (r : Rep) : Prop where
  owner : t.owner = some rt
  kind : c.types.tyKind? t.id = some t.kind
  firm : c.types.Firm c.target t.id r
  isInteger : r.IsInteger

theorem Val.Typed.integral {v : Val} {c : Setting} {rt : RuntimeId} {f : Func} {r : Rep}
    (h : v.Typed c rt f) (hv : f.Number c v.id r) : v.type.Integral c rt r := by
  obtain ⟨info, hinfo, hwrap⟩ := h
  obtain ⟨⟨info', hinfo', -, hrep⟩, hi⟩ := hv
  obtain rfl := Option.mem_unique hinfo hinfo'
  obtain ⟨howner, hid, hkind, -⟩ := TypeTable.of_wrap? hwrap
  exact ⟨howner, hid ▸ hkind, hid ▸ hrep, hi⟩

namespace Ty.Integral

variable {t : Ty} {c : Setting} {rt : RuntimeId} {r : Rep}

theorem below (h : t.Integral c rt r) : ∃ d, c.types.find? (c.types.underlying t.id) = some d ∧
    (d.kind = .int ∨ d.kind = .uint) := by
  have hord := c.ordered
  obtain ⟨-, hbelow⟩ := h.firm.hasRep.below hord
  obtain ⟨d, hd, ⟨hk, -⟩ | ⟨-, hint, -⟩⟩ := hbelow.integer_cases hord h.isInteger
  · exact absurd hk (hord.kind_underlying t.id hd)
  · exact ⟨d, hd, hint.imp And.left And.left⟩

theorem kind_cases (h : t.Integral c rt r) : t.kind = .bool ∨ t.kind = .primitive := by
  obtain ⟨d, hd, hint⟩ := h.below
  have hk : c.types.kindOf (c.types.underlying t.id) = d.kind := by
    unfold TypeTable.kindOf
    rw [hd]
    rfl
  have hkind := h.kind
  unfold TypeTable.tyKind? at hkind
  split at hkind
  · exact .inl (Option.some.inj hkind).symm
  · rw [hk] at hkind
    rcases hint with hint | hint <;> rw [hint] at hkind <;> exact .inr (Option.some.inj hkind).symm

theorem literalType_eq (h : t.Integral c rt r) (rt' : RuntimeId) (x : HostValue) :
    BuildM.literalType rt' x t = t := by
  unfold BuildM.literalType
  rcases h.kind_cases with hk | hk <;> rw [hk]

end Ty.Integral

namespace Workspace.Drafts

open BuildM

variable {w : Workspace} {c : Setting} {fn : FnId} {s : Function} {f : Func} {t : Ty} {u v : Val}
  {r ru rv : Rep}

theorem ends_isFloat (h : w.Drafts c fn s f) (ht : t.Integral c s.runtime r) :
    Ends (isFloat t) w (fun b w' => b = false ∧ w' = w) fun _ _ => True := by
  obtain ⟨rt, hrt, he⟩ := h.engine
  obtain ⟨d, hd, hint⟩ := ht.below
  have hbase : Ends (baseOf t) w (fun b w' => b.kind ≠ .float ∧ w' = w) fun _ _ => True := by
    unfold baseOf
    rw [ht.owner]
    refine .bind_ok (by rw [run_table, hrt]; rfl) (.ite' (fun _ => .pure' ⟨?_, rfl⟩) fun _ => .pure' ⟨nofun, rfl⟩)
    rw [he.types, hd]
    rcases hint with hint | hint <;> simp [hint]
  refine .bind' hbase ?_
  rintro b _ ⟨hb, rfl⟩
  exact .pure' ⟨by simp [hb], rfl⟩

/-- A whole number next to a value of an integer type is a constant of the type. -/
theorem number (h : w.Drafts c fn s f) (ht : t.Integral c s.runtime r) (op : String) (n : Int64) :
    (operand? fn op (.int .int n.toInt) t).Builds w c fn s f fun u? f' => ∃ u, u? = some u ∧
      u.fn = some fn ∧ f.Gives c f' u.id r fun _ l => l = pure (r.wrap n.toInt) := by
  have hconst : (const fn t (.int .int n.toInt)).Gives w c fn s f r
      fun _ l => l = pure (r.wrap n.toInt) := by
    refine Ends.bind' (h.ends_isFloat ht) ?_
    rintro _ _ ⟨rfl, rfl⟩
    exact h.literal ht.owner ht.firm ht.isInteger (.signed n)
  have hgo : ∀ u : Val, Leaves Goes (pure (if u.valid then some u else none) : BuildM (Option Val)) :=
    fun _ => .pure' _
  refine ends_function h.function ?_
  rw [ht.literalType_eq]
  refine Yields.bind' hconst hgo ?_
  rintro u w₁ ⟨f₁, h₁, hcont₁, hfn, hu⟩
  refine Yields.pure' h₁.linked ⟨f₁, h₁, hcont₁, u, ?_, hfn, hu⟩
  rw [if_pos (Val.valid_of_pos hfn hu.number.pos)]

theorem withNumber (h : w.Drafts c fn s f) (hu : f.Number c u.id ru) (ht : t.Integral c s.runtime rv)
    (op : String) (n : Int64) {next : Val → BuildM Val} {z : Int → Int → Except Cause Int}
    (hgo : ∀ v, Leaves Goes (next v))
    (hnext : ∀ (v : Val) (w' : Workspace) (f' : Func), w'.Drafts c fn s f' → f'.Number c u.id ru →
      v.fn = some fn → f'.Number c v.id rv → (next v).Gives w' c fn s f' r fun regs l => ∃ m k,
        Reads ru u.id m regs ∧ Reads rv v.id k regs ∧ l = z m k) :
    (do
      match ← operand? fn op (.int .int n.toInt) t with
      | none => pure ({} : Val)
      | some v => next v).Gives w c fn s f r fun regs l => ∃ m,
        Reads ru u.id m regs ∧ l = z m (rv.wrap n.toInt) := by
  refine Yields.bind' (h.number ht op n) (fun v? => ?_) ?_
  · cases v? with
    | none => exact .pure' _
    | some v => exact hgo v
  rintro _ w₁ ⟨f₁, h₁, hcont₁, v, rfl, hvfn, hv⟩
  refine Yields.mono (hnext v w₁ f₁ h₁ (hu.within hcont₁.within) hvfn hv.number) ?_
  rintro o w₂ ⟨f₂, h₂, hcont₂, hofn, ho⟩
  refine ⟨f₂, h₂, hcont₁.trans hcont₂, hofn, hv.bind' ho ?_⟩
  rintro regs _ ⟨m, hm, rfl⟩
  exact ⟨pure (rv.wrap n.toInt), z m, rfl, rfl,
    fun k regs' hk hkept => ⟨m, k, hu.reads hm hkept, hk, rfl⟩⟩

theorem binaryNumber (h : w.Drafts c fn s f) (hufn : u.fn = some fn) (hu : f.Number c u.id ru)
    (ht : u.type.Integral c s.runtime rv) (name : String) (op : Opcode) (n : Int64)
    (hr : r = if op.isShift then ru.promoted else ru.common rv) :
    (BuildM.binary name op u (.int .int n.toInt)).Gives w c fn s f r fun regs l => ∃ m,
      Reads ru u.id m regs ∧ l = r.operate op (r.wrap m) (r.wrap (rv.wrap n.toInt)) := by
  unfold BuildM.binary
  rw [onValue_eq hufn hu.pos]
  refine h.withNumber hu ht name n (z := fun m k => r.operate op (r.wrap m) (r.wrap k))
    (fun v => goes_emit fn name fun _ => .edits_binary _ _ _) ?_
  intro v w' f' h' hu' hvfn hv
  have hbinary := h'.binary hufn hu' hvfn hv name op hr
  unfold BuildM.binary at hbinary
  rwa [onValue_eq hufn hu.pos, operand?_eq hvfn hv.pos, pure_bind] at hbinary

theorem compareNumber (h : w.Drafts c fn s f) (hufn : u.fn = some fn) (hu : f.Number c u.id ru)
    (ht : u.type.Integral c s.runtime rv) (name : String) (op : Opcode) (n : Int64) :
    (BuildM.compare name op u (.int .int n.toInt)).Gives w c fn s f .bool fun regs l => ∃ m,
      Reads ru u.id m regs ∧ l = pure (if op.relates ((ru.common rv).wrap m)
        ((ru.common rv).wrap (rv.wrap n.toInt)) then 1 else 0) := by
  unfold BuildM.compare
  rw [onValue_eq hufn hu.pos]
  refine h.withNumber hu ht name n (z := fun m k =>
    pure (if op.relates ((ru.common rv).wrap m) ((ru.common rv).wrap k) then 1 else 0))
    (fun v => goes_emit fn name fun _ => .edits_compare _ _ _) ?_
  intro v w' f' h' hu' hvfn hv
  have hcompare := h'.compare hufn hu' hvfn hv name op
  unfold BuildM.compare at hcompare
  rwa [onValue_eq hufn hu.pos, operand?_eq hvfn hv.pos, pure_bind] at hcompare

theorem storeNumber (h : w.Drafts c fn s f) (hu : f.Variable c fn u ru)
    (ht : u.type.Integral c s.runtime ru) (n : Int64) :
    (BuildM.store u (.int .int n.toInt)).Builds w c fn s f fun a f' => a = u ∧ ∀ regs,
      f.Code f' regs (pure ()) fun _ regs' => Reads ru u.id (ru.wrap n.toInt) regs' ∧
        ∀ {v info}, f.value? v = some info → v ≠ u.id → regs'[v]? = regs[v]? := by
  unfold BuildM.store
  rw [onValue_eq hu.fn hu.number.pos]
  refine Yields.bind' (h.number ht "store" n) (fun v? => ?_) ?_
  · cases v? with
    | none => exact .pure' _
    | some v =>
      exact .bind' (goes_emitting fn _ fun _ => .emits (Emit.edits_store _ _))
        fun _ => .pure' _
  rintro _ w₁ ⟨f₁, h₁, hcont₁, v, rfl, hvfn, hv⟩
  have hu₁ := hu.continues hcont₁
  have hstore := h₁.store hu₁.fn hu₁.number hu₁.assignable hvfn hv.number
  unfold BuildM.store at hstore
  rw [onValue_eq hu.fn hu.number.pos, operand?_eq hvfn hv.number.pos, pure_bind] at hstore
  refine Yields.mono hstore ?_
  rintro _ w₂ ⟨f₂, h₂, hcont₂, rfl, hcode⟩
  refine ⟨f₂, h₂, hcont₁.trans hcont₂, rfl, fun regs => ?_⟩
  show f.Code f₂ regs (pure (ru.wrap n.toInt) >>= fun _ => pure ()) _
  refine Func.Code.bind' (hv.computes rfl) hcont₂.within fun k regs₁ hk ⟨hread, hkept⟩ => ?_
  obtain rfl : ru.wrap n.toInt = k := Except.ok.inj hk
  refine (hcode hread).mono fun _ regs₂ _ ⟨hset, hothers⟩ => ?_
  have hi := hu.number.isInteger
  rw [hi.wrap_eq (hi.holds_wrap _)] at hset
  exact ⟨hset, fun hinfo hne => (hothers (hcont₁.within.value hinfo) hne).trans (hkept hinfo)⟩

theorem retNumber {k : Nat} {vals : Fin k → Val} {reps : Fin k → Rep} (h : w.Drafts c fn s f)
    (ht : s.ret.Integral c s.runtime r) (hback : f.GivesBack c) (n : Int64) :
    (BuildM.ret fn (.int .int n.toInt)).Builds w c fn s f fun _ f' =>
      f.Executes f' vals reps s.breaks fun _ _ => some (.returned (f.ret.wrap (r.wrap n.toInt))) := by
  refine ends_function h.function ?_
  refine Yields.bind' (h.number ht "return" n) (fun v? => ?_) ?_
  · cases v? with
    | none => exact .pure' _
    | some v => exact goes_emitting fn _ fun _ => .emits (Emit.edits_ret _)
  rintro _ w₁ ⟨f₁, h₁, hcont₁, v, rfl, hvfn, hv⟩
  refine Yields.mono (h₁.emitting "return" (P := fun f' => ∀ {e : Engine} {t : Activation}
    {m : Machine} {regs n}, e.maxSteps ≤ 0 → f'.Within t.func → t.func.Runs →
      m.Stands t f₁.insns.size regs → Reads r v.id n regs → m.Returns e t (Word.ofInt (f₁.ret.wrap n)))
    (fun _ => .emits (Emit.edits_ret v.id)) fun e he =>
      he.ends_emitInto fun b hb => hb.ret h₁.plain hv.number (hback.within hcont₁.within)) ?_
  rintro _ w₂ ⟨f₂, h₂, hcont₂, hreturns⟩
  rw [hcont₁.within.header.ret] at hreturns
  have hvalue : f.Gives c f₁ v.id r fun regs x => ∃ σ : Valuation k, σ.In vals reps regs ∧
      x = (fun _ => pure (r.wrap n.toInt)) σ := hv.weaken fun regs x ⟨σ, _, hx⟩ => hx
  exact ⟨f₂, h₂, hcont₁.trans hcont₂, .ret hvalue hcont₂.within hreturns⟩

end Workspace.Drafts

/-! ## Beside the functions -/

/-- The functions stay, the engine stays founded, and no integer types are added. -/
structure Engine.Abides (e e' : Engine) : Prop where
  code : e.SameCode e'
  rests : e.Rests e'
  keyed : e.KeepsKeyed e'

instance : Std.Refl Engine.Abides := ⟨fun e => ⟨Std.Refl.refl e, Std.Refl.refl e, Std.Refl.refl e⟩⟩

instance : Trans Engine.Abides Engine.Abides Engine.Abides :=
  ⟨fun h h' => ⟨Trans.trans h.code h'.code, Trans.trans h.rests h'.rests, Trans.trans h.keyed h'.keyed⟩⟩

namespace Workspace

/-- The functions of the builder stay, and the engines abide. -/
structure Abides (w w' : Workspace) : Prop where
  functions : w'.functions = w.functions
  engines : ∀ rt : RuntimeId, Option.Rel (fun r r' => r.engine.Abides r'.engine)
    w.runtimes[rt]? w'.runtimes[rt]?

variable {w w' : Workspace} {rt : RuntimeId} {r : Runtime} {fn : FnId} {s : Function} {f : Func}

theorem Abides.of_runtimes (hf : w'.functions = w.functions) (hr : w'.runtimes = w.runtimes) :
    w.Abides w' := by
  refine ⟨hf, fun rt => ?_⟩
  rw [hr]
  cases w.runtimes[rt]? with
  | none => exact .none
  | some r => exact .some (Std.Refl.refl _)

instance : Std.Refl Abides := ⟨fun _ => .of_runtimes rfl rfl⟩

instance : Trans Abides Abides Abides where
  trans {w w₁ w₂} h h' := by
    refine ⟨h'.functions.trans h.functions, fun rt => ?_⟩
    have h₁ := h.engines rt
    have h₂ := h'.engines rt
    generalize w.runtimes[rt]? = o, w₁.runtimes[rt]? = o₁, w₂.runtimes[rt]? = o₂ at h₁ h₂ ⊢
    cases h₁ with
    | none => exact h₂
    | some h₁ =>
      cases h₂ with
      | some h₂ => exact .some (Trans.trans h₁ h₂)

theorem Abides.after {w₁ : Workspace} (h : w₁.Abides w') (hf : w₁.functions = w.functions)
    (hr : w₁.runtimes = w.runtimes) : w.Abides w' :=
  Trans.trans (Abides.of_runtimes hf hr) h

theorem Abides.before {w₁ : Workspace} (h : w.Abides w₁) (hf : w'.functions = w₁.functions)
    (hr : w'.runtimes = w₁.runtimes) : w.Abides w' :=
  Trans.trans h (Abides.of_runtimes hf hr)

theorem abides_advance {e : Engine} (spans : List Trace.Span) (tracing : Trace.Tracing)
    (hr : w.runtimes[rt]? = some r) (h : r.engine.Abides e) :
    w.Abides (w.advance rt r e spans tracing) := by
  refine ⟨rfl, fun k => ?_⟩
  rw [getElem?_advance e spans tracing hr]
  split
  · next hk =>
    rw [← hk, hr]
    exact .some h
  · cases w.runtimes[k]? with
    | none => exact .none
    | some r => exact .some (Std.Refl.refl _)

instance : Follows Abides Engine.Abides where
  advance {_ _ _ e} spans tracing hr h :=
    have hnotes : e.Abides { e with notes := #[] } := ⟨rfl, .of_same rfl rfl, .of_same rfl⟩
    abides_advance spans tracing hr (Trans.trans h hnotes)
  traced spans tracing hr := abides_advance spans tracing hr (Std.Refl.refl _)

theorem Abides.runtime (h : w.Abides w') (hr : w.runtimes[rt]? = some r) :
    ∃ r', w'.runtimes[rt]? = some r' ∧ r.engine.Abides r'.engine := by
  have hrel := h.engines rt
  rw [hr] at hrel
  generalize hr' : w'.runtimes[rt]? = o at hrel
  cases hrel with
  | some hrel => exact ⟨_, rfl, hrel⟩

theorem Abides.founded (h : w.Abides w') (hw : w.Founded) : w'.Founded := by
  intro rt r' hr'
  have hrel := h.engines rt
  rw [hr'] at hrel
  generalize hr : w.runtimes[rt]? = o at hrel
  cases hrel with
  | some hrel => exact (hrel.rests (hw rt _ hr)).1

theorem Abides.calls {g : Func} (h : w.Abides w') (hc : w.Calls fn s r g) :
    ∃ r', w'.Calls fn s r' g := by
  obtain ⟨r', hr', hrel⟩ := h.runtime hc.runtime
  refine ⟨r', h.functions ▸ hc.function, hr', ?_⟩
  have hfunc := hc.func
  unfold Engine.findFunc at hfunc ⊢
  rwa [Engine.SameCode.func? hrel.code]

theorem Abides.linked (h : w.Abides w') (hl : w.Linked) : w'.Linked := by
  refine hl.of_engines h.functions fun rt r hr => ?_
  obtain ⟨r', hr', hrel⟩ := h.runtime hr
  exact ⟨r', hr', fun id f hf => ⟨f, (Engine.SameCode.func? hrel.code id).trans hf⟩⟩

end Workspace

open Workspace (Abides)

namespace BuildM

variable {w : Workspace} {α : Type}

theorem abides_modify {g : Workspace → Workspace} (hf : ∀ w, (g w).functions = w.functions)
    (hr : ∀ w, (g w).runtimes = w.runtimes) : Leaves Abides (modify g : BuildM PUnit) :=
  .modify' fun w => .of_runtimes (hf w) (hr w)

theorem abides_modifyRuntime (rt : RuntimeId) {g : Runtime → Runtime}
    (hg : ∀ r, (g r).engine = r.engine) : Leaves Abides (modifyRuntime rt g) := by
  refine .modify' fun w => ⟨rfl, fun k => ?_⟩
  rw [Array.getElem?_modify]
  cases w.runtimes[k]? with
  | none => split <;> exact .none
  | some r =>
    split
    · exact .some (hg r ▸ Std.Refl.refl _)
    · exact .some (Std.Refl.refl _)

theorem ends_trace_home (rt : RuntimeId) (n : Trace.Note) (w : Workspace) :
    Ends (trace rt n) w (fun _ w' => w.Abides w' ∧ w'.contexts = w.contexts ∧ w'.builds = w.builds)
      fun _ _ => True := by
  have habides : Leaves Abides (trace rt n) := (asks_trace rt n).leaves
  have hsame : Leaves Workspace.SameCode (trace rt n) := (asks_trace rt n).leaves
  exact ((habides.ends w).and' (hsame.ends w)).mono (fun _ _ ⟨h, hs⟩ => ⟨h, hs.2.1⟩)
    fun _ _ _ => trivial

theorem abides_signatureTy (rt : RuntimeId) (params : List Ty) (ret : Ty) (abi : Abi) :
    Leaves Abides (signatureTy rt params ret abi) :=
  leaves_signatureTy rt params ret abi fun e =>
    ⟨EngineM.quiet_signatureType _ _ _ e, EngineM.rests_signatureType _ _ _ e,
      EngineM.keyed_signatureType _ _ _ e⟩

theorem ends_newContext_home (rt : RuntimeId) (uid : String) (w : Workspace) :
    Ends (newContext rt uid) w
      (fun c w' => w.Abides w' ∧ ∀ q, w'.contexts[c]? = some q → q.runtime = rt)
      fun _ _ => True := by
  have hmake : Leaves Abides (onEngine rt "context" EngineM.createContext) :=
    leaves_onEngine rt _ fun e => ⟨EngineM.sameCode_createContext e, EngineM.rests_createContext e,
      .of_same rfl⟩
  refine .bind' ((hmake.ends w).imp_stop fun _ _ _ => trivial) fun id w₁ h₁ => ?_
  refine .bind_get (.bind_modify (.bind' (ends_trace_home rt _ _) ?_))
  rintro _ w₂ ⟨h₂, hcontexts, -⟩
  refine .pure' ⟨Trans.trans h₁ (h₂.after rfl rfl), fun q hq => ?_⟩
  rw [hcontexts, Array.getElem?_push_size] at hq
  exact (Option.some.inj hq).symm ▸ rfl

theorem ends_buildStart_home (c : CtxId) (w : Workspace) :
    Ends (buildStart c) w (fun b w' => w.Abides w' ∧ ∀ t q', w'.builds[b]? = some t →
      w'.contexts[t.ctx]? = some q' → ∃ q, w.contexts[c]? = some q ∧ q'.runtime = q.runtime)
      fun _ _ => True := by
  refine ends_context (fun _ => trivial) fun q hq => .ite' (fun _ => .bind_throw trivial) fun _ =>
    .bind_pure ?_
  have hask : Leaves (· = ·) (runtime q.runtime) := (asks_runtime _).leaves
  refine .bind' ((hask.ends w).imp_stop fun _ _ _ => trivial) ?_
  rintro r _ rfl
  cases r.holder with
  | some holder =>
    exact .ite' (fun _ => .bind_throw trivial) fun _ => .bind_any fun _ _ => .throw' trivial
  | none =>
    have htaken : Leaves Abides (modifyRuntime q.runtime ({ · with holder := some c })) :=
      abides_modifyRuntime _ fun _ => rfl
    refine .bind_modify ?_
    have h₁ := htaken w
    have habides : Leaves Abides (tryEngine q.runtime (EngineM.buildStart q.id)) :=
      (asks_tryEngine _ fun e => ⟨EngineM.sameCode_buildStart _ e, EngineM.rests_buildStart _ e,
        EngineM.keyed_buildStart _ e⟩).leaves
    have hsame : Leaves Workspace.SameCode (tryEngine q.runtime (EngineM.buildStart q.id)) :=
      (asks_tryEngine _ fun e => EngineM.sameCode_buildStart _ e).leaves
    refine .bind' (((habides.ends _).and' (hsame.ends _)).imp_stop
      fun _ _ _ => trivial) ?_
    rintro answer w₂ ⟨h₂, -, ⟨hcontexts₂, -⟩, -⟩
    cases answer with
    | error f => exact .bind_any fun _ _ => .throw' trivial
    | ok u =>
      refine .bind_get (.bind_modify (.bind' (ends_trace_home _ _ _) ?_))
      rintro _ w₃ ⟨h₃, hcontexts₃, hbuilds₃⟩
      have hcontexts : w₃.contexts[c]? = some q := by
        rw [hcontexts₃]
        exact (congrArg (·[c]?) hcontexts₂).trans hq
      refine .bind_modify (.pure' ⟨?_, fun t q' ht hq' => ⟨q, hq, ?_⟩⟩)
      · have hrest : Abides w₂ w₃ := h₃.after rfl rfl
        have hall : Abides w w₃ := Trans.trans (Trans.trans h₁ h₂) hrest
        exact hall.before rfl rfl
      · have ht' : w₃.builds[w₂.builds.size]? = some t := ht
        rw [hbuilds₃, Array.getElem?_push_size] at ht'
        obtain rfl := Option.some.inj ht'
        have hq₃ : (w₃.contexts.modify c ({ · with build := some w₂.builds.size }))[c]? = some q' := hq'
        rw [Array.getElem?_modify, if_pos rfl, hcontexts] at hq₃
        exact (Option.some.inj hq₃).symm ▸ rfl

theorem abides_buildFinish (b : BuildId) : Leaves Abides (buildFinish b) := by
  refine .bind' (leaves_build b) fun s => .bind' (leaves_context _) fun c => ?_
  refine .ite' (.bind' (leaves_complain _ _) fun _ => ?_) ?_
  -- what follows the check is the same whether or not there was a complaint
  all_goals
    refine .bind' (.bind' (abides_modify (fun _ => rfl) fun _ => rfl) fun _ =>
      abides_modify (fun _ => rfl) fun _ => rfl) fun _ => ?_
    refine .bind' (asks_tryEngine _ fun e => ⟨EngineM.sameCode_buildEnd _ e,
      EngineM.rests_buildEnd _ e, EngineM.keyed_buildEnd _ e⟩).leaves fun answer => ?_
    refine .bind' (abides_modifyRuntime _ fun r => by split <;> rfl) fun _ =>
      .bind' (asks_trace _ _).leaves fun _ => ?_
    cases answer with
    | ok u => exact .pure' _
    | error f => exact .throw' _

theorem ends_withBuild {c : CtxId} {body : BuildId → BuildM α} {pre : BuildId → Workspace → Prop}
    {post : α → Workspace → Prop} (hstart : Ends (buildStart c) w pre fun _ _ => True)
    (hbody : ∀ b w₁, pre b w₁ → Ends (body b) w₁ post fun _ _ => True)
    (hkeep : ∀ {a w₁ w₂}, post a w₁ → Abides w₁ w₂ → post a w₂) :
    Ends (withBuild c body) w post fun _ _ => True := by
  refine .bind' hstart fun b w₁ h₁ => ?_
  have hcaught : Ends (tryCatchThe Stop (Except.ok <$> body b) fun stop => pure (.error stop)) w₁
      (fun outcome w' => ∀ a, outcome = .ok a → post a w') fun _ _ => True := by
    have hdone : Ends (do let a ← body b; pure (.ok a)) w₁
        (fun (outcome : Except Stop α) w' => ∀ a, outcome = .ok a → post a w') fun _ _ => True :=
      (hbody b w₁ h₁).bind' fun a w' ha => .pure' fun _ heq => Except.ok.inj heq ▸ ha
    exact .tryCatch' (hdone.imp_stop fun _ _ _ => .pure' nofun)
  refine .bind' hcaught fun outcome w₂ h₂ => ?_
  have hfinish : Leaves Abides (attempt (buildFinish b)) := leaves_attempt (abides_buildFinish b)
  refine .bind' ((hfinish.ends w₂).imp_stop fun _ _ _ => trivial) fun ending w₃ h₃ => ?_
  cases outcome with
  | error stop => cases ending <;> exact .throw' trivial
  | ok a =>
    have ha := hkeep (h₂ a rfl) h₃
    cases ending with
    | ok u => exact .pure' ha
    | error p =>
      refine ends_context (fun _ => trivial) fun q _ => .ite' (fun _ => .pure' ha) fun _ => ?_
      exact .throw' trivial

end BuildM

theorem Workspace.Abides.shaped {w w' : Workspace} (h : w.Abides w') (hw : w.Founded)
    {rt : RuntimeId} {a : Ty} {shape : TypeShape} (hx : w.Shaped rt a shape) :
    w'.Shaped rt a shape := by
  obtain ⟨r, hr, hshaped⟩ := hx.table
  obtain ⟨r', hr', hrel⟩ := h.runtime hr
  have he := hw rt r hr
  have hord : r.engine.types.Ordered := he.tables.ordered
  exact ⟨hx.owner, hx.kind, r', hr', hord.shaped_grow (hrel.rests he).2.types hshaped⟩

/-! ## Demos -/

/-- A builtin type of integers, on every target. -/
structure Builtin.Counts (b : Builtin) : Prop where
  kind : TypeTable.initial.tyKind? b.id = some b.tyKind
  isInteger : ∀ target, (b.rep target).IsInteger

theorem Builtin.counts_int32 : Builtin.int32.Counts :=
  ⟨by decide +kernel, fun _ => ⟨.inl rfl, .inr (.inr (.inl rfl))⟩⟩

theorem Builtin.counts_int64 : Builtin.int64.Counts :=
  ⟨by decide +kernel, fun _ => ⟨.inl rfl, .inr (.inr (.inr rfl))⟩⟩

namespace Builtin.Counts

variable {b : Builtin}

theorem integral (h : b.Counts) (c : Setting) (rt : RuntimeId) :
    (b.ty rt).Integral c rt (b.rep c.target) where
  owner := rfl
  kind := TypeTable.initial_ordered.tyKind?_grow c.ordered.builtins h.kind
  firm := Builtin.firm c.ordered b
  isInteger := h.isInteger c.target

def integer (h : b.Counts) (c : Setting) (rt : RuntimeId) : c.Integer rt where
  ty := b.ty rt
  rep := b.rep c.target
  owner := rfl
  firm := Builtin.firm c.ordered b
  isInteger := h.isInteger c.target

end Builtin.Counts

open BuildM in
theorem Workspace.Drafts.newLocal {w : Workspace} {c : Setting} {fn : FnId} {s : Function} {f : Func}
    (h : w.Drafts c fn s f) {b : Builtin} (hb : b.Counts) (n : Int64) :
    (Demo.newLocal fn (b.ty s.runtime) (.int .int n.toInt)).Builds w c fn s f fun v f' =>
      (f'.Variable c fn v (b.rep c.target) ∧ v.id = f.values.size) ∧ v.Typed c s.runtime f' ∧
        ∀ regs, f.Code f' regs (pure ()) fun _ regs' =>
          Reads (b.rep c.target) v.id ((b.rep c.target).wrap n.toInt) regs' ∧ f.Kept regs regs' := by
  refine Yields.bind' (h.declareVariable (hb.integer c s.runtime)) (fun v => goes_store v _) ?_
  rintro v w₁ ⟨f₁, h₁, hcont₁, ⟨hvar, hid, htyped⟩, -, hinsns⟩
  have hnumber := (htyped.integral hvar.number)
  refine Yields.mono (h₁.storeNumber hvar hnumber n) ?_
  rintro _ w₂ ⟨f₂, h₂, hcont₂, rfl, hcode⟩
  refine ⟨f₂, h₂, hcont₁.trans hcont₂, ⟨hvar.continues hcont₂, hid⟩, htyped.within hcont₂.within,
    fun regs e t m hlimit hg hruns hm => ?_⟩
  refine (hcode regs e t m hlimit hg hruns (hinsns.symm ▸ hm)).mono fun _ m' ⟨regs', hm', hread, hothers⟩ =>
    ⟨regs', hm', hread, fun hinfo => hothers (hcont₁.within.value hinfo) ?_⟩
  rw [hid]
  exact Nat.ne_of_lt (Func.value?_lt hinfo).2.2

/-- The function of a demo of integers before its body is built: it has its parameters
and no code. -/
structure Demo.Opens (d : Demo) (c : Setting) (rt : RuntimeId) (fn : FnId) (s : Function) (f : Func)
    (vs : List Val) : Prop where
  runtime : s.runtime = rt
  owns : f.Owns c fn vs (d.params.map (·.rep c.target))
  typed : ∀ v ∈ vs, v.Typed c rt f
  params : f.params = (List.range d.params.length).map (· + 1)
  empty : f.insns.size = 0
  givesBack : f.GivesBack c
  ret : f.ret = d.ret.rep c.target
  result : s.ret = d.ret.ty rt
  breaks : s.breaks = []
  count : s.params.length = d.params.length
  paramReps : s.paramReps = d.params.map (·.rep c.target)
  retRep : s.retRep = d.ret.rep c.target
  signature : ∃ g, c.types.signature? f.sig = some g ∧ g.params = d.params.map (·.id) ∧
    g.result = d.ret.id

namespace Demo

section

variable {target : Target} {x : Int}

theorem holds_int32 : (Builtin.int32.rep target).Holds x ↔ -2 ^ 31 ≤ x ∧ x < 2 ^ 31 := by
  show -2 ^ 31 ≤ x ∧ x ≤ 2 ^ 31 - 1 ↔ _
  omega

theorem holds_int64 : (Builtin.int64.rep target).Holds x ↔ -2 ^ 63 ≤ x ∧ x < 2 ^ 63 := by
  show -2 ^ 63 ≤ x ∧ x ≤ 2 ^ 63 - 1 ↔ _
  omega

theorem wrap_int32 (h : -2 ^ 31 ≤ x ∧ x < 2 ^ 31) : (Builtin.int32.rep target).wrap x = x :=
  (Builtin.counts_int32.isInteger target).wrap_eq (holds_int32.mpr h)

theorem wrap_int64 (h : -2 ^ 63 ≤ x ∧ x < 2 ^ 63) : (Builtin.int64.rep target).wrap x = x :=
  (Builtin.counts_int64.isInteger target).wrap_eq (holds_int64.mpr h)

end

variable {d : Demo} {w : Workspace} {c : Setting} {rt : RuntimeId} {fn : FnId} {s : Function}
  {f : Func}

theorem goes_check (p : Option Problem) : Leaves Goes (BuildM.check p) := by
  cases p with
  | none => exact .pure' _
  | some p => exact .throw' _

theorem yields_check {post : Unit → Workspace → Prop} (hl : w.Linked) (p : Option Problem)
    (h : post () w) : BuildM.Yields fn (BuildM.check p) w post := by
  cases p with
  | none => exact BuildM.Yields.pure' hl h
  | some p => exact Ends.throw' trivial

theorem paramReps_of_started {e : Engine} {result : TypeId}
    (h : s.Started e f ((d.params.map (·.ty rt)).map (·.id)) result) :
    s.paramReps = d.params.map (·.rep e.target) := by
  refine h.paramReps_eq ?_
  rw [List.map_map]
  exact List.forall₂_map_left_iff.mpr (List.forall₂_map_right_iff.mpr
    (List.forall₂_same.mpr fun b _ => Builtin.hasRep h.founded.tables.ordered b))

theorem opens_of_started {e : Engine} (hints : ∀ b ∈ d.ret :: d.params, b.Counts)
    (hw : w.Drafts c fn s f) (hrt : s.runtime = rt) (htarget : e.target = c.target)
    (htypes : e.types = c.types)
    (h : s.Started e f ((d.params.map (·.ty rt)).map (·.id)) (d.ret.ty rt).id) :
    BuildM.Yields fn (BuildM.args fn) w fun vs w' => d.Opens c rt fn s f vs ∧ w'.Drafts c fn s f := by
  have hret : d.ret.Counts := hints _ List.mem_cons_self
  have hreps : s.paramReps = d.params.map (·.rep c.target) := htarget ▸ paramReps_of_started h
  have hids : (d.params.map (·.ty rt)).map (·.id) = d.params.map (·.id) := List.map_map
  rw [hids] at h
  have hretRep : s.retRep = d.ret.rep c.target :=
    TypeTable.HasRep.unique (htypes ▸ htarget ▸ h.retRep) (Builtin.hasRep c.ordered d.ret)
  have hcount : s.params.length = d.params.length := h.count.trans (List.length_map _)
  have hback : f.GivesBack c := h.givesBack htypes (hretRep ▸ Builtin.firm c.ordered d.ret)
    (hretRep ▸ hret.isInteger c.target)
  have hresult : s.ret = d.ret.ty rt := by
    have hkind := (hret.integral c rt).kind
    have hwrap := h.ret
    rw [htypes, TypeTable.wrap?, hkind] at hwrap
    exact hrt ▸ (Option.some.inj hwrap).symm
  obtain ⟨ctx, name, sig, abi, hfresh, hfound⟩ := h.fresh
  have hsig : ∃ g, c.types.signature? f.sig = some g ∧ g.params = d.params.map (·.id) ∧
      g.result = d.ret.id := by
    rw [hfresh, ← htypes]
    exact ⟨_, hfound, rfl, rfl⟩
  have hbreaks := h.breaks
  rw [hreps, hretRep] at hfresh
  have hzip : ((d.params.map (·.id)).zip (d.params.map (·.rep c.target))).length = d.params.length := by
    simp
  have hparams : f.params = (List.range d.params.length).map (· + 1) := by
    rw [hfresh, ← hzip]
    rfl
  have hat : ∀ i, i < s.params.length → f.params[i]? = some (i + 1) := by
    intro i hi
    rw [hparams, List.getElem?_map, List.getElem?_range (hcount ▸ hi)]
    rfl
  refine BuildM.Yields.mono (hw.args hat) ?_
  rintro vs w' ⟨hvs, hw'⟩
  refine ⟨?_, hw'⟩
  have howns : f.Owns c fn vs (d.params.map (·.rep c.target)) := by
    rw [hcount, ← hzip] at hvs
    have hfirst := @Func.owns_fresh c fn vs s.id ctx name sig (d.ret.rep c.target) _
      (hvs.imp fun _ _ hv => ⟨hv.1, hv.2.1⟩) fun q hq => by
        rw [List.zip_map', List.mem_map] at hq
        obtain ⟨b, hb, rfl⟩ := hq
        exact ⟨Builtin.firm c.ordered b, (hints b (List.mem_cons_of_mem _ hb)).isInteger c.target⟩
    have hsnd : ((d.params.map (·.id)).zip (d.params.map (·.rep c.target))).map (·.2) =
        d.params.map (·.rep c.target) := List.map_snd_zip (by simp)
    rwa [hsnd, ← hfresh] at hfirst
  exact {
    runtime := hrt
    owns := howns
    typed := by
      have htyped : List.Forall₂ (fun (v : Val) (_ : Nat) => v.Typed c s.runtime f ∧ True) vs _ :=
        hvs.flip.imp fun _ _ hv => ⟨hv.2.2, trivial⟩
      exact hrt ▸ ((List.forall₂_and_left vs _).mp htyped).1
    params := hparams
    empty := by rw [hfresh]; rfl
    givesBack := hback
    ret := by rw [hfresh]; rfl
    result := hresult
    breaks := hbreaks
    count := hcount
    paramReps := hreps
    retRep := hretRep
    signature := hsig }

namespace Opens

variable {f' g : Func} {vs : List Val} {xs : List Int} {args : List HostValue}

def words (d : Demo) (target : Target) (xs : List Int) : List Word :=
  List.zipWith (fun r x => Word.ofInt (r.wrap x)) (d.params.map (·.rep target)) xs

theorem callable (h : d.Opens c rt fn s f vs) (hw : f.Within g) (hg : f'.Compiles g) :
    g.Callable := by
  have hparams : g.params = (List.range d.params.length).map (· + 1) := by
    rw [hw.header.params, h.params]
  have hlen : vs.length = d.params.length := by simpa using h.owns.each.length_eq
  refine hg.callable (hparams ▸ List.nodup_range.map Nat.succ_injective) fun p hp => ?_
  rw [hparams] at hp
  obtain ⟨i, hi, rfl⟩ := List.mem_map.mp hp
  have hi' : i < vs.length := hlen ▸ List.mem_range.mp hi
  have hvar := h.owns.each.get hi' (h.owns.each.length_eq ▸ hi')
  obtain ⟨⟨info, hinfo, -⟩, -⟩ := hvar.number
  have hc := hvar.assignable info hinfo
  have hid := h.owns.id hi'
  rw [List.getD_eq_getElem?_getD, List.getElem?_eq_getElem hi'] at hid
  exact ⟨info, hid ▸ hw.value hinfo, hc⟩

theorem reads (h : d.Opens c rt fn s f vs) (hw : f.Within g) {regs : Array Word}
    (hentered : g.Entered (words d c.target xs) regs) {i : Nat} {b : Builtin} {x : Int}
    (hb : d.params[i]? = some b) (hx : xs[i]? = some x) :
    Reads (b.rep c.target) (vs.getD i {}).id ((b.rep c.target).wrap x) regs := by
  have hreps : (d.params.map (·.rep c.target))[i]? = some (b.rep c.target) := by
    rw [List.getElem?_map, hb, Option.map_some]
  obtain ⟨hi, hrep⟩ := List.getElem?_eq_some_iff.mp hreps
  have hi' : i < vs.length := h.owns.each.length_eq ▸ hi
  have hvar := h.owns.each.get hi' hi
  rw [List.get_eq_getElem, List.get_eq_getElem, hrep] at hvar
  have hinteger := hvar.number.isInteger
  obtain ⟨⟨info, hinfo, hown, -⟩, -⟩ := hvar.number
  have hid := h.owns.id hi'
  have hget : vs.getD i {} = vs[i] := by
    rw [List.getD_eq_getElem?_getD, List.getElem?_eq_getElem hi']
    rfl
  rw [hget] at hid ⊢
  -- the word of the argument
  have hword : (words d c.target xs)[i]? = some (Word.ofInt ((b.rep c.target).wrap x)) := by
    unfold words
    rw [List.getElem?_zipWith, hreps, hx]
  have hparam : g.params[i]? = some (i + 1) := by
    rw [hw.header.params, h.params, List.getElem?_map,
      List.getElem?_range (by simpa using hi)]
    rfl
  obtain ⟨hp, hpeq⟩ := List.getElem?_eq_some_iff.mp hparam
  obtain ⟨ha, haeq⟩ := List.getElem?_eq_some_iff.mp hword
  have hpass := hentered.params.get hp ha
  rw [List.get_eq_getElem, List.get_eq_getElem, hpeq, haeq, ← hid] at hpass
  refine ⟨hinteger.holds_wrap x, ?_⟩
  rw [hpass info (hw.value hinfo), hown, hinteger.isWhole.normalize_ofInt,
    hinteger.wrap_eq (hinteger.holds_wrap x)]

theorem shows (h : d.Opens c rt fn s f vs) (hints : ∀ b ∈ d.params, b.Counts) {r : Runtime}
    (hcalls : w.Calls fn s.finished r g) (hargs : args.map (·.number?) = xs.map some)
    (hxs : xs.length = d.params.length) :
    ((BuildM.call fn args).run w : Except Stop HostValue × Workspace).1 =
      s.finished.shown (r.engine.applied runFuel s.finished.id (words d c.target xs)).1 := by
  have hall : ∀ r ∈ d.params.map (·.rep c.target), r.IsInteger := by
    intro r hr
    obtain ⟨b, hb, rfl⟩ := List.mem_map.mp hr
    exact (hints b hb).isInteger c.target
  have hcount : s.params.length = (d.params.map (·.rep c.target)).length := by
    rw [h.count, List.length_map]
  have hwords : Marshals (s.params.zip (d.params.map (·.rep c.target))) args (words d c.target xs) :=
    marshals_numbers hall hcount hargs (hxs.trans (List.length_map _).symm)
  have hlen : args.length = s.params.length := by
    rw [h.count, ← hxs, ← List.length_map (·.number?), hargs, List.length_map]
  exact hcalls.shows rfl hlen (h.paramReps.symm ▸ hwords)

theorem ends (h : d.Opens c rt fn s f vs) (hints : ∀ b ∈ d.params, b.Counts) {r : Runtime}
    (hcalls : w.Calls fn s.finished r g) (hargs : args.map (·.number?) = xs.map some)
    (hxs : xs.length = d.params.length) {m : Machine}
    (hrun : ∀ fuel, r.engine.applied fuel s.id (words d c.target xs) = Machine.run r.engine fuel m)
    {ending : RunEnd} (hstops : m.Stops r.engine ending) (hend : ending ≠ .unfinished) :
    (∃ m', r.engine.Finishes s.id (words d c.target xs) ending m') ∧
      ((r.engine.applied runFuel s.id (words d c.target xs)).1 ≠ .unfinished →
        ((BuildM.call fn args).run w : Except Stop HostValue × Workspace).1 = s.finished.shown ending) := by
  refine ⟨hstops.finishes hrun hend, fun hended => ?_⟩
  rw [h.shows hints hcalls hargs hxs]
  rw [hrun] at hended
  rw [show s.finished.id = s.id from rfl, hrun, hstops.unique hended]

theorem shown_result (h : d.Opens c rt fn s f vs) (hret : d.ret.Counts) (hkind : d.ret.tyKind ≠ .bool)
    (hsigned : (d.ret.rep c.target).cls = .int) {x : Int} (hx : (d.ret.rep c.target).Holds x) :
    s.finished.shown (.result (Word.ofInt x)) = .ok (.int .int64 x) := by
  have hrep : s.finished.retRep = d.ret.rep c.target := h.retRep
  have hnot : (s.finished.ret.kind == .bool) = false := by
    rw [show s.finished.ret = _ from h.result]
    exact beq_eq_false_iff_ne.mpr hkind
  show Except.ok (BuildM.unmarshal s.finished.retRep (s.finished.ret.kind == .bool) _) = _
  rw [Function.unmarshal_ofInt (hrep ▸ hret.isInteger c.target) (hrep ▸ hx), Function.hostNumber, hnot,
    Rep.hostNumber, hrep, if_pos hsigned]
  rfl

end Opens

end Demo

open BuildM

theorem BuildM.ends_problemOf_clean (fn : FnId) (w : Workspace) :
    Ends (problemOf fn) w (fun p w' => w' = w ∧ (p = none → w.Clean fn)) fun _ _ => True := by
  cases hs : w.functions[fn]? with
  | none =>
    unfold Ends problemOf
    rw [run_bind, run_function, hs]
    trivial
  | some s =>
    refine ends_function hs (.pure' ⟨rfl, fun hnone s' hs' => ?_⟩)
    obtain rfl := Option.mem_unique hs hs'
    exact hnone

/-- What is built for a demo of integers. If its function is made at all, it was opened, the
body was built in it, and it was compiled. -/
theorem Demo.ends_build (d : Demo) {w : Workspace} {rt : RuntimeId} {r : Runtime} (uid : String)
    (hw : w.Founded) (hl : w.Linked) (hr : w.runtimes[rt]? = some r)
    (husual : r.engine.target.Usual)
    (hints : ∀ b ∈ d.ret :: d.params, b.Counts) (hgo : ∀ fn vs, Leaves Goes (d.body rt fn vs))
    {post : Setting → FnId → Function → Func → List Val → Func → Prop}
    (hbody : ∀ (w : Workspace) (c : Setting) (fn : FnId) (s : Function) (f : Func) (vs : List Val),
      w.Drafts c fn s f → d.Opens c rt fn s f vs →
        (d.body rt fn vs).Builds w c fn s f fun _ f' => post c fn s f vs f') :
    Ends (d.build rt uid) w (fun fn w' => ∃ c s f vs f' g r', d.Opens c rt fn s f vs ∧
      f.Continues f' ∧ post c fn s f vs f' ∧ f'.Compiles g ∧ w'.Calls fn s.finished r' g)
      fun _ _ => True := by
  let g : Signature :=
    { abi := .cdecl, params := (d.params.map (·.ty rt)).map (·.id), result := (d.ret.ty rt).id }
  have hsig : Ends (d.signature rt) w
      (fun sig w' => w.Abides w' ∧ w'.Shaped rt sig (.signature g)) fun _ _ => True :=
    ((((abides_signatureTy rt _ _ _).ends w).and' (ends_signatureTy_shaped hw _ _ _)).mono
      (fun _ _ h => ⟨h.1, h.2.2⟩) fun _ _ _ => trivial)
  refine .bind' hsig ?_
  rintro sig w₁ ⟨h₁, hshaped⟩
  refine .bind' (ends_newContext_home rt uid w₁) ?_
  rintro ctx w₂ ⟨h₂, hhome⟩
  -- the body runs in a build of the context
  have hmake : ∀ (b : BuildId) (w₃ : Workspace), (w₂.Abides w₃ ∧ ∀ t q', w₃.builds[b]? = some t →
      w₃.contexts[t.ctx]? = some q' → ∃ q, w₂.contexts[ctx]? = some q ∧ q'.runtime = q.runtime) →
      Ends (do
        let fn ← newFunction b d.name sig
        d.body rt fn (← args fn)
        check (← problemOf fn)
        compile fn
        pure fn) w₃ (fun fn w' => ∃ c s f vs f' g r', d.Opens c rt fn s f vs ∧
          f.Continues f' ∧ post c fn s f vs f' ∧ f'.Compiles g ∧ w'.Calls fn s.finished r' g)
        fun _ _ => True := by
    rintro b w₃ ⟨h₃, hbuild⟩
    have habides : w.Abides w₃ := Trans.trans h₁ (Trans.trans h₂ h₃)
    obtain ⟨r₃, hr₃, hrel⟩ := habides.runtime hr
    have hw₁ := h₁.founded hw
    have hhome₃ : ∀ t q, w₃.builds[b]? = some t → w₃.contexts[t.ctx]? = some q → q.runtime = rt := by
      intro t q' ht hq'
      obtain ⟨q, hq, hsame⟩ := hbuild t q' ht hq'
      exact hsame.trans (hhome q hq)
    have hshaped₃ : w₃.Shaped rt sig (.signature g) :=
      (Trans.trans h₂ h₃ : Abides w₁ w₃).shaped hw₁ hshaped
    refine .bind' (((ends_newFunction_started (habides.founded hw) hhome₃ d.name hshaped₃ hr₃).and'
      (BuildM.ends_newFunction (habides.linked hl) b d.name sig)).imp_stop
      fun _ _ _ => trivial) ?_
    rintro fn w₄ ⟨⟨s, r₄, f, hs, ⟨hr₄, hrt, htarget, htypes⟩, hstarted⟩, hmakes⟩
    have hsame : r₄.engine.target = r.engine.target := htarget.trans (hrel.rests (hw rt r hr)).2.target
    let c : Setting := {
      target := r₄.engine.target
      types := r₄.engine.types
      building := r₄.engine.building
      usual := hsame ▸ husual
      ordered := hstarted.founded.tables.ordered }
    have hdrafts : w₄.Drafts c fn s f := by
      refine hstarted.drafts hmakes.linked hs hr₄ rfl rfl fun p hp => ?_
      rw [paramReps_of_started hstarted] at hp
      obtain ⟨b, hb, rfl⟩ := List.mem_map.mp hp
      exact ((hints b (List.mem_cons_of_mem _ hb)).isInteger _).isWhole
    have hbuilt : Yields fn (do d.body rt fn (← args fn)) w₄ fun _ w' => ∃ vs f',
        d.Opens c rt fn s f vs ∧ w'.Drafts c fn s f' ∧ f.Continues f' ∧ post c fn s f vs f' := by
      refine Yields.bind' (opens_of_started hints hdrafts hrt rfl rfl hstarted) (hgo fn) ?_
      rintro vs w₅ ⟨hopens, h₅⟩
      refine Yields.mono (hbody w₅ c fn s f vs h₅ hopens) ?_
      rintro _ w₆ ⟨f', h₆, hcont, hpost⟩
      exact ⟨vs, f', hopens, h₆, hcont, hpost⟩
    rw [← bind_assoc]
    refine .bind' hbuilt ?_
    rintro _ w₆ ⟨-, hbuilt⟩
    refine .bind' (ends_problemOf_clean fn w₆) ?_
    rintro (_ | p) _ ⟨rfl, hclean⟩
    · obtain ⟨vs, f', hopens, h₆, hcont, hpost⟩ := hbuilt (hclean rfl)
      have hvoid : s.ret.kind ≠ .void := by
        rw [hopens.result]
        rcases ((hints _ List.mem_cons_self).integral c rt).kind_cases with hk | hk <;> rw [hk] <;> nofun
      refine .bind_pure (.bind' (h₆.ends_compile hstarted.compiled hvoid) ?_)
      rintro _ w₇ ⟨g, hg, hhas⟩
      obtain ⟨r', hcalls⟩ := h₆.calls hg hhas
      exact .pure' ⟨c, s, f, vs, f', g, r', hopens, hcont, hpost, hg, hcalls⟩
    · exact .bind_throw trivial
  refine .bind' ((ends_attempt (ends_withBuild (ends_buildStart_home ctx w₂) hmake ?_)).imp_stop fun _ _ _ => trivial) ?_
  · rintro fn w₃ w₄ ⟨c, s, f, vs, f', g, r', hopens, hcont, hpost, hg, hcalls⟩ habides
    obtain ⟨r'', hcalls'⟩ := habides.calls hcalls
    exact ⟨c, s, f, vs, f', g, r'', hopens, hcont, hpost, hg, hcalls'⟩
  · rintro (p | fn) w₃ hout
    · exact .throw' trivial
    · exact .pure' hout

/-! ## A workspace for demos -/

def idleWorkspace : Workspace where
  runtimes := #[{ engine := .create .amd64 0 0 default 0 }]

theorem runtime_idleWorkspace :
    idleWorkspace.runtimes[0]? = some { engine := .create .amd64 0 0 default 0 } := rfl

theorem reached_idleWorkspace : idleWorkspace.Reached := by
  intro rt r hr
  have hmem : r ∈ idleWorkspace.runtimes := Array.mem_of_getElem? hr
  rw [idleWorkspace, Array.mem_singleton] at hmem
  rw [hmem]
  exact .created _ _ _ _ _

theorem linked_idleWorkspace : idleWorkspace.Linked := ⟨nofun, nofun, nofun⟩

end TypedIR
