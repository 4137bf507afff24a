import TypedIR.Proofs.BuildRuns
import TypedIR.Proofs.FunctionEnds
import TypedIR.Proofs.IntegerConstants
import TypedIR.Proofs.KeptRegisters

/-
  Integer constants there and back.

  A constant is made if and only if its type holds the number, and stands for the
  number as long as its function has it: whoever asks gets the number, a call of a
  function that only returns it gives the number, and a function without code needs
  nothing but the return to be compiled and to give it
  (`Workspace.Site.constant_roundtrip`).

  This is so where the layouts that the engine remembers are the layouts. A type
  that was asked about before it was made is remembered as unknown, has no width
  then, and takes no number but 0 (`stale_address_refuses`).
-/

namespace TypedIR

theorem RunM.ends_apply_result {e : Engine} {fn : FuncId} {f : Func} (hf : e.findFunc fn = .ok f)
    (args : List Word) : Ends (RunM.apply fn args) e
      (fun res _ => ∃ m, Machine.call e runFuel e.host f args = (.result res, m))
      fun _ _ => True := by
  by_cases h : f.compiled = true ∧ args.length = f.params.length
  · refine (RunM.ends_apply hf h.1 h.2 Prod.mk.eta.symm).mono ?_ fun _ _ _ => trivial
    rintro res _ ⟨hanswer, -⟩
    rcases hcall : Machine.call e runFuel e.host f args with ⟨ending, m⟩
    rw [hcall] at hanswer
    cases ending <;> cases hanswer
    exact ⟨m, rfl⟩
  · unfold RunM.apply
    generalize runFuel = fuel
    have hfunc : Ends (EngineM.func fn) e (fun a e' => f = a ∧ e = e') fun _ _ => False := by
      refine .bind_get ?_
      dsimp only
      rw [hf]
      exact .pure' ⟨rfl, rfl⟩
    refine .bind' (RunM.ends_ofEngine (hfunc.imp_stop fun _ _ _ => trivial)) ?_
    rintro _ _ ⟨rfl, rfl⟩
    refine .ite' (fun _ => .bind_throw trivial) fun hc => .ite' (fun _ => .bind_throw trivial) fun hl => ?_
    exact absurd ⟨by simpa using hc, not_not.mp hl⟩ h

theorem Func.Returns.ends_apply {e : Engine} {fn : FuncId} {f : Func} {v : ValueId} {bits : Word}
    (h : f.Returns v bits) (hf : e.findFunc fn = .ok f) (args : List Word) :
    Ends (RunM.apply fn args) e (fun res _ => res = bits) fun _ _ => True := by
  refine (RunM.ends_apply_result hf args).imp ?_
  rintro res _ ⟨m, hcall⟩
  exact h.result hcall

/-! ## Functions that return a constant -/

/-- A function that gives back values of the type, and has no code yet. -/
structure Function.Blank (s : Function) (c : Setting) (f : Func) (t : Ty) (r : Rep) : Prop where
  ret : s.ret = t
  retRep : s.retRep = r
  rep : f.ret = r
  result : ∃ g, c.types.signature? f.sig = some g ∧ g.result = t.id
  insns : f.insns = #[]
  problem : s.problem = none
  compiled : s.compiled = false

theorem Func.endReachable_ret {f : Func} {i : Insn} (hinsns : f.insns = #[i]) (hop : i.op = .ret) :
    f.endReachable = some false := by
  have hvisit : visit f.firstSeen [] (f.successors 0 i) = some (f.firstSeen, []) := by
    unfold successors
    rw [hop]
    rfl
  have hfirst : f.insns[0]? = some i := by simp [hinsns]
  rw [endReachable, reachEnd_turn hfirst hvisit]
  rfl

theorem Func.closed_ret {f : Func} {i : Insn} (hinsns : f.insns = #[i]) (hop : i.op = .ret) :
    f.Closed := by
  have hstart : ∀ pc, f.Flows pc → pc = 0 := by
    intro pc h
    induction h with
    | start => rfl
    | @step pc pc' j _ hi hs ih =>
      subst ih
      rw [hinsns] at hi
      have hj : i = j := Option.some.inj hi
      unfold successors at hs
      rw [← hj, hop] at hs
      cases hs
  intro pc h
  rw [hstart pc h, hinsns]
  exact Nat.one_pos

theorem Func.Framed.returns {f f' : Func} {id : ValueId} {type : TypeId} {r : Rep} {n : Int} {i : Insn}
    (h : f.Framed f') (hwhole : r.IsWhole) (hv : f.value? id = some (r.constant type n))
    (hparams : id ∉ f.params) (hinsns : f.insns = #[i]) (hop : i.op = .ret) (hi : i.a = id)
    (hdest : i.dest = 0) : f'.Returns id (r.register n) := by
  have hneeds : (r.constant type n).needsSlot = false := by
    unfold ValueInfo.needsSlot Rep.constant
    rcases hwhole.1 with hc | hc | hc <;> simp [hc]
  obtain ⟨hpos, hget, -⟩ := Func.value?_lt (h.register hv hneeds rfl)
  have hcode : f'.insns = #[i] := h.insns.trans hinsns
  have honly : ∀ j ∈ f'.insns, j = i := by
    intro j hj
    rw [hcode] at hj
    simpa using hj
  refine {
    spares := ⟨⟨_, hget, rfl, rfl⟩, fun j hj => ?_, ?_⟩
    slot := fun info hinfo => ?_
    named := Nat.ne_of_gt hpos
    ends := fun j hj _ => ?_
    closed := Func.closed_ret hcode hop }
  · rw [honly j hj, hdest]
    exact Nat.ne_of_lt hpos
  · rw [h.header.params]
    exact hparams
  · rw [hget] at hinfo
    obtain rfl := Option.some.inj hinfo
    rfl
  · rw [honly j hj, hi]

namespace Workspace.Site

variable {w : Workspace} {c : Setting} {fn : FnId} {s : Function} {f : Func} {t : Ty} {r : Rep}
  {n : Int} {id : ValueId}

/-- Whatever a call of a function that returns a constant gives, it is the
number. -/
theorem ends_call_returned (h : w.Site c fn s f) (ht : t.Known c s.runtime r) (hn : r.Holds n)
    (hkind : t.kind ≠ .bool) (hret : s.ret = t) (hrep : s.retRep = r)
    (hreturns : f.Returns id (r.register n)) (xs : List HostValue) :
    Ends (BuildM.call fn xs) w (fun a _ => a = r.hostNumber n) fun _ _ => True := by
  refine (h.ends_call (fun e he args => hreturns.ends_apply he.func args) xs).imp ?_
  rintro _ _ ⟨_, rfl, rfl⟩
  rw [hret, hrep, show (t.kind == .bool) = false by simpa using hkind]
  exact ht.isWhole.unmarshal_eq (ht.isWhole.number_register hn)

/-- Returning the constant is all that a function needs to be compiled, and to
give the number when it is called. -/
theorem ends_return_constant (h : w.Site c fn s f) (hopen : f.Open c) (ht : t.Known c s.runtime r)
    (hn : r.Holds n) (hkind : t.kind ≠ .bool) (hblank : s.Blank c f t r)
    (hv : f.value? id = some (r.constant t.id n)) (hparams : id ∉ f.params) :
    Ends (do
        BuildM.ret fn (.value { fn := some fn, id, kind := .ofTy t, type := t })
        BuildM.compile fn) w
      (fun _ w' => ∃ f', f'.Returns id (r.register n) ∧ w'.Site c fn s.finished f' ∧
        (s.params = [] → f.params = [] → (∀ v info, f.value? v = some info → info.needsSlot = false) →
          Ends (BuildM.call fn []) w' (fun a _ => a = r.hostNumber n) fun _ _ => False))
      fun _ _ => False := by
  have hwhole := ht.isWhole
  obtain ⟨g, hsig, hresult⟩ := hblank.result
  have hvoid : f.ret.cls ≠ .void := by
    rw [hblank.rep]
    rcases hwhole.1 with hc | hc | hc <;> simp [hc]
  refine .bind' (h.ends_ret hopen rfl hv hvoid hsig hresult) ?_
  intro _ w₁ h₁
  obtain ⟨i, hi⟩ : ∃ i : Insn, i = { op := .ret, a := id, rep := f.ret } := ⟨_, rfl⟩
  dsimp only at h₁
  rw [← hi] at h₁
  have hinsns : (f.push i).insns = #[i] := by
    unfold Func.push
    rw [hblank.insns]
    rfl
  have hop : i.op = .ret := by rw [hi]
  have hleads : ∀ e : Engine, e.Leads (f.push i) := by
    intro e j hj
    rw [hinsns, Array.mem_singleton] at hj
    simp [hj, hop, Opcode.isBranch]
  refine (h₁.ends_compile hopen hblank.problem hblank.compiled (Func.endReachable_ret hinsns hop)
    hleads).imp ?_
  rintro _ w₂ ⟨f', hframed, h₂⟩
  have hreturns : f'.Returns id (r.register n) :=
    hframed.returns hwhole hv hparams hinsns hop (by rw [hi]) (by rw [hi])
  refine ⟨f', hreturns, h₂, fun hs hf hslots => ?_⟩
  have hnone : f'.params = [] := hframed.header.params.trans hf
  have happly : ∀ e : Engine, e.Shows c s.finished.id f' → Ends (RunM.apply s.finished.id []) e
      (fun bits _ => bits = r.register n) fun _ _ => False := by
    intro e he
    have hsize := hframed.frameSize hslots
    have hcode : f'.insns[0]? = some i := by rw [hframed.insns, hinsns]; rfl
    obtain ⟨m, hcall⟩ : ∃ m, Machine.call e runFuel e.host f' [] = (.result (r.register n), m) :=
      hreturns.calls hframed.compiled he.depth (by omega) hnone hcode hop _ e.host
    refine (RunM.ends_apply he.func hframed.compiled (by simp [hnone]) hcall).mono ?_ ?_
    · rintro bits _ ⟨hanswer, -⟩
      exact Except.ok.inj hanswer
    · rintro halt _ ⟨hanswer, -⟩
      cases hanswer
  have hargs : Marshals (s.finished.params.zip s.finished.paramReps) [] [] := by
    rw [show s.finished.params = [] from hs]
    exact .nil
  refine (h₂.place.ends_call_args rfl (by simp [Function.finished, hs]) hargs happly).mono ?_ ?_
  · rintro _ _ ⟨_, rfl, rfl⟩
    rw [show s.finished.ret = t from hblank.ret, show s.finished.retRep = r from hblank.retRep,
      show (t.kind == .bool) = false by simpa using hkind]
    exact hwhole.unmarshal_eq (hwhole.number_register hn)
  · rintro _ _ ⟨_, hfalse, -⟩
    exact hfalse

end Workspace.Site

/-! ## There and back -/

/-- A workspace later on: there may be more types, and the function still has the
value. -/
structure Workspace.Later (c : Setting) (fn : FnId) (s : Function) (f : Func) (id : ValueId)
    (w' : Workspace) (c' : Setting) (s' : Function) (f' : Func) : Prop where
  site : w'.Site c' fn s' f'
  target : c'.target = c.target
  types : c.types.Grows c'.types
  runtime : s'.runtime = s.runtime
  params : f'.params = f.params
  value : f'.value? id = f.value? id

/-- A value of a function that stands for a number: reading it gives the number,
and so does every call of a function that returns it. -/
structure Val.StandsFor (v : Val) (n : Int) (r : Rep) (w : Workspace) (c : Setting) (fn : FnId)
    (s : Function) (f : Func) : Prop where
  signed : Ends (BuildM.constInt? v) w (fun a _ => a = if n < 2 ^ 63 then some n else none)
    fun _ _ => False
  unsigned : Ends (BuildM.constUint? v) w (fun a _ => a = if 0 ≤ n then some n.toNat else none)
    fun _ _ => False
  returned : v.type.kind ≠ .bool → s.ret = v.type → s.retRep = r → f.Returns v.id (r.register n) →
    ∀ xs, Ends (BuildM.call fn xs) w (fun a _ => a = r.hostNumber n) fun _ _ => True
  compiled : v.type.kind ≠ .bool → f.Open c → s.Blank c f v.type r →
    Ends (do
        BuildM.ret fn (.value v)
        BuildM.compile fn) w
      (fun _ w' => ∃ f', f'.Returns v.id (r.register n) ∧ w'.Site c fn s.finished f' ∧
        (s.params = [] → f.params = [] → (∀ u info, f.value? u = some info → info.needsSlot = false) →
          Ends (BuildM.call fn []) w' (fun a _ => a = r.hostNumber n) fun _ _ => False))
      fun _ _ => False

/-- A constant of an integer, truth value or address type is made if and only if
the type holds the number, and else the function keeps a type problem. A constant
stands for the number as long as the function has it. -/
theorem Workspace.Site.constant_roundtrip {w : Workspace} {c : Setting} {fn : FnId} {s : Function}
    {f : Func} {t : Ty} {r : Rep} (h : w.Site c fn s f) (hopen : f.Open c)
    (ht : t.Whole c s.runtime r) (hparams : ∀ p ∈ f.params, p < f.values.size) (x : Literal) :
    Ends (x.constant fn t) w
      (fun v w' => (v.valid = true ↔ r.Holds x.number) ∧
        (v.valid = false → ∃ p, p.kind? = some .type ∧ w'.Site c fn (s.withProblem p) f) ∧
        (v.valid = true → ∃ f', f.Extends f' ∧ w'.Site c fn s f' ∧
          ∀ {w'' c'' s'' f''}, Workspace.Later c fn s f' v.id w'' c'' s'' f'' →
            v.StandsFor x.number r w'' c'' fn s'' f''))
      fun _ _ => False := by
  refine (h.ends_literal hopen ht x).imp ?_
  rintro v w' (⟨hn, hsite⟩ | ⟨hn, hp, hsite⟩)
  · have hpos := h.first
    have hvalid : Val.valid { fn := some fn, id := f.values.size, kind := .ofTy t, type := t } = true :=
      Val.valid_of_pos rfl hpos
    refine ⟨⟨fun _ => hn, fun _ => hvalid⟩, fun hno => ?_, fun _ => ⟨_, ?_, hsite, ?_⟩⟩
    · rw [hvalid] at hno
      cases hno
    · exact Func.extends_addValue hpos
    · intro w'' c'' s'' f'' hlater
      have hknown := ht.known.grow hlater.target hlater.types
      rw [← hlater.runtime] at hknown
      have hv : f''.value? f.values.size = some (r.constant t.id x.number) :=
        hlater.value.trans ((Func.value?_addValue hpos _).trans (if_pos rfl))
      have hfree : f.values.size ∉ f''.params := by
        rw [hlater.params]
        exact fun hmem => Nat.lt_irrefl _ (hparams _ hmem)
      have hsigned := hlater.site.ends_constInt? hknown hn hv
      have hunsigned := hlater.site.ends_constUint? hknown hn hv
      refine {
        signed := hsigned.imp fun _ _ h => h.1
        unsigned := hunsigned.imp fun _ _ h => h.1
        returned := fun hkind hret hrep hreturns =>
          hlater.site.ends_call_returned hknown hn hkind hret hrep hreturns
        compiled := fun hkind hopen' hblank =>
          hlater.site.ends_return_constant hopen' hknown hn hkind hblank hv hfree }
  · refine ⟨⟨fun hno => ?_, fun hyes => absurd hyes hn⟩, fun _ => ⟨_, hp, hsite⟩, fun hno => ?_⟩
    · cases hno
    · cases hno

def blankByte : Workspace := building.after (BuildM.startFunction 0 [] (Builtin.uint8.ty 0))

theorem Layout.truthful_of_led {target : Target} {t : TypeTable} (ht : t.Ordered) {c : Cache}
    (hc : ∀ p ∈ c, p.2 = ledTo target t [] p.1) : Truthful target t c := by
  induction c with
  | nil => exact truthful_nil
  | cons p rest ih =>
    obtain ⟨hp, hrest⟩ := List.forall_mem_cons.mp hc
    obtain ⟨id, a⟩ := p
    obtain rfl : a = ledTo target t [] id := hp
    exact (ih hrest).cons (laid_ledTo ht id)

theorem TypeTable.eq_of_tables {t t' : TypeTable} (h : t.types = t'.types ∧ t.structs = t'.structs ∧
    t.signatures = t'.signatures ∧ t.decorations = t'.decorations) : t = t' := by
  obtain ⟨htypes, hstructs, hsigs, hdecorations⟩ := h
  cases t
  cases t'
  simp_all

theorem TypeTable.Ordered.addSignatures {t : TypeTable} (h : t.Ordered) (sigs : List Signature)
    (hsigs : ∀ s ∈ sigs, s.result < t.types.size ∧ ∀ p ∈ s.params, p < t.types.size) :
    (sigs.foldl (fun t s => (t.addSignature s).2) t).Ordered := by
  induction sigs generalizing t with
  | nil => exact h
  | cons s rest ih =>
    obtain ⟨hs, hrest⟩ := List.forall_mem_cons.mp hsigs
    obtain ⟨_, hmakes, -⟩ := h.makes_addSignature hs.1 hs.2
    have hle := hmakes.grows.size_le
    refine ih hmakes.ordered fun s hs => ⟨?_, fun p hp => ?_⟩
    · exact Nat.lt_of_lt_of_le (hrest s hs).1 hle
    · exact Nat.lt_of_lt_of_le ((hrest s hs).2 p hp) hle

/-- The types there are when the function is made: those of the natives, and of
the function. -/
def byteTypes : TypeTable :=
  (((blankByte.runtimes[0]?.map fun r : Runtime => r.engine.types.signatures.toList).getD []).drop 1).foldl
    (fun t s => (t.addSignature s).2) .initial

def byteSetting : Setting where
  target := .amd64
  types := byteTypes
  building := 1
  usual := .inr rfl
  ordered := TypeTable.initial_ordered.addSignatures _ (by decide +kernel)

theorem blankByte_site : ∃ s f, blankByte.Site byteSetting 0 s f ∧ f.Open byteSetting ∧
    s.runtime = 0 ∧ f.params = [] ∧
    s.Blank byteSetting f (Builtin.uint8.ty 0) (Builtin.uint8.rep .amd64) := by
  have hengine : ∃ r ∈ blankByte.runtimes[(0 : Nat)]?, (r.engine.target = .amd64 ∧ r.engine.building = 1 ∧
      0 < r.engine.maxDepth) ∧
      (r.engine.types.types = byteTypes.types ∧ r.engine.types.structs = byteTypes.structs ∧
        r.engine.types.signatures = byteTypes.signatures ∧
        r.engine.types.decorations = byteTypes.decorations) ∧
      (∀ p ∈ r.engine.layouts, p.2 = Layout.ledTo .amd64 byteTypes [] p.1) ∧
      ∃ f ∈ r.engine.func? 1, f.destroyed = false ∧ f.params = [] ∧ 0 < f.values.size ∧
      (f.compiled = false ∧ f.ctx = 1) ∧ f.ret = Builtin.uint8.rep .amd64 ∧ f.insns = #[] ∧
      byteTypes.signature? f.sig = some { result := Builtin.uint8.id } := by decide +kernel
  have hfunction : ∃ s ∈ blankByte.functions[(0 : Nat)]?, s.runtime = 0 ∧ s.id = 1 ∧
      s.ret = Builtin.uint8.ty 0 ∧ s.retRep = Builtin.uint8.rep .amd64 ∧
      s.problem = none ∧ s.compiled = false := by decide +kernel
  obtain ⟨r, hr, ⟨htarget, hbuilding, hdepth⟩, hsame, hlayouts, f, hf,
    halive, hparams, hfirst, hopen, hret, hinsns, hsig⟩ := hengine
  obtain ⟨s, hs, hruntime, hid, hty, hrep, hproblem, hcompiled⟩ := hfunction
  have hfind : r.engine.findFunc s.id = .ok f := hid ▸ EngineM.findFunc_of hf halive
  have hshows : r.engine.Shows byteSetting s.id f := {
    target := htarget
    types := TypeTable.eq_of_tables hsame
    building := hbuilding
    layouts := Layout.truthful_of_led byteSetting.ordered hlayouts
    depth := hdepth
    func := hfind
    first := hfirst }
  have hblank : s.Blank byteSetting f (Builtin.uint8.ty 0) (Builtin.uint8.rep .amd64) :=
    ⟨hty, hrep, hret, ⟨_, hsig, rfl⟩, hinsns, hproblem, hcompiled⟩
  exact ⟨s, f, ⟨hs, r, by rw [hruntime]; exact hr, hshows⟩, hopen, hruntime, hparams, hblank⟩

/-- 200 as a constant of bytes. -/
theorem byte_roundtrip : ∃ s f, blankByte.Site byteSetting 0 s f ∧ f.Open byteSetting ∧
    (Builtin.uint8.ty 0).Whole byteSetting s.runtime (Builtin.uint8.rep .amd64) ∧
    (∀ p ∈ f.params, p < f.values.size) ∧
    Ends ((Literal.unsigned 200).constant 0 (Builtin.uint8.ty 0)) blankByte
      (fun v w' => v.valid = true ∧ ∃ f', w'.Site byteSetting 0 s f' ∧
        v.StandsFor 200 (Builtin.uint8.rep .amd64) w' byteSetting 0 s f') fun _ _ => False := by
  obtain ⟨s, f, hsite, hopen, hruntime, hparams, -⟩ := blankByte_site
  have hwhole : (Builtin.uint8.ty 0).Whole byteSetting s.runtime (Builtin.uint8.rep .amd64) := {
    owner := by rw [hruntime]; rfl
    kind := by decide +kernel
    rep := Builtin.hasRep byteSetting.ordered .uint8
    cls := .inr (.inl rfl)
    bool := nofun }
  have hnamed : ∀ p ∈ f.params, p < f.values.size := by rw [hparams]; nofun
  refine ⟨s, f, hsite, hopen, hwhole, hnamed, ?_⟩
  refine (hsite.constant_roundtrip hopen hwhole hnamed (.unsigned 200)).imp ?_
  rintro v w' ⟨hvalid, -, hstands⟩
  have hyes : v.valid = true := hvalid.mpr (by unfold Rep.Holds; decide +kernel)
  obtain ⟨f', hext, hsite', hlater⟩ := hstands hyes
  exact ⟨hyes, f', hsite', hlater ⟨hsite', rfl, .refl _, rfl, rfl, rfl⟩⟩

def staleAddress : BuildM Val := do
  let rt ← BuildM.newRuntime {}
  let _ ← BuildM.tryEngine rt (EngineM.layoutOf 32)
  let t ← BuildM.pointerTy rt (Builtin.int8.ty rt)
  let b ← BuildM.buildStart (← BuildM.newContext rt "c")
  let f ← BuildM.startFunction b [] (Builtin.int64.ty rt)
  BuildM.constInt f t 4096

/-- Having been asked about too early, an address type of eight bytes does not take
the number 4096. -/
theorem stale_address_refuses : ∃ (w : Workspace) (s : Function) (r : Runtime),
    (staleAddress.run {} : Except Stop Val × Workspace) = (.ok {}, w) ∧
    w.functions[0]? = some s ∧ s.problem.bind (·.kind?) = some .type ∧
    w.runtimes[s.runtime]? = some r ∧ r.engine.target = .amd64 ∧
    r.engine.types.tyKind? 32 = some .pointer ∧
    r.engine.types.HasRep r.engine.target 32 Target.amd64.pointerRep ∧
    Target.amd64.pointerRep.Holds (Literal.signed 4096).number := by
  have hcheck : (staleAddress.run {} : Except Stop Val × Workspace).1 = .ok {} ∧
      ∃ s ∈ (({} : Workspace).after staleAddress).functions[(0 : Nat)]?,
      s.problem.bind (·.kind?) = some .type ∧
      ∃ r ∈ (({} : Workspace).after staleAddress).runtimes[s.runtime]?,
      r.engine.target = .amd64 ∧ r.engine.types.tyKind? 32 = some .pointer ∧
      r.engine.types.find? 32 = some (.pointer Builtin.int8.id) := by decide +kernel
  obtain ⟨hanswer, s, hs, hproblem, r, hr, htarget, hkind, hfound⟩ := hcheck
  refine ⟨_, s, r, Workspace.run_after hanswer, hs, hproblem, hr, htarget, hkind, ?_, ?_⟩
  · rw [htarget]
    exact .address hfound (.inl rfl)
  · unfold Rep.Holds
    decide +kernel

end TypedIR
