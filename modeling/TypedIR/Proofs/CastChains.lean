import TypedIR.Proofs.ConstantRoundTrip
import TypedIR.Proofs.HostedBuilds

/-
  Chains of casts.

  An argument goes into the register of its parameter, through one conversion after the
  other, is returned as a value of the type of the result and handed to the host. All of
  these take the number to the one that the type holds in its place, so the whole is one
  reduction after the other (`Workspace.Offers.casts_reduce`).
-/

namespace TypedIR

open BuildM

/-- A number reduced to one representation after the other. -/
def Rep.wrapAll (rs : List Rep) (n : Int) : Int := rs.foldl (fun n r => r.wrap n) n

def Func.Chained (rs : List Rep) (rx : Rep) (x : ValueId) (m : Machine) (w : Word) : Prop :=
  ∃ n, rx.Holds n ∧ m.Reads x (Word.ofInt n) ∧ w = Word.ofInt (Rep.wrapAll rs n)

/-! ## Code of straight functions -/

namespace Func

variable {f f' g : Func} {c : Setting} {n : Nat} {u : ValueId} {type : TypeId} {r : Rep}
  {p : Machine → Word → Prop} {i : Insn}

theorem Framed.place?_eq (h : f.Framed g) (hplain : f.Plain) {v : ValueId} {info : ValueInfo}
    (hv : g.value? v = some info) : info.place? = none := by
  obtain ⟨vs, hvalues, hslotted, -⟩ := h.values
  rcases v with _ | i
  · cases hv
  · have hi : i < vs.length := by
      rw [value?_of_list hvalues] at hv
      exact (List.getElem?_eq_some_iff.mp hv).1
    have hold := value?_succ (hslotted.length_eq ▸ hi)
    obtain ⟨hslot, hneeds⟩ := hplain.value hold
    rw [h.register hold hneeds hslot] at hv
    rw [← Option.some.inj hv]
    exact ValueInfo.place?_of_none hslot

def ReturnsWith (f : Func) (c : Setting) (n : Nat) (r : Rep) (p : Machine → Word → Prop)
    (g : Func) : Prop :=
  ∃ (f' : Func) (i : Insn) (type : TypeId), f.Obtains c n f' i.a type r p ∧ i.op = .ret ∧
    (f'.push i).Framed g

theorem ReturnsWith.gives {e : Engine} {base : Word} {m : Machine} {w : Word}
    (h : f.ReturnsWith c n r p g) (hinsns : f.insns = #[]) (hplain : f.Plain)
    (hm : m.Inside (.first g base) [] 0) (hp : p m w) : m.Leads e False n (Machine.Gives e w) := by
  obtain ⟨f', i, type, h, hop, hg⟩ := h
  have hext : f'.Extends g := (extends_push i).trans hg.old
  have hspills : ¬ f.Spills f' g := by
    rintro ⟨v, -, info, slot, hv, hplace⟩
    rw [hg.place?_eq ((h.lengthens.plain hplain).push i).plain hv] at hplace
    cases hplace
  have hsize : f'.insns.size ≤ n := by
    have := h.lengthens.size
    rw [hinsns] at this
    simpa using this
  have hstart : m.Inside (.first g base) [] f.insns.size := by rwa [hinsns]
  have hcode : m.Leads e (f.Spills f' g) (f'.insns.size - f.insns.size) fun m' =>
      m'.Inside (.first g base) [] f'.insns.size ∧ m'.Reads i.a w ∧ m.Keeps g (f.Gains f') m' ∧
        (m.SoundRun e → m'.SoundRun e) ∧ (¬ f.Spills f' g → m'.host = m.host) :=
    h.brings hext hstart (fun hsp => absurd hsp hspills) hp
  rw [hinsns] at hcode
  refine ((hcode.weaken hspills).mono fun m' hm' => ?_).within hsize
  obtain ⟨hin, hread, -⟩ := hm'
  have hi : g.insns[f'.insns.size]? = some i := by
    rw [hg.insns]
    simp [Func.push]
  exact hin.ends_ret hi hop (isSome_of_rep? (hext.rep? h.carries.rep?)) hread

end Func

/-! ## Chains -/

namespace Workspace.Hosts

variable {w : Workspace} {c : Setting} {limit : Int} {fn : FnId} {s : Function} {f : Func} {v : Val}
  {t : Ty} {ts : List Ty} {r : Rep} {rs : List Rep}

theorem ends_casts (h : w.Hosts c limit fn s f) (hopen : f.Open c) (hv : v.Names fn f c t r)
    (hi : r.IsWhole) (hts : List.Forall₂ (Ty.Whole c s.runtime) ts rs) :
    Ends (ts.foldlM BuildM.cast v) w (fun u w' => ∃ f' t' r', w'.Hosts c limit fn s f' ∧
      u.Names fn f' c t' r' ∧ r'.IsWhole ∧ (∀ n, r.Holds n → r'.Holds (Rep.wrapAll rs n)) ∧
      f.Obtains c ts.length f' u.id t'.id r' (Func.Chained rs r v.id)) fun _ _ => False := by
  induction hts generalizing w v f t r with
  | nil =>
    refine .pure' ⟨f, t, r, h, hv, hi, fun _ hn => hn, .refl f, hv.carries, Func.Brings.refl' ?_⟩
    rintro m _ ⟨n, -, hread, rfl⟩
    exact hread
  | @cons t₁ r₁ ts rs ht _ ih =>
    rw [List.foldlM_cons]
    refine .bind' (h.ends_cast hopen hv hi ht) ?_
    rintro u₁ w₁ ⟨f₁, h₁, hu₁, hobtains₁⟩
    refine (ih h₁ (hobtains₁.lengthens.isOpen hopen) hu₁ ht.isWhole).imp ?_
    rintro u₂ w₂ ⟨f₂, t₂, r₂, h₂, hu₂, hi₂, hholds, hobtains₂⟩
    refine ⟨f₂, t₂, r₂, h₂, hu₂, hi₂, fun n _ => hholds _ (ht.isWhole.holds_wrap n), ?_⟩
    refine ⟨(hobtains₁.lengthens.trans hobtains₂.lengthens).within (Nat.add_comm ..).le,
      hobtains₂.carries, ?_⟩
    refine hobtains₁.brings.bind' hobtains₂.brings hobtains₁.lengthens.old hobtains₂.lengthens.old ?_
    rintro m _ ⟨n, hn, hread, rfl⟩
    refine ⟨_, ⟨n, hn, hread, rfl⟩, fun m' hread' _ => ⟨_, ht.isWhole.holds_wrap n, hread', rfl⟩⟩

theorem ends_chain (h : w.Hosts c limit fn s f) (hopen : f.Open c) (hone : 0 < s.params.length)
    {x : ValueId} (hparam : f.params[0]? = some x) (hx : f.Carries c x t.id r)
    (ht : t.Whole c s.runtime r) (hts : List.Forall₂ (Ty.Whole c s.runtime) ts rs)
    (hret : f.ret.IsWhole) {g : Signature} (hsig : c.types.signature? f.sig = some g)
    (hresult : c.types.HasRep c.target g.result f.ret) :
    Ends (arg fn 0 >>= fun v => ts.foldlM BuildM.cast v >>= fun v => BuildM.ret fn (.value v)) w
      (fun _ w' => ∃ u f' type, w'.Hosts c limit fn s (f'.push { op := .ret, a := u, rep := f.ret }) ∧
        f.Obtains c (ts.length + 1) f' u type f.ret (Func.Chained (rs ++ [f.ret]) r x))
      fun _ _ => False := by
  have harg : Ends (arg fn 0) w (fun v w' => w'.Hosts c limit fn s f ∧ v.Names fn f c t r ∧ v.id = x)
      fun _ _ => False := h.ends_arg hone hparam hx ht
  refine .bind' harg ?_
  rintro v w₁ ⟨h₁, hv, rfl⟩
  refine .bind' (h₁.ends_casts hopen hv ht.isWhole hts) ?_
  rintro u w₂ ⟨f₂, t₂, r₂, h₂, hu, hi₂, hholds, hchain⟩
  have hheader := hchain.lengthens.old.header
  have hret₂ : f₂.ret = f.ret := hheader.ret
  have hsig₂ : f₂.sig = f.sig := hheader.sig
  refine (h₂.ends_ret (hchain.lengthens.isOpen hopen) hu hi₂ (hret₂ ▸ hret) (hsig₂ ▸ hsig)
    (hret₂ ▸ hresult)).imp ?_
  rintro - w₃ ⟨y, f₃, type, h₃, hlast⟩
  rw [hret₂] at h₃ hlast
  refine ⟨y, f₃, type, h₃, hchain.lengthens.trans hlast.lengthens, hlast.carries, ?_⟩
  refine hchain.brings.bind' hlast.brings hchain.lengthens.old hlast.lengthens.old ?_
  rintro m _ ⟨n, hn, hread, rfl⟩
  refine ⟨_, ⟨n, hn, hread, rfl⟩, fun m' hread' _ => ⟨_, hholds n hn, hread', ?_⟩⟩
  rw [Rep.wrapAll, Rep.wrapAll, List.foldl_append]
  rfl

end Workspace.Hosts

/-- A function of one parameter that takes its argument from one type to the other and
returns it. -/
def buildChain (b : BuildId) (t : Ty) (ts : List Ty) (ret : Ty) : BuildM FnId :=
  buildFunction b [t] ret (some fun fn => do
    let v ← ts.foldlM BuildM.cast (← arg fn 0)
    BuildM.ret fn (.value v))

/-- A whole number of the host goes into the register as the number the type holds in its
place. -/
theorem Rep.IsWhole.marshal_int {r : Rep} (h : r.IsWhole) (type : HostInt) (n : Int) :
    BuildM.marshal r (.int type n) = .ok (Word.ofInt (r.wrap n)) := by
  rw [← h.normalize_ofInt]
  unfold BuildM.marshal
  rcases h.1 with hc | hc | hc <;> rw [hc]

theorem Workspace.Offers.ends_buildChain {w : Workspace} {b : BuildId} {home : CtxId} {rt : RuntimeId}
    {c : Setting} {limit : Int} (h : w.Offers b home rt c.building (·.Awaits c limit)) {t ret : Ty}
    {ts : List Ty} {r want : Rep} {rs : List Rep} (ht : t.Whole c rt r)
    (hts : List.Forall₂ (Ty.Whole c rt) ts rs) (hret : ret.Whole c rt want) :
    Ends (buildChain b t ts ret) w (fun fn w' => ∃ (s : Function) (c' : Setting) (name : String)
      (sig : TypeId) (g : Func), s.Fresh rt [t] [r] ret want ∧
        (Func.fresh s.id c'.building name sig want [(t.id, r)]).ReturnsWith c' (ts.length + 1) want
          (Func.Chained (rs ++ [want]) r 1) g ∧ w'.Place fn s.finished (·.Ready limit s.id g))
      fun _ _ => False := by
  have hparams : List.Forall₂ (Ty.Whole c rt) [t] [r] := .cons ht .nil
  show Ends (startFunction b [t] ret >>= fun fn => (arg fn 0 >>= fun v =>
    ts.foldlM BuildM.cast v >>= fun v => BuildM.ret fn (.value v)) >>= fun _ =>
      compile fn >>= fun _ => pure fn) w _ _
  refine .bind' (h.ends_startFunction hparams hret) ?_
  rintro fn w₁ ⟨s, c', name, sig, abi, hgrows, hfresh, hsig, h₁⟩
  have ht' := hfresh.runtime ▸ ht.grow hgrows
  have hret' := hfresh.runtime ▸ hret.grow hgrows
  have hts' : List.Forall₂ (Ty.Whole c' s.runtime) ts rs :=
    hfresh.runtime ▸ hts.imp fun _ _ ht => ht.grow hgrows
  have hone : 0 < s.params.length := by
    rw [hfresh.params]
    exact Nat.one_pos
  have hcarries : (Func.fresh s.id c'.building name sig want [(t.id, r)]).Carries c' 1 t.id r :=
    ⟨⟨_, Func.value?_fresh 0, rfl, rfl⟩, ht'.rep⟩
  refine .bind' (Workspace.Hosts.ends_chain h₁ ⟨rfl, rfl⟩ hone rfl hcarries ht' hts' hret'.isWhole
    hsig hret'.rep) ?_
  rintro - w₂ ⟨u, f', type, h₂, (hobtains : (Func.fresh s.id c'.building name sig want
    [(t.id, r)]).Obtains c' (ts.length + 1) f' u type want (Func.Chained (rs ++ [want]) r 1))⟩
  have hstraight : f'.Straight := hobtains.lengthens.straight Func.straight_fresh
  refine .bind' (h₂.ends_compile (hobtains.lengthens.isOpen ⟨rfl, rfl⟩) hstraight rfl hfresh.problem
    hfresh.compiled) ?_
  rintro - w₃ ⟨g, hframed, h₃⟩
  exact .pure' ⟨s, c', name, sig, g, hfresh,
    ⟨f', { op := .ret, a := u, rep := want }, type, hobtains, rfl, hframed⟩, h₃⟩

theorem Func.ReturnsWith.ends_apply {e : Engine} {limit : Int} {id : FuncId} {ctx : ContextId}
    {name : String} {sig type : TypeId} {c : Setting} {k : Nat} {r want : Rep} {rs : List Rep}
    {g : Func}
    (h : (fresh id ctx name sig want [(type, r)]).ReturnsWith c k want (Chained rs r 1) g)
    (hr : r.IsWhole) (he : e.Ready limit id g) (n : Int) :
    Ends (RunM.apply id [Word.ofInt (r.wrap n)]) e
      (fun bits _ => bits = Word.ofInt (Rep.wrapAll (r :: rs) n))
      fun halt _ => halt.GivesUp limit runFuel (k + 1) := by
  have hplain : (fresh id ctx name sig want [(type, r)]).Plain := plain_fresh fun p hp => by
    rw [List.mem_singleton.mp hp]
    exact hr
  have hcode := h
  obtain ⟨f', i, u, hobtains, -, hg⟩ := h
  have hplain' := (hobtains.lengthens.plain hplain).push i
  have hext : (fresh id ctx name sig want [(type, r)]).Extends g :=
    hobtains.lengthens.old.trans ((extends_push i).trans hg.old)
  have hregistered : g.Registered g.params :=
    registered_fresh hext fun _ _ hv _ => hg.place?_eq hplain'.plain hv
  have hsize : g.frameSize = 0 := hg.frameSize fun _ _ hv => (hplain'.plain.value hv).2
  have hone : g.params = [1] := hext.header.params
  obtain ⟨info, hv, hsame⟩ := hext.value (value?_fresh 0)
  have hrep : info.rep = r := hsame.rep
  refine (Func.ends_apply he.func hg.compiled he.depth hregistered (by rw [hone]; rfl)
    fun base mem m _ hin _ hpasses _ => hcode.gives rfl hplain hin ?_).imp_stop ?_
  · rw [hone] at hpasses
    obtain ⟨hread, -⟩ := List.forall₂_cons.mp hpasses
    have hread := hread info hv
    rw [hrep, hr.normalize_ofInt, hr.wrap_eq (hr.holds_wrap n)] at hread
    exact ⟨r.wrap n, hr.holds_wrap n, hread, rfl⟩
  · rintro halt _ (hgives | hno)
    · exact he.limit ▸ hgives
    · refine absurd ?_ (hno 0 e.host.memory)
      unfold Reserves
      rw [if_neg (by omega)]
      exact ⟨rfl, rfl⟩

/-- The function of a chain of casts, called with a whole number, gives the number that the
types hold in its place one after the other, where the number a type holds in place of
another is the one of its range that is congruent modulo the width. Only a step limit can be
in the way. -/
theorem Workspace.Offers.casts_reduce {w : Workspace} {b : BuildId} {home : CtxId} {rt : RuntimeId}
    {c : Setting} {limit : Int} (h : w.Offers b home rt c.building (·.Awaits c limit)) {t ret : Ty}
    {ts : List Ty} {r want : Rep} {rs : List Rep} (ht : t.Whole c rt r)
    (hts : List.Forall₂ (Ty.Whole c rt) ts rs) (hret : ret.Whole c rt want)
    (hkind : ret.kind ≠ .bool) (type : HostInt) (n : Int) :
    (∀ q ∈ r :: rs ++ [want], ∀ k z, k = q.wrap z ↔ q.Holds k ∧ Int.ModEq (2 ^ q.width) k z) ∧
    Ends (do call (← buildChain b t ts ret) [.int type n]) w
      (fun a _ => a = want.hostNumber (Rep.wrapAll (r :: rs ++ [want]) n))
      fun how _ => ∃ halt, how = Stop.ofHalt "call" halt ∧
        halt.GivesUp limit runFuel (ts.length + 2) := by
  constructor
  · intro q hq k z
    refine Rep.IsWhole.eq_wrap_iff ?_ k z
    rcases List.mem_append.mp hq with hq | hq
    · rcases List.mem_cons.mp hq with rfl | hq
      · exact ht.isWhole
      · obtain ⟨i, hi, rfl⟩ := List.getElem_of_mem hq
        exact (hts.get (hts.length_eq ▸ hi) hi).isWhole
    · rw [List.mem_singleton.mp hq]
      exact hret.isWhole
  refine .bind' (h.ends_buildChain ht hts hret).total ?_
  rintro fn w' ⟨s, c', name, sig, g, hfresh, hcode, hplace⟩
  have hlen : [HostValue.int type n].length = s.finished.params.length := by
    rw [show s.finished.params = [t] from hfresh.params]
    rfl
  have hmarshals : Marshals (s.finished.params.zip s.finished.paramReps) [.int type n]
      [Word.ofInt (r.wrap n)] := by
    rw [show s.finished.params = [t] from hfresh.params,
      show s.finished.paramReps = [r] from hfresh.paramReps]
    exact .cons nofun (ht.isWhole.marshal_int type n) .nil
  refine (hplace.ends_call_args rfl hlen hmarshals fun e he =>
    hcode.ends_apply ht.isWhole he n).mono ?_ ?_
  · rintro a w'' ⟨_, rfl, ha⟩
    rw [ha, show s.finished.retRep = want from hfresh.retRep,
      show s.finished.ret = ret from hfresh.ret, beq_false_of_ne hkind]
    refine hret.isWhole.unmarshal_eq (hret.isWhole.number_ofInt ?_)
    rw [Rep.wrapAll, ← List.cons_append, List.foldl_append]
    exact hret.isWhole.holds_wrap _
  · rintro how w'' ⟨halt, hgives, rfl⟩
    exact ⟨halt, rfl, hgives⟩

/-- A signed byte and then 16 bits without sign make 212 of -300 as a byte. -/
theorem bytes_reduce :
    building.Offers 0 0 0 buildingSetting.building (·.Awaits buildingSetting 0) ∧
      (Builtin.int64.ty 0).Whole buildingSetting 0 (Builtin.int64.rep .amd64) ∧
      List.Forall₂ (Ty.Whole buildingSetting 0) [Builtin.int8.ty 0, Builtin.uint16.ty 0]
        [Builtin.int8.rep .amd64, Builtin.uint16.rep .amd64] ∧
      (Builtin.uint8.ty 0).Whole buildingSetting 0 (Builtin.uint8.rep .amd64) ∧
      (Builtin.uint8.ty 0).kind ≠ .bool ∧
      Ends (do call (← buildChain 0 (Builtin.int64.ty 0) [Builtin.int8.ty 0, Builtin.uint16.ty 0]
        (Builtin.uint8.ty 0)) [.int .int64 (-300)]) building (fun a _ => a = .int .uint64 212)
        fun _ _ => False := by
  have hlong := Builtin.whole buildingSetting 0 (b := .int64) (.inl rfl) nofun
  have hchar := Builtin.whole buildingSetting 0 (b := .int8) (.inl rfl) nofun
  have hshort := Builtin.whole buildingSetting 0 (b := .uint16) (.inr rfl) nofun
  have hbyte := Builtin.whole buildingSetting 0 (b := .uint8) (.inr rfl) nofun
  have hts := List.Forall₂.cons hchar (.cons hshort .nil)
  refine ⟨building_offers, hlong, hts, hbyte, nofun, ?_⟩
  have hcall := (building_offers.casts_reduce hlong hts hbyte nofun .int64 (-300)).2
  refine hcall.mono ?_ ?_
  · rintro a _ rfl
    rw [show Rep.wrapAll _ (-300) = 212 by decide +kernel]
    rfl
  · rintro how _ ⟨halt, -, hgives⟩
    cases halt with
    | failed err => exact absurd hgives.1 (by decide)
    | crashed => exact absurd hgives (Nat.not_lt.mpr (by decide))

def staleChain : BuildM FnId := do
  let rt ← newRuntime {}
  let _ ← tryEngine rt (EngineM.layoutOf 32)
  let t ← pointerTy rt (Builtin.int8.ty rt)
  let b ← buildStart (← newContext rt "c")
  buildChain b (Builtin.int64.ty rt) [t] (Builtin.int64.ty rt)

/-- Having been asked about too early, an address type of eight bytes lets no chain through
that would give 5 back. -/
theorem stale_chain_refuses : ∃ (w : Workspace) (f : Failure) (r : Runtime),
    ((do call (← staleChain) [.int .int64 5]).run {} : Except Stop HostValue × Workspace) =
        (.error (.problem (.engine "cast" f)), w) ∧
      f.cause = .layout (.unknownType 32) ∧ w.runtimes[0]? = some r ∧ r.engine.target = .amd64 ∧
      r.engine.types.tyKind? 32 = some .pointer ∧
      r.engine.types.HasRep r.engine.target 32 Target.amd64.pointerRep ∧
      Rep.wrapAll [Builtin.int64.rep .amd64, Target.amd64.pointerRep, Builtin.int64.rep .amd64] 5 =
        5 := by
  have hcheck : (staleChain.run {} : Except Stop FnId × Workspace).1 =
      .error (.problem (.engine "cast" { cause := .layout (.unknownType 32) })) ∧
      ∃ r ∈ (staleChain.run {} : Except Stop FnId × Workspace).2.runtimes[(0 : Nat)]?,
        r.engine.target = .amd64 ∧ r.engine.types.tyKind? 32 = some .pointer ∧
        r.engine.types.find? 32 = some (.pointer Builtin.int8.id) := by decide +kernel
  obtain ⟨hanswer, r, hr, htarget, hkind, hfound⟩ := hcheck
  have hrun : (staleChain.run {} : Except Stop FnId × Workspace) =
      (.error (.problem (.engine "cast" { cause := .layout (.unknownType 32) })),
        ({} : Workspace).after staleChain) := Workspace.run_after hanswer
  refine ⟨_, _, r, by rw [run_bind, hrun], rfl, hr, htarget, hkind, ?_, by decide +kernel⟩
  rw [htarget]
  exact .address hfound (.inl rfl)

end TypedIR
