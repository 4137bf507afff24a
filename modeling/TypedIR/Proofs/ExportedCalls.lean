import TypedIR.Proofs.ExportedNames
import TypedIR.Proofs.LoweredResults

/-
  What the calls of a module reach.

  Functions of engines, natives and the functions that mathematical operations
  are done with are all found by name, in one table for all exports into a
  module, and the first that asks for a name decides what it is declared as. An
  export asks for a name, with parameters, for the function it defines and for
  every callee (`Use`). If no two that ask for one name ask for different things
  (`Agreed`), every call passes what its callee takes, and calls of different
  callees go to different functions (`assembled_calls`).
-/

namespace TypedIR.Llvm

/-! ## Types of heads -/

def RepTypes (rs : List Rep) (ts : List LType) : Prop :=
  List.Forall₂ (fun r t => LType.ofRep? r = some t) rs ts

theorem mapM_of_forall₂ {α β : Type} {F : α → Option β} {xs : List α} {ys : List β}
    (h : List.Forall₂ (fun x y => F x = some y) xs ys) : xs.mapM F = some ys := by
  induction h with
  | nil => rfl
  | cons hxy _ ih => simp [List.mapM_cons, hxy, ih]

theorem RepTypes.unique {rs : List Rep} {ts ts' : List LType} (h : RepTypes rs ts)
    (h' : RepTypes rs ts') : ts = ts' :=
  Option.mem_unique (mapM_of_forall₂ h) (mapM_of_forall₂ h')

variable {e : Engine} {f : Func}

theorem paramsOf_eq {sig : TypeId} {g : Signature} (h : e.types.signature? sig = some g) :
    LowerM.paramsOf e sig = g.params := by
  have hun : e.types.underlying sig = sig := by
    unfold TypeTable.signature? at h
    split at h
    · next d hd =>
      split at h
      · next hk => exact TypeTable.underlying_of_not_tagged hd (by rw [hk]; exact nofun)
      · cases h
    · cases h
  rw [LowerM.paramsOf, Engine.signature?, hun, h]
  rfl

theorem typeOfId_rep (he : e.Typed False) {p : TypeId} {t : LType} {r : Rep}
    (ht : LowerM.TypeOfId e p t) (hr : e.types.HasRep e.target p r) : LType.ofRep? r = some t := by
  obtain ⟨r', hr', ht'⟩ := ht
  have hr' := (TypeTable.findRep_right he.ordered p he.honest).1 r' hr'
  rwa [hr.unique hr']

theorem repTypes_of_typeOfId (he : e.Typed False) {ps : List TypeId} {ts : List LType} {rs : List Rep}
    (ht : List.Forall₂ (LowerM.TypeOfId e) ps ts)
    (hr : List.Forall₂ (fun p r => e.types.HasRep e.target p r) ps rs) : RepTypes rs ts := by
  induction ht generalizing rs with
  | nil =>
    cases hr
    exact .nil
  | cons ht _ ih =>
    cases hr with
    | cons hr hrs => exact .cons (typeOfId_rep he ht hr) (ih hrs)

theorem passing_eq {ps : List TypeId} {args : List ValueId} {ts : List LType}
    (h : LowerM.Passing e f ps args ts) (hlen : args.length = ps.length) :
    List.Forall₂ (LowerM.TypeOfId e) ps ts := by
  induction h with
  | @nil ps =>
    obtain rfl := List.length_eq_zero_iff.mp hlen.symm
    exact .nil
  | param ht _ ih => exact .cons ht (ih (Nat.succ.inj hlen))
  | extra => cases hlen

theorem passing_head (he : e.Typed False) {sig : TypeId} {h : Head} {args : List ValueId}
    {ts : List LType} (hof : h.Of e.target e.types sig) (hlen : args.length = h.params.length)
    (hp : LowerM.Passing e f (LowerM.paramsOf e sig) args ts) :
    List.Forall₂ (LowerM.TypeOfId e) (LowerM.paramsOf e sig) ts ∧ RepTypes h.params ts := by
  obtain ⟨g, hg, -, hparams⟩ := hof
  rw [paramsOf_eq hg] at hp ⊢
  have hts := passing_eq hp (hlen.trans hparams.length_eq.symm)
  exact ⟨hts, repTypes_of_typeOfId he hts hparams⟩

theorem repTypes_of_paramTypes {sc : TypedIR.Scope} (hf : f.Typed sc) {ts : List LType}
    (h : LowerM.ParamTypes f ts) : RepTypes f.head.params ts := by
  have hall : ∀ {ps : List ValueId} {ts : List LType}, (∀ p ∈ ps, p ∈ f.params) →
      List.Forall₂ (fun p t => ∃ i, f.values[p]? = some i ∧ LType.ofRep? i.rep = some t) ps ts →
      RepTypes (ps.filterMap f.rep?) ts := by
    intro ps ts hps h
    induction h with
    | nil => exact .nil
    | @cons p t ps ts hp _ ih =>
      obtain ⟨i, hi, ht⟩ := hp
      obtain ⟨info, hinfo, -⟩ := hf.param (hps p List.mem_cons_self)
      obtain ⟨hpos, hget, -⟩ := Func.value?_lt hinfo
      rw [List.filterMap_cons_some (Func.rep?_of_value? hinfo)]
      refine .cons ?_ (ih fun q hq => hps q (List.mem_cons_of_mem p hq))
      rw [Func.value?, if_neg (Nat.ne_of_gt hpos), hi] at hinfo
      rwa [← Option.some.inj hinfo]
  exact hall (fun p hp => hp) h

/-! ## Uses -/

/-- What is called: a function of an engine, a native, or a function that
mathematical operations are done with. Engines are told apart by where they are
at home. -/
inductive Callee (ι : Type) where
  | function (home : ι) (fn : FuncId)
  | native (name : String)
  | helper (name : String)
  deriving DecidableEq

/-- What a module is asked for: a name, what it is to stand for, and the types
of the parameters, unless any number of arguments will do. -/
structure Use (ι : Type) where
  name : String
  callee : Callee ι
  params : Option (List LType)
  deriving DecidableEq

variable {ι : Type}

def Use.Fits (u : Use ι) (g : Function) : Prop :=
  g.name = u.name ∧
    match u.params with
    | none => g.variadic = true
    | some ts => g.variadic = false ∧ g.params = ts

def typeOfId? (e : Engine) (id : TypeId) : Option LType :=
  match ((e.types.findRep e.target id).run e.layouts : Except Cause Rep × Layout.Cache).1 with
  | .ok r => LType.ofRep? r
  | .error _ => none

namespace Export

def calleeOf (home : ι) (e : Engine) (i : Insn) : Option (Callee ι) :=
  match i.op with
  | .call => some (.function home i.callee)
  | .callNative => some (.native i.native)
  | .math => some (.helper (LowerM.mathName i.math.name i.rep))
  | .pow =>
    let r := LowerM.workingRep e i
    some (.helper (LowerM.powerName r ((LType.ofRep? r).getD .void)))
  | _ => none

/-- What an instruction of the exported function `f` needs of what it calls:
the name, whether any number of arguments will do, and the types of the
parameters. -/
def needs (x : Export) (f : Func) (i : Insn) : Option (String × Bool × List LType) :=
  match i.op with
  | .call =>
    if i.callee = f.id then (f.head.params.mapM LType.ofRep?).map (x.name, false, ·)
    else match x.engine.findFunc i.callee with
      | .ok g => (g.head.params.mapM LType.ofRep?).map (g.name, LowerM.takesMore x.engine g.sig, ·)
      | .error _ => none
  | .callNative =>
    ((LowerM.paramsOf x.engine i.type).mapM (typeOfId? x.engine)).map
      (i.native, (LowerM.openNatives x.options.variadic f.insns.toList).contains i.native ||
        LowerM.takesMore x.engine i.type, ·)
  | .math =>
    (LType.ofRep? i.rep).map fun t => (LowerM.mathName i.math.name i.rep, false, i.args.map fun _ => t)
  | .pow =>
    let r := LowerM.workingRep x.engine i
    (LType.ofRep? r).map fun t => (LowerM.powerName r t, false, [t, t])
  | _ => none

def asksAt (home : ι) (x : Export) (f : Func) (i : Insn) : Option (Use ι) :=
  (calleeOf home x.engine i).bind fun callee =>
    (x.needs f i).map fun (name, isOpen, ts) => ⟨name, callee, if isOpen then none else some ts⟩

/-- What an export asks for: the function that it defines, and what the
instructions of that function call. -/
def asks (home : Export → ι) (x : Export) : List (Use ι) :=
  match x.engine.findFunc x.fn with
  | .ok f =>
    ((f.head.params.mapM LType.ofRep?).map fun ts =>
      ⟨x.name, .function (home x) f.id, some ts⟩).toList ++
        f.insns.toList.filterMap (asksAt (home x) x f)
  | .error _ => []

def callees (home : Export → ι) (x : Export) : List (Callee ι) :=
  match x.engine.findFunc x.fn with
  | .ok f => f.insns.toList.filterMap (calleeOf (home x) x.engine)
  | .error _ => []

theorem asks_eq (home : Export → ι) {x : Export} {f : Func} (hf : x.engine.findFunc x.fn = .ok f) :
    x.asks home = ((f.head.params.mapM LType.ofRep?).map fun ts =>
      ⟨x.name, .function (home x) f.id, some ts⟩).toList ++
        f.insns.toList.filterMap (asksAt (home x) x f) := by
  rw [asks, hf]

theorem calleeOf_isSome (home : ι) (e : Engine) (i : Insn) :
    (calleeOf home e i).isSome = LowerM.isCalling i.op := by
  unfold calleeOf
  cases i.op <;> rfl

theorem callees_eq (home : Export → ι) {x : Export} {f : Func}
    (hf : x.engine.findFunc x.fn = .ok f) : x.callees home =
      (f.insns.toList.filter (LowerM.isCalling ·.op)).filterMap (calleeOf (home x) x.engine) := by
  rw [callees, hf, List.filterMap_filter]
  refine List.filterMap_congr fun i _ => ?_
  rw [← calleeOf_isSome (home x) x.engine i]
  cases calleeOf (home x) x.engine i <;> rfl

end Export

namespace LowerM

theorem typed_call {sc : TypedIR.Scope} {f : Func} {i : Insn} (hi : i.Typed sc f) (hop : i.op = .call) :
    ∃ h : Head, h.Of sc.target sc.types i.type ∧ sc.heads i.callee = some h ∧
      i.args.length = h.params.length := by
  cases hi with
  | call ht hh _ hargs => exact ⟨_, ht, hh, hargs.length_eq⟩
  | binary hop' | compare hop' => cases hop; cases hop'
  | unary hop' | test hop' | branchOn hop' => cases hop; exact hop'.elim nofun nofun
  | _ => cases hop

theorem typed_callNative {sc : TypedIR.Scope} {f : Func} {i : Insn} (hi : i.Typed sc f)
    (hop : i.op = .callNative) :
    ∃ h : Head, h.Of sc.target sc.types i.type ∧ i.args.length = h.params.length := by
  cases hi with
  | callNative ht _ hargs => exact ⟨_, ht, hargs.length_eq⟩
  | binary hop' | compare hop' => cases hop; cases hop'
  | unary hop' | test hop' | branchOn hop' => cases hop; exact hop'.elim nofun nofun
  | _ => cases hop

theorem typeOfId?_of {e : Engine} {id : TypeId} {t : LType} (h : TypeOfId e id t) :
    typeOfId? e id = some t := by
  obtain ⟨r, hr, ht⟩ := h
  rw [typeOfId?, hr]
  exact ht

theorem DeclaredBy.fits {e : Engine} {sig : TypeId} {isOpen : Bool} {g : Function} {name : String}
    {c : Callee ι} {ts : List LType} (h : DeclaredBy e sig isOpen g) (hname : g.name = name)
    (hts : List.Forall₂ (TypeOfId e) (paramsOf e sig) g.params → g.params = ts) :
    Use.Fits ⟨name, c, if isOpen || takesMore e sig then none else some ts⟩ g := by
  refine ⟨hname, ?_⟩
  obtain ⟨-, h⟩ := h
  cases isOpen with
  | true => exact h.1
  | false =>
    obtain ⟨hvariadic, hparams⟩ := h
    cases hmore : takesMore e sig with
    | true => exact hvariadic.trans hmore
    | false => exact ⟨hvariadic.trans hmore, hts hparams⟩

/-- What a typed instruction refers to, it needs: what is declared for it fits,
and what it passes are the parameters. -/
theorem Refers.needs {x : Export} {f : Func} {sc : Scene} {name : String} {i : Insn}
    {fits : Function → Prop} {passes : List LType → Prop} (hr : Refers sc x.name i name fits passes)
    (hengine : sc.engine = x.engine) (hfunc : sc.func = f)
    (hopen : sc.openNatives = openNatives x.options.variadic f.insns.toList)
    (he : x.engine.Typed False) (hf : x.engine.func? f.id = some f)
    (hi : i.Typed x.engine.scope f) {ts : List LType} (hts : passes ts) :
    ∃ isOpen, x.needs f i = some (name, isOpen, ts) ∧ ∀ (c : Callee ι) g, g.name = name → fits g →
      Use.Fits ⟨name, c, if isOpen then none else some ts⟩ g := by
  subst hfunc
  cases hr with
  | self hop hself =>
    rw [hengine] at hts
    obtain ⟨h, hof, hh, hlen⟩ := typed_call hi hop
    have hreps := (passing_head he hof hlen hts).2
    change (x.engine.func? i.callee).map (·.head) = some h at hh
    rw [hself, hf] at hh
    obtain rfl := Option.some.inj hh
    exact ⟨false, by simp [Export.needs, hop, hself, mapM_of_forall₂ hreps], fun _ _ _ h => h.elim⟩
  | @other g hop hother hg =>
    rw [hengine] at hts hg
    obtain ⟨h, hof, hh, hlen⟩ := typed_call hi hop
    have hreps := (passing_head he hof hlen hts).2
    obtain ⟨hfunc, -⟩ := EngineM.findFunc_ok hg
    change (x.engine.func? i.callee).map (·.head) = some h at hh
    rw [hfunc] at hh
    obtain rfl := Option.some.inj hh
    refine ⟨takesMore x.engine g.sig, by simp [Export.needs, hop, hother, hg, mapM_of_forall₂ hreps],
      fun c g' hname hdecl => ?_⟩
    rw [hengine] at hdecl
    refine DeclaredBy.fits hdecl hname fun hparams => ?_
    obtain ⟨s, hs, -, hhas⟩ := (he.func hfunc).head_of
    exact (repTypes_of_typeOfId he (paramsOf_eq hs ▸ hparams) hhas).unique hreps
  | native hop =>
    rw [hengine] at hts
    obtain ⟨h, hof, hlen⟩ := typed_callNative hi hop
    obtain ⟨htypes, hreps⟩ := passing_head he hof hlen hts
    have hall : (paramsOf x.engine i.type).mapM (typeOfId? x.engine) = some ts :=
      mapM_of_forall₂ (htypes.imp fun _ _ => typeOfId?_of)
    refine ⟨sc.openNatives.contains i.native || takesMore x.engine i.type,
      by simp [Export.needs, hop, hall, hopen], fun c g' hname hdecl => ?_⟩
    rw [hengine] at hdecl
    refine DeclaredBy.fits hdecl hname fun hparams => ?_
    obtain ⟨s, hs, -, hhas⟩ := hof
    exact (repTypes_of_typeOfId he (paramsOf_eq hs ▸ hparams) hhas).unique hreps
  | math hop ht =>
    obtain rfl := hts
    exact ⟨false, by simp [Export.needs, hop, ht], fun c g hname hg => ⟨hname, hg⟩⟩
  | power hop ht =>
    obtain rfl := hts
    rw [hengine] at ht ⊢
    exact ⟨false, by simp [Export.needs, hop, ht], fun c g hname hg => ⟨hname, hg⟩⟩

theorem Refers.isCalling {sc : Scene} {own name : String} {i : Insn} {fits : Function → Prop}
    {passes : List LType → Prop} (h : Refers sc own i name fits passes) : isCalling i.op = true := by
  cases h with
  | self hop | other hop | native hop | math hop | power hop => rw [hop]; rfl

theorem asksAt_eq (home : ι) {x : Export} {f : Func} {i : Insn} {name : String} {isOpen : Bool}
    {ts : List LType} (hop : isCalling i.op = true) (h : x.needs f i = some (name, isOpen, ts)) :
    ∃ c, Export.calleeOf home x.engine i = some c ∧
      x.asksAt home f i = some ⟨name, c, if isOpen then none else some ts⟩ := by
  rw [← Export.calleeOf_isSome home x.engine i] at hop
  obtain ⟨c, hc⟩ := Option.isSome_iff_exists.mp hop
  exact ⟨c, hc, by simp [Export.asksAt, hc, h]⟩

end LowerM

/-! ## One export -/

def Module.bodies (m : Module) : List Body := m.functions.toList.filterMap (·.body)

/-- The calls in the body of an exported function. Each is of a function whose
name was asked for, and passes the parameters that it was asked for with. -/
structure BodyCalls (home : Export → ι) (x : Export) (m : Module) (b : Body) : Prop where
  results : ∀ d c args, .instr (.call d c args) ∈ b.lines → ∃ g, m.functions[c]? = some g ∧
    (d = none ↔ g.ret = .void) ∧ ∀ n, d = some n → ∀ l ∈ b.lines, ∀ t,
      .named (.temp n) t ∈ l.operands → t ≠ .void → t = g.ret
  sites : List.Forall₂ (fun k call => ∃ u g, u ∈ x.asks home ∧ u.callee = k ∧
      (∀ ts, u.params = some ts → call.2 = ts) ∧ m.functions[call.1]? = some g ∧ g.name = u.name)
    (x.callees home) (callsIn b.lines)

def Module.Keeps (m m' : Module) : Prop :=
  ∀ (c : Nat) (g : Function), m.functions[c]? = some g → m'.functions[c]? = some g

theorem BodyCalls.mono {home : Export → ι} {x : Export} {m m' : Module} {b : Body}
    (h : BodyCalls home x m b) (hm : m.Keeps m') : BodyCalls home x m' b := by
  refine ⟨fun d c args hcall => ?_, h.sites.imp ?_⟩
  · obtain ⟨g, hg, hresult⟩ := h.results d c args hcall
    exact ⟨g, hm c g hg, hresult⟩
  · rintro k call ⟨u, g, hu, hk, hparams, hg, hname⟩
    exact ⟨u, g, hu, hk, hparams, hm _ g hg, hname⟩

/-- What one export adds to a module. -/
structure Added (home : Export → ι) (x : Export) (m m' : Module) (b : Body) : Prop where
  bodies : m'.bodies = m.bodies ++ [b]
  kept : m.Keeps m'
  fits : ∀ g ∈ m'.functions, g ∈ m.functions ∨ ∃ u, u ∈ x.asks home ∧ u.Fits g
  calls : BodyCalls home x m' b

theorem named_lowering (m : Module) : m.lowering.Named := by
  intro n c hn
  have hmem : (n, c) ∈ m.lowering.names := by
    obtain ⟨pre, post, hsplit, -⟩ := List.lookup_eq_some_iff.mp hn
    rw [hsplit]
    exact List.mem_append_right _ List.mem_cons_self
  obtain ⟨⟨g, i⟩, hg, heq⟩ := List.mem_map.mp (List.mem_reverse.mp hmem)
  obtain ⟨rfl, rfl⟩ := Prod.mk.inj heq
  refine ⟨g, ?_, .inr rfl⟩
  rw [← Array.getElem?_toList]
  exact List.mem_zipIdx_iff_getElem?.mp hg

theorem modify_self {fs : Array Function} {old gs : List Function} {g : Function} (F : Function → Function)
    (h : fs.toList = old ++ g :: gs) : (fs.modify old.length F).toList = old ++ F g :: gs := by
  rw [Array.toList_modify, h, List.modify_eq_take_cons_drop (by simp)]
  simp

theorem forall₂_filterMap {α β γ : Type} {F : α → Option β} {R : α → γ → Prop} {R' : β → γ → Prop}
    {xs : List α} {ys : List γ} (h : List.Forall₂ R xs ys)
    (hR : ∀ x y, R x y → ∃ z, F x = some z ∧ R' z y) : List.Forall₂ R' (xs.filterMap F) ys := by
  induction h with
  | nil => exact .nil
  | cons hxy _ ih =>
    obtain ⟨z, hz, hzy⟩ := hR _ _ hxy
    rw [List.filterMap_cons_some hz]
    exact .cons hzy ih

theorem Module.addFunction_added (home : Export → ι) {x : Export} {m m' : Module} {target : Target}
    (hb : x.engine.Built target) (h : m.addFunction x.engine x.fn x.options = (.ok (), m'))
    (hplain : m'.Plain) : ∃ b, Added home x m m' b := by
  obtain ⟨f, sc, s₁, s₂, ret, params, slots, pieces, hf, -, hexp, rfl⟩ := exported_of_ok hb h
  obtain ⟨gs, hleaves⟩ := hexp.leaves rfl rfl
  obtain ⟨hfunc, -⟩ := EngineM.findFunc_ok hf
  have hft := hb.typed.func hfunc
  have hname : x.options.nameOf f = x.name := by rw [Export.name, hf]
  have hscene := hexp.opened.scene
  have hself : s₂.self = m.functions.toList.length := hexp.self.1
  have hplace := hexp.defined rfl
  rw [hname] at hleaves hplace
  have hmem : ∀ {i u}, i ∈ f.insns → x.asksAt (home x) f i = some u → u ∈ x.asks home := by
    intro i u hi hu
    rw [Export.asks_eq home hf]
    exact List.mem_append_right _ (List.mem_filterMap.mpr ⟨i, Array.mem_toList_iff.mpr hi, hu⟩)
  -- an instruction asks for what it refers to
  have hasks : ∀ {i : Insn} {name : String} {fits passes ts}, i ∈ f.insns →
      LowerM.Refers sc x.name i name fits passes → passes ts →
      ∃ u, u ∈ x.asks home ∧ Export.calleeOf (home x) x.engine i = some u.callee ∧ u.name = name ∧
        (∀ g, g.name = name → fits g → u.Fits g) ∧ ∀ us, u.params = some us → ts = us := by
    intro i name fits passes ts hi hr hts
    have hfunc' : x.engine.func? f.id = some f := (hb.typed.id hfunc).symm ▸ hfunc
    obtain ⟨isOpen, hneeds, hfits⟩ := hr.needs (congrArg LowerM.Scene.engine hscene)
      (congrArg LowerM.Scene.func hscene) (congrArg LowerM.Scene.openNatives hscene) hb.typed hfunc'
      (hft.insn i hi) hts
    obtain ⟨c, hc, hu⟩ := LowerM.asksAt_eq (home x) hr.isCalling hneeds
    refine ⟨_, hmem hi hu, hc, rfl, hfits c, fun us hus => ?_⟩
    cases isOpen with
    | true => cases hus
    | false => exact Option.some.inj hus
  -- the module, function by function
  generalize hF : (fun g : Function =>
    if g.body.isSome && !s₂.closed.blocks.isEmpty then { g with body := some s₂.closed } else g) = F
    at hplain hplace ⊢
  have hlike : ∀ {c : Nat} {g : Function}, s₂.module.functions[c]? = some g →
      ∃ g', (s₂.module.functions.modify s₂.self F)[c]? = some g' ∧ g'.name = g.name ∧
        g'.ret = g.ret := by
    intro c g hg
    rw [Array.getElem?_modify, hg]
    split
    · refine ⟨F g, rfl, ?_⟩
      rw [← hF]
      dsimp only
      split <;> exact ⟨rfl, rfl⟩
    · exact ⟨g, rfl, rfl, rfl⟩
  have hsplit : (s₂.module.functions.modify s₂.self F).toList =
      m.functions.toList ++ { name := x.name, ret, params, body := some s₂.closed } :: gs := by
    have hfunctions : s₂.module.functions.toList = m.functions.toList ++ _ := hleaves.functions
    have hmodify := modify_self F hfunctions
    rw [← hself] at hmodify
    rw [← Array.getElem?_toList, hmodify] at hplace
    have hdefined : F { name := x.name, ret, params, body := some {} } = _ :=
      Option.some.inj (Eq.trans (by simp [Module.lowering]) hplace)
    rw [hmodify, hdefined]
  refine ⟨s₂.closed, ?_, ?_, ?_, ?_, ?_⟩
  · have hnone : gs.filterMap (·.body) = [] :=
      List.filterMap_eq_nil_iff.mpr fun g hg => (hleaves.declared g hg).1
    have hone : (({ name := x.name, ret, params, body := some s₂.closed } : Function) :: gs).filterMap
        (·.body) = [s₂.closed] := by rw [List.filterMap_cons, hnone]
    rw [Module.bodies, hsplit, List.filterMap_append, hone]
    rfl
  · intro c g hg
    rw [← Array.getElem?_toList] at hg ⊢
    rw [hsplit]
    exact List.getElem?_append_left (List.getElem?_eq_some_iff.mp hg).1 ▸ hg
  · intro g hg
    rw [← Array.mem_toList_iff, hsplit, List.mem_append, List.mem_cons] at hg
    rcases hg with hg | rfl | hg
    · exact .inl (Array.mem_toList_iff.mp hg)
    · have hts : RepTypes f.head.params params := repTypes_of_paramTypes hft hexp.opened.takes
      refine .inr ⟨⟨x.name, .function (home x) f.id, some params⟩, ?_, rfl, rfl, rfl⟩
      rw [Export.asks_eq home hf, mapM_of_forall₂ hts]
      exact List.mem_append_left _ (List.mem_singleton_self _)
    · obtain ⟨-, i, hi, name, fits, passes, hr, ⟨ts, hts⟩, hgname, hfits⟩ := hleaves.declared g hg
      obtain ⟨u, hu, -, -, hfit, -⟩ := hasks hi hr hts
      exact .inr ⟨u, hu, hfit g hgname hfits⟩
  · obtain ⟨ls, horderly, hclosed⟩ := hleaves.orderly
    intro d c args hcall
    rw [hclosed] at hcall
    have hcall : .instr (.call d c args) ∈ ls := by simpa using hcall
    obtain ⟨g, hg, hd⟩ := horderly.callee d c args hcall
    obtain ⟨g', hg', -, hret⟩ := hlike hg
    refine ⟨g', hg', hret ▸ hd, ?_⟩
    rintro n rfl l hl t hx hvoid
    rw [hclosed, List.mem_append, List.mem_singleton] at hl
    rcases hl with hl | rfl
    · exact hret ▸ (horderly.result_type hcall hg hl hx).resolve_left hvoid
    · cases hx
  · have hnamed : s₂.Named := hleaves.named (named_lowering m)
    rw [Export.callees_eq home hf]
    have hinsn : ∀ i ∈ f.insns.toList.filter (LowerM.isCalling ·.op), i ∈ f.insns := fun i hi =>
      Array.mem_toList_iff.mp (List.mem_filter.mp hi).1
    refine forall₂_filterMap ((List.forall₂_and_left _ _).mpr ⟨hinsn, hleaves.calls⟩) ?_
    rintro i ⟨c, ts⟩ ⟨hi, name, fits, passes, hr, hts, hlookup⟩
    obtain ⟨u, hu, hcallee, huname, -, hparams⟩ := hasks hi hr hts
    obtain ⟨g, hg, hgname⟩ := hnamed name c hlookup
    obtain ⟨g', hg', hgname', -⟩ := hlike hg
    refine ⟨u.callee, hcallee, u, g', hu, rfl, hparams, hg', ?_⟩
    have hkey : g.key = g.name := by
      rw [Module.key_eq hgname'.symm, hplain g' (Array.mem_of_getElem? hg'), hgname']
    rw [hkey] at hgname
    rw [hgname', huname]
    exact hgname.elim id id

/-! ## Sequences of exports -/

/-- What is called by one name is one callee with one list of parameters. -/
def Agreed (home : Export → ι) (xs : List Export) : Prop :=
  ∀ u ∈ xs.flatMap (·.asks home), ∀ v ∈ xs.flatMap (·.asks home), u.name = v.name → u = v

instance [DecidableEq ι] (home : Export → ι) (xs : List Export) : Decidable (Agreed home xs) :=
  inferInstanceAs (Decidable (∀ u ∈ xs.flatMap (·.asks home), ∀ v ∈ xs.flatMap (·.asks home),
    u.name = v.name → u = v))

namespace Module

variable {m m' : Module} {xs : List Export} {home : Export → ι}

theorem assemble_added (hb : ∀ x ∈ xs, ∃ target, x.engine.Built target)
    (h : m.assemble xs = some m') (hplain : m'.Plain) :
    m.Keeps m' ∧ (∀ g ∈ m'.functions, g ∈ m.functions ∨ ∃ x ∈ xs, ∃ u, u ∈ x.asks home ∧ u.Fits g) ∧
      ∃ bs, m'.bodies = m.bodies ++ bs ∧ List.Forall₂ (fun x b => BodyCalls home x m' b) xs bs := by
  induction xs generalizing m with
  | nil =>
    obtain rfl := Option.some.inj h
    exact ⟨fun _ _ hg => hg, fun g hg => .inl hg, [], by simp, .nil⟩
  | cons x xs ih =>
    obtain ⟨m₁, hm₁, h⟩ := assemble_cons h
    obtain ⟨ns, hns⟩ := assemble_names h
    obtain ⟨target, hx⟩ := hb x List.mem_cons_self
    obtain ⟨b, hadded⟩ := addFunction_added home hx hm₁ (hplain.of_append hns)
    obtain ⟨hkeeps, hfits, bs, hbs, hcalls⟩ := ih (fun y hy => hb y (List.mem_cons_of_mem x hy)) h
    refine ⟨fun c g hg => hkeeps c g (hadded.kept c g hg), fun g hg => ?_, b :: bs, ?_, ?_⟩
    · rcases hfits g hg with hg | ⟨y, hy, hu⟩
      · exact (hadded.fits g hg).imp_right fun hu => ⟨x, List.mem_cons_self, hu⟩
      · exact .inr ⟨y, List.mem_cons_of_mem x hy, hu⟩
    · rw [hbs, hadded.bodies, List.append_assoc]
      rfl
    · exact .cons (hadded.calls.mono hkeeps) hcalls

/-- The calls of a module: the callee that the instruction names, and the
function of the module that the call is of. -/
def sites (home : Export → ι) (xs : List Export) (m : Module) : List (Callee ι × Nat) :=
  (xs.zip m.bodies).flatMap fun (x, b) => (x.callees home).zip ((callsIn b.lines).map Prod.fst)

/-- The calls of a module fit their callees: each passes the parameters of a
callee that takes no others, and what names its result (an operand that is void
names none) has the type that the callee gives. The calls go with the calling
instructions of the exported functions, and are of different functions if those
have different callees. -/
structure CallsFit (home : Export → ι) (xs : List Export) (m : Module) : Prop where
  fits : ∀ b ∈ m.bodies, ∀ d c args, .instr (.call d c args) ∈ b.lines →
    ∃ g, m.functions[c]? = some g ∧ (g.variadic = false → args.map (·.type) = g.params) ∧
      (d = none ↔ g.ret = .void) ∧ ∀ n, d = some n → ∀ l ∈ b.lines, ∀ t,
        .named (.temp n) t ∈ l.operands → t ≠ .void → t = g.ret
  complete : List.Forall₂ (fun x b => (x.callees home).length = (callsIn b.lines).length) xs m.bodies
  apart : ∀ s ∈ m.sites home xs, ∀ s' ∈ m.sites home xs, s.1 ≠ s'.1 → s.2 ≠ s'.2

theorem exists_of_mem_right {α β : Type} {R : α → β → Prop} {as : List α} {bs : List β}
    (h : List.Forall₂ R as bs) {b : β} (hb : b ∈ bs) : ∃ a ∈ as, R a b := by
  induction h with
  | nil => cases hb
  | cons hab _ ih =>
    rcases List.mem_cons.mp hb with rfl | hb
    · exact ⟨_, List.mem_cons_self, hab⟩
    · obtain ⟨a, ha, hab⟩ := ih hb
      exact ⟨a, List.mem_cons_of_mem _ ha, hab⟩

theorem site_asks (h : List.Forall₂ (fun x b => BodyCalls home x m b) xs m.bodies)
    {s : Callee ι × Nat} (hs : s ∈ m.sites home xs) :
    ∃ x ∈ xs, ∃ u g, u ∈ x.asks home ∧ u.callee = s.1 ∧ m.functions[s.2]? = some g ∧ g.name = u.name := by
  obtain ⟨⟨x, b⟩, hxb, hs⟩ := List.mem_flatMap.mp hs
  have hcalls := (List.forall₂_iff_zip.mp h).2 hxb
  dsimp only at hs
  rw [List.zip_map_right] at hs
  obtain ⟨⟨k, call⟩, hkc, rfl⟩ := List.mem_map.mp hs
  obtain ⟨u, g, hu, hk, -, hg, hname⟩ := (List.forall₂_iff_zip.mp hcalls.sites).2 hkc
  exact ⟨x, (List.of_mem_zip hxb).1, u, g, hu, hk, hg, hname⟩

end Module

/-- In a module that a sequence of exports assembled, of functions that were
built by operations and that ask for one thing under each name, every call
fits its callee, and different callees are different functions. -/
theorem assembled_calls (home : Export → ι) {triple : String} {xs : List Export} {m : Module}
    (hb : ∀ x ∈ xs, ∃ target, x.engine.Built target)
    (h : ({ triple } : Module).assemble xs = some m) (hplain : m.Plain) (hagreed : Agreed home xs) :
    m.CallsFit home xs := by
  obtain ⟨-, hfits, bs, hbs, hcalls⟩ := Module.assemble_added hb h hplain
  obtain rfl : m.bodies = bs := by simpa [Module.bodies] using hbs
  have hagreed : ∀ {x y u v}, x ∈ xs → y ∈ xs → u ∈ x.asks home → v ∈ y.asks home →
      u.name = v.name → u = v := fun hx hy hu hv =>
    hagreed _ (List.mem_flatMap.mpr ⟨_, hx, hu⟩) _ (List.mem_flatMap.mpr ⟨_, hy, hv⟩)
  -- what is found under a name is what was asked for
  have hfound : ∀ {x u g}, x ∈ xs → u ∈ x.asks home → g ∈ m.functions → g.name = u.name → u.Fits g := by
    intro x u g hx hu hg hname
    rcases hfits g hg with hg | ⟨y, hy, v, hv, hfit⟩
    · simp at hg
    · rwa [hagreed hx hy hu hv (hname.symm.trans hfit.1)]
  refine ⟨?_, hcalls.imp fun x b hcall => hcall.sites.length_eq, ?_⟩
  · intro b hb d c args hcall
    obtain ⟨x, hx, hbody⟩ := Module.exists_of_mem_right hcalls hb
    obtain ⟨g, hg, hresult⟩ := hbody.results d c args hcall
    have hmem : (c, args.map (·.type)) ∈ callsIn b.lines := List.mem_filterMap.mpr ⟨_, hcall, rfl⟩
    obtain ⟨k, -, u, g', hu, -, hparams, hg', hname⟩ := Module.exists_of_mem_right hbody.sites hmem
    obtain rfl := Option.mem_unique hg hg'
    obtain ⟨-, hfit⟩ := hfound hx hu (Array.mem_of_getElem? hg) hname
    refine ⟨g, hg, fun hfixed => ?_, hresult⟩
    cases hus : u.params with
    | none =>
      rw [hus] at hfit
      rw [hfit] at hfixed
      cases hfixed
    | some ts =>
      rw [hus] at hfit
      exact (hparams ts hus).trans hfit.2.symm
  · intro s hs s' hs' hne hsame
    obtain ⟨x, hx, u, g, hu, hk, hg, hname⟩ := Module.site_asks hcalls hs
    obtain ⟨y, hy, v, g', hv, hk', hg', hname'⟩ := Module.site_asks hcalls hs'
    rw [hsame] at hg
    obtain rfl := Option.mem_unique hg hg'
    rw [← hk, ← hk', hagreed hx hy hu hv (hname.symm.trans hname')] at hne
    exact hne rfl

/-- An engine with a function that calls another and a native, and one that
calls the native with another signature. -/
def sharedNative : Engine :=
  (Engine.create .i386 0 0 (.seeded 1) 0).after
    [.createContext, .buildStart 1, .signatureType 0 Builtin.int32.id [Builtin.int32.id],
      .createFunction 1 18 "twice", .binary 1 Opcode.add.code 1 1, .ret 1 2, .compile 1,
      .createFunction 1 18 "narrow", .call 2 1 [1], .callNative 2 "report" 18 [2], .ret 2 3, .compile 2,
      .signatureType 0 Builtin.int32.id [Builtin.int64.id],
      .createFunction 1 19 "wide", .callNative 3 "report" 19 [1], .ret 3 2, .compile 3]

/-- Two callees, two functions. -/
theorem narrow_calls_fit :
    ∃ m, ({} : Module).assemble [⟨sharedNative, 1, {}⟩, ⟨sharedNative, 2, {}⟩] = some m ∧ m.Plain ∧
      m.sites (fun _ => ()) [⟨sharedNative, 1, {}⟩, ⟨sharedNative, 2, {}⟩] =
        [(.function () 1, 0), (.native "report", 2)] ∧
      m.CallsFit (fun _ => ()) [⟨sharedNative, 1, {}⟩, ⟨sharedNative, 2, {}⟩] := by
  have hcheck : ((({} : Module).assemble [⟨sharedNative, 1, {}⟩, ⟨sharedNative, 2, {}⟩]).any
      fun m => m.functions.all (fun g => g.key == g.name) &&
        m.sites (fun _ => ()) [⟨sharedNative, 1, {}⟩, ⟨sharedNative, 2, {}⟩] ==
          [(.function () 1, 0), (.native "report", 2)]) = true := by decide +kernel
  obtain ⟨m, hm, hboth⟩ := (Option.any_eq_true _ _).mp hcheck
  obtain ⟨hkeys, hsites⟩ := Bool.and_eq_true_iff.mp hboth
  have hplain : m.Plain := fun g hg => eq_of_beq (Array.all_eq_true_iff_forall_mem.mp hkeys g hg)
  have hengine : sharedNative.Built .i386 := ⟨_, _, _, _, _, rfl⟩
  have hbuilt : ∀ x ∈ [(⟨sharedNative, 1, {}⟩ : Export), ⟨sharedNative, 2, {}⟩],
      ∃ target, x.engine.Built target := by
    intro x hx
    have hx : x.engine = sharedNative := by
      rcases List.mem_pair.mp hx with hx | hx <;> rw [hx]
    exact ⟨.i386, hx ▸ hengine⟩
  have hagreed : Agreed (fun _ => ()) [⟨sharedNative, 1, {}⟩, ⟨sharedNative, 2, {}⟩] := by decide +kernel
  exact ⟨m, hm, hplain, eq_of_beq hsites, assembled_calls _ hbuilt hm hplain hagreed⟩

/-- The second export calls the native as the first declared it, and passes
something else. -/
theorem wide_call_misfits :
    ∃ m, ({} : Module).assemble [⟨sharedNative, 2, {}⟩, ⟨sharedNative, 3, {}⟩] = some m ∧ m.Plain ∧
      ¬ m.CallsFit (fun _ => ()) [⟨sharedNative, 2, {}⟩, ⟨sharedNative, 3, {}⟩] := by
  have hcheck : ((({} : Module).assemble [⟨sharedNative, 2, {}⟩, ⟨sharedNative, 3, {}⟩]).any
      fun m => m.functions.all (fun g => g.key == g.name) && m.bodies.any fun b =>
        (callsIn b.lines).any fun (c, ts) => (m.functions[c]?).any fun g =>
          !g.variadic && ts != g.params) = true := by decide +kernel
  obtain ⟨m, hm, hboth⟩ := (Option.any_eq_true _ _).mp hcheck
  obtain ⟨hkeys, hany⟩ := Bool.and_eq_true_iff.mp hboth
  refine ⟨m, hm, fun g hg => eq_of_beq (Array.all_eq_true_iff_forall_mem.mp hkeys g hg), fun hfit => ?_⟩
  obtain ⟨b, hb, hany⟩ := List.any_eq_true.mp hany
  obtain ⟨⟨c, ts⟩, hcall, hany⟩ := List.any_eq_true.mp hany
  obtain ⟨g, hg, hmisfit⟩ := (Option.any_eq_true _ _).mp hany
  obtain ⟨l, hl, hlc⟩ := List.mem_filterMap.mp hcall
  obtain ⟨i, hi, hic⟩ := Option.bind_eq_some_iff.mp hlc
  cases i with
  | call d c' args =>
    obtain ⟨rfl, rfl⟩ := Prod.mk.inj (Option.some.inj hic)
    cases l with
    | instr j =>
      obtain rfl := Option.some.inj hi
      obtain ⟨g', hg', hparams, -⟩ := hfit.fits b hb d c' args hl
      obtain rfl := Option.mem_unique hg hg'
      simp only [Bool.and_eq_true, Bool.not_eq_true', bne_iff_ne] at hmisfit
      exact hmisfit.2 (hparams hmisfit.1)
    | head | ending => cases hi
  | _ => cases hic

end TypedIR.Llvm
