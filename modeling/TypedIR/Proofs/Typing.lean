import Mathlib.Data.List.Forall2
import TypedIR.Engine.Basic
import TypedIR.Proofs.Reps

/-
  What well-formed functions look like.

  `Insn.Typed` has one rule for each way an instruction can be: which values it
  names and how their representations go with the one it works in. A function is
  `Typed` when its values have the representations of their types, its parameters
  are its first values, a placed label stands where its position says, and all
  its instructions are typed.

  Typing is kept by everything that adds to the type table or to the function:
  values are never removed or changed, except that they may become addressable.
-/

namespace TypedIR

/-- What a call relies on: the representations of the parameters and of the
result. -/
structure Head where
  params : List Rep
  ret : Rep
  deriving DecidableEq

def Head.Of (target : Target) (t : TypeTable) (sig : TypeId) (h : Head) : Prop :=
  ∃ s, t.signature? sig = some s ∧ t.HasRep target s.result h.ret ∧
    List.Forall₂ (fun p r => t.HasRep target p r) s.params h.params

theorem Head.Of.grow {target : Target} {t t' : TypeTable} {sig : TypeId} {h : Head}
    (hof : h.Of target t sig) (hord : t.Ordered) (hg : t.Grows t') : h.Of target t' sig := by
  obtain ⟨s, hs, hret, hparams⟩ := hof
  exact ⟨s, hg.signature? hs, hret.grow hord hg, hparams.imp fun _ _ hr => hr.grow hord hg⟩

/-- What instructions are typed in: the target, the types, and the functions
that can be called. -/
structure Scope where
  target : Target
  types : TypeTable
  heads : FuncId → Option Head

/-- More types and more functions. -/
structure Scope.Grows (sc sc' : Scope) : Prop where
  target : sc'.target = sc.target
  types : sc.types.Grows sc'.types
  heads : ∀ {fn h}, sc.heads fn = some h → sc'.heads fn = some h

namespace Func

def rep? (f : Func) (v : ValueId) : Option Rep := (f.value? v).map (·.rep)

theorem rep?_of_value? {f : Func} {v : ValueId} {info : ValueInfo}
    (h : f.value? v = some info) : f.rep? v = some info.rep := by
  rw [rep?, h]
  rfl

theorem value?_of_rep? {f : Func} {v : ValueId} {r : Rep} (h : f.rep? v = some r) :
    ∃ info, f.value? v = some info ∧ info.rep = r :=
  Option.map_eq_some_iff.mp h

def head (f : Func) : Head :=
  { params := f.params.filterMap f.rep?, ret := f.ret }

/-- What a function is created with. -/
structure SameHeader (f f' : Func) : Prop where
  id : f'.id = f.id
  ctx : f'.ctx = f.ctx
  name : f'.name = f.name
  sig : f'.sig = f.sig
  ret : f'.ret = f.ret
  params : f'.params = f.params

/-- A value that may have become addressable or moved, and is otherwise the
same. -/
def SameValue (info info' : ValueInfo) : Prop :=
  info' = { info with addressable := info'.addressable, slot := info'.slot } ∧
    (info.addressable = true → info'.addressable = true)

/-- `f'` holds all values, labels and instructions of `f`. -/
structure Extends (f f' : Func) : Prop where
  header : SameHeader f f'
  value : ∀ {v info}, f.value? v = some info → ∃ info', f'.value? v = some info' ∧ SameValue info info'
  label : ∀ {l}, (f.label? l).isSome → (f'.label? l).isSome
  insn : ∀ {pc : Nat} {i}, f.insns[pc]? = some i → f'.insns[pc]? = some i

theorem SameHeader.refl (f : Func) : SameHeader f f :=
  ⟨rfl, rfl, rfl, rfl, rfl, rfl⟩

theorem SameHeader.trans {f g h : Func} (hfg : SameHeader f g) (hgh : SameHeader g h) :
    SameHeader f h :=
  ⟨hgh.id.trans hfg.id, hgh.ctx.trans hfg.ctx, hgh.name.trans hfg.name, hgh.sig.trans hfg.sig,
    hgh.ret.trans hfg.ret, hgh.params.trans hfg.params⟩

theorem SameValue.refl (info : ValueInfo) : SameValue info info := ⟨rfl, fun h => h⟩

theorem SameValue.trans {a b c : ValueInfo} (hab : SameValue a b) (hbc : SameValue b c) :
    SameValue a c := by
  refine ⟨?_, fun h => hbc.2 (hab.2 h)⟩
  rw [hbc.1, hab.1]

theorem SameValue.rep {info info' : ValueInfo} (h : SameValue info info') :
    info'.rep = info.rep := by rw [h.1]

theorem SameValue.type {info info' : ValueInfo} (h : SameValue info info') :
    info'.type = info.type := by rw [h.1]

theorem SameValue.origin {info info' : ValueInfo} (h : SameValue info info') :
    info'.origin = info.origin := by rw [h.1]

theorem Extends.refl (f : Func) : Extends f f :=
  ⟨.refl f, fun h => ⟨_, h, .refl _⟩, fun h => h, fun h => h⟩

theorem Extends.trans {f g h : Func} (hfg : Extends f g) (hgh : Extends g h) : Extends f h := by
  refine ⟨hfg.header.trans hgh.header, ?_, fun hl => hgh.label (hfg.label hl),
    fun hi => hgh.insn (hfg.insn hi)⟩
  intro v info hv
  obtain ⟨info', hv', hs⟩ := hfg.value hv
  obtain ⟨info'', hv'', hs'⟩ := hgh.value hv'
  exact ⟨info'', hv'', hs.trans hs'⟩

theorem Extends.rep? {f f' : Func} (h : Extends f f') {v : ValueId} {r : Rep}
    (hr : f.rep? v = some r) : f'.rep? v = some r := by
  obtain ⟨info, hv, rfl⟩ := value?_of_rep? hr
  obtain ⟨info', hv', hs⟩ := h.value hv
  rw [rep?_of_value? hv', hs.rep]

end Func

/-- The rules for instructions. -/
inductive Insn.Typed (sc : Scope) (f : Func) : Insn → Prop
  | binary {op dest a b rep ra rb} (hop : op.isBinary = true) (hd : f.rep? dest = some rep)
      (ha : f.rep? a = some ra) (hb : f.rep? b = some rb)
      (hsame : rep.cls ≠ .pointer → ra = rep ∧ rb = rep)
      (hs : ra.isScalar = true ∧ rb.isScalar = true) : Typed sc f { op, dest, a, b, rep }
  | unary {op dest a rep} (hop : op = .neg ∨ op = .not) (hd : f.rep? dest = some rep)
      (ha : f.rep? a = some rep) (hs : rep.isScalar = true) : Typed sc f { op, dest, a, rep }
  | compare {op dest a b rep} (hop : op.isCompare = true) (hd : f.rep? dest = some .bool)
      (ha : f.rep? a = some rep) (hb : f.rep? b = some rep) (hs : rep.isScalar = true) :
      Typed sc f { op, dest, a, b, rep }
  | test {op dest a rep} (hop : op = .toBool ∨ op = .toNotBool) (hd : f.rep? dest = some .bool)
      (ha : f.rep? a = some rep) (hs : rep.isScalar = true) : Typed sc f { op, dest, a, rep }
  | convert {dest a type rep want} (ht : sc.types.HasRep sc.target type want)
      (hd : f.rep? dest = some want) (ha : f.rep? a = some rep)
      (hs : rep.isScalar = true ∧ want.isScalar = true) :
      Typed sc f { op := .convert, dest, a, type, rep }
  | copy {dest a rep} (hd : f.rep? dest = some rep) (ha : f.rep? a = some rep)
      (hc : ∀ info, f.value? dest = some info → info.origin ≠ .const) :
      Typed sc f { op := .copy, dest, a, rep }
  | addressOf {dest a info} (ha : f.value? a = some info) (hm : info.addressable = true)
      (hd : f.rep? dest = some sc.target.pointerRep) : Typed sc f { op := .addressOf, dest, a }
  | loadRel {dest a offset type rep} (ht : sc.types.HasRep sc.target type rep)
      (hv : rep.cls ≠ .void) (hd : f.rep? dest = some rep)
      (ha : f.rep? a = some sc.target.pointerRep) :
      Typed sc f { op := .loadRel, dest, a, offset, type, rep }
  | storeRel {a b offset type rep} (ht : sc.types.HasRep sc.target type rep)
      (ha : f.rep? a = some sc.target.pointerRep) (hb : f.rep? b = some rep) :
      Typed sc f { op := .storeRel, a, b, offset, type, rep }
  | loadElem {dest a b type rep} (ht : sc.types.HasRep sc.target type rep)
      (hv : rep.cls ≠ .void) (hd : f.rep? dest = some rep)
      (ha : f.rep? a = some sc.target.pointerRep)
      (hb : f.rep? b = some (Builtin.nint.rep sc.target)) :
      Typed sc f { op := .loadElem, dest, a, b, type, rep }
  | storeElem {a b v type rep} (ht : sc.types.HasRep sc.target type rep)
      (ha : f.rep? a = some sc.target.pointerRep)
      (hb : f.rep? b = some (Builtin.nint.rep sc.target)) (hv : f.rep? v = some rep) :
      Typed sc f { op := .storeElem, a, b, args := [v], type, rep }
  | alloca {dest a} (hd : f.rep? dest = some sc.target.pointerRep)
      (ha : f.rep? a = some (Builtin.nuint.rep sc.target)) :
      Typed sc f { op := .alloca, dest, a }
  | label {l} (hl : (f.label? l).isSome) : Typed sc f { op := .label, label := l }
  | branch {l} (hl : (f.label? l).isSome) : Typed sc f { op := .branch, label := l }
  | branchOn {op a l rep} (hop : op = .branchIf ∨ op = .branchIfNot) (hl : (f.label? l).isSome)
      (ha : f.rep? a = some rep) (hs : rep.isScalar = true) : Typed sc f { op, a, label := l, rep }
  | ret {a} (ha : f.rep? a = some f.ret) (hs : f.ret.isScalar = true) :
      Typed sc f { op := .ret, a, rep := f.ret }
  | retNone {implicit} (hv : implicit = false → f.ret.cls = .void) :
      Typed sc f { op := .ret, implicit }
  | call {dest args callee type} {h : Head} (ht : h.Of sc.target sc.types type)
      (hh : sc.heads callee = some h) (hd : f.rep? dest = some h.ret)
      (hargs : List.Forall₂ (fun v r => f.rep? v = some r) args h.params) :
      Typed sc f { op := .call, dest, args, callee, type, rep := h.ret }
  | callNative {dest args native type} {h : Head} (ht : h.Of sc.target sc.types type)
      (hd : f.rep? dest = some h.ret)
      (hargs : List.Forall₂ (fun v r => f.rep? v = some r) args h.params) :
      Typed sc f { op := .callNative, dest, args, native, type, rep := h.ret }
  | math {dest args op rep} (hop : MathOp.ofCode op.code = op) (hc : rep.cls = .float)
      (hd : f.rep? dest = some rep) (hl : args.length = op.arity)
      (hargs : ∀ v ∈ args, f.rep? v = some rep) :
      Typed sc f { op := .math, dest, args, math := op, rep }

def Insn.operands (i : Insn) : List ValueId :=
  match i.op with
  | .neg | .not | .toBool | .toNotBool | .convert | .copy | .addressOf | .loadRel | .alloca =>
    [i.dest, i.a]
  | .storeRel => [i.a, i.b]
  | .storeElem => i.a :: i.b :: i.args
  | .branchIf | .branchIfNot => [i.a]
  | .ret => if i.a = 0 then [] else [i.a]
  | .call | .callNative | .math => i.dest :: i.args
  | .nop | .label | .branch | .other _ => []
  | _ => [i.dest, i.a, i.b]

variable {sc sc' : Scope} {f f' : Func}

/-- Instructions stay typed when there are more types, functions, values and
labels. -/
theorem Insn.Typed.mono {i : Insn} (hord : sc.types.Ordered) (hs : sc.Grows sc')
    (hf : f.Extends f') (h : i.Typed sc f) : i.Typed sc' f' := by
  have hrep : ∀ {id r}, sc.types.HasRep sc.target id r → sc'.types.HasRep sc'.target id r := by
    intro id r hr
    rw [hs.target]
    exact hr.grow hord hs.types
  have hof : ∀ {sig h}, Head.Of sc.target sc.types sig h → Head.Of sc'.target sc'.types sig h := by
    intro sig h hh
    rw [hs.target]
    exact hh.grow hord hs.types
  have hret := hf.header.ret
  cases h with
  | binary hop hd ha hb hsame hs =>
    exact .binary hop (hf.rep? hd) (hf.rep? ha) (hf.rep? hb) hsame hs
  | unary hop hd ha hs => exact .unary hop (hf.rep? hd) (hf.rep? ha) hs
  | compare hop hd ha hb hs => exact .compare hop (hf.rep? hd) (hf.rep? ha) (hf.rep? hb) hs
  | test hop hd ha hs => exact .test hop (hf.rep? hd) (hf.rep? ha) hs
  | convert ht hd ha hs => exact .convert (hrep ht) (hf.rep? hd) (hf.rep? ha) hs
  | copy hd ha hc =>
    refine .copy (hf.rep? hd) (hf.rep? ha) fun info' hv' => ?_
    obtain ⟨info, hv, -⟩ := Func.value?_of_rep? hd
    obtain ⟨info'', hv'', hsame⟩ := hf.value hv
    obtain rfl := Option.mem_unique hv' hv''
    rw [hsame.origin]
    exact hc info hv
  | addressOf ha hm hd =>
    obtain ⟨info', ha', hsame⟩ := hf.value ha
    refine .addressOf ha' (hsame.2 hm) ?_
    rw [hs.target]
    exact hf.rep? hd
  | loadRel ht hv hd ha =>
    rw [← hs.target] at ha
    exact .loadRel (hrep ht) hv (hf.rep? hd) (hf.rep? ha)
  | storeRel ht ha hb =>
    rw [← hs.target] at ha
    exact .storeRel (hrep ht) (hf.rep? ha) (hf.rep? hb)
  | loadElem ht hv hd ha hb =>
    rw [← hs.target] at ha hb
    exact .loadElem (hrep ht) hv (hf.rep? hd) (hf.rep? ha) (hf.rep? hb)
  | storeElem ht ha hb hv =>
    rw [← hs.target] at ha hb
    exact .storeElem (hrep ht) (hf.rep? ha) (hf.rep? hb) (hf.rep? hv)
  | alloca hd ha =>
    rw [← hs.target] at hd ha
    exact .alloca (hf.rep? hd) (hf.rep? ha)
  | label hl => exact .label (hf.label hl)
  | branch hl => exact .branch (hf.label hl)
  | branchOn hop hl ha hs => exact .branchOn hop (hf.label hl) (hf.rep? ha) hs
  | ret ha hs =>
    rw [← hret] at ha hs ⊢
    exact .ret (hf.rep? ha) hs
  | retNone hv => exact .retNone fun hi => hret ▸ hv hi
  | call ht hh hd hargs =>
    exact .call (hof ht) (hs.heads hh) (hf.rep? hd) (hargs.imp fun v r hv => hf.rep? hv)
  | callNative ht hd hargs =>
    exact .callNative (hof ht) (hf.rep? hd) (hargs.imp fun v r hv => hf.rep? hv)
  | math hop hc hd hl hargs =>
    exact .math hop hc (hf.rep? hd) hl fun v hv => hf.rep? (hargs v hv)

theorem Insn.Typed.operands {i : Insn} (h : i.Typed sc f) :
    ∀ v ∈ i.operands, ∃ r, f.rep? v = some r := by
  cases h with
  | @binary op dest a b rep ra rb hop hd ha hb =>
    have hop : Insn.operands { op, dest, a, b, rep } = [dest, a, b] := by
      cases op <;> first | rfl | exact (Bool.false_ne_true hop).elim
    simp [hop, hd, ha, hb]
  | @compare op dest a b rep hop hd ha hb =>
    have hop : Insn.operands { op, dest, a, b, rep } = [dest, a, b] := by
      cases op <;> first | rfl | exact (Bool.false_ne_true hop).elim
    simp [hop, hd, ha, hb]
  | unary hop hd ha | test hop hd ha => rcases hop with rfl | rfl <;> simp [Insn.operands, hd, ha]
  | convert _ hd ha | copy hd ha | loadRel _ _ hd ha | alloca hd ha =>
    simp [Insn.operands, hd, ha]
  | addressOf ha _ hd => simp [Insn.operands, hd, Func.rep?_of_value? ha]
  | storeRel _ ha hb => simp [Insn.operands, ha, hb]
  | loadElem _ _ hd ha hb => simp [Insn.operands, hd, ha, hb]
  | storeElem _ ha hb hv => simp [Insn.operands, ha, hb, hv]
  | label | branch => simp [Insn.operands]
  | branchOn hop _ ha => rcases hop with rfl | rfl <;> simp [Insn.operands, ha]
  | @ret a ha =>
    by_cases h0 : a = 0
    · simp [Insn.operands, h0]
    · simp [Insn.operands, h0, ha]
  | retNone => simp [Insn.operands]
  | call _ _ hd hargs | callNative _ hd hargs =>
    intro v hv
    rcases List.mem_cons.mp hv with rfl | hv
    · exact ⟨_, hd⟩
    · obtain ⟨k, hk, rfl⟩ := List.mem_iff_getElem.mp hv
      exact ⟨_, (List.forall₂_iff_get.mp hargs).2 k hk (hargs.length_eq ▸ hk)⟩
  | math _ _ hd _ hargs =>
    intro v hv
    rcases List.mem_cons.mp hv with rfl | hv
    · exact ⟨_, hd⟩
    · exact ⟨_, hargs v hv⟩

/-- A value has the representation of its type; a constant is canonical and
never lives in the frame. -/
structure ValueInfo.Typed (sc : Scope) (info : ValueInfo) : Prop where
  rep : sc.types.HasRep sc.target info.type info.rep
  origin : ∀ n, info.origin ≠ .other n
  const : info.origin = .const → info.rep.isScalar ∧ info.rep.Canonical info.bits ∧
    info.addressable = false

theorem ValueInfo.Typed.mono {info : ValueInfo} (hord : sc.types.Ordered) (hs : sc.Grows sc')
    (h : info.Typed sc) : info.Typed sc' :=
  ⟨hs.target ▸ h.rep.grow hord hs.types, h.origin, h.const⟩

def ValueInfo.IsParam (type : TypeId) (index : Nat) (info : ValueInfo) : Prop :=
  info = { type, rep := info.rep, origin := .param, param := index,
           addressable := info.addressable, slot := info.slot }

/-- The rules for functions. -/
structure Func.Typed (sc : Scope) (f : Func) : Prop where
  named : f.name ≠ ""
  first : f.values[0]? = some .placeholder
  firstLabel : f.labels[0]? = some (-1)
  value : ∀ {v info}, f.value? v = some info → info.Typed sc
  sig : ∃ s, sc.types.signature? f.sig = some s ∧ sc.types.HasRep sc.target s.result f.ret ∧
    f.ret.cls ≠ .struct ∧ f.params = (List.range s.params.length).map (· + 1) ∧
    ∀ i p, s.params[i]? = some p → ∃ info, f.value? (i + 1) = some info ∧ info.IsParam p i ∧
      info.rep.isScalar
  label : ∀ {l pos}, f.label? l = some pos → 0 ≤ pos →
    f.insns[pos.toNat]? = some { op := .label, label := l }
  /-- A label stands in one place only. -/
  placed : ∀ {pc : Nat} {i}, f.insns[pc]? = some i → i.op = .label →
    f.label? i.label = some (pc : Int)
  insn : ∀ i ∈ f.insns, i.Typed sc f

theorem Func.Typed.target_lt (h : f.Typed sc) {i : Insn} {pc : Nat} (hpc : f.target? i = some pc) :
    pc < f.insns.size := by
  unfold Func.target? at hpc
  split at hpc
  · next pos hpos =>
    split at hpc
    · cases hpc
    · next h0 =>
      obtain rfl := Option.some.inj hpc
      exact lt_of_getElem? (h.label hpos (by omega))
  · cases hpc

theorem Func.Typed.param (h : f.Typed sc) {p : ValueId} (hp : p ∈ f.params) :
    ∃ info, f.value? p = some info ∧ info.rep.isScalar = true := by
  obtain ⟨s, -, -, -, hparams, hvalues⟩ := h.sig
  rw [hparams, List.mem_map] at hp
  obtain ⟨i, hi, rfl⟩ := hp
  obtain ⟨info, hinfo, -, hs⟩ := hvalues i _ (List.getElem?_eq_getElem (List.mem_range.mp hi))
  exact ⟨info, hinfo, hs⟩

theorem Func.Typed.grow (hord : sc.types.Ordered) (hs : sc.Grows sc') (h : f.Typed sc) :
    f.Typed sc' := by
  obtain ⟨s, hsig, hret, hstruct, hparams, hvalues⟩ := h.sig
  refine ⟨h.named, h.first, h.firstLabel, fun hv => (h.value hv).mono hord hs,
    ⟨s, hs.types.signature? hsig, hs.target ▸ hret.grow hord hs.types, hstruct, hparams, hvalues⟩,
    h.label, h.placed, fun i hi => (h.insn i hi).mono hord hs (.refl f)⟩

/-! ## Adding to a function -/

namespace Func

theorem Typed.values_pos (h : f.Typed sc) : 0 < f.values.size :=
  lt_of_getElem? h.first

theorem Typed.labels_pos (h : f.Typed sc) : 0 < f.labels.size :=
  lt_of_getElem? h.firstLabel

theorem value?_lt {v : Nat} {info : ValueInfo} (h : f.value? v = some info) :
    0 < v ∧ f.values[v]? = some info ∧ v < f.values.size := by
  unfold value? at h
  split at h
  · cases h
  · next h0 => exact ⟨Nat.pos_of_ne_zero h0, h, lt_of_getElem? h⟩

theorem value?_of_pos {v : Nat} {info : ValueInfo} (h0 : 0 < v) (h : f.values[v]? = some info) :
    f.value? v = some info := by
  unfold value?
  rw [if_neg (Nat.ne_of_gt h0), h]

theorem label?_lt {l : Nat} {pos : Int} (h : f.label? l = some pos) :
    0 < l ∧ f.labels[l]? = some pos ∧ l < f.labels.size := by
  unfold label? at h
  split at h
  · cases h
  · next h0 => exact ⟨Nat.pos_of_ne_zero h0, h, lt_of_getElem? h⟩

theorem label?_of_pos {l : Nat} {pos : Int} (h0 : 0 < l) (h : f.labels[l]? = some pos) :
    f.label? l = some pos := by
  unfold label?
  rw [if_neg (Nat.ne_of_gt h0), h]

theorem value?_of_list {vs : List ValueInfo}
    (h : f.values = #[ValueInfo.placeholder] ++ vs.toArray) (i : Nat) :
    f.value? (i + 1) = vs[i]? := by
  unfold value?
  rw [if_neg (Nat.succ_ne_zero i), h, Array.getElem?_append_right (by simp)]
  simp

theorem value?_addValue {info : ValueInfo} (h0 : 0 < f.values.size) (v : Nat) :
    (f.addValue info).2.value? v =
      if v = f.values.size then some { info with slot := none } else f.value? v := by
  unfold value? addValue
  simp only [Array.getElem?_push]
  by_cases hv : v = f.values.size
  · simp [hv, Nat.ne_of_gt h0]
  · simp [hv]

theorem extends_addValue {info : ValueInfo} (h0 : 0 < f.values.size) :
    f.Extends (f.addValue info).2 := by
  refine ⟨⟨rfl, rfl, rfl, rfl, rfl, rfl⟩, ?_, fun h => h, fun h => h⟩
  intro v i hv
  refine ⟨i, ?_, .refl i⟩
  rw [value?_addValue h0, if_neg (Nat.ne_of_lt (value?_lt hv).2.2)]
  exact hv

theorem extends_push (i : Insn) : f.Extends (f.push i) := by
  refine ⟨⟨rfl, rfl, rfl, rfl, rfl, rfl⟩, fun h => ⟨_, h, .refl _⟩, fun h => h, ?_⟩
  intro pc j hj
  have hlt := lt_of_getElem? hj
  exact (Array.getElem?_push_lt hlt).trans ((Array.getElem?_eq_getElem hlt).symm.trans hj)

/-- What a function needs beyond an extension of a typed one: its new values
and instructions are typed and its placed labels are in place. -/
theorem Typed.extend (hord : sc.types.Ordered) (h : f.Typed sc) (hf : f.Extends f')
    (hfirst : f'.values[0]? = some .placeholder) (hlabel0 : f'.labels[0]? = some (-1))
    (hvalue : ∀ v info, f'.value? v = some info → info.Typed sc)
    (hlabel : ∀ l pos, f'.label? l = some pos → 0 ≤ pos →
      f'.insns[pos.toNat]? = some { op := .label, label := l })
    (hplaced : ∀ (pc : Nat) i, f'.insns[pc]? = some i → i.op = .label →
      f'.label? i.label = some (pc : Int))
    (hinsn : ∀ i ∈ f'.insns, i ∈ f.insns ∨ i.Typed sc f') : f'.Typed sc := by
  obtain ⟨s, hsig, hret, hstruct, hparams, hvalues⟩ := h.sig
  have hsc : sc.Grows sc := ⟨rfl, .refl _, fun h => h⟩
  refine ⟨hf.header.name ▸ h.named, hfirst, hlabel0, fun {v info} => hvalue v info,
    ⟨s, ?_, ?_, ?_, ?_, ?_⟩, fun {l pos} => hlabel l pos, fun {pc i} => hplaced pc i, ?_⟩
  · rw [hf.header.sig]; exact hsig
  · rw [hf.header.ret]; exact hret
  · rw [hf.header.ret]; exact hstruct
  · rw [hf.header.params]; exact hparams
  · intro i p hp
    obtain ⟨info, hv, hparam, hscalar⟩ := hvalues i p hp
    obtain ⟨info', hv', hsame⟩ := hf.value hv
    refine ⟨info', hv', ?_, hsame.rep ▸ hscalar⟩
    unfold ValueInfo.IsParam at hparam ⊢
    rw [hsame.1, hparam]
  · intro i hi
    rcases hinsn i hi with hold | hnew
    · exact (h.insn i hold).mono hord hsc hf
    · exact hnew

theorem Typed.addValue (hord : sc.types.Ordered) (h : f.Typed sc) {info : ValueInfo}
    (hi : info.Typed sc) : (f.addValue info).2.Typed sc := by
  refine h.extend hord (extends_addValue h.values_pos) ?_ h.firstLabel ?_ (fun l pos => h.label)
    (fun pc i => h.placed) fun i hi => .inl hi
  · exact (Array.getElem?_push_lt h.values_pos).trans
      ((Array.getElem?_eq_getElem h.values_pos).symm.trans h.first)
  · intro v i hv
    rw [value?_addValue h.values_pos] at hv
    split at hv
    · obtain rfl := Option.some.inj hv
      exact ⟨hi.rep, hi.origin, hi.const⟩
    · exact h.value hv

theorem Typed.push (hord : sc.types.Ordered) (h : f.Typed sc) {i : Insn} (hi : i.Typed sc f)
    (hop : i.op ≠ .label) : (f.push i).Typed sc := by
  have hext : f.Extends (f.push i) := extends_push i
  refine h.extend hord hext h.first h.firstLabel (fun v info => h.value) ?_ ?_ ?_
  · exact fun l pos hl hpos => hext.insn (h.label hl hpos)
  · intro pc j hj hlabel
    rcases Array.getElem?_push.symm.trans hj with hj'
    split at hj'
    · exact absurd (Option.some.inj hj' ▸ hlabel) hop
    · exact h.placed hj' hlabel
  · intro j hj
    rcases Array.mem_push.mp hj with hj | rfl
    · exact .inl hj
    · exact .inr (hi.mono hord ⟨rfl, .refl _, fun h => h⟩ hext)

theorem Typed.addLabel (hord : sc.types.Ordered) (h : f.Typed sc) :
    f.Extends f.addLabel.2 ∧ f.addLabel.2.Typed sc ∧ (f.addLabel.2.label? f.addLabel.1).isSome := by
  have hlabel : ∀ l : Nat, f.addLabel.2.label? l =
      if l = f.labels.size then some (-1) else f.label? l := by
    intro l
    unfold label? Func.addLabel
    simp only [Array.getElem?_push]
    by_cases hl : l = f.labels.size
    · simp [hl, Nat.ne_of_gt h.labels_pos]
    · simp [hl]
  have hext : f.Extends f.addLabel.2 := by
    refine ⟨⟨rfl, rfl, rfl, rfl, rfl, rfl⟩, fun h => ⟨_, h, .refl _⟩, ?_, fun h => h⟩
    intro l hl
    rw [hlabel]
    split <;> simp_all
  refine ⟨hext, h.extend hord hext h.first ?_ (fun v info => h.value) ?_ ?_ fun i hi => .inl hi, ?_⟩
  · exact (Array.getElem?_push_lt h.labels_pos).trans
      ((Array.getElem?_eq_getElem h.labels_pos).symm.trans h.firstLabel)
  · intro l pos hl hpos
    rw [hlabel] at hl
    split at hl
    · obtain rfl := Option.some.inj hl
      omega
    · exact h.label hl hpos
  · intro pc i hi hop
    have hold := h.placed hi hop
    rw [hlabel, if_neg (Nat.ne_of_lt (label?_lt hold).2.2)]
    exact hold
  · rw [hlabel]
    simp [Func.addLabel]

def place (f : Func) (l : LabelId) : Func :=
  ({ f with labels := f.labels.setIfInBounds l f.insns.size } : Func).push
    { op := .label, label := l }

theorem Typed.place (hord : sc.types.Ordered) (h : f.Typed sc) {l : Nat} {pos : Int}
    (hl : f.label? l = some pos) (hopen : pos < 0) :
    f.Extends (f.place l) ∧ (f.place l).Typed sc := by
  obtain ⟨hpos, -, hlt⟩ := label?_lt hl
  have hlabel : ∀ k : Nat, (f.place l).label? k =
      if k = l then some (f.insns.size : Int) else f.label? k := by
    intro k
    unfold label? Func.place Func.push
    simp only [Array.getElem?_setIfInBounds]
    by_cases hk : k = l
    · simp [hk, Nat.ne_of_gt hpos, hlt]
    · simp [hk, Ne.symm hk]
  have hinsns : (f.place l).insns = f.insns.push { op := .label, label := l } := rfl
  have hext : f.Extends (f.place l) := by
    refine ⟨⟨rfl, rfl, rfl, rfl, rfl, rfl⟩, fun h => ⟨_, h, .refl _⟩, ?_,
      (extends_push _).insn⟩
    intro k hk
    rw [hlabel]
    split <;> simp_all
  refine ⟨hext, h.extend hord hext h.first ?_ (fun v info => h.value) ?_ ?_ ?_⟩
  · have h0 : l ≠ 0 := Nat.ne_of_gt hpos
    simp [Func.place, Func.push, h0, h.firstLabel]
  · intro k pos' hk hpos'
    rw [hlabel] at hk
    split at hk
    · next hkl =>
      obtain rfl := Option.some.inj hk
      simp [hinsns, hkl]
    · exact hext.insn (h.label hk hpos')
  · intro pc i hi hop
    rw [hinsns, Array.getElem?_push] at hi
    split at hi
    · next hpc =>
      obtain rfl := Option.some.inj hi
      rw [hlabel, if_pos rfl, hpc]
    · have hold := h.placed hi hop
      rw [hlabel, if_neg ?_, hold]
      rintro hkl
      rw [hkl, hl] at hold
      have := Option.some.inj hold
      omega
  · intro i hi
    rw [hinsns] at hi
    rcases Array.mem_push.mp hi with hi | rfl
    · exact .inl hi
    · exact .inr (.label (by rw [hlabel]; simp))

def mark (f : Func) (v : ValueId) : Func :=
  { f with values := f.values.modify v ({ · with addressable := true }) }

theorem value?_mark {v w : Nat} :
    (f.mark v).value? w =
      if w = v then (f.value? v).map ({ · with addressable := true }) else f.value? w := by
  unfold value? mark
  simp only [Array.getElem?_modify]
  by_cases hw : w = v
  · subst hw
    by_cases h0 : w = 0 <;> simp [h0]
  · simp [hw, Ne.symm hw]

theorem extends_mark (v : ValueId) : f.Extends (f.mark v) := by
  refine ⟨⟨rfl, rfl, rfl, rfl, rfl, rfl⟩, ?_, fun h => h, fun h => h⟩
  intro w info hw
  rw [value?_mark]
  split
  · next hwv =>
    subst hwv
    exact ⟨_, by rw [hw]; rfl, rfl, fun _ => rfl⟩
  · exact ⟨info, hw, .refl info⟩

theorem Typed.mark (hord : sc.types.Ordered) (h : f.Typed sc) {v : Nat} {info : ValueInfo}
    (hv : f.value? v = some info) (hc : info.origin ≠ .const) : (f.mark v).Typed sc := by
  have hpos := (value?_lt hv).1
  refine h.extend hord (extends_mark v) ?_ h.firstLabel ?_ (fun l pos => h.label)
    (fun pc i => h.placed) fun i hi => .inl hi
  · have h0 : v ≠ 0 := Nat.ne_of_gt hpos
    simp [Func.mark, Array.getElem?_modify, h0, h.first]
  · intro w info' hw
    rw [value?_mark] at hw
    split at hw
    · rw [hv] at hw
      obtain rfl := Option.some.inj hw
      have ht := h.value hv
      exact ⟨ht.rep, ht.origin, fun hc' => absurd hc' hc⟩
    · exact h.value hw

end Func

end TypedIR
