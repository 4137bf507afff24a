import TypedIR.Proofs.FoundedTables
import TypedIR.Proofs.LayoutCaches
import TypedIR.Proofs.Outcome

/-
  Emitting does not look at where values live.

  Two functions are alike if they differ only in which scalars are addressable,
  and in the frame. Every emitter gives the same answer on two benches that hold
  alike functions, and leaves them alike.
-/

namespace TypedIR

section Lists

variable {α β : Type} {R : α → β → Prop} {xs : List α} {ys : List β}

theorem forall₂_getElem? (h : List.Forall₂ R xs ys) (i : Nat) : Option.Rel R xs[i]? ys[i]? := by
  induction h generalizing i with
  | nil => exact .none
  | cons hxy _ ih =>
    cases i with
    | zero => exact .some hxy
    | succ i => simpa using ih i

theorem forall₂_concat (h : List.Forall₂ R xs ys) {x : α} {y : β} (hxy : R x y) :
    List.Forall₂ R (xs ++ [x]) (ys ++ [y]) :=
  List.rel_append h (.cons hxy .nil)

theorem forall₂_set (h : List.Forall₂ R xs ys) {x : α} {y : β} (hxy : R x y) (i : Nat) :
    List.Forall₂ R (xs.set i x) (ys.set i y) := by
  induction h generalizing i with
  | nil => exact .nil
  | cons hab hrest ih =>
    cases i with
    | zero => exact .cons hxy hrest
    | succ i => exact .cons hab (ih i)

theorem forall₂_modify (h : List.Forall₂ R xs ys) {g : α → α} {g' : β → β} {i : Nat}
    (hg : ∀ x y, xs[i]? = some x → R x y → R (g x) (g' y)) :
    List.Forall₂ R (xs.modify i g) (ys.modify i g') := by
  induction h generalizing i with
  | nil => cases i <;> exact .nil
  | cons hab hrest ih =>
    cases i with
    | zero => exact .cons (hg _ _ rfl hab) hrest
    | succ i => exact .cons hab (ih hg)

end Lists

/-- Values that differ only in where they live; only scalars may. -/
inductive ValueInfo.Alike (info : ValueInfo) : ValueInfo → Prop
  | intro {addressable : Bool} {slot : Option Int}
      (hflag : info.rep.isScalar = false → addressable = info.addressable) :
      Alike info { info with addressable, slot }

/-- Functions that differ only in where scalars live. -/
inductive Func.Alike (f : Func) : Func → Prop
  | intro {values : Array ValueInfo} {frameSize : Int}
      (hvalues : List.Forall₂ ValueInfo.Alike f.values.toList values.toList) :
      Alike f { f with values, frameSize }

/-- Benches for a target that hold alike functions, with caches that answer
alike. -/
inductive Bench.Alike (target : Target) (b : Bench) : Bench → Prop
  | intro {layouts : Layout.Cache} {func : Func} (htarget : b.target = target)
      (hordered : b.types.Ordered) (hknown : b.func.Known b.types)
      (hlayouts : Layout.Alike b.target b.types b.layouts layouts) (hfunc : b.func.Alike func) :
      Alike target b { b with layouts, func }

theorem ValueInfo.Alike.refl (info : ValueInfo) : info.Alike info := .intro fun _ => rfl

namespace Func.Alike

variable {f f' : Func}

theorem value? (h : f.Alike f') (v : ValueId) :
    Option.Rel ValueInfo.Alike (f.value? v) (f'.value? v) := by
  obtain ⟨hvalues⟩ := h
  unfold Func.value?
  split
  · exact .none
  · simpa using forall₂_getElem? hvalues v

theorem name (h : f.Alike f') : f'.name = f.name := by
  obtain ⟨-⟩ := h
  rfl

theorem ret (h : f.Alike f') : f'.ret = f.ret := by
  obtain ⟨-⟩ := h
  rfl

theorem params (h : f.Alike f') : f'.params = f.params := by
  obtain ⟨-⟩ := h
  rfl

theorem insns (h : f.Alike f') : f'.insns = f.insns := by
  obtain ⟨-⟩ := h
  rfl

theorem compiled (h : f.Alike f') : f'.compiled = f.compiled := by
  obtain ⟨-⟩ := h
  rfl

theorem target? (h : f.Alike f') (i : Insn) : f'.target? i = f.target? i := by
  obtain ⟨-⟩ := h
  rfl

theorem rep? (h : f.Alike f') (v : ValueId) : f'.rep? v = f.rep? v := by
  have hrel := h.value? v
  unfold Func.rep?
  generalize f.value? v = x, f'.value? v = y at hrel
  cases hrel with
  | none => rfl
  | some hi =>
    obtain ⟨-⟩ := hi
    rfl

theorem endReachable (h : f.Alike f') : f'.endReachable = f.endReachable := by
  obtain @⟨values, frameSize, -⟩ := h
  have hreach : ∀ fuel seen work,
      { f with values, frameSize }.reachEnd fuel seen work = f.reachEnd fuel seen work := by
    intro fuel
    induction fuel with
    | zero => exact fun _ _ => rfl
    | succ fuel ih =>
      intro seen work
      cases work with
      | nil => rfl
      | cons pc work =>
        unfold Func.reachEnd
        dsimp only
        rcases f.insns[pc]? with _ | i
        · rfl
        · have hsucc : { f with values, frameSize }.successors pc i = f.successors pc i := rfl
          dsimp only
          rw [hsucc]
          rcases Func.visit seen work (f.successors pc i) with _ | ⟨seen', work'⟩
          · rfl
          · exact ih seen' work'
  exact hreach _ _ _

theorem addValue (h : f.Alike f') (info : ValueInfo) :
    (f'.addValue info).1 = (f.addValue info).1 ∧
    (f.addValue info).2.Alike (f'.addValue info).2 := by
  obtain ⟨hvalues⟩ := h
  refine ⟨by simpa [Func.addValue] using hvalues.length_eq.symm, .intro ?_⟩
  simpa [Func.addValue] using forall₂_concat hvalues (.refl { info with slot := none })

theorem mark (h : f.Alike f') (v : ValueId) : (f.mark v).Alike (f'.mark v) := by
  obtain ⟨hvalues⟩ := h
  refine .intro ?_
  rw [Func.mark, Array.toList_modify, Array.toList_modify]
  refine forall₂_modify hvalues fun x y _ hxy => ?_
  obtain ⟨-⟩ := hxy
  exact .intro fun _ => rfl

theorem mark_right (h : f.Alike f') {v : ValueId} {info : ValueInfo} (hv : f.value? v = some info)
    (hs : info.rep.isScalar = true) : f.Alike (f'.mark v) := by
  obtain ⟨hvalues⟩ := h
  refine .intro ?_
  rw [Array.toList_modify, ← List.modify_id v f.values.toList]
  refine forall₂_modify hvalues fun x y hx hxy => ?_
  obtain ⟨-⟩ := hxy
  refine .intro fun hns => ?_
  have hx : f.value? v = some x := by
    unfold Func.value? at hv ⊢
    split at hv
    · cases hv
    · rw [if_neg ‹_›, ← hx]
      simp
  obtain rfl := Option.mem_unique hv hx
  exact absurd (hs.symm.trans hns) nofun

end Func.Alike

namespace Emit

abbrev Blind {α : Type} (target : Target) (act : EmitM α) : Prop := Respects (Bench.Alike target) act

end Emit

namespace Emit.Blind

open TypedIR.Respects

variable {α β : Type} {target : Target}

theorem fail' (c : Cause) : Blind target (Emit.fail c : EmitM α) := by
  intro b b' h
  obtain ⟨ht, hord, hk, hl, ⟨hv⟩⟩ := h
  exact ⟨rfl, ht, hord, hk, hl, ⟨hv⟩⟩

theorem get_bind {k : Bench → EmitM α} (hsame : ∀ b b' : Bench, Bench.Alike target b b' → k b' = k b)
    (hk : ∀ b, Blind target (k b)) : Blind target (get >>= k) := by
  refine bind_get fun b b' h => ?_
  rw [hsame b b' h]
  exact hk b b b' h

theorem typeText (id : TypeId) : Blind target (Emit.typeText id) := by
  refine bind_get ?_
  intro b b' h
  obtain ⟨ht, hord, hk, hl, hf⟩ := h
  exact ⟨rfl, ht, hord, hk, hl, hf⟩

theorem layoutOf (id : TypeId) : Blind target (Emit.layoutOf id) := by
  refine bind_get ?_
  intro b b' h
  obtain ⟨ht, hord, hk, hl, hf⟩ := h
  obtain ⟨ha, hl'⟩ := hl.ask hord id
  exact ⟨congrArg Except.ok ha, ht, hord, hk, hl', hf⟩

theorem run_repOf (id : TypeId) (b : Bench) :
    ((Emit.repOf id).run b : Except Failure Rep × Bench) =
      let r := (b.types.findRep b.target id).run b.layouts
      (r.1.mapError fun c => { cause := c }, { b with layouts := r.2 }) := by
  unfold Emit.repOf
  rw [run_bind_get]
  rcases (b.types.findRep b.target id).run b.layouts with ⟨_ | _, _⟩ <;> rfl

theorem repOf (id : TypeId) : Blind target (Emit.repOf id) := by
  intro b b' h
  obtain ⟨ht, hord, hk, hl, hf⟩ := h
  obtain ⟨ha, hl'⟩ := hl.findRep hord id
  unfold Agree
  rw [run_repOf, run_repOf]
  exact ⟨congrArg (Except.mapError fun c => ({ cause := c } : Failure)) ha, ht, hord, hk, hl', hf⟩

theorem repOf_known {id : TypeId} {b b₁ : Bench} {r : Rep}
    (h : ((Emit.repOf id).run b : Except Failure Rep × Bench) = (.ok r, b₁)) :
    id < b₁.types.types.size := by
  rw [run_repOf] at h
  obtain ⟨hr, rfl⟩ := Prod.mk.inj h
  dsimp only
  rw [TypeTable.run_findRep] at hr
  rcases hd : b.types.find? (b.types.underlying id) with _ | d
  · rw [hd] at hr
    cases hr
  · obtain ⟨d', hd'⟩ := TypeTable.known_of_underlying hd
    exact (TypeTable.find?_lt hd').2

theorem run_value (v : ValueId) (b : Bench) :
    ((Emit.value v).run b : Except Failure ValueInfo × Bench) =
      match b.func.value? v with
      | some info => (.ok info, b)
      | none => (.error { cause := .unknownValue v, function := b.func.name }, b) := by
  have h : ((Emit.value v).run b : Except Failure ValueInfo × Bench) =
      ((match b.func.value? v with
        | some info => pure info
        | none => Emit.fail (.unknownValue v) : EmitM ValueInfo).run b :
        Except Failure ValueInfo × Bench) := rfl
  rw [h]
  rcases b.func.value? v with _ | info <;> rfl

theorem value_agree {b b' : Bench} (h : Bench.Alike target b b') {v : ValueId} {k : ValueInfo → EmitM α}
    (hk : ∀ info, b.func.value? v = some info → Agree (Bench.Alike target) (k info) b b')
    (hsame : ∀ info addressable slot, k { info with addressable, slot } = k info) :
    Agree (Bench.Alike target) (Emit.value v >>= k) b b' := by
  have hval : Option.Rel ValueInfo.Alike (b.func.value? v) (b'.func.value? v) := by
    obtain ⟨-, -, -, -, hf⟩ := h
    exact hf.value? v
  unfold Agree
  rw [run_bind, run_bind, run_value, run_value]
  generalize b.func.value? v = x, b'.func.value? v = y at hval hk
  cases hval with
  | none =>
    obtain ⟨ht, hord, hknown, hl, ⟨hv⟩⟩ := h
    exact ⟨rfl, ht, hord, hknown, hl, ⟨hv⟩⟩
  | some hxy =>
    obtain ⟨-⟩ := hxy
    dsimp only
    rw [hsame]
    exact hk _ rfl

theorem value_bind {v : ValueId} {k : ValueInfo → EmitM α} (hk : ∀ info, Blind target (k info))
    (hsame : ∀ info addressable slot, k { info with addressable, slot } = k info) :
    Blind target (Emit.value v >>= k) :=
  fun b b' h => value_agree h (fun info _ => hk info b b' h) hsame

theorem knownLabel (l : LabelId) : Blind target (Emit.knownLabel l) := by
  refine bind_get ?_
  intro b b' h
  obtain ⟨ht, hord, hk, hl, hf⟩ := h
  have hlabel : ∀ {f f' : Func}, f.Alike f' → f'.label? l = f.label? l := by
    intro f f' hf
    obtain ⟨-⟩ := hf
    rfl
  dsimp only
  rw [hlabel hf]
  rcases b.func.label? l with _ | pos
  · exact fail' _ _ _ ⟨ht, hord, hk, hl, hf⟩
  · exact ⟨rfl, ht, hord, hk, hl, hf⟩

theorem push (i : Insn) : Blind target (Emit.push i) := by
  refine modify' ?_
  intro b b' h
  obtain ⟨ht, hord, hk, hl, ⟨hv⟩⟩ := h
  exact ⟨ht, hord, hk, hl, ⟨hv⟩⟩

theorem addValue {b b' : Bench} (h : Bench.Alike target b b') {info : ValueInfo}
    (hinfo : info.type < b.types.types.size) : Agree (Bench.Alike target) (Emit.addValue info) b b' := by
  obtain ⟨ht, hord, hk, hl, hf⟩ := h
  obtain ⟨hid, hf'⟩ := hf.addValue info
  exact ⟨congrArg Except.ok hid, ht, hord, Func.OfTypes.addValue hk hinfo, hl, hf'⟩

theorem fail_bind {c : Cause} {k : α → EmitM β} : Blind target (Emit.fail c >>= k) := by
  intro b b' h
  obtain ⟨ht, hord, hk, hl, ⟨hv⟩⟩ := h
  exact ⟨rfl, ht, hord, hk, hl, ⟨hv⟩⟩

theorem failText {c : String → Cause} (type : TypeId) {k : α → EmitM β} :
    Blind target (Emit.typeText type >>= fun s => Emit.fail (c s) >>= k) :=
  bind' (typeText type) fun _ => fail_bind

theorem failTexts {c : String → String → Cause} (x y : TypeId) {k : α → EmitM β} :
    Blind target (Emit.typeText x >>= fun s => Emit.typeText y >>= fun t => Emit.fail (c s t) >>= k) :=
  bind' (typeText x) fun _ => bind' (typeText y) fun _ => fail_bind

theorem temp (type : TypeId) : Blind target (Emit.temp type) :=
  fun b b' h => (repOf type b b' h).bind' fun _ _ _ hr h₁ => addValue h₁ (repOf_known hr)

theorem compute (type : TypeId) (i : ValueId → Insn) :
    Blind target (Emit.temp type >>= fun dest => Emit.push (i dest) >>= fun _ => pure dest) :=
  bind' (temp type) fun dest => bind' (push _) fun _ => pure' dest

theorem coerce (v : ValueId) (type : TypeId) : Blind target (Emit.coerce v type) := by
  refine value_bind (fun info => ?_) fun _ _ _ => rfl
  refine ite' (fun _ => pure' v) fun _ => ?_
  refine bind' (repOf type) fun want => ?_
  refine ite' (fun _ => pure' v) fun _ => ?_
  exact ite' (fun _ => failTexts info.type type) fun _ => compute type _

theorem numeric (type : TypeId) : Blind target (Emit.numeric? type) := by
  refine bind_get ?_
  intro b b' h
  obtain ⟨ht, hord, hk, hl, hf⟩ := h
  dsimp only
  rcases b.types.find? (b.types.underlying type) with _ | d
  · exact ⟨rfl, ht, hord, hk, hl, hf⟩
  · by_cases hd : d.isScalar = true
    · simp only [hd, if_true]
      exact bind' (layoutOf _) (fun _ => pure' _) _ _ ⟨ht, hord, hk, hl, hf⟩
    · simp only [hd]
      exact ⟨rfl, ht, hord, hk, hl, hf⟩

theorem promoteUnary (type : TypeId) : Blind target (Emit.promoteUnary? type) := by
  refine bind' (numeric type) fun n => ?_
  cases n <;> exact pure' _

theorem commonType (op : Opcode) (x y : TypeId) : Blind target (Emit.commonType op x y) := by
  unfold Emit.commonType
  refine bind' (numeric x) fun na => bind' (numeric y) fun nb => ?_
  split
  · refine ite' (fun _ => ?_) fun _ => ?_
    · refine ite' (fun _ => pure' _) fun _ => ?_
      exact ite' (fun _ => fail_bind) fun _ => pure' _
    · refine ite' (fun _ => pure' _) fun _ => ?_
      refine ite' (fun _ => pure' _) fun _ => ?_
      refine ite' (fun _ => pure' _) fun _ => ?_
      refine ite' (fun _ => pure' _) fun _ => ?_
      exact bind' (numeric _) fun _ => bind' (numeric _) fun _ => pure' _
  · exact bind' (typeText x) fun _ => bind' (typeText y) fun _ => fail' _

theorem coerceOffset (v : ValueId) (pointer : TypeId) : Blind target (Emit.coerceOffset v pointer) := by
  refine value_bind (fun info => ?_) fun _ _ _ => rfl
  refine bind' (numeric info.type) fun n => ?_
  cases n with
  | none => exact bind' (typeText _) fun _ => bind' (typeText _) fun _ => fail' _
  | some n =>
    refine ite' (fun _ => pure' v) fun _ => ?_
    exact ite' (fun _ => coerce v _) fun _ => coerce v _

theorem binary (op : Opcode) (x y : ValueId) : Blind target (Emit.binary op x y) := by
  unfold Emit.binary
  refine value_bind (fun vx => value_bind (fun vy => ?_) fun _ _ _ => rfl) fun _ _ _ => rfl
  extract_lets k
  have hk : ∀ type, Blind target (k type) := by
    intro type
    refine bind' (repOf type) fun rep => ?_
    refine ite' (fun _ => failText type) fun _ => ?_
    have hoperand : ∀ v, Blind target
        ((if rep.cls = .pointer then Emit.coerceOffset else Emit.coerce) v type) := by
      intro v
      split
      · exact coerceOffset v type
      · exact coerce v type
    exact bind' (hoperand x) fun _ => bind' (hoperand y) fun _ => compute type _
  clear_value k
  refine ite' (fun _ => ?_) fun _ => bind' (commonType op _ _) hk
  refine bind' (promoteUnary _) fun t => ?_
  cases t with
  | none => exact failText _
  | some t => exact hk t

theorem unary (op : Opcode) (x : ValueId) : Blind target (Emit.unary op x) := by
  refine value_bind (fun vx => ?_) fun _ _ _ => rfl
  refine bind' (promoteUnary _) fun t => ?_
  cases t with
  | none => exact bind' (typeText _) fun _ => fail' _
  | some type =>
    refine bind' (repOf type) fun rep => ?_
    refine ite' (fun _ => failText type) fun _ => ?_
    exact bind' (coerce x type) fun _ => compute type _

theorem compare (op : Opcode) (x y : ValueId) : Blind target (Emit.compare op x y) := by
  refine value_bind (fun vx => value_bind (fun vy => ?_) fun _ _ _ => rfl) fun _ _ _ => rfl
  refine bind' (commonType op _ _) fun type => bind' (repOf type) fun rep => ?_
  exact bind' (coerce x type) fun _ => bind' (coerce y type) fun _ => compute _ _

theorem test (op : Opcode) (x : ValueId) : Blind target (Emit.test op x) := by
  refine value_bind (fun vx => ?_) fun _ _ _ => rfl
  exact ite' (fun _ => failText _) fun _ => compute _ _

theorem convert (x : ValueId) (type : TypeId) : Blind target (Emit.convert x type) := by
  refine value_bind (fun vx => ?_) fun _ _ _ => rfl
  refine bind' (repOf type) fun want => ?_
  exact ite' (fun _ => failTexts _ _) fun _ => compute type _

theorem store (dest src : ValueId) : Blind target (Emit.store dest src) := by
  refine value_bind (fun vd => value_bind (fun vs => ?_) fun _ _ _ => rfl) fun _ _ _ => rfl
  refine ite' (fun _ => fail_bind) fun _ => ?_
  refine ite' (fun _ => ite' (fun _ => failTexts _ _) fun _ => push _) fun _ => ?_
  exact bind' (coerce src vd.type) fun _ => push _

theorem markAddressable (v : ValueId) : Blind target (Emit.markAddressable v) := by
  refine modify' fun b b' h => ?_
  obtain ⟨ht, hord, hk, hl, hf⟩ := h
  exact ⟨ht, hord, Func.OfTypes.mark hk v, hl, hf.mark v⟩

theorem retype {b b' : Bench} (h : Bench.Alike target b b') {r : TypeId × TypeTable} {d : Descriptor}
    (hm : b.types.Makes r d) : Bench.Alike target { b with types := r.2 } { b' with types := r.2 } := by
  obtain ⟨ht, hord, hk, hl, hf⟩ := h
  refine ⟨ht, hm.ordered, fun v info hv => ?_, hl.grow hord hm.ordered hm.grows, hf⟩
  exact Nat.lt_of_lt_of_le (hk v info hv) hm.grows.size_le

theorem addressOf (v : ValueId) : Blind target (Emit.addressOf v) := by
  intro b b' h
  refine value_agree h (fun vi hv => ?_) fun _ _ _ => rfl
  refine .ite' (fun _ => fail_bind _ _ h) fun _ => ?_
  refine (markAddressable v b b' h).bind' fun _ b₁ b₁' hr h₁ => ?_
  obtain ⟨-, rfl⟩ := Prod.mk.inj hr
  have htarget : vi.type < b.types.types.size := by
    obtain ⟨-, -, hk, -, -⟩ := h
    exact hk v vi hv
  have hm : b.types.Makes (b.types.intern (.pointer vi.type)) (.pointer vi.type) := by
    obtain ⟨-, hord, -, -, -⟩ := h
    exact hord.makes_pointer htarget
  have hrun := compute (b.types.intern (.pointer vi.type)).1
    (fun dest => { op := .addressOf, dest, a := v }) _ _ (retype h₁ hm)
  obtain ⟨-, -, -, -, -⟩ := h₁
  exact hrun

theorem pointerOperand (v : ValueId) : Blind target (Emit.pointerOperand v) := by
  refine value_bind (fun vi => ?_) fun _ _ _ => rfl
  exact ite' (fun _ => bind' (typeText _) fun _ => fail' _) fun _ => pure' _

theorem loadRel (ptr : ValueId) (offset : Int) (type : TypeId) :
    Blind target (Emit.loadRel ptr offset type) := by
  refine bind' (pointerOperand ptr) fun _ => bind' (repOf type) fun rep => ?_
  exact ite' (fun _ => fail_bind) fun _ => compute type _

theorem storeRel (ptr : ValueId) (offset : Int) (v : ValueId) :
    Blind target (Emit.storeRel ptr offset v) := by
  refine bind' (pointerOperand ptr) fun _ => ?_
  exact value_bind (fun vi => push _) fun _ _ _ => rfl

theorem loadElem (base index : ValueId) (type : TypeId) :
    Blind target (Emit.loadElem base index type) := by
  refine bind' (pointerOperand base) fun _ => bind' (coerce index _) fun _ => ?_
  refine bind' (repOf type) fun rep => ?_
  exact ite' (fun _ => fail_bind) fun _ => compute type _

theorem storeElem (base index v : ValueId) : Blind target (Emit.storeElem base index v) := by
  refine bind' (pointerOperand base) fun _ => bind' (coerce index _) fun _ => ?_
  exact value_bind (fun vi => push _) fun _ _ _ => rfl

theorem alloca (size : ValueId) : Blind target (Emit.alloca size) :=
  bind' (coerce size _) fun _ => compute _ _

theorem placeLabel (l : LabelId) : Blind target (Emit.placeLabel l) := by
  refine bind' (knownLabel l) fun pos => ?_
  refine ite' (fun _ => fail_bind) fun _ => bind' (modify' ?_) fun _ => push _
  intro b b' h
  obtain ⟨ht, hord, hk, hl, ⟨hv⟩⟩ := h
  exact ⟨ht, hord, hk, hl, ⟨hv⟩⟩

theorem branch (l : LabelId) : Blind target (Emit.branch l) :=
  bind' (knownLabel l) fun _ => push _

theorem branchOn (op : Opcode) (cond : ValueId) (l : LabelId) :
    Blind target (Emit.branchOn op cond l) := by
  refine bind' (knownLabel l) fun _ => value_bind (fun vc => ?_) fun _ _ _ => rfl
  exact ite' (fun _ => failText _) fun _ => push _

theorem ret (v : ValueId) : Blind target (Emit.ret v) := by
  refine get_bind ?_ fun b => ?_
  · intro b b' h
    obtain ⟨-, -, -, -, ⟨-⟩⟩ := h
    rfl
  · refine ite' (fun _ => ite' (fun _ => fail_bind) fun _ => push _) fun _ => ?_
    refine ite' (fun _ => fail_bind) fun _ => get_bind ?_ fun b => ?_
    · intro b b' h
      obtain ⟨-, -, -, -, -⟩ := h
      rfl
    · exact bind' (coerce v _) fun _ => push _

theorem defaultReturn : Blind target Emit.defaultReturn := by
  refine get_bind ?_ fun b => ?_
  · intro b b' h
    obtain ⟨-, -, -, -, hf⟩ := h
    dsimp only
    rw [hf.endReachable]
  · exact ite' (fun _ => pure' _) fun _ => bind' (push _) fun _ => pure' _

theorem coerceArgs (args : List ValueId) (params : List TypeId) :
    Blind target (Emit.coerceArgs args params) := by
  induction args generalizing params with
  | nil => exact pure' _
  | cons a args ih =>
    cases params with
    | nil => exact pure' _
    | cons p params => exact bind' (coerce a p) fun _ => bind' (ih params) fun _ => pure' _

theorem callArgs (s : Signature) (args : List ValueId) : Blind target (Emit.callArgs s args) :=
  ite' (fun _ => fail_bind) fun _ => coerceArgs args s.params

theorem call (callee : FuncId) (sig : TypeId) (rep : Rep) (args : List ValueId) :
    Blind target (Emit.call callee sig rep args) := by
  refine get_bind ?_ fun b => ?_
  · intro b b' h
    obtain ⟨-, -, -, -, -⟩ := h
    rfl
  · exact bind' (callArgs _ args) fun _ => compute _ _

theorem callNative (native : String) (sig : TypeId) (args : List ValueId) :
    Blind target (Emit.callNative native sig args) := by
  refine get_bind ?_ fun b => ?_
  · intro b b' h
    obtain ⟨-, -, -, -, -⟩ := h
    rfl
  · split
    · exact bind' (typeText _) fun _ => fail' _
    · refine ite' (fun _ => fail_bind) fun _ => bind' (callArgs _ args) fun _ => ?_
      exact bind' (repOf _) fun _ => compute _ _

theorem allFloat32 (args : List ValueId) : Blind target (Emit.allFloat32 args) := by
  induction args with
  | nil => exact pure' _
  | cons a args ih => exact value_bind (fun va => bind' ih fun _ => pure' _) fun _ _ _ => rfl

theorem coerceAll (type : TypeId) (args : List ValueId) : Blind target (Emit.coerceAll type args) := by
  induction args with
  | nil => exact pure' _
  | cons a args ih => exact bind' (coerce a type) fun _ => bind' ih fun _ => pure' _

theorem math (op : MathOp) (args : List ValueId) : Blind target (Emit.math op args) := by
  refine ite' (fun _ => fail_bind) fun _ => bind' (allFloat32 args) fun all => ?_
  exact bind' (coerceAll _ args) fun _ => bind' (repOf _) fun _ => compute _ _

theorem createLocal (type : TypeId) : Blind target (Emit.createLocal type) := by
  intro b b' h
  refine (repOf type b b' h).bind' fun r b₁ b₁' hr h₁ => ?_
  exact .ite' (fun _ => fail_bind _ _ h₁) fun _ => addValue h₁ (repOf_known hr)

theorem constant (type : TypeId) (bits : Word) (want : Class) :
    Blind target (Emit.constant type bits want) := by
  intro b b' h
  refine (repOf type b b' h).bind' fun r b₁ b₁' hr h₁ => ?_
  exact .ite' (fun _ => failText type _ _ h₁) fun _ => addValue h₁ (repOf_known hr)

theorem setAddressable (v : ValueId) : Blind target (Emit.setAddressable v) := by
  refine value_bind (fun vi => ?_) fun _ _ _ => rfl
  exact ite' (fun _ => fail_bind) fun _ => markAddressable v

theorem newLabel : Blind target Emit.newLabel := by
  refine bind_get ?_
  intro b b' h
  obtain ⟨ht, hord, hk, hl, ⟨hv⟩⟩ := h
  exact ⟨rfl, ht, hord, hk, hl, ⟨hv⟩⟩

end Emit.Blind

end TypedIR
