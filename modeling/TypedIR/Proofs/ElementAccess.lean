import TypedIR.Proofs.FrameAccesses

/-
  Elements of arrays and of memory behind a pointer, by an index computed at
  run time.  The code scales the index by the size of an element in the
  integers of pointer width and adds the product to the address, so the
  element read or written is the one at the index, modulo the width of an
  address, on every index the operands can hold.

  Both ways to a load look the type of the element up, and the first fails on a type that
  is refused (`Emit.ends_loadElem_refused`). Nothing else can fail: an address is a value,
  so its type is not refused.
-/

namespace TypedIR

/-! ## An address and an offset -/

theorem TypeTable.HasRep.address_kind {target : Target} {t : TypeTable} {type : TypeId}
    (h : t.HasRep target type target.pointerRep) :
    ∃ d, t.find? (t.underlying type) = some d ∧ (d.kind = .pointer ∨ d.kind = .signature) := by
  obtain ⟨d, hd⟩ := h.found
  refine ⟨d, hd, ?_⟩
  obtain ⟨l, -, hr⟩ := h
  unfold TypeTable.repOf at hr
  rw [hd] at hr
  dsimp only at hr
  cases hk : d.kind <;> rw [hk] at hr <;> first | exact .inl rfl | exact .inr rfl | cases hr

theorem Bench.Drafts.numeric_address {b : Bench} {c : Setting} {f : Func} (hb : b.Drafts c f)
    {type : TypeId} (h : c.types.HasRep c.target type c.target.pointerRep)
    {stop : Failure → Bench → Prop} :
    Ends (Emit.numeric? type) b (fun a b' => (∃ n, a = some n ∧ n.isAddress = true ∧
      n.id = c.types.underlying type) ∧ b'.Drafts c f) stop := by
  obtain ⟨d, hd, hkind⟩ := h.address_kind
  have hscalar : d.isScalar = true := by
    unfold Descriptor.isScalar
    rcases hkind with hk | hk <;> rw [hk]
  unfold Emit.numeric?
  refine .bind_get ?_
  rw [hb.types]
  dsimp only
  rw [hd]
  refine .ite' (fun _ => ?_) fun hno => absurd hscalar hno
  have hlayout : Ends (Emit.layoutOf (c.types.underlying type)) b (fun _ b' => b'.Drafts c f) stop := by
    unfold Emit.layoutOf
    refine .bind_get ?_
    rw [hb.types, hb.target]
    refine .bind_set (.pure' ⟨rfl, rfl, ?_, hb.func⟩)
    exact hb.layouts.asked c.ordered _ _ Nat.lt_succ_of_lt
  refine .bind' hlayout fun l b' hb' => .pure' ⟨⟨_, rfl, ?_, rfl⟩, hb'⟩
  unfold Emit.Numeric.isAddress
  rcases hkind with hk | hk <;> simp [hk]

namespace Emit.Lands

variable {heads : FuncId → Option Head} {c : Setting} {b : Bench}
  {base v : ValueId}

section

variable (hb : b.Serves heads) (hd : b.Drafts c b.func)
include hb hd

theorem numeric_address {type : TypeId} (h : c.types.HasRep c.target type c.target.pointerRep) :
    Lands heads c (Emit.numeric? type) b fun a b' => (∃ n, a = some n ∧
      n.isAddress = true ∧ n.id = c.types.underlying type) ∧ b'.func = b.func :=
  of_drafts hb (edits_numeric? type) (Keeps.numeric hb.toTyped type) (hd.numeric_address h)

theorem numeric_integer {type : TypeId} {r : Rep} (h : c.types.HasRep c.target type r)
    (hi : r.IsInteger) :
    Lands heads c (Emit.numeric? type) b fun a b' =>
      (∃ n, a = some n ∧ n.Of c r) ∧ b'.func = b.func :=
  of_drafts hb (edits_numeric? type) (Keeps.numeric hb.toTyped type)
    (hd.numeric? (firm hb hd h hi) hi)

theorem coerceOffset_address (hv : b.func.rep? v = some c.target.pointerRep) (pointer : TypeId) :
    Lands heads c (Emit.coerceOffset v pointer) b fun u b' =>
      v = u ∧ b'.func = b.func := by
  obtain ⟨info, hinfo, hrep⟩ := Func.value?_of_rep? hv
  have htype := hasRep hb hd hinfo
  rw [hrep] at htype
  unfold Emit.coerceOffset
  refine bind' (value hb hd hinfo) ?_
  rintro _ _ - - ⟨rfl, rfl⟩
  refine bind' (numeric_address hb hd htype) ?_
  rintro _ b₁ hs₁ hd₁ ⟨⟨n, rfl, haddr, -⟩, hf₁⟩
  exact ite' (fun _ => pure' hs₁.serves hd₁ ⟨rfl, hf₁⟩) fun hno => absurd haddr hno

theorem coerceOffset_integer {r : Rep} (hv : b.func.rep? v = some r) (hi : r.IsInteger)
    (hsign : r.cls = .int) (pointer : TypeId) :
    Lands heads c (Emit.coerceOffset v pointer) b fun u b' =>
      b'.func.rep? u = some (Builtin.nint.rep c.target) ∧
        b.func.Brings b'.func u (Func.Converted (Builtin.nint.rep c.target) r v) := by
  have hnint := Builtin.isInteger_nint c.usual
  obtain ⟨info, hinfo, rfl⟩ := Func.value?_of_rep? hv
  unfold Emit.coerceOffset
  refine bind' (value hb hd hinfo) ?_
  rintro _ _ - - ⟨rfl, rfl⟩
  refine bind' (numeric_integer hb hd (hasRep hb hd hinfo) hi) ?_
  rintro _ b₁ hs₁ hd₁ ⟨⟨n, rfl, hn⟩, hf₁⟩
  obtain ⟨hkind, -⟩ | ⟨-, hcls⟩ := hn.kind
  · dsimp only
    refine ite' (fun haddr => ?_) fun _ => ite' (fun huint => ?_) fun _ => ?_
    · unfold Emit.Numeric.isAddress at haddr
      rw [hkind] at haddr
      cases haddr
    · rw [hkind] at huint
      cases huint
    · rw [← hf₁] at hv ⊢
      exact coerce hs₁.serves hd₁ hv hi.isWhole (Builtin.hasRep c.ordered .nint) hnint.isWhole
        (.inl hnint)
  · rw [hsign] at hcls
    cases hcls

theorem commonType_address {tp tv : TypeId} {r : Rep}
    (hp : c.types.HasRep c.target tp c.target.pointerRep) (hv : c.types.HasRep c.target tv r)
    (hi : r.IsInteger) :
    Lands heads c (Emit.commonType .add tp tv) b fun type b' =>
      type = c.types.underlying tp ∧ b'.func = b.func := by
  refine bind' (numeric_address hb hd hp) ?_
  rintro _ b₁ hs₁ hd₁ ⟨⟨n, rfl, haddr, hn⟩, hf₁⟩
  refine bind' (numeric_integer hs₁.serves hd₁ hv hi) ?_
  rintro _ b₂ hs₂ hd₂ ⟨⟨k, rfl, hk⟩, hf₂⟩
  have hkind : k.isAddress = false ∧ k.kind ≠ .float := by
    unfold Emit.Numeric.isAddress
    rcases hk.kind with ⟨hk, -⟩ | ⟨hk, -⟩ <;> rw [hk] <;> exact ⟨rfl, nofun⟩
  have hfloat : n.kind ≠ .float := by
    intro hno
    unfold Emit.Numeric.isAddress at haddr
    rw [hno] at haddr
    cases haddr
  dsimp only
  rw [if_neg (not_or.mpr ⟨hfloat, hkind.2⟩), haddr, hkind.1]
  exact pure' hs₂.serves hd₂ ⟨hn, hf₂.trans hf₁⟩

theorem offset {r : Rep} (hp : b.func.rep? base = some c.target.pointerRep)
    (hv : b.func.rep? v = some r) (hi : r.IsInteger) (hsign : r.cls = .int) :
    Lands heads c (Emit.binary .add base v) b fun u b' =>
      b'.func.rep? u = some c.target.pointerRep ∧ b.func.Brings b'.func u fun m w =>
        ∃ x n, m.Reads base x ∧ (r.Holds n ∧ m.Reads v (Word.ofInt n)) ∧
          w = c.target.pointerRep.normalize
            (x + Word.ofInt ((Builtin.nint.rep c.target).wrap n)) := by
  obtain ⟨ip, hinfop, hrepp⟩ := Func.value?_of_rep? hp
  obtain ⟨iv, hinfov, rfl⟩ := Func.value?_of_rep? hv
  have htp := hasRep hb hd hinfop
  rw [hrepp] at htp
  obtain ⟨hsame, htype⟩ := htp.below c.ordered
  have hok : b.Grants (c.types.underlying ip.type) c.target.pointerRep := by
    have htp' := htp
    rw [← hd.types, ← hd.target] at htp'
    rw [← hd.types] at hsame ⊢
    exact .inr (((hb.founded.values base ip hinfop).clears htp' rfl).below hsame)
  unfold Emit.binary
  refine bind' (value hb hd hinfop) ?_
  rintro _ _ - - ⟨rfl, rfl⟩
  refine bind' (value hb hd hinfov) ?_
  rintro _ _ - - ⟨rfl, rfl⟩
  refine bind' (commonType_address hb hd htp (hasRep hb hd hinfov) hi) ?_
  rintro _ b₁ hs₁ hd₁ ⟨rfl, hf₁⟩
  have hok₁ := hs₁.grants hb.ordered hok
  refine bind' (repOf hs₁.serves hd₁ htype rfl hok₁) ?_
  rintro _ b₂ hs₂ hd₂ ⟨rfl, hf₂⟩
  have hok₂ := hs₂.grants hs₁.serves.ordered hok₁
  dsimp only
  have hcls : c.target.pointerRep.cls = .pointer := rfl
  rw [if_neg (by rintro ⟨hno, -⟩; cases hno), if_pos hcls]
  rw [← (hf₂.trans hf₁ : b₂.func = _)] at hp hv ⊢
  refine bind' (coerceOffset_address hs₂.serves hd₂ hp _) ?_
  rintro _ b₃ hs₃ hd₃ ⟨rfl, hf₃⟩
  have hok₃ := hs₃.grants hs₂.serves.ordered hok₂
  rw [← hf₃] at hp hv ⊢
  refine bind' (coerceOffset_integer hs₃.serves hd₃ hv hi hsign _) ?_
  rintro cv b₄ hs₄ hd₄ ⟨hcv, hbv⟩
  have hp₄ := hs₄.extended.func.rep? hp
  refine (bringing hs₄.serves hd₄ htype rfl (hs₄.grants hs₃.serves.ordered hok₃)
    (p := fun m w => ∃ x y, m.Reads base x ∧ m.Reads cv y ∧
      w = c.target.pointerRep.normalize (x + y))
    (g := fun dest => { op := .add, dest, a := base, b := cv, rep := c.target.pointerRep })
    (fun dest b₅ hs₅ _ hdest => ?_) (fun _ => rfl) (fun _ => rfl) ?_).mono ?_
  · exact .binary rfl hdest (hs₅.extended.func.rep? hp₄) (hs₅.extended.func.rep? hcv)
      (fun hno => absurd rfl hno) ⟨rfl, rfl⟩
  · rintro e f m dest _ d hf hdest hdrep ⟨x, y, hx, hy, rfl⟩
    have hsum : evalBinary .add c.target.pointerRep x y =
        .ok (c.target.pointerRep.normalize (x + y)) := rfl
    refine ⟨canonical_evalBinary hsum, fun m' depth hkept => ?_⟩
    exact StepM.run_execute_binary (hkept (Func.isSome_of_rep? (hf.rep? hp₄)) id hx)
      (hkept (Func.isSome_of_rep? (hf.rep? hcv)) id hy) rfl hsum
  · rintro u b₅ hs₅ ⟨⟨info, hu, -, hrep⟩, hbu⟩
    refine ⟨hrep ▸ Func.rep?_of_value? hu, hbv.bind' hbu hs₄.extended.func hs₅.extended.func ?_⟩
    rintro m _ ⟨x, n, hx, hn, rfl⟩
    refine ⟨_, ⟨n, hn.1, hn.2, rfl⟩, fun m' hread hkept => ⟨x, _, ?_, hread, rfl⟩⟩
    exact Func.keeps_old hkept (hs₄.extended.func.trans hs₅.extended.func)
      (Func.isSome_of_rep? hp) hx

end

end Emit.Lands

/-! ## The address of an element -/

/-- Two numbers of the same width as a pointer have the common representation of them. -/
theorem Rep.common_self {r : Rep} (h : 4 ≤ r.size) : r.common r = r := by
  have hpromoted : r.promoted = r := if_neg (by omega)
  unfold Rep.common
  rw [hpromoted, if_neg (lt_irrefl _), if_neg (lt_irrefl _), ite_self]

theorem normalize_address {target : Target} (hu : target.Usual) (x : Word) (n : Int) :
    target.pointerRep.normalize (x + Word.ofInt ((Builtin.nint.rep target).wrap n)) =
      Word.ofInt ((x.toNat + n) % 2 ^ target.pointerRep.width) := by
  have hwhole : target.pointerRep.IsWhole := by
    refine ⟨.inr (.inr rfl), ?_⟩
    rw [show target.pointerRep.size = target.ptrSize from hu.addressSize]
    exact .inr (.inr hu)
  have hwrap : Int.ModEq (2 ^ target.pointerRep.width) ((Builtin.nint.rep target).wrap n) n :=
    Rep.IsInteger.wrap_modEq (Builtin.nint.rep target) n
  have hsum : x + Word.ofInt ((Builtin.nint.rep target).wrap n) =
      Word.ofInt (x.toNat + (Builtin.nint.rep target).wrap n) := by
    rw [Word.ofInt_add, Word.ofInt_toNat]
  rw [hsum, hwhole.normalize_ofInt]
  congr 1
  show (_ : Int) % _ = _
  exact hwrap.add_left _

theorem normalize_address_of_eight {target : Target} (h8 : target.ptrSize = 8) (x : Word) (n : Int) :
    target.pointerRep.normalize (x + Word.ofInt ((Builtin.nint.rep target).wrap n)) =
      x + Word.ofInt n := by
  have hwidth : target.pointerRep.width = 64 := by
    have hsize : target.pointerRep.size = 8 := (Target.Usual.addressSize (.inr h8)).trans h8
    unfold Rep.width
    rw [hsize]
    rfl
  have hsum : x + Word.ofInt n = Word.ofInt (x.toNat + n) := by
    rw [Word.ofInt_add, Word.ofInt_toNat]
  rw [normalize_address (.inr h8), hwidth, hsum]
  exact Word.ofInt_eq_of_emod (Int.emod_emod_of_dvd _ (by norm_num))

theorem normalize_address_of_lt {target : Target} (hu : target.Usual) {x : Word} {n : Int}
    (h : (x + Word.ofInt n).toNat < Memory.reach target.ptrSize) :
    target.pointerRep.normalize (x + Word.ofInt ((Builtin.nint.rep target).wrap n)) =
      x + Word.ofInt n := by
  rcases hu with h4 | h8
  · have hwidth : target.pointerRep.width = 32 := by
      have hsize : target.pointerRep.size = 4 := (Target.Usual.addressSize (.inl h4)).trans h4
      unfold Rep.width
      rw [hsize]
      rfl
    have hn := Word.toNat_ofInt n
    have hsum := UInt64.toNat_add x (Word.ofInt n)
    unfold Memory.reach at h
    rw [if_pos h4] at h
    rw [normalize_address (.inl h4), hwidth]
    refine (Word.eq_ofInt ?_).symm
    omega
  · exact normalize_address_of_eight h8 x n

/-! ## Both forms -/

/-- The address of an element by explicit arithmetic: the index is brought to the size of
a pointer, multiplied by the size of an element, and added to the base. -/
def EngineM.elementAddress (fn : FuncId) (base index : ValueId) (size : Int) :
    EngineM ValueId := do
  let i ← convert fn index Builtin.nint.id
  let k ← constInt fn Builtin.nint.id size
  let offset ← binary fn .mul i k
  binary fn .add base offset

/-- The address of an element as explicit arithmetic computes it: the offset and the sum
are cut to the size of a pointer. -/
def Func.ComputedAt (target : Target) (size : Int) (ri : Rep) (base index : ValueId) (m : Machine)
    (addr : Word) : Prop :=
  ∃ x n, m.Reads base x ∧ (ri.Holds n ∧ m.Reads index (Word.ofInt n)) ∧
    addr = target.pointerRep.normalize (x + Word.ofInt ((Builtin.nint.rep target).wrap
      ((Builtin.nint.rep target).wrap n * size)))

def Machine.Constants (m : Machine) (f : Func) : Prop :=
  ∀ {v info}, f.value? v = some info → info.origin = .const → m.Reads v info.bits

theorem Machine.Constants.earlier {m : Machine} {f f' : Func} (h : m.Constants f')
    (hext : f.Extends f') : m.Constants f := by
  intro v info hinfo horigin
  obtain ⟨info', hinfo', hsame⟩ := hext.value hinfo
  have hbits : info'.bits = info.bits := by rw [hsame.1]
  rw [← hbits]
  exact h hinfo' (by rw [hsame.1, horigin])

namespace Engine.Receives

variable {e : Engine} {c : Setting} {fn : FuncId} {f : Func} {p : TypeId → Prop}
  (h : e.Receives p c fn f)
include h

theorem ends_convert {v : ValueId} {r want : Rep} {type : TypeId} (hv : f.rep? v = some r)
    (hi : r.IsWhole) (hwant : c.types.HasRep c.target type want) (hiw : want.IsInteger) :
    Ends (EngineM.convert fn v type) e (fun u e' => ∃ f', e'.Receives p c fn f' ∧ f.Extends f' ∧
      f'.rep? u = some want ∧ f.Brings f' u (Func.Converted want r v)) fun _ _ => False := by
  apply h.ends_emitInto (Emit.edits_convert v type)
  rintro b hb hd rfl -
  apply (Emit.Lands.convert hb hd hv hi hwant hiw.isWhole (.inl hiw)).mono
  rintro u b' - ⟨⟨info, hinfo, -, hrep⟩, hbrings⟩
  exact ⟨hrep ▸ Func.rep?_of_value? hinfo, hbrings⟩

theorem ends_constInt {type : TypeId} {r : Rep} (hr : c.types.HasRep c.target type r)
    (hi : r.IsInteger) (n : Int) :
    Ends (EngineM.constInt fn type n) e (fun k e' => ∃ f', e'.Receives p c fn f' ∧ f.Extends f' ∧
      (∃ info, f'.value? k = some info ∧ info.rep = r ∧ info.origin = .const ∧
        info.bits = Word.ofInt (r.wrap n)) ∧ f.value? k = none ∧ f'.insns = f.insns)
      fun _ _ => False := by
  apply h.ends_emitInto (Emit.edits_constant _ _ _)
  rintro b hb hd rfl -
  apply (Emit.Lands.constant hb hd hr hi n).mono
  rintro k b' - ⟨⟨info, hinfo, -, hrest⟩, hcode⟩
  exact ⟨⟨info, hinfo, hrest⟩, hcode⟩

theorem ends_binary {op : Opcode} (hop : op.isBinary = true) {x y : ValueId} {rx ry : Rep}
    (hx : f.rep? x = some rx) (hy : f.rep? y = some ry) (hix : rx.IsInteger) (hiy : ry.IsInteger)
    {r : Rep} (hr : r = if op.isShift then rx.promoted else rx.common ry) :
    Ends (EngineM.binary fn op x y) e (fun u e' => ∃ f', e'.Receives p c fn f' ∧ f.Extends f' ∧
      f'.rep? u = some r ∧ f.Brings f' u (Func.Operated (r.operate op) r rx ry x y))
      fun _ _ => False := by
  refine .ite' (fun hno => ?_) fun _ => ?_
  · rw [hop] at hno
    cases hno
  apply h.ends_emitInto (Emit.edits_binary (by rintro rfl; cases hop) x y)
  rintro b hb hd rfl -
  apply (Emit.Lands.binary hb hd hop hx hy hix hiy hr).mono
  rintro u b' - ⟨⟨info, hinfo, -, hrep⟩, hbrings⟩
  exact ⟨hrep ▸ Func.rep?_of_value? hinfo, hbrings⟩

theorem ends_offset {base v : ValueId} (hp : f.rep? base = some c.target.pointerRep)
    (hv : f.rep? v = some (Builtin.nint.rep c.target)) :
    Ends (EngineM.binary fn .add base v) e (fun u e' => ∃ f', e'.Receives p c fn f' ∧
      f.Extends f' ∧ f'.rep? u = some c.target.pointerRep ∧ f.Brings f' u fun m w =>
        ∃ x n, m.Reads base x ∧
          ((Builtin.nint.rep c.target).Holds n ∧ m.Reads v (Word.ofInt n)) ∧
          w = c.target.pointerRep.normalize
            (x + Word.ofInt ((Builtin.nint.rep c.target).wrap n))) fun _ _ => False := by
  have hop : Opcode.add ≠ .ret := nofun
  show Ends (EngineM.emitInto fn (Emit.binary .add base v)) e _ _
  apply h.ends_emitInto (Emit.edits_binary hop base v)
  rintro b hb hd rfl -
  exact Emit.Lands.offset hb hd hp hv (Builtin.isInteger_nint c.usual) rfl

/-- The address of an element by explicit arithmetic, in a frame where the constants of
the function have their bits. -/
theorem ends_elementAddress {base index : ValueId} {ri : Rep}
    (hp : f.rep? base = some c.target.pointerRep) (hi : f.rep? index = some ri)
    (hii : ri.IsInteger) {size : Int} (hsize : (Builtin.nint.rep c.target).Holds size) :
    Ends (EngineM.elementAddress fn base index size) e (fun a e' => ∃ f', e'.Receives p c fn f' ∧
      f.Extends f' ∧ f'.rep? a = some c.target.pointerRep ∧ f.Brings f' a fun m w =>
        m.Constants f' ∧ Func.ComputedAt c.target size ri base index m w) fun _ _ => False := by
  have hnint := Builtin.isInteger_nint c.usual
  have hnative : c.types.HasRep c.target Builtin.nint.id (Builtin.nint.rep c.target) :=
    Builtin.hasRep c.ordered .nint
  have hwide : 4 ≤ (Builtin.nint.rep c.target).size := by
    rw [show (Builtin.nint.rep c.target).size = c.target.ptrSize from c.usual.addressSize]
    rcases c.usual with h4 | h8 <;> omega
  have hsome := Func.isSome_of_rep? hp
  unfold EngineM.elementAddress
  refine .bind' (h.ends_convert hi hii.isWhole hnative hnint) ?_
  rintro i e₁ ⟨f₁, h₁, hext₁, hi₁, hbi⟩
  refine .bind' (h₁.ends_constInt hnative hnint size) ?_
  rintro k e₂ ⟨f₂, h₂, hext₂, ⟨info, hinfo, hrep, horigin, hbits⟩, hfresh, hinsns⟩
  have hk₂ : f₂.rep? k = some (Builtin.nint.rep c.target) := hrep ▸ Func.rep?_of_value? hinfo
  have hbinary : Opcode.mul.isBinary = true := rfl
  have hmul : Builtin.nint.rep c.target = if Opcode.mul.isShift then (Builtin.nint.rep c.target).promoted
      else (Builtin.nint.rep c.target).common (Builtin.nint.rep c.target) :=
    (Rep.common_self hwide).symm
  refine .bind' (h₂.ends_binary hbinary (hext₂.rep? hi₁) hk₂ hnint hnint hmul) ?_
  rintro o e₃ ⟨f₃, h₃, hext₃, ho₃, hbo⟩
  refine (h₃.ends_offset (hext₃.rep? (hext₂.rep? (hext₁.rep? hp))) ho₃).imp ?_
  rintro a e₄ ⟨f₄, h₄, hext₄, ha₄, hba⟩
  have hext₂₄ : f₂.Extends f₄ := hext₃.trans hext₄
  have hext₁₄ : f₁.Extends f₄ := hext₂.trans hext₂₄
  refine ⟨f₄, h₄, hext₁.trans hext₁₄, ha₄, ?_⟩
  have hrest : f₂.Brings f₄ a fun m w => ∃ x n, m.Reads base x ∧
      ((Builtin.nint.rep c.target).Holds n ∧ m.Reads i (Word.ofInt n)) ∧
        m.Reads k (Word.ofInt size) ∧ w = c.target.pointerRep.normalize
          (x + Word.ofInt ((Builtin.nint.rep c.target).wrap (n * size))) := by
    refine hbo.bind' hba hext₃ hext₄ ?_
    rintro m _ ⟨x, n, hx, hn, hread, rfl⟩
    refine ⟨_, ⟨n, size, _, hn, ⟨hsize, hread⟩, rfl, rfl⟩, fun m' ho hkept => ?_⟩
    rw [hnint.wrap_eq hn.1, hnint.wrap_eq hsize] at ho
    refine ⟨x, _, ?_, ⟨hnint.holds_wrap _, ho⟩, ?_⟩
    · exact Func.keeps_old hkept hext₂₄ ((hext₁.trans hext₂).isSome_value? hsome) hx
    · rw [hnint.wrap_eq (hnint.holds_wrap _)]
  refine hbi.bind' (hrest.skip hinsns hext₂) hext₁ hext₁₄ ?_
  rintro m _ ⟨hconsts, x, n, hx, hn, rfl⟩
  refine ⟨_, ⟨n, hn.1, hn.2, rfl⟩, fun m' hread hkept => ?_⟩
  refine ⟨x, _, Func.keeps_old hkept (hext₁.trans hext₁₄) hsome hx, ⟨hnint.holds_wrap n, hread⟩,
    ?_, rfl⟩
  -- the constant is not among the values of the conversion
  have hread' := hconsts.earlier hext₂₄ hinfo horigin
  rw [hbits, hnint.wrap_eq hsize] at hread'
  refine hkept (Func.isSome_of_rep? (hext₂₄.rep? hk₂)) (fun hgains => ?_) hread'
  have hgained := hgains.2
  rw [hfresh] at hgained
  cases hgained

theorem ends_loadElem {base index : ValueId} {ri r : Rep} {type : TypeId}
    (hp : f.rep? base = some c.target.pointerRep) (hi : f.rep? index = some ri)
    (hii : ri.IsInteger) (hr : c.types.HasRep c.target type r) (hs : r.isScalar = true)
    (hok : p type) :
    Ends (EngineM.loadElem fn base index type) e (fun d e' => ∃ f', e'.Receives p c fn f' ∧
      f.Extends f' ∧ f.LoadsAt f' c.target.ptrSize r d (Func.ElementAt c.target r.size ri base index))
      fun _ _ => False := by
  apply h.ends_emitInto (Emit.edits_loadElem base index type)
  rintro b hb hd rfl htables
  apply (Emit.Lands.loadElem hb hd hp hi hii hr hs (.inr (htables ▸ h.cleared type hok))).mono
  intro d b' _ hpost
  exact hpost.2.2

theorem ends_loadAddress {base index : ValueId} {ri r : Rep} {type : TypeId}
    (hp : f.rep? base = some c.target.pointerRep) (hi : f.rep? index = some ri)
    (hii : ri.IsInteger) (hr : c.types.HasRep c.target type r) (hs : r.isScalar = true)
    (hsize : (Builtin.nint.rep c.target).Holds r.size) (hok : p type) :
    Ends (do let a ← EngineM.elementAddress fn base index r.size; EngineM.loadRel fn a 0 type) e
      (fun d e' => ∃ f', e'.Receives p c fn f' ∧ f.Extends f' ∧
        f.LoadsAt f' c.target.ptrSize r d fun m addr => m.Constants f' ∧
          Func.ComputedAt c.target r.size ri base index m addr) fun _ _ => False := by
  refine .bind' (h.ends_elementAddress hp hi hii hsize) ?_
  rintro a e₁ ⟨f₁, h₁, hext₁, ha₁, hba⟩
  have hload : Ends (EngineM.loadRel fn a 0 type) e₁ (fun d e₂ => ∃ f₂, e₂.Receives p c fn f₂ ∧
      f₁.Extends f₂ ∧ f₁.value? d = none ∧ f₁.LoadsAt f₂ c.target.ptrSize r d fun m addr =>
        ∃ x, m.Reads a x ∧ addr = x + Word.ofInt 0) fun _ _ => False := by
    apply h₁.ends_emitInto (Emit.edits_loadRel a 0 type)
    rintro b hb hd rfl htables
    apply (Emit.Lands.loadRel hb hd ha₁ hr hs (.inr (htables ▸ h₁.cleared type hok)) 0).mono
    intro d b' _ hpost
    exact hpost.2
  refine hload.imp ?_
  rintro d e₂ ⟨f₂, h₂, hext₂, hfresh, hloads⟩
  refine ⟨f₂, h₂, hext₁.trans hext₂, hba.loadsAt hloads hext₁ hext₂ hfresh ?_⟩
  rintro m addr ⟨hconsts, x, n, hx, hn, rfl⟩
  refine ⟨_, ⟨hconsts.earlier hext₂, x, n, hx, hn, rfl⟩, fun m' hread _ => ⟨_, hread, ?_⟩⟩
  exact (UInt64.add_zero _).symm

theorem ends_storeElem {base index y : ValueId} {ri r : Rep}
    (hp : f.rep? base = some c.target.pointerRep) (hi : f.rep? index = some ri)
    (hii : ri.IsInteger) (hy : f.rep? y = some r) (hs : r.isScalar = true) :
    Ends (EngineM.storeElem fn base index y) e (fun _ e' => ∃ f', e'.Receives p c fn f' ∧
      f.Extends f' ∧ f.StoresAt f' r y (Func.ElementAt c.target r.size ri base index))
      fun _ _ => False := by
  apply h.ends_emitInto (Emit.edits_storeElem base index y)
  rintro b hb hd rfl -
  exact Emit.Lands.storeElem hb hd hp hi hii hy hs

theorem ends_storeAddress {base index y : ValueId} {ri r : Rep}
    (hp : f.rep? base = some c.target.pointerRep) (hi : f.rep? index = some ri)
    (hii : ri.IsInteger) (hy : f.rep? y = some r) (hs : r.isScalar = true)
    (hsize : (Builtin.nint.rep c.target).Holds r.size) :
    Ends (do let a ← EngineM.elementAddress fn base index r.size; EngineM.storeRel fn a 0 y) e
      (fun _ e' => ∃ f', e'.Receives p c fn f' ∧ f.Extends f' ∧
        f.StoresAt f' r y fun m addr => m.Constants f' ∧
          Func.ComputedAt c.target r.size ri base index m addr) fun _ _ => False := by
  refine .bind' (h.ends_elementAddress hp hi hii hsize) ?_
  rintro a e₁ ⟨f₁, h₁, hext₁, ha₁, hba⟩
  have hstore : Ends (EngineM.storeRel fn a 0 y) e₁ (fun _ e₂ => ∃ f₂, e₂.Receives p c fn f₂ ∧
      f₁.Extends f₂ ∧ f₁.StoresAt f₂ r y fun m addr =>
        ∃ x, m.Reads a x ∧ addr = x + Word.ofInt 0) fun _ _ => False := by
    apply h₁.ends_emitInto (Emit.edits_storeRel a 0 y)
    rintro b hb hd rfl -
    exact Emit.Lands.storeRel hb hd ha₁ (hext₁.rep? hy) hs 0
  refine hstore.imp ?_
  rintro _ e₂ ⟨f₂, h₂, hext₂, hstores⟩
  refine ⟨f₂, h₂, hext₁.trans hext₂,
    hba.storesAt hstores hext₁ hext₂ (Func.isSome_of_rep? hy) ?_⟩
  rintro m addr ⟨hconsts, x, n, hx, hn, rfl⟩
  refine ⟨_, ⟨hconsts.earlier hext₂, x, n, hx, hn, rfl⟩, fun m' hread _ => ⟨_, hread, ?_⟩⟩
  exact (UInt64.add_zero _).symm

end Engine.Receives

/-! ## Both forms from one memory -/

namespace Func

/-- A machine is about to run the code from `f` to `f'` in a frame of a function that was
built on from there. Of what the code computes only `out` may have a place in the frame,
and constants have their bits. -/
structure Starts (f f' : Func) (out : Option ValueId) (fr : Frame) (rest : List Frame)
    (m : Machine) : Prop where
  extended : f'.Extends fr.func
  spills : f.SpillsOnly f' out fr.func
  inside : m.Inside fr rest f.insns.size
  constants : m.Constants f'

/-- Two machines are about to run two codes from `f` on, with one memory and the same in
the values `vs`. What the codes put out has the same place, if any. -/
structure StartsBoth (ptrSize : Int) (f f₁ f₂ : Func) (out₁ out₂ : Option ValueId)
    (vs : List ValueId) (fr₁ fr₂ : Frame) (rest₁ rest₂ : List Frame) (m₁ m₂ : Machine) : Prop where
  left : f.Starts f₁ out₁ fr₁ rest₁ m₁
  right : f.Starts f₂ out₂ fr₂ rest₂ m₂
  memory : m₂.host.memory = m₁.host.memory
  room : m₁.host.memory.Room ptrSize
  place : out₁.bind fr₁.place? = out₂.bind fr₂.place?
  values : ∀ v ∈ vs, ∃ r n, f.rep? v = some r ∧ r.Holds n ∧ m₁.Reads v (Word.ofInt n) ∧
    m₂.Reads v (Word.ofInt n)

/-- Wherever the loads of `d₁` and of `d₂` start alike, they come to answers: to a word and
the memory that is left, or to a refusal. Where the first is no refusal the second is the
same, and with pointers of eight bytes the second is always the same. -/
def LoadsAgree (ptrSize : Int) (f f₁ f₂ : Func) (d₁ d₂ : ValueId) (vs : List ValueId) : Prop :=
  ∀ {e₁ e₂ : Engine} {fr₁ fr₂ : Frame} {rest₁ rest₂ : List Frame} {m₁ m₂ : Machine},
    StartsBoth ptrSize f f₁ f₂ (some d₁) (some d₂) vs fr₁ fr₂ rest₁ rest₂ m₁ m₂ →
    ∃ a₁ a₂ : Except Fault (Word × Memory),
      m₁.Answers e₁ fr₁.func.name (f₁.insns.size - f.insns.size) (fun a m =>
        m.Inside fr₁ rest₁ f₁.insns.size ∧ m.Reads d₁ a.1 ∧
          m.host = { m₁.host with memory := a.2 }) a₁ ∧
      m₂.Answers e₂ fr₂.func.name (f₂.insns.size - f.insns.size) (fun a m =>
        m.Inside fr₂ rest₂ f₂.insns.size ∧ m.Reads d₂ a.1 ∧
          m.host = { m₂.host with memory := a.2 }) a₂ ∧
      (∀ a, a₁ = .ok a → a₂ = .ok a) ∧ (ptrSize = 8 → a₂ = a₁)

def StoresAgree (ptrSize : Int) (f f₁ f₂ : Func) (vs : List ValueId) : Prop :=
  ∀ {e₁ e₂ : Engine} {fr₁ fr₂ : Frame} {rest₁ rest₂ : List Frame} {m₁ m₂ : Machine},
    StartsBoth ptrSize f f₁ f₂ none none vs fr₁ fr₂ rest₁ rest₂ m₁ m₂ →
    ∃ a₁ a₂ : Except Fault Memory,
      m₁.Answers e₁ fr₁.func.name (f₁.insns.size - f.insns.size) (fun mem m =>
        m.Inside fr₁ rest₁ f₁.insns.size ∧ m.host = { m₁.host with memory := mem }) a₁ ∧
      m₂.Answers e₂ fr₂.func.name (f₂.insns.size - f.insns.size) (fun mem m =>
        m.Inside fr₂ rest₂ f₂.insns.size ∧ m.host = { m₂.host with memory := mem }) a₂ ∧
      (∀ mem, a₁ = .ok mem → a₂ = .ok mem) ∧ (ptrSize = 8 → a₂ = a₁)

/-- Where one element is: the two ways to its address, which are one where the address is
within reach, and always with pointers of eight bytes. -/
theorem StartsBoth.addresses {target : Target} (hu : target.Usual) {f f₁ f₂ : Func}
    {out₁ out₂ : Option ValueId} {vs : List ValueId} {fr₁ fr₂ : Frame} {rest₁ rest₂ : List Frame}
    {m₁ m₂ : Machine} (h : StartsBoth target.ptrSize f f₁ f₂ out₁ out₂ vs fr₁ fr₂ rest₁ rest₂ m₁ m₂)
    {base index : ValueId} (hbase : base ∈ vs) (hindex : index ∈ vs) {ri : Rep}
    (hi : f.rep? index = some ri) (size : Int) :
    ∃ addr₁ addr₂, ElementAt target size ri base index m₁ addr₁ ∧
      ComputedAt target size ri base index m₂ addr₂ ∧
      (∀ b, m₁.host.memory.resolve addr₁ = .ok b → addr₂ = addr₁) ∧
      (target.ptrSize = 8 → addr₂ = addr₁) := by
  obtain ⟨_, x, -, -, hx₁, hx₂⟩ := h.values base hbase
  obtain ⟨r, n, hr, hn, hn₁, hn₂⟩ := h.values index hindex
  rw [hi] at hr
  obtain rfl := Option.some.inj hr
  refine ⟨_, _, ⟨_, n, hx₁, ⟨hn, hn₁⟩, rfl⟩, ⟨_, n, hx₂, ⟨hn, hn₂⟩, rfl⟩, fun b hb => ?_, fun h8 => ?_⟩
  · have hreach := h.room.lt_reach hb
    rw [← Word.ofInt_mul] at hreach ⊢
    exact normalize_address_of_lt hu hreach
  · rw [← Word.ofInt_mul]
    exact normalize_address_of_eight h8 _ _

section

variable {target : Target} (hu : target.Usual) {f f₁ f₂ : Func} {base index : ValueId} {ri r : Rep}
  (hi : f.rep? index = some ri)
include hu hi

theorem LoadsAt.agree {d₁ d₂ : ValueId}
    (h₁ : f.LoadsAt f₁ target.ptrSize r d₁ (ElementAt target r.size ri base index))
    (h₂ : f.LoadsAt f₂ target.ptrSize r d₂ fun m addr => m.Constants f₂ ∧
      ComputedAt target r.size ri base index m addr) :
    LoadsAgree target.ptrSize f f₁ f₂ d₁ d₂ [base, index] := by
  intro e₁ e₂ fr₁ fr₂ rest₁ rest₂ m₁ m₂ h
  have hindex : index ∈ [base, index] := by simp
  obtain ⟨addr₁, addr₂, hat₁, hat₂, hreach, height⟩ :=
    h.addresses hu (List.mem_cons_self ..) hindex hi r.size
  have hserves := h.room.serves
  have hplace : fr₁.place? d₁ = fr₂.place? d₂ := h.place
  refine ⟨_, _, h₁ h.left.extended h.left.spills h.left.inside ⟨hserves, addr₁, hat₁, rfl⟩,
    h₂ h.right.extended h.right.spills h.right.inside
      ⟨h.memory ▸ hserves, addr₂, ⟨h.right.constants, hat₂⟩, rfl⟩, fun a ha => ?_, fun h8 => ?_⟩
  · obtain ⟨b, hb⟩ := Memory.resolve_of_fetches ha
    rw [hreach b hb, h.memory, ← hplace, ha]
  · rw [height h8, h.memory, ← hplace]

theorem StoresAt.agree {y : ValueId}
    (h₁ : f.StoresAt f₁ r y (ElementAt target r.size ri base index))
    (h₂ : f.StoresAt f₂ r y fun m addr => m.Constants f₂ ∧
      ComputedAt target r.size ri base index m addr) :
    StoresAgree target.ptrSize f f₁ f₂ [base, index, y] := by
  intro e₁ e₂ fr₁ fr₂ rest₁ rest₂ m₁ m₂ h
  have hindex : index ∈ [base, index, y] := by simp
  obtain ⟨addr₁, addr₂, hat₁, hat₂, hreach, height⟩ :=
    h.addresses hu (List.mem_cons_self ..) hindex hi r.size
  obtain ⟨_, w, -, -, hy₁, hy₂⟩ := h.values y (by simp)
  refine ⟨_, _, h₁ h.left.extended h.left.spills h.left.inside ⟨addr₁, _, hat₁, hy₁, rfl⟩,
    h₂ h.right.extended h.right.spills h.right.inside
      ⟨addr₂, _, ⟨h.right.constants, hat₂⟩, hy₂, rfl⟩, fun a ha => ?_, fun h8 => ?_⟩
  · obtain ⟨b, hb⟩ := Memory.resolve_of_stores ha
    rw [hreach b hb, h.memory, ha]
  · rw [height h8, h.memory]

end

end Func

theorem Rep.IsWhole.holds_size {target : Target} (hu : target.Usual) {r : Rep} (h : r.IsWhole) :
    (Builtin.nint.rep target).Holds r.size := by
  have hsize : (Builtin.nint.rep target).size = target.ptrSize := hu.addressSize
  have hcls : (Builtin.nint.rep target).cls = .int := rfl
  unfold Rep.Holds Rep.least Rep.greatest Rep.width
  rw [if_pos hcls, if_pos hcls, hsize]
  rcases hu with h4 | h8
  · rw [h4]
    rcases h.2 with hs | hs | hs | hs <;> rw [hs] <;> decide
  · rw [h8]
    rcases h.2 with hs | hs | hs | hs <;> rw [hs] <;> decide

/-! ## Layouts that are refused -/

namespace Emit

variable {b : Bench} {type : TypeId} {why : Layout.Refusal}

theorem ends_repOf_refused (h : b.layouts.lookup (b.types.underlying type) = some (.error why)) :
    Ends (Emit.repOf type) b (fun _ _ => False) fun _ _ => True := by
  unfold Emit.repOf
  refine .bind_get ?_
  rcases hrun : (b.types.findRep b.target type).run b.layouts with ⟨answer, layouts⟩
  refine .bind_set ?_
  cases answer with
  | error c => exact .throw' trivial
  | ok r =>
    have hfound : ((b.types.findRep b.target type).run b.layouts).1 = .ok r := by rw [hrun]
    obtain ⟨-, l, hl⟩ := TypeTable.laidOut_of_findRep hfound
    have hrecalls : Layout.Recalls b.layouts ((b.types.findRep b.target type).run b.layouts).2 := by
      rcases b.types.findRep_asks b.target type b.layouts with hsame | ⟨k, hsame⟩ <;> rw [hsame]
      · exact .refl _
      · exact Layout.recalls_layoutWithin _ k b.layouts
    cases (hrecalls _ _ h).symm.trans hl

theorem ends_loadElem_refused (hb : b.Founded) (htype : type < b.types.types.size)
    (h : b.layouts.lookup (b.types.underlying type) = some (.error why)) (base index : ValueId) :
    Ends (Emit.loadElem base index type) b (fun _ _ => False) fun _ _ => True := by
  -- the operands are looked at first, and what is remembered stays
  have hstill : ∀ b', b.Edits b' →
      b'.layouts.lookup (b'.types.underlying type) = some (.error why) := by
    intro b' hedited
    obtain ⟨-, honward⟩ := hedited.rests hb
    have hsame : b'.types.underlying type = b.types.underlying type :=
      hb.tables.ordered.underlying_eq honward.types htype
    rw [hsame]
    exact honward.layouts _ _ h
  unfold Emit.loadElem
  refine .bind' (((edits_pointerOperand base).ends b).mono (fun _ _ h => h) fun _ _ _ => trivial) ?_
  intro _ b₁ hedited₁
  refine .bind' (((edits_coerce index _).ends b₁).mono (fun _ _ h => h) fun _ _ _ => trivial) ?_
  intro _ b₂ hedited₂
  exact .bind' (ends_repOf_refused (hstill b₂ (Trans.trans hedited₁ hedited₂))) fun _ _ h => h.elim

end Emit

/-- Where no refusal is out of date, a type of scalars is not refused. -/
theorem Engine.Candid.clears {e : Engine} (h : e.Candid) {type : TypeId} {r : Rep}
    (hr : e.types.HasRep e.target type r) (hs : r.isScalar = true) : e.tables.Clears type := by
  obtain ⟨l, hl, hrep⟩ := hr
  refine ⟨⟨l, TypeTable.HasRep.direct hl hrep hs⟩, fun why hwhy => ?_⟩
  cases ((h _ _ hwhy).agrees trivial).symm.trans hl

/-- Where an element is not loaded, a layout that the engine remembers is out of date. -/
theorem Engine.Receives.ends_loadElem_refused {p : TypeId → Prop} {e : Engine} {c : Setting}
    {fn : FuncId} {f : Func} (h : e.Receives p c fn f) {type : TypeId} {r : Rep}
    (hr : e.types.HasRep e.target type r) (hs : r.isScalar = true)
    (hrefused : ¬ e.tables.Clears type) (base index : ValueId) :
    Ends (EngineM.loadElem fn base index type) e (fun _ _ => False) fun _ _ => ¬ e.Candid := by
  have hcandid : ¬ e.Candid := fun hc => hrefused (hc.clears hr hs)
  obtain ⟨why, hwhy⟩ : ∃ why, e.layouts.lookup (e.types.underlying type) = some (.error why) := by
    by_contra hnone
    obtain ⟨l, hl, hrep⟩ := hr
    exact hrefused ⟨⟨l, TypeTable.HasRep.direct hl hrep hs⟩, fun why hwhy => hnone ⟨why, hwhy⟩⟩
  obtain ⟨hfunc, -⟩ := EngineM.findOpen_ok h.opened
  have hfounded : (e.bench f).Founded := ⟨h.founded.tables, h.founded.values fn f hfunc⟩
  have hends := Emit.ends_loadElem_refused hfounded hr.known hwhy base index
  exact EngineM.ends_emitOpen h.opened
    (hends.mono (fun _ _ h => h.elim) fun _ _ _ => hcandid)

/-- Access to an element agrees with access to the address that explicit arithmetic gives.
Where the first reads or writes memory, the second does the same, and with pointers of
eight bytes the two come to the same answer also where memory refuses. A store is emitted in
both forms. A load is emitted in the second form where it is in the first, which is so
unless a layout that the engine remembers is out of date. What is computed on the way is in
registers. -/
theorem Engine.Built.accesses_elements {target : Target} {e : Engine} (h : e.Built target)
    (hu : target.Usual) {fn : FuncId} {f : Func} (hf : e.findOpen fn = .ok f)
    {base index : ValueId} {ri r : Rep} {type : TypeId} (hp : f.rep? base = some target.pointerRep)
    (hi : f.rep? index = some ri) (hii : ri.IsInteger) (hr : e.types.HasRep target type r)
    (hw : r.IsWhole) :
    Ends (EngineM.loadElem fn base index type) e (fun d₁ e₁ => ∃ f₁, e₁.func? fn = some f₁ ∧
      f.Extends f₁ ∧
      Ends (do let a ← EngineM.elementAddress fn base index r.size; EngineM.loadRel fn a 0 type) e
        (fun d₂ e₂ => ∃ f₂, e₂.func? fn = some f₂ ∧ f.Extends f₂ ∧
          Func.LoadsAgree target.ptrSize f f₁ f₂ d₁ d₂ [base, index])
        fun _ _ => False) (fun _ _ => ¬ e.Candid) ∧
    ∀ y, f.rep? y = some r →
      Ends (EngineM.storeElem fn base index y) e (fun _ e₁ => ∃ f₁, e₁.func? fn = some f₁ ∧
        f.Extends f₁ ∧
        Ends (do let a ← EngineM.elementAddress fn base index r.size; EngineM.storeRel fn a 0 y) e
          (fun _ e₂ => ∃ f₂, e₂.func? fn = some f₂ ∧ f.Extends f₂ ∧
            Func.StoresAgree target.ptrSize f f₁ f₂ [base, index, y])
          fun _ _ => False) fun _ _ => False := by
  obtain ⟨c, rfl, htypes, hopens⟩ := h.opens hu hf
  have hsize := hw.holds_size hu
  have hscalar := hw.isScalar
  constructor
  · by_cases hok : e.tables.Clears type
    case neg =>
      have hr' : e.types.HasRep e.target type r := hopens.target ▸ hr
      exact (hopens.ends_loadElem_refused hr' hscalar hok base index).mono
        (fun _ _ h => h.elim) fun _ _ h => h
    rw [← htypes] at hr
    refine ((hopens.ends_loadElem hp hi hii hr hscalar hok).mono ?_) fun _ _ h => h.elim
    rintro d₁ e₁ ⟨f₁, h₁, hext₁, hloads₁⟩
    refine ⟨f₁, (EngineM.findOpen_ok h₁.opened).1, hext₁, ?_⟩
    refine (hopens.ends_loadAddress hp hi hii hr hscalar hsize hok).imp ?_
    rintro d₂ e₂ ⟨f₂, h₂, hext₂, hloads₂⟩
    exact ⟨f₂, (EngineM.findOpen_ok h₂.opened).1, hext₂, hloads₁.agree hu hi hloads₂⟩
  · intro y hy
    refine (hopens.ends_storeElem hp hi hii hy hscalar).imp ?_
    rintro _ e₁ ⟨f₁, h₁, hext₁, hstores₁⟩
    refine ⟨f₁, (EngineM.findOpen_ok h₁.opened).1, hext₁, ?_⟩
    refine (hopens.ends_storeAddress hp hi hii hy hscalar hsize).imp ?_
    rintro _ e₂ ⟨f₂, h₂, hext₂, hstores₂⟩
    exact ⟨f₂, (EngineM.findOpen_ok h₂.opened).1, hext₂, hstores₁.agree hu hi hstores₂⟩

/-- An engine with pointers of four bytes and an open function of an address, a signed byte
and an unsigned number of two bytes. -/
def elementOperands : Engine :=
  (Engine.create .i386 0 0 (.seeded 1) 0).after
    [.createContext, .buildStart 1,
      .signatureType 0 Builtin.uint16.id [Builtin.voidPtr.id, Builtin.int8.id, Builtin.uint16.id],
      .createFunction 1 18 "element"]

/-- The element of two bytes at the address and the byte is where explicit arithmetic
finds it, and the number is stored there. -/
theorem element_operands_accessed :
    ∃ f, elementOperands.findOpen 1 = .ok f ∧
      Ends (EngineM.loadElem 1 1 2 Builtin.uint16.id) elementOperands (fun d₁ e₁ => ∃ f₁,
        e₁.func? 1 = some f₁ ∧ f.Extends f₁ ∧
        Ends (do let a ← EngineM.elementAddress 1 1 2 2; EngineM.loadRel 1 a 0 Builtin.uint16.id)
          elementOperands (fun d₂ e₂ => ∃ f₂, e₂.func? 1 = some f₂ ∧ f.Extends f₂ ∧
            Func.LoadsAgree 4 f f₁ f₂ d₁ d₂ [1, 2])
          fun _ _ => False) fun _ _ => ¬ elementOperands.Candid := by
  have hcheck : ((elementOperands.findOpen 1).toOption.any fun f =>
      f.rep? 1 == some { cls := .pointer, size := 4 } &&
        f.rep? 2 == some { cls := .int, size := 1 }) = true := by decide +kernel
  simp only [any_toOption, Bool.and_eq_true, beq_iff_eq] at hcheck
  obtain ⟨f, hf, hp, hi⟩ := hcheck
  have hbuilt : elementOperands.Built .i386 := ⟨_, _, _, _, _, rfl⟩
  have htype : elementOperands.types.HasRep .i386 Builtin.uint16.id { cls := .uint, size := 2 } :=
    Builtin.hasRep hbuilt.typed.ordered .uint16
  exact ⟨f, hf, (hbuilt.accesses_elements (.inl rfl) hf hp hi ⟨.inl rfl, .inl rfl⟩ htype
    ⟨.inr (.inl rfl), .inr (.inl rfl)⟩).1⟩

end TypedIR
