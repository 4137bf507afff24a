import Mathlib.Algebra.Group.Nat.Defs
import TypedIR.Arith
import TypedIR.Engine.Basic
import TypedIR.Proofs.LayoutAnswers

/-
  Canonical registers, and the representation of a type.

  A register is canonical for a representation when normalizing it changes
  nothing. Normalizing makes any register canonical, and so does every operator
  for the representation it works in; a comparison gives a truth value, which is
  canonical for every integer.

  `HasRep` says what the representation of a type is without the answers that
  happen to be remembered: it follows from the plain layout of what lies below
  the tags. A type has at most one representation, growth of the table does not
  change it, and it is the one `findRep` gives.
-/

namespace TypedIR

namespace Word

theorem or_and_mask (x m : Word) : ((x &&& m) ||| ~~~m) &&& m = x &&& m := by
  apply UInt64.toBitVec_inj.mp
  ext i hi
  simp only [UInt64.toBitVec_and, UInt64.toBitVec_or, UInt64.toBitVec_not, BitVec.getElem_and,
    BitVec.getElem_or, BitVec.getElem_not]
  cases x.toBitVec[i] <;> cases m.toBitVec[i] <;> rfl

theorem and_mask_twice (x m : Word) : (x &&& m) &&& m = x &&& m := by
  rw [UInt64.and_assoc, UInt64.and_self]

theorem and_eq_of_lt {w mask : Word} {n : Nat} (hmask : mask.toNat = 2 ^ n - 1)
    (hw : w.toNat < 2 ^ n) : w &&& mask = w := by
  apply UInt64.toNat_inj.mp
  rw [UInt64.toNat_and, hmask, Nat.and_two_pow_sub_one_eq_mod, Nat.mod_eq_of_lt hw]

theorem signExtend_twice (w : Word) (bits : Int) :
    (w.signExtend bits).signExtend bits = w.signExtend bits := by
  unfold signExtend
  split
  · rfl
  · next h =>
    simp only
    -- the low bits decide the sign, and both forms of a result have the same low bits
    by_cases hs : w &&& lowMask bits &&& UInt64.ofNat (twoTo (bits.toNat - 1)) = 0
    · rw [if_pos hs, and_mask_twice, if_pos hs]
    · rw [if_neg hs, or_and_mask, if_neg hs]

end Word

namespace Rep

/-- The register is as storing it leaves it. -/
def Canonical (r : Rep) (w : Word) : Prop := r.normalize w = w

instance (r : Rep) (w : Word) : Decidable (r.Canonical w) :=
  inferInstanceAs (Decidable (_ = _))

theorem canonical_normalize (r : Rep) (w : Word) : r.Canonical (r.normalize w) := by
  unfold Canonical normalize
  cases hc : r.cls with
  | int => exact Word.signExtend_twice w r.bits
  | uint | pointer => exact Word.and_mask_twice w _
  | float =>
    by_cases h : r.size = 4
    · simp only [h, if_true]
      exact Word.and_mask_twice w _
    · simp only [h, if_false]
  | void | struct | other => rfl

theorem canonical_zero (r : Rep) : r.Canonical 0 := by
  unfold Canonical normalize
  cases hc : r.cls with
  | int =>
    unfold Word.signExtend
    split <;> simp
  | uint | pointer => simp
  | float => by_cases h : r.size = 4 <;> simp [h]
  | void | struct | other => rfl

theorem canonical_decode (r : Rep) (bytes : List UInt8) : r.Canonical (r.decode bytes) :=
  r.canonical_normalize _

theorem canonical_ofDouble {r : Rep} (hr : r.cls = .float) (x : Double) :
    r.Canonical (r.ofDouble x) := by
  unfold Canonical normalize ofDouble
  rw [hr]
  by_cases h : r.size = 4
  · simp only [h, if_true]
    apply Word.and_eq_of_lt (n := 32) rfl
    rw [UInt32.toNat_toUInt64]
    exact x.toSingle.toNat_lt
  · simp only [h, if_false]

def bool : Rep := { cls := .int, size := 1 }

theorem canonical_ofBool (b : Bool) : bool.Canonical (Word.ofBool b) := by
  cases b <;> decide

end Rep

/-! ## Operators give canonical registers -/

theorem canonical_evalBinary {op : Opcode} {r : Rep} {a b z : Word}
    (h : evalBinary op r a b = .ok z) : r.Canonical z := by
  unfold evalBinary at h
  split at h
  · next hr =>
    rcases hd : evalDouble op (r.toDouble a) (r.toDouble b) with c | x
    · simp [hd, Except.map] at h
    · simp only [hd, Except.map, Except.ok.injEq] at h
      exact h ▸ Rep.canonical_ofDouble hr x
  · rcases hd : evalSigned op r a b with c | x
    · simp [hd, Except.map] at h
    · simp only [hd, Except.map, Except.ok.injEq] at h
      exact h ▸ r.canonical_normalize x
  · rcases hd : evalUnsigned op r a b with c | x
    · simp [hd, Except.map] at h
    · simp only [hd, Except.map, Except.ok.injEq] at h
      exact h ▸ r.canonical_normalize x

theorem canonical_evalUnary (op : Opcode) (r : Rep) (a : Word) :
    r.Canonical (evalUnary op r a) := by
  unfold evalUnary
  split
  · next hr => exact Rep.canonical_ofDouble hr _
  · split <;> exact r.canonical_normalize _

theorem canonical_evalCompare (op : Opcode) (r : Rep) (a b : Word) :
    Rep.bool.Canonical (evalCompare op r a b) := by
  unfold evalCompare
  split <;> exact Rep.canonical_ofBool _

theorem canonical_convertWord (source target : Rep) (a : Word) :
    target.Canonical (convertWord source target a) := by
  unfold convertWord
  split
  · simp only
    split
    · next ht => exact Rep.canonical_ofDouble ht _
    · split <;> exact target.canonical_normalize _
  · split
    · next ht => split <;> exact Rep.canonical_ofDouble ht _
    · exact target.canonical_normalize a

theorem canonical_evalMath {op : MathOp} {r : Rep} {args : List Word} {z : Word}
    (hr : r.cls = .float) (h : evalMath? op r args = some z) : r.Canonical z := by
  unfold evalMath? at h
  split at h
  · cases h
  · cases h
  · exact Option.some.inj h ▸ Rep.canonical_ofDouble hr _
  · exact Option.some.inj h ▸ Rep.canonical_ofDouble hr _

theorem evalMath_of_arity {op : MathOp} (r : Rep) {args : List Word}
    (h : op.arity ≤ args.length) : ∃ z, evalMath? op r args = some z := by
  rcases args with _ | ⟨x, _ | ⟨y, rest⟩⟩
  · cases op <;> simp [MathOp.arity] at h
  · cases op <;> simp [MathOp.arity] at h <;> exact ⟨_, rfl⟩
  · cases op <;> exact ⟨_, rfl⟩

namespace Rep

def Valid (r : Rep) : Prop :=
  match r.cls with
  | .void => r.size = 0
  | .int | .uint => r.size = 1 ∨ r.size = 2 ∨ r.size = 4 ∨ r.size = 8
  | .float | .pointer => r.size = 4 ∨ r.size = 8
  | .struct => True
  | .other _ => False

theorem Valid.fitsRegister {r : Rep} (h : r.Valid) (hs : r.cls ≠ .struct) :
    r.fitsRegister = true := by
  unfold Valid at h
  unfold Rep.fitsRegister
  cases hc : r.cls <;> simp_all <;> omega

theorem ne_struct {r : Rep} (h : r.isScalar = true) : r.cls ≠ .struct := by
  simp only [Rep.isScalar, Bool.and_eq_true, bne_iff_ne] at h
  exact h.2

theorem ne_void {r : Rep} (h : r.isScalar = true) : r.cls ≠ .void := by
  simp only [Rep.isScalar, Bool.and_eq_true, bne_iff_ne] at h
  exact h.1

end Rep

namespace Target

def Usual (target : Target) : Prop := target.ptrSize = 4 ∨ target.ptrSize = 8

def addressSize (target : Target) : Int := (Layout.pointerLayout target).size

def pointerRep (target : Target) : Rep := { cls := .pointer, size := target.addressSize }

theorem Usual.addressSize {target : Target} (hu : target.Usual) :
    target.addressSize = target.ptrSize := by
  unfold Target.addressSize Layout.pointerLayout
  rcases hu with h | h <;> simp [h]

end Target

namespace TypeTable

variable {target : Target} {t t' : TypeTable}

/-- Values of the type have this representation. -/
def HasRep (target : Target) (t : TypeTable) (id : TypeId) (r : Rep) : Prop :=
  ∃ l, Layout.plainPart target t (t.underlying id) = some l ∧ t.repOf id (.ok l) = .ok r

theorem HasRep.unique {id : TypeId} {r r' : Rep} (h : t.HasRep target id r)
    (h' : t.HasRep target id r') : r = r' := by
  obtain ⟨l, hl, hr⟩ := h
  obtain ⟨l', hl', hr'⟩ := h'
  obtain rfl := Option.mem_unique hl hl'
  exact Except.ok.inj (hr.symm.trans hr')

theorem HasRep.found {id : TypeId} {r : Rep} (h : t.HasRep target id r) :
    ∃ d, t.find? (t.underlying id) = some d := by
  obtain ⟨l, -, hr⟩ := h
  rcases hd : t.find? (t.underlying id) with _ | d
  · simp [repOf, hd] at hr
  · exact ⟨d, rfl⟩

theorem HasRep.known {id : Nat} {r : Rep} (h : t.HasRep target id r) :
    id < t.types.size := by
  obtain ⟨d, hd⟩ := h.found
  obtain ⟨d', hd'⟩ := known_of_underlying hd
  exact (find?_lt hd').2

theorem HasRep.grow {id : TypeId} {r : Rep} (ht : t.Ordered) (hg : t.Grows t')
    (h : t.HasRep target id r) : t'.HasRep target id r := by
  obtain ⟨d, hd⟩ := h.found
  have hu := ht.underlying_eq hg h.known
  obtain ⟨l, hl, hr⟩ := h
  refine ⟨l, ?_, ?_⟩
  · rw [hu]
    exact (Layout.plain_eq ht hg _ _ (find?_lt hd).2 (Nat.lt_succ_self _)
      (Nat.lt_succ_self _)).trans hl
  · simp only [repOf, hu, hg.find? hd]
    simp only [repOf, hd] at hr
    cases hk : d.kind <;> simp only [hk] at hr ⊢ <;> first | exact hr | cases hr

/-- Values of the type are held so, and below its tags it is one of the first types, which
are never refused. -/
structure Firm (target : Target) (t : TypeTable) (id : TypeId) (r : Rep) : Prop where
  hasRep : t.HasRep target id r
  first : t.underlying id < initial.types.size

theorem Firm.unique {id : TypeId} {r r' : Rep} (h : t.Firm target id r)
    (h' : t.HasRep target id r') : r = r' :=
  h.hasRep.unique h'

/-- How a representation is found: only known types are asked for their
layout. -/
theorem run_findRep (id : TypeId) (c : Layout.Cache) :
    (t.findRep target id).run c =
      match t.find? (t.underlying id) with
      | none => (.error (.unknownType id), c)
      | some _ =>
        let r := (Layout.layoutOf target t (t.underlying id)).run c
        (t.repOf id r.1, r.2) := by
  simp only [findRep]
  rcases t.find? (t.underlying id) with _ | d <;> rfl

/-- The representation that is found is the one the type has, and what is
remembered stays right. -/
theorem findRep_right {strict : Prop} (ht : t.Ordered) (id : TypeId) {c : Layout.Cache}
    (hc : Layout.Honest target t strict c) :
    (∀ r, ((t.findRep target id).run c).1 = .ok r → t.HasRep target id r) ∧
    Layout.Honest target t strict ((t.findRep target id).run c).2 := by
  rw [run_findRep]
  rcases hd : t.find? (t.underlying id) with _ | d
  · exact ⟨nofun, hc⟩
  · have hlt := (find?_lt hd).2
    obtain ⟨hright, hhonest⟩ := Layout.layoutWithin_right ht (t.size + 1) hc
      fun _ => ⟨hlt, Nat.lt_succ_of_lt hlt⟩
    refine ⟨fun r hr => ?_, hhonest⟩
    have hagrees := hright.agrees
    simp only [Layout.layoutOf] at hr
    rcases ha : ((Layout.layoutWithin target t (t.size + 1) (t.underlying id)).run c).1 with e | l
    · simp [ha, repOf, hd] at hr
    · rw [ha] at hr hagrees
      exact ⟨l, hagrees, hr⟩

theorem HasRep.findRep (ht : t.Ordered) {id : TypeId} {r : Rep} (h : t.HasRep target id r)
    {c : Layout.Cache} (hc : Layout.Honest target t True c) :
    ((t.findRep target id).run c).1 = .ok r := by
  rw [run_findRep]
  obtain ⟨d, hd⟩ := h.found
  have hlt := (find?_lt hd).2
  obtain ⟨hright, -⟩ := Layout.layoutWithin_right ht (t.size + 1) hc
    fun _ => ⟨hlt, Nat.lt_succ_of_lt hlt⟩
  obtain ⟨l, hl, hr⟩ := h
  simp only [hd, Layout.layoutOf]
  have hagrees := hright.agrees
  rcases ha : ((Layout.layoutWithin target t (t.size + 1) (t.underlying id)).run c).1 with e | l'
  · rw [ha] at hagrees
    exact absurd ((hagrees trivial).symm.trans hl) nofun
  · rw [ha] at hagrees
    obtain rfl := Option.some.inj (Eq.symm hagrees |>.trans hl)
    exact hr

/-! ## Which representations there are -/

theorem numberLayout_some {size : Nat} {id : TypeId} {l : Layout}
    (h : (Layout.numberLayout size id).toOption = some l) :
    l.size = size ∧ (size = 1 ∨ size = 2 ∨ size = 4 ∨ size = 8) := by
  unfold Layout.numberLayout at h
  split at h
  · next hs =>
    obtain rfl := Option.some.inj h
    exact ⟨rfl, hs⟩
  · cases h

theorem HasRep.valid (hu : target.Usual) {id : TypeId} {r : Rep} (h : t.HasRep target id r) :
    r.Valid := by
  obtain ⟨d, hd⟩ := h.found
  obtain ⟨l, hl, hr⟩ := h
  simp only [Layout.plainPart, Layout.plain, hd] at hl
  simp only [repOf, hd] at hr
  have hptr := hu.addressSize
  unfold Target.addressSize at hptr
  cases hk : d.kind <;> simp only [hk] at hl hr
  case void => cases hr; rfl
  case int | uint =>
    cases hr
    split at hl
    · cases hl
      show (Layout.pointerLayout target).size = 1 ∨ _
      rw [hptr]
      rcases hu with h | h <;> simp [h]
    · have hs := numberLayout_some hl
      show l.size = 1 ∨ l.size = 2 ∨ l.size = 4 ∨ l.size = 8
      omega
  case float =>
    cases hr
    split at hl
    · next hw =>
      have hs := numberLayout_some hl
      show l.size = 4 ∨ l.size = 8
      rcases hw with hw | hw <;> simp [hw] at hs <;> omega
    · cases hl
  case pointer | signature =>
    cases hr
    cases hl
    show (Layout.pointerLayout target).size = 4 ∨ _
    rw [hptr]
    exact hu
  case struct => cases hr; trivial
  all_goals cases hr

theorem HasRep.intro {id : TypeId} {d : Descriptor} {l : Layout} {r : Rep}
    (hd : t.find? id = some d) (hk : d.kind ≠ .tagged)
    (hl : Layout.plain target t (id + 1) id = some l)
    (hr : t.underlying id = id → t.repOf id (.ok l) = .ok r) : t.HasRep target id r := by
  have hun := underlying_of_not_tagged hd hk
  exact ⟨l, by rwa [hun], hr hun⟩

theorem HasRep.eq_pointerRep {id : TypeId} {r : Rep} (h : t.HasRep target id r)
    (hp : r.cls = .pointer) : r = target.pointerRep := by
  obtain ⟨d, hd⟩ := h.found
  obtain ⟨l, hl, hr⟩ := h
  simp only [Layout.plainPart, Layout.plain, hd] at hl
  simp only [repOf, hd] at hr
  cases hk : d.kind <;> simp only [hk] at hl hr
  case pointer | signature => cases hl; cases hr; rfl
  all_goals cases hr <;> cases hp

def IsScalar (t : TypeTable) (id : TypeId) : Prop :=
  (t.find? (t.underlying id)).any (·.isScalar) = true
  deriving Decidable

theorem IsScalar.grow (ht : t.Ordered) (hg : t.Grows t') {id : TypeId} (h : t.IsScalar id) :
    t'.IsScalar id := by
  obtain ⟨d, hd, hs⟩ := (Option.any_eq_true _ _).mp h
  obtain ⟨d', hd'⟩ := known_of_underlying hd
  refine (Option.any_eq_true _ _).mpr ⟨d, ?_, hs⟩
  rw [ht.underlying_eq hg (find?_lt hd').2]
  exact hg.find? hd

theorem HasRep.isScalar {id : TypeId} {r : Rep} (h : t.HasRep target id r) (hs : t.IsScalar id) :
    r.isScalar = true := by
  obtain ⟨d, hd, hs⟩ := (Option.any_eq_true _ _).mp hs
  obtain ⟨l, -, hr⟩ := h
  simp only [repOf, hd] at hr
  unfold Descriptor.isScalar at hs
  cases hk : d.kind <;> simp only [hk] at hr hs <;> cases hr <;> first | rfl | cases hs

def IsWidth (size : Nat) : Prop := size = 1 ∨ size = 2 ∨ size = 4 ∨ size = 8

theorem numberLayout_of_isWidth {size : Nat} (hs : IsWidth size) (id : TypeId) :
    Layout.numberLayout size id = .ok { size := size, align := size } := by
  unfold Layout.numberLayout
  exact if_pos hs

theorem HasRep.number {id : TypeId} {size : Nat} {w : UInt8} {d : Descriptor} {c : Class}
    (hd : t.find? id = some d) (hk : d = .int w ∧ c = .int ∨ d = .uint w ∧ c = .uint)
    (hw : w.toNat = 8 * size) (hs : IsWidth size) : t.HasRep target id { cls := c, size := size } := by
  have h0 : w ≠ 0 := by rintro rfl; simp at hw; unfold IsWidth at hs; omega
  have hlayout := numberLayout_of_isWidth hs id
  rcases hk with ⟨rfl, rfl⟩ | ⟨rfl, rfl⟩ <;>
    refine .intro (l := { size := size, align := size }) hd nofun ?_ fun hun => ?_
  · simp [Layout.plain, hd, Descriptor.int, h0, hw, hlayout, Except.toOption]
  · simp [repOf, hun, hd, Descriptor.int]
  · simp [Layout.plain, hd, Descriptor.uint, h0, hw, hlayout, Except.toOption]
  · simp [repOf, hun, hd, Descriptor.uint]

theorem HasRep.tagged (ht : t.Ordered) {id : TypeId} {d : Descriptor} (hd : t.find? id = some d)
    (hk : d.kind = .tagged) {r : Rep} (h : t.HasRep target d.elem r) : t.HasRep target id r := by
  have hu := ht.underlying_tagged hd hk
  obtain ⟨d', hd'⟩ := h.found
  obtain ⟨l, hl, hr⟩ := h
  refine ⟨l, by rwa [hu], ?_⟩
  simp only [repOf, hd'] at hr
  simp only [repOf, hu, hd']
  cases hk' : d'.kind <;> simp only [hk'] at hr ⊢ <;> first | exact hr | cases hr

theorem HasRep.address {id : TypeId} {d : Descriptor}
    (hd : t.find? id = some d) (hk : d.kind = .pointer ∨ d.kind = .signature) :
    t.HasRep target id target.pointerRep := by
  have hnt : d.kind ≠ .tagged := by rcases hk with hk | hk <;> simp [hk]
  refine .intro (l := Layout.pointerLayout target) hd hnt ?_ fun hun => ?_
  · rcases hk with hk | hk <;> simp [Layout.plain, hd, hk]
  · rcases hk with hk | hk <;>
      simp [repOf, hun, hd, hk, Target.pointerRep, Target.addressSize]

end TypeTable

def Builtin.rep (target : Target) : Builtin → Rep
  | .void => { cls := .void }
  | .int8 | .bool => { cls := .int, size := 1 }
  | .int16 => { cls := .int, size := 2 }
  | .int32 => { cls := .int, size := 4 }
  | .int64 => { cls := .int, size := 8 }
  | .uint8 => { cls := .uint, size := 1 }
  | .uint16 => { cls := .uint, size := 2 }
  | .uint32 => { cls := .uint, size := 4 }
  | .uint64 => { cls := .uint, size := 8 }
  | .nint => { cls := .int, size := target.addressSize }
  | .nuint => { cls := .uint, size := target.addressSize }
  | .float32 => { cls := .float, size := 4 }
  | .float64 => { cls := .float, size := 8 }
  | .voidPtr | .stringz => target.pointerRep

theorem Builtin.isScalar {t : TypeTable} (ht : t.Ordered) {b : Builtin} (hb : b ≠ .void) :
    t.IsScalar b.id := by
  have hinitial : TypeTable.initial.IsScalar b.id := by
    cases b <;> first | exact (hb rfl).elim | (rw [TypeTable.initial_eq]; decide)
  exact hinitial.grow TypeTable.initial_ordered ht.builtins

open TypeTable in
theorem Builtin.hasRep {target : Target} {t : TypeTable} (ht : t.Ordered) (b : Builtin) :
    t.HasRep target b.id (b.rep target) := by
  have found : ∀ {i d}, initial.find? i = some d → t.find? i = some d := fun h =>
    ht.builtins.find? h
  cases b with
  | void =>
    have hd := found (i := void.id) (d := { kind := .void }) (by rw [initial_eq]; rfl)
    refine .intro (l := .empty) hd (by decide) ?_ fun hun => ?_
    · simp [Layout.plain, hd]
    · simp [repOf, hun, hd, rep]
  | int8 => exact .number (found (by rw [initial_eq]; rfl)) (.inl ⟨rfl, rfl⟩) (w := 8) rfl (.inl rfl)
  | int16 => exact .number (found (by rw [initial_eq]; rfl)) (.inl ⟨rfl, rfl⟩) (w := 16) rfl (.inr (.inl rfl))
  | int32 => exact .number (found (by rw [initial_eq]; rfl)) (.inl ⟨rfl, rfl⟩) (w := 32) rfl (.inr (.inr (.inl rfl)))
  | int64 => exact .number (found (by rw [initial_eq]; rfl)) (.inl ⟨rfl, rfl⟩) (w := 64) rfl (.inr (.inr (.inr rfl)))
  | uint8 => exact .number (found (by rw [initial_eq]; rfl)) (.inr ⟨rfl, rfl⟩) (w := 8) rfl (.inl rfl)
  | uint16 => exact .number (found (by rw [initial_eq]; rfl)) (.inr ⟨rfl, rfl⟩) (w := 16) rfl (.inr (.inl rfl))
  | uint32 => exact .number (found (by rw [initial_eq]; rfl)) (.inr ⟨rfl, rfl⟩) (w := 32) rfl (.inr (.inr (.inl rfl)))
  | uint64 => exact .number (found (by rw [initial_eq]; rfl)) (.inr ⟨rfl, rfl⟩) (w := 64) rfl (.inr (.inr (.inr rfl)))
  | nint =>
    have hd := found (i := nint.id) (d := .int 0) (by rw [initial_eq]; rfl)
    refine .intro (l := Layout.pointerLayout target) hd (by decide) ?_ fun hun => ?_
    · simp [Layout.plain, hd, Descriptor.int]
    · simp [repOf, hun, hd, rep, Descriptor.int, Target.addressSize]
  | nuint =>
    have hd := found (i := nuint.id) (d := .uint 0) (by rw [initial_eq]; rfl)
    refine .intro (l := Layout.pointerLayout target) hd (by decide) ?_ fun hun => ?_
    · simp [Layout.plain, hd, Descriptor.uint]
    · simp [repOf, hun, hd, rep, Descriptor.uint, Target.addressSize]
  | float32 =>
    have hd := found (i := float32.id) (d := .float 32) (by rw [initial_eq]; rfl)
    refine .intro (l := { size := 4, align := 4 }) hd (by decide) ?_ fun hun => ?_
    · simp [Layout.plain, hd, Descriptor.float, Layout.numberLayout, Except.toOption]
    · simp [repOf, hun, hd, rep, Descriptor.float]
  | float64 =>
    have hd := found (i := float64.id) (d := .float 64) (by rw [initial_eq]; rfl)
    refine .intro (l := { size := 8, align := 8 }) hd (by decide) ?_ fun hun => ?_
    · simp [Layout.plain, hd, Descriptor.float, Layout.numberLayout, Except.toOption]
    · simp [repOf, hun, hd, rep, Descriptor.float]
  | voidPtr => exact .address (found (d := .pointer 1) (by rw [initial_eq]; rfl)) (.inl rfl)
  | bool =>
    have hbelow : t.HasRep target 2 { cls := .int, size := 1 } :=
      .number (found (by rw [initial_eq]; rfl)) (.inl ⟨rfl, rfl⟩) (w := 8) rfl (.inl rfl)
    exact .tagged ht (found (d := { kind := .tagged, elem := 2, slot := 1 }) (by rw [initial_eq]; rfl))
      rfl hbelow
  | stringz =>
    have hbelow : t.HasRep target 16 target.pointerRep :=
      .address (found (d := .pointer 6) (by rw [initial_eq]; rfl)) (.inl rfl)
    exact .tagged ht (found (d := { kind := .tagged, elem := 16, slot := 2 }) (by rw [initial_eq]; rfl))
      rfl hbelow

open TypeTable in
theorem Builtin.firm {target : Target} {t : TypeTable} (ht : t.Ordered) (b : Builtin) :
    t.Firm target b.id (b.rep target) := by
  have hfirst : initial.HasRep target b.id (b.rep target) := b.hasRep initial_ordered
  obtain ⟨d, hd⟩ := hfirst.found
  refine ⟨b.hasRep ht, ?_⟩
  rw [initial_ordered.underlying_eq ht.builtins hfirst.known]
  exact (find?_lt hd).2

end TypedIR
