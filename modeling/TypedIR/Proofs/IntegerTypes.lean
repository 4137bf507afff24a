import TypedIR.Emit
import TypedIR.Proofs.BuildSites
import TypedIR.Proofs.FoundedTables
import TypedIR.Proofs.IntegerValues

/-
  Integer types while code is emitted.

  Below its tags an integer type is one of the first types of its table, unless an image
  brought it (`TypeTable.Firm`), so no answer on it is out of date, whatever was asked
  before (`Layout.Numbers`); only of a type with tags there may be an old refusal, and
  what is emitted looks below the tags. On such answers an emitter finds the representation of an integer type, and the types that
  operands are brought to are those of `Rep.promoted` and `Rep.common`.
-/

namespace TypedIR

theorem Builtin.isInteger_nint {target : Target} (hu : target.Usual) :
    (Builtin.nint.rep target).IsInteger := by
  have hsize : (Builtin.nint.rep target).size = target.ptrSize := hu.addressSize
  refine ⟨.inl rfl, ?_⟩
  rw [hsize]
  exact .inr (.inr hu)

/-! ## The layouts of integers -/

theorem Layout.Answer.eq_ok {a : Layout.Answer} {l : Layout} (h : a.toOption = some l) : a = .ok l := by
  cases a with
  | error why => cases h
  | ok l' => exact congrArg Except.ok (Option.some.inj h)

namespace TypeTable

variable {target : Target} {t : TypeTable} {id : TypeId} {r : Rep}

theorem HasRep.below (ht : t.Ordered) (h : t.HasRep target id r) :
    t.underlying (t.underlying id) = t.underlying id ∧ t.HasRep target (t.underlying id) r := by
  obtain ⟨d, hd⟩ := h.found
  have hsame : t.underlying (t.underlying id) = t.underlying id :=
    underlying_of_not_tagged hd (ht.kind_underlying id hd)
  obtain ⟨l, hl, hr⟩ := h
  refine ⟨hsame, l, by rwa [hsame], ?_⟩
  unfold repOf at hr ⊢
  rw [hsame]
  rw [hd] at hr ⊢
  dsimp only at hr ⊢
  cases hk : d.kind <;> rw [hk] at hr <;> first | exact hr | cases hr

theorem Firm.below (ht : t.Ordered) (h : t.Firm target id r) :
    t.underlying (t.underlying id) = t.underlying id ∧ t.Firm target (t.underlying id) r := by
  obtain ⟨hsame, hbelow⟩ := h.hasRep.below ht
  exact ⟨hsame, hbelow, hsame.symm ▸ h.first⟩

theorem HasRep.integer_cases (ht : t.Ordered) (h : t.HasRep target id r) (hr : r.IsInteger) :
    ∃ d, t.find? id = some d ∧
      (d.kind = .tagged ∧ t.HasRep target d.elem r ∨
        t.underlying id = id ∧ (d.kind = .int ∧ r.cls = .int ∨ d.kind = .uint ∧ r.cls = .uint) ∧
          ∃ l : Layout, l.size = r.size ∧ (if d.width = 0 then Except.ok (Layout.pointerLayout target)
            else Layout.numberLayout (d.width.toNat / 8) id) = .ok l) := by
  obtain ⟨d', hd'⟩ := h.found
  obtain ⟨d, hd⟩ := known_of_underlying hd'
  refine ⟨d, hd, ?_⟩
  by_cases hk : d.kind = .tagged
  · have hsame := ht.underlying_tagged hd hk
    obtain ⟨l, hl, hrep⟩ := h
    refine .inl ⟨hk, l, by rwa [← hsame], ?_⟩
    unfold repOf at hrep ⊢
    rw [← hsame]
    rw [hd'] at hrep ⊢
    dsimp only at hrep ⊢
    cases hk' : d'.kind <;> rw [hk'] at hrep <;> first | exact hrep | cases hrep
  · have hsame := underlying_of_not_tagged hd hk
    obtain ⟨l, hl, hrep⟩ := h
    rw [hsame] at hl
    unfold repOf at hrep
    rw [hsame, hd] at hrep
    unfold Layout.plainPart Layout.plain at hl
    rw [hd] at hl
    dsimp only at hl hrep
    have hlayout : (if d.width = 0 then some (Layout.pointerLayout target)
        else (Layout.numberLayout (d.width.toNat / 8) id).toOption) = some l →
        (if d.width = 0 then Except.ok (Layout.pointerLayout target)
          else Layout.numberLayout (d.width.toNat / 8) id) = .ok l := by
      intro hl
      by_cases hw : d.width = 0
      · rw [if_pos hw] at hl ⊢
        exact congrArg Except.ok (Option.some.inj hl)
      · rw [if_neg hw] at hl ⊢
        exact Layout.Answer.eq_ok hl
    refine .inr ⟨hsame, ?_⟩
    cases hk' : d.kind <;> rw [hk'] at hl hrep <;> dsimp only at hl hrep
    case int =>
      obtain rfl := Except.ok.inj hrep
      exact ⟨.inl ⟨rfl, rfl⟩, l, rfl, hlayout hl⟩
    case uint =>
      obtain rfl := Except.ok.inj hrep
      exact ⟨.inr ⟨rfl, rfl⟩, l, rfl, hlayout hl⟩
    case tagged => exact absurd hk' hk
    all_goals first
      | (obtain rfl := Except.ok.inj hrep; rcases hr.1 with hc | hc <;> cases hc)
      | cases hrep

/-- Where all integers are first types, each is below its tags. -/
theorem HasRep.firm (ht : t.Ordered) (hfirst : initial.IntegersFrom t) (h : t.HasRep target id r)
    (hr : r.IsInteger) : t.Firm target id r := by
  obtain ⟨-, hbelow⟩ := h.below ht
  obtain ⟨d, hd, ⟨hk, -⟩ | ⟨-, hkind, -⟩⟩ := hbelow.integer_cases ht hr
  · exact absurd hk (ht.kind_underlying id hd)
  · have hint : d.isInteger = true := by
      unfold Descriptor.isInteger
      rcases hkind with ⟨hk, -⟩ | ⟨hk, -⟩ <;> rw [hk] <;> rfl
    exact ⟨h, (find?_lt (hfirst _ d hd hint)).2⟩

end TypeTable

namespace Layout

variable {target : Target} {t : TypeTable} {id : TypeId} {r : Rep}

/-- What an answer on an integer type is worth: a layout has the size, and there is no
refusal without tags. -/
def Sized (t : TypeTable) (id : TypeId) (r : Rep) : Answer → Prop
  | .ok l => l.size = r.size
  | .error _ => t.underlying id ≠ id

/-- What is remembered of the integers among the first types. -/
def Numbers (target : Target) (t : TypeTable) (c : Cache) : Prop :=
  ∀ id r, t.Firm target id r → r.IsInteger → ∀ a, c.lookup id = some a → Sized t id r a

theorem Numbers.cons {c : Cache} (hc : Numbers target t c) {a : Answer}
    (ha : ∀ r, t.Firm target id r → r.IsInteger → Sized t id r a) :
    Numbers target t ((id, a) :: c) := by
  intro id' r hr hi a' h
  rw [List.lookup_cons] at h
  split at h
  · next he =>
    obtain rfl := eq_of_beq he
    obtain rfl := Option.some.inj h
    exact ha r hr hi
  · exact hc id' r hr hi a' h

theorem Numbers.run_layoutWithin (ht : t.Ordered) (hr : t.Firm target id r) (hi : r.IsInteger)
    (n : Nat) (hn : id < n) {c : Cache} (hc : Numbers target t c) :
    Sized t id r ((layoutWithin target t n id).run c).1 ∧
      Numbers target t ((layoutWithin target t n id).run c).2 := by
  induction n generalizing id c with
  | zero => exact absurd hn (Nat.not_lt_zero _)
  | succ n ih =>
    rw [run_layoutWithin_succ]
    rcases hlook : c.lookup id with _ | a
    · obtain ⟨d, hd, htagged | ⟨hself, hkind, l, hl, hlayout⟩⟩ := hr.hasRep.integer_cases ht hi
      · obtain ⟨hk, helem⟩ := htagged
        have hfirm : t.Firm target d.elem r := ⟨helem, ht.underlying_tagged hd hk ▸ hr.first⟩
        have holder := ht.older hd d.elem (by simp [TypeTable.parts, hk])
        have hask : (workOut target t (layoutWithin target t n) id).run c =
            (layoutWithin target t n d.elem).run c := by
          unfold workOut
          rw [hd]
          simp only [hk]
        obtain ⟨hsized, hnumbers⟩ := ih hfirm (Nat.lt_of_lt_of_le holder (Nat.le_of_lt_succ hn)) hc
        have hhere : Sized t id r ((layoutWithin target t n d.elem).run c).1 := by
          rcases ha : ((layoutWithin target t n d.elem).run c).1 with why | l
          · -- a type is not among the types below it
            obtain ⟨d', hd'⟩ := hr.hasRep.found
            intro hsame
            rw [hsame, hd] at hd'
            obtain rfl := Option.some.inj hd'
            exact ht.kind_underlying id (hsame.symm ▸ hd) hk
          · rwa [ha] at hsized
        dsimp only
        rw [hask]
        exact ⟨hhere, hnumbers.cons fun r' hr' _ => (hr.unique hr'.hasRep) ▸ hhere⟩
      · have hout : (workOut target t (layoutWithin target t n) id).run c = (.ok l, c) := by
          unfold workOut
          rw [hd]
          dsimp only
          rcases hkind with ⟨hk, -⟩ | ⟨hk, -⟩ <;> rw [hk] <;> dsimp only <;>
          · split at hlayout
            · rw [if_pos ‹_›]
              exact congrArg (·, c) hlayout
            · rw [if_neg ‹_›]
              exact congrArg (·, c) hlayout
        dsimp only
        rw [hout]
        exact ⟨hl, hc.cons fun r' hr' _ => (hr.unique hr'.hasRep) ▸ hl⟩
    · exact ⟨hc id r hr hi a hlook, hc⟩

theorem Numbers.run_layoutOf (ht : t.Ordered) (hr : t.Firm target id r) (hi : r.IsInteger)
    {c : Cache} (hc : Numbers target t c) :
    Sized t id r ((layoutOf target t id).run c).1 ∧
      Numbers target t ((layoutOf target t id).run c).2 :=
  hc.run_layoutWithin ht hr hi _ (Nat.lt_succ_of_lt hr.hasRep.known)

theorem Numbers.asked (ht : t.Ordered) (n id : Nat) (hn : id < t.types.size → id < n) {c : Cache}
    (hc : Numbers target t c) : Numbers target t ((layoutWithin target t n id).run c).2 := by
  induction n generalizing id c with
  | zero => exact hc
  | succ n ih =>
    by_cases hint : ∃ r, t.Firm target id r ∧ r.IsInteger
    · obtain ⟨r, hr, hi⟩ := hint
      exact (hc.run_layoutWithin ht hr hi (n + 1) (hn hr.hasRep.known)).2
    · rw [run_layoutWithin_succ]
      cases hlook : c.lookup id with
      | some a => exact hc
      | none =>
        have hpart : ∀ d, t.find? id = some d → ∀ p ∈ t.parts d, p < n := fun d hd p hp => by
          have := ht.older hd p hp
          have := hn (TypeTable.find?_lt hd).2
          omega
        have hsteps : HandsOn (Numbers target t) c
            ((workOut target t (layoutWithin target t n) id).run c).2 :=
          steps_workOut id (fun d hd hk c hc => ?_) (fun d hd hk f hf c hc => ?_) c
        · exact (hsteps hc).cons fun r hr hi => absurd ⟨r, hr, hi⟩ hint
        · exact ih d.elem (fun _ => hpart d hd _ (by simp [TypeTable.parts, hk])) hc
        · have hp : f.type ∈ t.parts d := fieldTypes_eq_parts ht hd hk ▸ List.mem_map_of_mem hf
          exact ih f.type (fun _ => hpart d hd _ hp) hc

theorem Numbers.findRep_asked (ht : t.Ordered) (id : Nat) {c : Cache} (hc : Numbers target t c) :
    Numbers target t ((t.findRep target id).run c).2 := by
  rw [TypeTable.run_findRep]
  cases hd : t.find? (t.underlying id) with
  | none => exact hc
  | some d => exact hc.asked ht _ _ fun hlt => Nat.lt_succ_of_lt hlt

theorem Numbers.run_findRep (ht : t.Ordered) (hr : t.Firm target id r) (hi : r.IsInteger)
    {c : Cache} (hc : Numbers target t c) :
    ((t.findRep target id).run c).1 = .ok r ∧ Numbers target t ((t.findRep target id).run c).2 := by
  obtain ⟨hsame, hbelow⟩ := hr.below ht
  obtain ⟨hsized, hnumbers⟩ := hc.run_layoutOf ht hbelow hi
  obtain ⟨d, hd⟩ := hr.hasRep.found
  rw [TypeTable.run_findRep, hd]
  refine ⟨?_, hnumbers⟩
  obtain ⟨l, -, hrep⟩ := hr.hasRep
  rcases ha : ((layoutOf target t (t.underlying id)).run c).1 with why | l' <;> rw [ha] at hsized
  · exact absurd hsame hsized
  · have hsize : l'.size = r.size := hsized
    dsimp only
    rw [ha]
    unfold TypeTable.repOf at hrep ⊢
    rw [hd] at hrep ⊢
    dsimp only at hrep ⊢
    cases hk : d.kind <;> rw [hk] at hrep <;> dsimp only at hrep ⊢
    case int | uint =>
      obtain rfl := Except.ok.inj hrep
      rw [hsize]
    all_goals first
      | (obtain rfl := Except.ok.inj hrep; rcases hi.1 with hc | hc <;> cases hc)
      | cases hrep

end Layout

/-! ## The types operands are brought to -/

namespace Emit

variable {c : Setting} {r : Rep}

/-- What is looked at in an integer type. -/
structure Numeric.Of (n : Numeric) (c : Setting) (r : Rep) : Prop where
  firm : c.types.Firm c.target n.id r
  kind : n.kind = .int ∧ r.cls = .int ∨ n.kind = .uint ∧ r.cls = .uint
  bits : n.bits = r.size * 8
  native : n.native = true → r.size = c.target.addressSize

theorem Numeric.Of.promoted {n : Numeric} (h : n.Of c r) :
    ∃ id, n.promoted? = some id ∧ c.types.Firm c.target id r.promoted := by
  have hid : c.types.Firm c.target (if n.bits < 32 then Builtin.int32.id else n.id) r.promoted := by
    unfold Rep.promoted
    by_cases hsmall : r.size < 4
    · rw [if_pos hsmall, if_pos (by rw [h.bits]; omega)]
      exact Builtin.firm c.ordered .int32
    · rw [if_neg hsmall, if_neg (by rw [h.bits]; omega)]
      exact h.firm
  refine ⟨_, ?_, hid⟩
  unfold Numeric.promoted?
  rcases h.kind with ⟨hk, -⟩ | ⟨hk, -⟩ <;> rw [hk]

theorem firm_integer {size bits : Int} (hsize : size = 4 ∨ size = 8) (hbits : bits = size * 8)
    (unsigned : Bool) {native : Bool} (hnative : native = true → size = c.target.addressSize) :
    c.types.Firm c.target
      (if native then (if unsigned then Builtin.nuint.id else Builtin.nint.id)
        else if bits = 64 then (if unsigned then Builtin.uint64.id else Builtin.int64.id)
        else if unsigned then Builtin.uint32.id
        else Builtin.int32.id)
      { cls := if unsigned then .uint else .int, size } := by
  have builtin : ∀ b : Builtin, c.types.Firm c.target b.id (b.rep c.target) :=
    Builtin.firm c.ordered
  cases native with
  | true =>
    rw [if_pos rfl, hnative rfl]
    cases unsigned with
    | true => exact builtin .nuint
    | false => exact builtin .nint
  | false =>
    rw [if_neg (by decide)]
    rcases hsize with rfl | rfl <;> subst hbits <;> cases unsigned
    · exact builtin .int32
    · exact builtin .uint32
    · exact builtin .int64
    · exact builtin .uint64

theorem firm_commonInteger {x y : Numeric} {rx ry : Rep} (hix : rx.IsInteger)
    (hiy : ry.IsInteger) (hx : x.Of c rx.promoted) (hy : y.Of c ry.promoted) :
    c.types.Firm c.target (commonInteger x y) (rx.common ry) := by
  have hsx := hix.promoted_size
  have hsy := hiy.promoted_size
  have hcommon : rx.common ry =
      { cls := if (if y.bits < x.bits then x.kind == .uint
          else if x.bits < y.bits then y.kind == .uint
          else x.kind == .uint || y.kind == .uint) then .uint else .int
        size := max rx.promoted.size ry.promoted.size } := by
    have hbits : ∀ {n : Numeric} {r : Rep}, n.Of c r → n.bits = r.size * 8 := fun h => h.bits
    have hcls : ∀ {n : Numeric} {r : Rep}, n.Of c r →
        (n.kind == .uint) = decide (r.cls = .uint) ∧ (r.cls = .int ∨ r.cls = .uint) := by
      intro n r hn
      rcases hn.kind with ⟨hk, hc⟩ | ⟨hk, hc⟩ <;> simp [hk, hc]
    obtain ⟨hux, hcx⟩ := hcls hx
    obtain ⟨huy, hcy⟩ := hcls hy
    rw [hbits hx, hbits hy, hux, huy]
    unfold Rep.common
    generalize rx.promoted = px at hsx hcx ⊢
    generalize ry.promoted = py at hsy hcy ⊢
    obtain ⟨cx, sx⟩ := px
    obtain ⟨cy, sy⟩ := py
    dsimp only at hsx hsy hcx hcy
    rcases hsx with rfl | rfl <;> rcases hsy with rfl | rfl <;> rcases hcx with rfl | rfl <;>
      rcases hcy with rfl | rfl <;> rfl
  rw [hcommon]
  refine firm_integer ?_ ?_ _ fun hnative => ?_
  · rcases hsx with hsx | hsx <;> rcases hsy with hsy | hsy <;> simp [hsx, hsy]
  · rw [hx.bits, hy.bits]
    omega
  · have hsides := (Bool.or_eq_true_iff.mp hnative)
    simp only [Bool.and_eq_true, beq_iff_eq, hx.bits, hy.bits] at hsides
    rcases hsides with ⟨hn, heq⟩ | ⟨hn, heq⟩
    · rw [← hx.native hn]
      omega
    · rw [← hy.native hn]
      omega

end Emit

/-! ## Benches -/

/-- The bench is in the setting, and holds the function. -/
structure Bench.Drafts (b : Bench) (c : Setting) (f : Func) : Prop where
  target : b.target = c.target
  types : b.types = c.types
  layouts : Layout.Numbers c.target c.types b.layouts
  func : b.func = f

namespace Bench.Drafts

variable {b : Bench} {c : Setting} {f : Func} {type : TypeId} {r : Rep}
  {stop : Failure → Bench → Prop} (hb : b.Drafts c f)
include hb

theorem repOf (hr : c.types.Firm c.target type r) (hi : r.IsInteger) :
    Ends (Emit.repOf type) b (fun a b' => a = r ∧ b'.Drafts c f) stop := by
  obtain ⟨hanswer, hnumbers⟩ := hb.layouts.run_findRep c.ordered hr hi
  unfold Emit.repOf
  refine .bind_get ?_
  rw [hb.types, hb.target]
  rcases hrun : (c.types.findRep c.target type).run b.layouts with ⟨answer, layouts⟩
  rw [hrun] at hanswer hnumbers
  obtain rfl : answer = .ok r := hanswer
  exact .bind_set (.pure' ⟨rfl, rfl, rfl, hnumbers, hb.func⟩)

theorem layoutOf (hr : c.types.Firm c.target type r) (hi : r.IsInteger) :
    Ends (Emit.layoutOf type) b (fun a b' => Layout.Sized c.types type r a ∧ b'.Drafts c f) stop := by
  obtain ⟨hsized, hnumbers⟩ := hb.layouts.run_layoutOf c.ordered hr hi
  unfold Emit.layoutOf
  refine .bind_get ?_
  rw [hb.types, hb.target]
  exact .bind_set (.pure' ⟨hsized, rfl, rfl, hnumbers, hb.func⟩)

theorem numeric? (hr : c.types.Firm c.target type r) (hi : r.IsInteger) :
    Ends (Emit.numeric? type) b (fun a b' => (∃ n, a = some n ∧ n.Of c r) ∧ b'.Drafts c f) stop := by
  obtain ⟨hsame, hbelow⟩ := hr.below c.ordered
  obtain ⟨d, hd, ⟨hk, -⟩ | ⟨-, hkind, l, hl, hlayout⟩⟩ := hbelow.hasRep.integer_cases c.ordered hi
  · exact absurd hk (c.ordered.kind_underlying type hd)
  unfold Emit.numeric?
  refine .bind_get ?_
  rw [hb.types]
  dsimp only
  rw [hd]
  have hscalar : d.isScalar = true := by
    unfold Descriptor.isScalar
    rcases hkind with ⟨hk, -⟩ | ⟨hk, -⟩ <;> rw [hk]
  refine .ite' (fun _ => ?_) fun h => absurd hscalar h
  refine .bind' (hb.layoutOf hbelow hi) ?_
  rintro (why | l') b' ⟨hsized, hb'⟩
  · exact absurd hsame hsized
  have hsize : l'.size = r.size := hsized
  refine .pure' ⟨⟨_, rfl, hbelow, ?_, ?_, fun hnative => ?_⟩, hb'⟩
  · exact hkind
  · unfold Layout.Answer.bits
    dsimp only
    rw [hsize]
    rcases hi.2 with hs | hs | hs | hs <;> rw [hs] <;> rfl
  · have hwidth : d.width = 0 := by simp_all
    rw [if_pos hwidth] at hlayout
    rw [← hl, ← Except.ok.inj hlayout]
    rfl

theorem promoteUnary? (hr : c.types.Firm c.target type r)
    (hi : r.IsInteger) :
    Ends (Emit.promoteUnary? type) b (fun a b' => (∃ id, a = some id ∧
      c.types.Firm c.target id r.promoted) ∧ b'.Drafts c f) stop := by
  refine .bind' (hb.numeric? hr hi) ?_
  rintro _ b' ⟨⟨n, rfl, hn⟩, hb'⟩
  exact .pure' ⟨hn.promoted, hb'⟩

theorem commonType (op : Opcode) {x y : TypeId} {rx ry : Rep}
    (hx : c.types.Firm c.target x rx) (hy : c.types.Firm c.target y ry) (hix : rx.IsInteger)
    (hiy : ry.IsInteger) :
    Ends (Emit.commonType op x y) b (fun id b' => c.types.Firm c.target id (rx.common ry) ∧
      b'.Drafts c f) stop := by
  refine .bind' (hb.numeric? hx hix) ?_
  rintro _ b₁ ⟨⟨nx, rfl, hnx⟩, hb₁⟩
  refine .bind' (hb₁.numeric? hy hiy) ?_
  rintro _ b₂ ⟨⟨ny, rfl, hny⟩, hb₂⟩
  obtain ⟨px, hpx, hrx⟩ := hnx.promoted
  obtain ⟨py, hpy, hry⟩ := hny.promoted
  have hkind : ∀ {n : Emit.Numeric} {r : Rep}, n.Of c r → n.kind ≠ .float ∧ n.isAddress = false := by
    intro n r hn
    unfold Emit.Numeric.isAddress
    rcases hn.kind with ⟨hk, -⟩ | ⟨hk, -⟩ <;> rw [hk] <;> exact ⟨nofun, rfl⟩
  dsimp only
  rw [if_neg (not_or.mpr ⟨(hkind hnx).1, (hkind hny).1⟩), (hkind hnx).2, (hkind hny).2, hpx, hpy]
  refine .bind' (hb₂.numeric? hrx hix.promoted) ?_
  rintro _ b₃ ⟨⟨mx, rfl, hmx⟩, hb₃⟩
  refine .bind' (hb₃.numeric? hry hiy.promoted) ?_
  rintro _ b₄ ⟨⟨my, rfl, hmy⟩, hb₄⟩
  exact .pure' ⟨Emit.firm_commonInteger hix hiy hmx hmy, hb₄⟩

end Bench.Drafts

end TypedIR
