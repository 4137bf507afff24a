import TypedIR.Proofs.BuildSites
import TypedIR.Proofs.ConstantNumbers

/-
  Making and reading integer constants.

  A type of whole numbers is an integer type, the type of truth values or an
  address type, under any tags (`Ty.Whole`). Which of the two ways a number goes
  is decided by the class of the type, and both come to the same: a constant with
  the register of the number if the type holds it, and a type problem if not
  (`Workspace.Site.ends_literal`). A constant is read in the same two ways
  (`ends_constInt?`, `ends_constUint?`).
-/

namespace TypedIR

open BuildM

/-! ## Types of whole numbers -/

/-- How values of a whole number type are read: truth values are signed, addresses
are not, and numbers are what the type below the tags says. -/
inductive Ty.Reading (d : Descriptor) : TyKind → Class → Prop
  | bool : Reading d .bool .int
  | int (h : d.kind = .int) : Reading d .primitive .int
  | uint (h : d.kind = .uint) : Reading d .primitive .uint
  | pointer : Reading d .pointer .pointer

namespace Ty.Reading

variable {d : Descriptor} {kind : TyKind} {cls : Class}

theorem cls_cases (h : Reading d kind cls) : cls = .int ∨ cls = .uint ∨ cls = .pointer := by
  cases h <;> simp

theorem kind_ne_invalid (h : Reading d kind cls) : kind ≠ .invalid := by
  cases h <;> simp

theorem takesIntegers (h : Reading d kind cls) :
    (kind == .bool || (kind == .primitive && d.isInteger) || kind == .pointer) = true := by
  unfold Descriptor.isInteger
  cases h with
  | bool => rfl
  | int hk => simp [hk]
  | uint hk => simp [hk]
  | pointer => rfl

theorem unsigned_eq (h : Reading d kind cls) :
    ((kind == .primitive && d.kind == .uint) || kind == .pointer) = decide (cls ≠ .int) := by
  cases h with
  | bool => rfl
  | int hk => simp [hk]
  | uint hk => simp [hk]
  | pointer => rfl

theorem signed_eq (h : Reading d kind cls) :
    (kind == .bool || (kind == .primitive && d.kind == .int)) = decide (cls = .int) := by
  cases h with
  | bool => rfl
  | int hk => simp [hk]
  | uint hk => simp [hk]
  | pointer => rfl

end Ty.Reading

/-- A type of whole numbers, truth values or addresses, and how it is held. -/
structure Ty.Known (c : Setting) (rt : RuntimeId) (t : Ty) (r : Rep) : Prop where
  owner : t.owner = some rt
  rep : c.types.HasRep c.target t.id r
  reading : ∃ d, c.types.find? (c.types.underlying t.id) = some d ∧ Ty.Reading d t.kind r.cls

/-- An integer, bool or pointer type of a runtime, under any tags, and how it is
held: truth values are signed bytes. -/
structure Ty.Whole (c : Setting) (rt : RuntimeId) (t : Ty) (r : Rep) : Prop where
  owner : t.owner = some rt
  kind : c.types.tyKind? t.id = some t.kind
  rep : c.types.HasRep c.target t.id r
  cls : r.cls = .int ∨ r.cls = .uint ∨ r.cls = .pointer ∧ t.kind = .pointer
  bool : t.kind = .bool → r = .bool

namespace Ty

variable {c c' : Setting} {rt : RuntimeId} {t : Ty} {r : Rep}

theorem Whole.wrap? (h : t.Whole c rt r) : c.types.wrap? rt t.id = some t := by
  have howner := h.owner
  unfold TypeTable.wrap?
  rw [h.kind]
  cases t
  cases howner
  rfl

theorem Whole.known (h : t.Whole c rt r) : t.Known c rt r := by
  obtain ⟨d, hd⟩ := h.rep.found
  refine ⟨h.owner, h.rep, d, hd, ?_⟩
  have hkind := h.kind
  have hcls := h.cls
  obtain ⟨l, -, hrep⟩ := h.rep
  unfold TypeTable.repOf at hrep
  rw [hd] at hrep
  dsimp only at hrep
  unfold TypeTable.tyKind? at hkind
  split at hkind
  · have hbool := (Option.some.inj hkind).symm
    rw [hbool, h.bool hbool]
    exact .bool
  · unfold TypeTable.kindOf at hkind
    rw [hd] at hkind
    simp only [Option.map_some, Option.getD_some] at hkind
    cases hk : d.kind <;> rw [hk] at hkind hrep <;> dsimp only at hkind hrep <;> cases hrep
    case int.refl =>
      rw [← Option.some.inj hkind]
      exact .int hk
    case uint.refl =>
      rw [← Option.some.inj hkind]
      exact .uint hk
    case pointer.refl =>
      rw [← Option.some.inj hkind]
      exact .pointer
    case signature.refl =>
      rw [← Option.some.inj hkind] at hcls
      simp at hcls
    all_goals simp at hcls

namespace Known

theorem grow (h : t.Known c rt r) (htarget : c'.target = c.target)
    (htypes : c.types.Grows c'.types) : t.Known c' rt r := by
  obtain ⟨d, hd, hread⟩ := h.reading
  refine ⟨h.owner, htarget ▸ h.rep.grow c.ordered htypes, d, ?_, hread⟩
  rw [c.ordered.underlying_eq htypes h.rep.known]
  exact htypes.find? hd

theorem isWhole (h : t.Known c rt r) : r.IsWhole := by
  obtain ⟨d, -, hread⟩ := h.reading
  have hvalid := h.rep.valid c.usual
  have hcls := hread.cls_cases
  refine ⟨hcls, ?_⟩
  unfold Rep.Valid at hvalid
  rcases hcls with hc | hc | hc <;> rw [hc] at hvalid <;> dsimp only at hvalid <;> omega

theorem valid (h : t.Known c rt r) : t.valid = true := by
  obtain ⟨d, -, hread⟩ := h.reading
  unfold Ty.valid
  simp [h.owner, hread.kind_ne_invalid]

end Known

end Ty

def Rep.constant (r : Rep) (type : TypeId) (n : Int) : ValueInfo :=
  { type, rep := r, origin := .const, bits := r.register n }

namespace Workspace.Site

variable {w : Workspace} {c : Setting} {fn : FnId} {s : Function} {f : Func} {t : Ty} {r : Rep}

/-! ## Questions about the type -/

theorem ends_baseOf (h : w.Site c fn s f) (ht : t.Known c s.runtime r) {d : Descriptor}
    (hd : c.types.find? (c.types.underlying t.id) = some d) :
    Ends (baseOf t) w (fun a w' => a = d ∧ w' = w) fun _ _ => False := by
  unfold baseOf
  rw [ht.owner]
  refine h.ends_table ?_
  rw [if_pos ht.valid, hd]
  exact .pure' ⟨rfl, rfl⟩

theorem ends_isIntType (h : w.Site c fn s f) (ht : t.Known c s.runtime r) :
    Ends (isIntType t) w (fun a w' => a = true ∧ w' = w) fun _ _ => False := by
  obtain ⟨d, hd, hread⟩ := ht.reading
  have hbase : Ends (isInteger t) w
      (fun a w' => a = (t.kind == .primitive && d.isInteger) ∧ w' = w) fun _ _ => False := by
    refine .bind' (h.ends_baseOf ht hd) ?_
    rintro _ _ ⟨rfl, rfl⟩
    exact .pure' ⟨rfl, rfl⟩
  refine .bind' hbase ?_
  rintro _ _ ⟨rfl, rfl⟩
  exact .pure' ⟨hread.takesIntegers, rfl⟩

theorem ends_isUnsignedLike (h : w.Site c fn s f) (ht : t.Known c s.runtime r) :
    Ends (isUnsignedLike t) w (fun a w' => a = decide (r.cls ≠ .int) ∧ w' = w)
      fun _ _ => False := by
  obtain ⟨d, hd, hread⟩ := ht.reading
  have hbase : Ends (isUnsigned t) w
      (fun a w' => a = (t.kind == .primitive && d.kind == .uint) ∧ w' = w) fun _ _ => False := by
    refine .bind' (h.ends_baseOf ht hd) ?_
    rintro _ _ ⟨rfl, rfl⟩
    exact .pure' ⟨rfl, rfl⟩
  refine .bind' hbase ?_
  rintro _ _ ⟨rfl, rfl⟩
  exact .pure' ⟨hread.unsigned_eq, rfl⟩

theorem ends_isSigned (h : w.Site c fn s f) (ht : t.Known c s.runtime r) :
    Ends (isSigned t) w (fun a w' => a = decide (r.cls = .int) ∧ w' = w) fun _ _ => False := by
  obtain ⟨d, hd, hread⟩ := ht.reading
  refine .bind' (h.ends_baseOf ht hd) ?_
  rintro _ _ ⟨rfl, rfl⟩
  exact .pure' ⟨hread.signed_eq, rfl⟩

theorem ends_widthOf (h : w.Site c fn s f) (ht : t.Known c s.runtime r) :
    Ends (widthOf t) w (fun a w' => a = r.width ∧ w'.Site c fn s f) fun _ _ => False := by
  have hwhole := ht.isWhole
  have hvoid : r.cls ≠ .void := by rcases hwhole.1 with hc | hc | hc <;> simp [hc]
  have hlayout : ∀ e : Engine, e.Shows c s.id f → Ends (EngineM.layoutOf t.id) e
      (fun a e' => (∃ l, a = .ok l ∧ l.size = r.size) ∧ e'.Shows c s.id f) fun _ _ => False := by
    intro e he
    obtain ⟨hsize, hlayouts⟩ := he.layouts.run_layoutOf_rep c.ordered ht.rep hvoid
    rw [← he.target, ← he.types] at hsize hlayouts
    refine .bind_get (.bind_set (.pure' ⟨hsize, ?_⟩))
    rw [he.target, he.types] at hlayouts ⊢
    exact he.congr he.target.symm he.types.symm rfl hlayouts rfl rfl
  have hask : Ends (layoutOf? t) w
      (fun a w' => (∃ l, a = some l ∧ l.size = r.size) ∧ w'.Site c fn s f) fun _ _ => False := by
    unfold layoutOf?
    rw [ht.owner]
    simp only [ht.valid]
    refine .bind' (h.ends_tryEngine hlayout) ?_
    rintro _ w' ⟨⟨_, rfl, l, rfl, hl⟩, h'⟩
    exact .pure' ⟨⟨l, rfl, hl⟩, h'⟩
  have hsize : Ends (sizeOf t) w (fun a w' => a = r.size ∧ w'.Site c fn s f) fun _ _ => False := by
    refine .bind' hask ?_
    rintro _ w' ⟨⟨l, rfl, hl⟩, h'⟩
    exact .pure' ⟨hl, h'⟩
  refine .bind' hsize ?_
  rintro _ w' ⟨rfl, h'⟩
  exact .pure' ⟨hwhole.bits_eq, h'⟩

/-! ## Making constants -/

/-- What making a constant of a number comes to: a value if the type holds the
number, and a type problem kept with the function if it does not. -/
inductive Constant (c : Setting) (fn : FnId) (s : Function) (f : Func) (t : Ty) (r : Rep) (n : Int) :
    Val → Workspace → Prop
  | made {w' : Workspace} (hn : r.Holds n)
      (hsite : w'.Site c fn s (f.addValue (r.constant t.id n)).2) :
      Constant c fn s f t r n
        { fn := some fn, id := f.values.size, kind := .ofTy t, type := t } w'
  | refused {w' : Workspace} {p : Problem} (hn : ¬ r.Holds n) (hp : p.kind? = some .type)
      (hsite : w'.Site c fn (s.withProblem p) f) : Constant c fn s f t r n {} w'

theorem ends_constant {b : Bench} {type : TypeId} (ht : b.types.Ordered)
    (hr : b.types.HasRep b.target type r) (hwhole : r.IsWhole)
    (hlayouts : Layout.Truthful b.target b.types b.layouts) (bits : Word) :
    Ends (Emit.constant type bits .int) b
      (fun a b' => a = b.func.values.size ∧ b'.types = b.types ∧
        Layout.Truthful b.target b.types b'.layouts ∧
        b'.func = (b.func.addValue
          { type, rep := r, origin := .const, bits := r.normalize bits }).2)
      fun _ _ => False := by
  have hrep : Ends (Emit.repOf type) b
      (fun a b' => a = r ∧ ∃ layouts, Layout.Truthful b.target b.types layouts ∧
        b' = { b with layouts }) fun _ _ => False := by
    obtain ⟨hanswer, htruthful⟩ := hlayouts.run_findRep ht hr
    unfold Emit.repOf
    refine .bind_get ?_
    rcases hrun : (b.types.findRep b.target type).run b.layouts with ⟨answer, layouts⟩
    rw [hrun] at hanswer htruthful
    obtain rfl : answer = .ok r := hanswer
    exact .bind_set (.pure' ⟨rfl, layouts, htruthful, rfl⟩)
  refine .bind' hrep ?_
  rintro rep _ ⟨rfl, layouts, htruthful, rfl⟩
  have hok : Emit.constClassOk rep.cls .int = true := by
    unfold Emit.constClassOk
    rcases hwhole.1 with hc | hc | hc <;> rw [hc] <;> rfl
  rw [hok]
  exact .bind_get (.bind_set (.pure' ⟨rfl, rfl, htruthful, rfl⟩))

theorem ends_constBits (h : w.Site c fn s f) (hopen : f.Open c) (ht : t.Whole c s.runtime r)
    {n : Int} (hn : r.Holds n) :
    Ends (constBits fn t (r.code n)) w (Constant c fn s f t r n) fun _ _ => False := by
  have hconst : ∀ e : Engine, e.Shows c s.id f → Ends (EngineM.constInt s.id t.id (r.code n)) e
      (fun a e' => ∃ f', (a = f.values.size ∧ f' = (f.addValue (r.constant t.id n)).2) ∧
        e'.Shows c s.id f') fun _ _ => False := by
    intro e he
    refine he.ends_emitInto hopen fun b htarget htypes hlayouts hfunc => ?_
    rw [← htarget, ← htypes] at hlayouts
    have hrep := ht.rep
    have hordered := c.ordered
    rw [← htarget, ← htypes] at hrep
    rw [← htypes] at hordered
    refine (ends_constant hordered hrep ht.known.isWhole hlayouts _).imp ?_
    rintro _ b' ⟨rfl, htypes', hlayouts', hfunc'⟩
    rw [htarget, htypes] at hlayouts'
    rw [hfunc'.trans (by rw [hfunc]), hfunc]
    refine ⟨htypes'.trans htypes, hlayouts', rfl, ?_, rfl, rfl⟩
    unfold Func.addValue
    simp
  have hvalue : ∀ id f', id = f.values.size ∧ f' = (f.addValue (r.constant t.id n)).2 →
      ∃ info, f'.value? id = some info ∧ c.types.wrap? s.runtime info.type = some t := by
    rintro _ _ ⟨rfl, rfl⟩
    exact ⟨_, (Func.value?_addValue h.first _).trans (if_pos rfl), ht.wrap?⟩
  refine (h.ends_emit "const" hconst hvalue).imp ?_
  rintro _ w' ⟨_, _, rfl, ⟨rfl, rfl⟩, h'⟩
  exact .made hn h'

theorem ends_refused (h : w.Site c fn s f) (ht : t.Whole c s.runtime r) {n : Int}
    (hn : ¬ r.Holds n) {why : String → Complaint} (hwhy : ∀ text, (why text).kind = .type) :
    Ends (do reject fn "const" (why (← tyText t))) w (Constant c fn s f t r n)
      fun _ _ => False := by
  refine .bind' (h.ends_tyText ht.owner) ?_
  rintro text _ rfl
  have hkind : (Problem.complaint "const" (why text)).kind? = some .type :=
    congrArg some (hwhy text)
  refine (h.ends_reject "const" (why text)).imp ?_
  rintro _ w' ⟨rfl, h'⟩
  exact .refused hn hkind h'

theorem ends_constSigned (h : w.Site c fn s f) (hopen : f.Open c) (ht : t.Whole c s.runtime r)
    (hc : r.cls = .int) {n : Int} (hlo : -2 ^ 63 ≤ n) (hhi : n < 2 ^ 63) :
    Ends (constSigned fn t n) w (Constant c fn s f t r n) fun _ _ => False := by
  have hfits := ht.known.isWhole.holds_iff_signed hc hlo hhi
  refine .bind' (h.ends_widthOf ht.known) ?_
  rintro _ w' ⟨rfl, h'⟩
  refine .ite' (fun hn => ?_) fun hn => ?_
  · have hmade := h'.ends_constBits hopen ht (hfits.mp hn)
    unfold Rep.code at hmade
    rwa [if_pos hc] at hmade
  · exact h'.ends_refused ht (fun hholds => hn (hfits.mpr hholds)) fun _ => rfl

theorem ends_constUnsigned (h : w.Site c fn s f) (hopen : f.Open c) (ht : t.Whole c s.runtime r)
    (hc : r.cls ≠ .int) {n : Nat} (hn : n < 2 ^ 64) :
    Ends (constUnsigned fn t n) w (Constant c fn s f t r n) fun _ _ => False := by
  have hwhole := ht.known.isWhole
  have hfits := hwhole.holds_iff_unsigned hc hn
  refine .bind' (h.ends_widthOf ht.known) ?_
  rintro _ w' ⟨rfl, h'⟩
  refine .ite' (fun hno => ?_) fun hyes => ?_
  · have hnot : ¬ r.Holds n := by
      intro hholds
      rw [hfits.mpr hholds] at hno
      cases hno
    exact h'.ends_refused ht hnot fun _ => rfl
  · have hholds : r.Holds n := hfits.mp (by simpa using hyes)
    -- what fits is not too great either, and there is a width
    have hgreatest := hholds.2
    unfold Rep.greatest at hgreatest
    rw [if_neg hc] at hgreatest
    refine .ite' (fun hgreat => ?_) fun _ => .ite' (fun hnone => ?_) fun _ => ?_
    · have hmask := Word.toNat_shiftLeft_one_sub (j := r.width) (by omega)
      rw [Int.toNat_natCast, hmask] at hgreat
      have hcast : ((2 ^ r.width : Nat) : Int) = 2 ^ r.width := by simp
      omega
    · have := hwhole.width_pos
      omega
    · have hmade := h'.ends_constBits hopen ht hholds
      unfold Rep.code at hmade
      rwa [if_neg hc] at hmade

end Workspace.Site

def Literal.constant (x : Literal) (fn : FnId) (t : Ty) : BuildM Val :=
  match x with
  | signed n => constInt fn t n.toInt
  | unsigned n => constUint fn t n.toNat

theorem Workspace.Site.ends_literal {w : Workspace} {c : Setting} {fn : FnId} {s : Function}
    {f : Func} {t : Ty} {r : Rep} (h : w.Site c fn s f) (hopen : f.Open c)
    (ht : t.Whole c s.runtime r) (x : Literal) :
    Ends (x.constant fn t) w (Constant c fn s f t r x.number) fun _ _ => False := by
  have hknown := ht.known
  cases x with
  | signed n =>
    have hlo := n.le_toInt
    have hhi := n.toInt_lt
    show Ends (constInt fn t n.toInt) w (Constant c fn s f t r n.toInt) _
    unfold constInt
    refine .bind' (h.ends_isIntType hknown) ?_
    rintro _ _ ⟨rfl, rfl⟩
    refine .ite' nofun fun _ => ?_
    refine .bind' (h.ends_isUnsignedLike hknown) ?_
    rintro _ _ ⟨rfl, rfl⟩
    refine .ite' (fun hc => ?_) fun hc => ?_
    · have hcls : r.cls ≠ .int := by simpa using hc
      refine .ite' (fun hneg => ?_) fun hpos => ?_
      · refine h.ends_refused ht (fun hholds => ?_) fun _ => rfl
        have hleast := hholds.1
        unfold Rep.least at hleast
        rw [if_neg hcls] at hleast
        omega
      · have hmade := h.ends_constUnsigned hopen ht hcls (n := n.toInt.toNat) (by omega)
        rwa [show ((n.toInt.toNat : Nat) : Int) = n.toInt by omega] at hmade
    · exact h.ends_constSigned hopen ht (by simpa using hc) (by omega) (by omega)
  | unsigned n =>
    have hlt := n.toNat_lt
    show Ends (constUint fn t n.toNat) w (Constant c fn s f t r n.toNat) _
    unfold constUint
    refine .bind' (h.ends_isIntType hknown) ?_
    rintro _ _ ⟨rfl, rfl⟩
    refine .ite' nofun fun _ => ?_
    refine .bind' (h.ends_isSigned hknown) ?_
    rintro _ _ ⟨rfl, rfl⟩
    refine .ite' (fun hc => ?_) fun hc => ?_
    · have hcls : r.cls = .int := by simpa using hc
      refine .ite' (fun hsmall => ?_) fun hgreat => ?_
      · exact h.ends_constSigned hopen ht hcls (by omega) (by omega)
      · refine h.ends_refused ht (fun hholds => ?_) fun _ => rfl
        have hgreatest := hholds.2
        unfold Rep.greatest at hgreatest
        rw [if_pos hcls] at hgreatest
        have hle : (2 ^ (r.width - 1) : Int) ≤ 2 ^ 63 := by
          have := hknown.isWhole.width_pos
          exact_mod_cast Nat.pow_le_pow_right (by decide) (by omega)
        omega
    · exact h.ends_constUnsigned hopen ht (by simpa using hc) hlt

/-! ## Reading constants -/

namespace Workspace.Site

variable {w : Workspace} {c : Setting} {fn : FnId} {s : Function} {f : Func} {t : Ty} {r : Rep}
  {n : Int} {id : ValueId}

theorem ends_constBits? (h : w.Site c fn s f) (ht : t.Known c s.runtime r)
    (hv : f.value? id = some (r.constant t.id n)) :
    Ends (constBits? { fn := some fn, id, kind := .ofTy t, type := t }) w
      (fun a w' => a = some ((r.register n).signExtend r.bits).toInt ∧ w' = w)
      fun _ _ => False := by
  have hconst : ∀ e : Engine, e.Shows c s.id f → e.constant? s.id id = some (r.constant t.id n) := by
    intro e he
    unfold Engine.constant?
    rw [he.func]
    dsimp only
    rw [hv]
    rfl
  have hvalid : Val.valid { fn := some fn, id, kind := .ofTy t, type := t } = true :=
    Val.valid_of_pos rfl (Func.value?_lt hv).1
  have hask : Ends (isConstant { fn := some fn, id, kind := .ofTy t, type := t }) w
      (fun a w' => a = true ∧ w' = w) fun _ _ => False := by
    refine h.ends_function (h.ends_engine fun e he => .pure' ⟨?_, rfl⟩)
    rw [hvalid, hconst e he]
    rfl
  unfold constBits?
  refine .bind' hask ?_
  rintro _ _ ⟨rfl, rfl⟩
  refine .bind' (h.ends_isIntType ht) ?_
  rintro _ _ ⟨rfl, rfl⟩
  refine .ite' nofun fun _ => h.ends_function (h.ends_engine fun e he => .pure' ⟨?_, rfl⟩)
  unfold Engine.constInt?
  rw [hconst e he]
  exact if_neg ht.isWhole.not_float

theorem ends_constInt? (h : w.Site c fn s f) (ht : t.Known c s.runtime r) (hn : r.Holds n)
    (hv : f.value? id = some (r.constant t.id n)) :
    Ends (constInt? { fn := some fn, id, kind := .ofTy t, type := t }) w
      (fun a w' => a = (if n < 2 ^ 63 then some n else none) ∧ w'.Site c fn s f)
      fun _ _ => False := by
  have hwhole := ht.isWhole
  refine .bind' (h.ends_constBits? ht hv) ?_
  rintro _ _ ⟨rfl, rfl⟩
  refine .bind' (h.ends_isUnsignedLike ht) ?_
  rintro _ _ ⟨rfl, rfl⟩
  refine .ite' (fun hc => ?_) fun hc => ?_
  · have hcls : r.cls ≠ .int := by simpa using hc
    refine .bind' (h.ends_widthOf ht) ?_
    rintro _ w' ⟨rfl, h'⟩
    refine .pure' ⟨?_, h'⟩
    have hleast := hn.1
    unfold Rep.least at hleast
    rw [if_neg hcls] at hleast
    rw [hwhole.decodeUnsigned_register hcls hn]
    split <;> split <;> first | rfl | (congr 1; omega)
  · have hcls : r.cls = .int := by simpa using hc
    rw [hwhole.toInt_signExtend_register hcls hn]
    have hgreatest := hn.2
    unfold Rep.greatest at hgreatest
    rw [if_pos hcls] at hgreatest
    have hle : (2 ^ (r.width - 1) : Int) ≤ 2 ^ 63 := by
      have := hwhole.width_pos
      exact_mod_cast Nat.pow_le_pow_right (by decide) (by omega)
    rw [if_pos (by omega)]
    exact .pure' ⟨rfl, h⟩

theorem ends_constUint? (h : w.Site c fn s f) (ht : t.Known c s.runtime r) (hn : r.Holds n)
    (hv : f.value? id = some (r.constant t.id n)) :
    Ends (constUint? { fn := some fn, id, kind := .ofTy t, type := t }) w
      (fun a w' => a = (if 0 ≤ n then some n.toNat else none) ∧ w'.Site c fn s f)
      fun _ _ => False := by
  have hwhole := ht.isWhole
  refine .bind' (h.ends_constBits? ht hv) ?_
  rintro _ _ ⟨rfl, rfl⟩
  refine .bind' (h.ends_isUnsignedLike ht) ?_
  rintro _ _ ⟨rfl, rfl⟩
  refine .ite' (fun hc => ?_) fun hc => ?_
  · have hcls : r.cls ≠ .int := by simpa using hc
    refine .bind' (h.ends_widthOf ht) ?_
    rintro _ w' ⟨rfl, h'⟩
    refine .pure' ⟨?_, h'⟩
    have hleast := hn.1
    unfold Rep.least at hleast
    rw [if_neg hcls] at hleast
    rw [hwhole.decodeUnsigned_register hcls hn, if_pos hleast]
  · rw [hwhole.toInt_signExtend_register (by simpa using hc) hn]
    exact .pure' ⟨rfl, h⟩

end Workspace.Site

end TypedIR
