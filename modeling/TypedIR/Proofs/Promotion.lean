import TypedIR.Proofs.ReachedEngines

/-
  The common type of two operands.

  Promotion looks below the tags of its operands: at their kinds and at the widths that
  the engine answers for them. Its answer is the same in both orders, but for a
  difference, and for two integers it is an integer that is as wide as either, and not
  below 32 bits (`Engine.Reached.promotes`).

  An address and a float have no common type, unless the float has 64 bits, or the
  address is that of a function: the test for floats of 64 bits comes first, and the one
  after it asks for pointers only (`float64_takes_pointers`).
-/

namespace TypedIR

/-! ## Answers on scalars -/

namespace Layout

variable (target : Target) {t : TypeTable} {id : TypeId} {d : Descriptor}

theorem workOut_scalar (hd : t.find? id = some d) (hs : d.isScalar = true) :
    ∃ a, ∀ ask c, (workOut target t ask id).run c = (a, c) := by
  have hnumber : ∀ p : Prop, ∀ _ : Decidable p, ∀ x y : Answer, ∃ a, ∀ c : Cache,
      ((if p then pure x else pure y : StateM Cache Answer).run c) = (a, c) := by
    intro p _ x y
    by_cases hp : p
    · exact ⟨x, fun c => by rw [if_pos hp]; rfl⟩
    · exact ⟨y, fun c => by rw [if_neg hp]; rfl⟩
  unfold workOut
  rw [hd]
  dsimp only
  unfold Descriptor.isScalar at hs
  cases hk : d.kind <;> rw [hk] at hs <;> dsimp only at hs ⊢
  case int | uint =>
    obtain ⟨a, ha⟩ := hnumber (d.width = 0) inferInstance (.ok (pointerLayout target))
      (numberLayout (d.width.toNat / 8) id)
    exact ⟨a, fun _ c => ha c⟩
  case float =>
    obtain ⟨a, ha⟩ := hnumber (d.width = 32 ∨ d.width = 64) inferInstance
      (numberLayout (d.width.toNat / 8) id) (.error (.invalidWidth id))
    exact ⟨a, fun _ c => ha c⟩
  case pointer | signature => exact ⟨_, fun _ _ => rfl⟩
  all_goals cases hs

theorem run_layoutOf_scalar (hd : t.find? id = some d) (hs : d.isScalar = true) :
    ∃ a, ∀ c : Cache, (layoutOf target t id).run c =
      match c.lookup id with
      | some a' => (a', c)
      | none => (a, (id, a) :: c) := by
  obtain ⟨a, ha⟩ := workOut_scalar target hd hs
  refine ⟨a, fun c => ?_⟩
  unfold layoutOf
  rw [run_layoutWithin_succ]
  cases c.lookup id with
  | some a' => rfl
  | none =>
    dsimp only
    rw [ha]

end Layout

namespace Tables

variable {s s' s'' : Tables} {id : TypeId} {d : Descriptor}

def bits (s : Tables) (id : TypeId) : Int :=
  ((Layout.layoutOf s.target s.types id).run s.layouts).1.bits

/-- The types are the same, and so are the widths of scalars. -/
structure Alike (s s' : Tables) : Prop where
  target : s'.target = s.target
  types : s'.types = s.types
  bits : ∀ {id d}, s.types.find? id = some d → d.isScalar = true → s'.bits id = s.bits id

theorem Alike.refl (s : Tables) : s.Alike s := ⟨rfl, rfl, fun _ _ => rfl⟩

theorem Alike.trans (h : s.Alike s') (h' : s'.Alike s'') : s.Alike s'' where
  target := h'.target.trans h.target
  types := h'.types.trans h.types
  bits hd hs := (h'.bits (h.types ▸ hd) hs).trans (h.bits hd hs)

theorem alike_asked (hd : s.types.find? id = some d) (hs : d.isScalar = true) :
    s.Alike (s.asked id) := by
  refine ⟨rfl, rfl, fun {id' d'} hd' hs' => ?_⟩
  obtain ⟨a, ha⟩ := Layout.run_layoutOf_scalar s.target hd hs
  obtain ⟨a', ha'⟩ := Layout.run_layoutOf_scalar s.target hd' hs'
  show ((Layout.layoutOf s.target s.types id').run (s.asked id).layouts).1.bits = s.bits id'
  unfold bits asked
  dsimp only
  rw [ha, ha', ha']
  cases hlook : s.layouts.lookup id with
  | some b => rfl
  | none =>
    dsimp only
    rw [List.lookup_cons]
    by_cases heq : id' = id
    · subst heq
      have hsame := (ha []).symm.trans (ha' [])
      rw [beq_self_eq_true, hlook]
      exact congrArg (fun r => Layout.Answer.bits r.1) hsame
    · rw [beq_false_of_ne heq]
      cases s.layouts.lookup id' <;> rfl

/-! ## What promotion looks at -/

def looks (s : Tables) (type : TypeId) : Option Emit.Numeric :=
  match s.types.find? (s.types.underlying type) with
  | none => none
  | some d =>
    if d.isScalar then
      some { id := s.types.underlying type, kind := d.kind, bits := s.bits (s.types.underlying type),
             native := d.width == 0 && d.isInteger }
    else none

theorem Alike.looks (h : s.Alike s') (type : TypeId) : s'.looks type = s.looks type := by
  unfold Tables.looks
  rw [h.types]
  cases hd : s.types.find? (s.types.underlying type) with
  | none => rfl
  | some d =>
    dsimp only
    by_cases hs : d.isScalar = true
    · rw [if_pos hs, if_pos hs, h.bits hd hs]
    · rw [if_neg hs, if_neg hs]

theorem looks_congr (s : Tables) {a b : TypeId}
    (h : s.types.underlying a = s.types.underlying b) : s.looks a = s.looks b := by
  unfold looks
  rw [h]

end Tables

namespace Emit

variable {b : Bench}

theorem run_numeric? (type : TypeId) (b : Bench) :
    ∃ b', ((numeric? type).run b : Except Failure (Option Numeric) × Bench) =
        (.ok (b.tables.looks type), b') ∧
      b.tables.Alike b'.tables ∧ b'.func = b.func := by
  unfold numeric? Tables.looks
  rw [run_bind_get]
  dsimp only
  cases hd : b.types.find? (b.types.underlying type) with
  | none =>
    have hd' : b.tables.types.find? (b.tables.types.underlying type) = none := hd
    rw [hd']
    exact ⟨b, rfl, .refl _, rfl⟩
  | some d =>
    have hd' : b.tables.types.find? (b.tables.types.underlying type) = some d := hd
    rw [hd']
    dsimp only
    by_cases hs : d.isScalar = true
    · rw [if_pos hs, if_pos hs]
      exact ⟨_, rfl, Tables.alike_asked hd hs, rfl⟩
    · rw [if_neg hs, if_neg hs]
      exact ⟨b, rfl, .refl _, rfl⟩

/-- The common type of what was found below the tags; `look` is asked again for promoted
integers. -/
def joined (op : Opcode) (look : TypeId → Option Numeric) (x y : Numeric) : Option TypeId :=
  if x.kind = .float ∨ y.kind = .float then
    if x.isFloat 64 || y.isFloat 64 then some Builtin.float64.id
    else if x.kind = .pointer ∨ y.kind = .pointer then none
    else some Builtin.float32.id
  else if x.isAddress && !y.isAddress && (op == .add || op == .sub) then some x.id
  else if y.isAddress && !x.isAddress && op == .add then some y.id
  else if x.isAddress && y.isAddress && op == .sub then some Builtin.nint.id
  else if x.isAddress || y.isAddress then some Builtin.nuint.id
  else some (commonInteger ((look (x.promoted?.getD 0)).getD default)
    ((look (y.promoted?.getD 0)).getD default))

def joins (s : Tables) (name : String) (op : Opcode) (a b : TypeId) : Except Failure TypeId :=
  match s.looks a, s.looks b with
  | some x, some y =>
    match joined op s.looks x y with
    | some c => .ok c
    | none => .error { cause := .pointerAndFloat op, function := name }
  | _, _ => .error { cause := .notNumeric op (s.types.text a) (s.types.text b), function := name }

theorem run_commonType (op : Opcode) (x y : TypeId) (b : Bench) :
    ((commonType op x y).run b : Except Failure TypeId × Bench).1 =
      joins b.tables b.func.name op x y := by
  obtain ⟨b₁, hx, halike₁, hfunc₁⟩ := run_numeric? x b
  obtain ⟨b₂, hy, halike₂, hfunc₂⟩ := run_numeric? y b₁
  have halike := halike₁.trans halike₂
  have hfunc : b₂.func = b.func := hfunc₂.trans hfunc₁
  unfold commonType joins
  rw [run_bind, hx]
  dsimp only
  rw [run_bind, hy]
  dsimp only
  rw [halike₁.looks]
  have hrefused : Failure.mk (.notNumeric op (b₂.types.text x) (b₂.types.text y)) b₂.func.name =
      Failure.mk (.notNumeric op (b.tables.types.text x) (b.tables.types.text y)) b.func.name := by
    rw [hfunc, show b₂.types = b.tables.types from halike.types]
  cases b.tables.looks x with
  | none => exact congrArg Except.error hrefused
  | some nx =>
    cases b.tables.looks y with
    | none => exact congrArg Except.error hrefused
    | some ny =>
      dsimp only
      unfold joined
      by_cases hfloat : nx.kind = .float ∨ ny.kind = .float
      · rw [if_pos hfloat, if_pos hfloat]
        by_cases hwide : (nx.isFloat 64 || ny.isFloat 64) = true
        · rw [if_pos hwide, if_pos hwide]
          rfl
        · rw [if_neg hwide, if_neg hwide]
          by_cases hpointer : nx.kind = .pointer ∨ ny.kind = .pointer
          · rw [if_pos hpointer, if_pos hpointer, ← hfunc]
            rfl
          · rw [if_neg hpointer, if_neg hpointer]
            rfl
      rw [if_neg hfloat, if_neg hfloat]
      by_cases hleft : (nx.isAddress && !ny.isAddress && (op == .add || op == .sub)) = true
      · rw [if_pos hleft, if_pos hleft]
        rfl
      rw [if_neg hleft, if_neg hleft]
      by_cases hright : (ny.isAddress && !nx.isAddress && op == .add) = true
      · rw [if_pos hright, if_pos hright]
        rfl
      rw [if_neg hright, if_neg hright]
      by_cases hboth : (nx.isAddress && ny.isAddress && op == .sub) = true
      · rw [if_pos hboth, if_pos hboth]
        rfl
      rw [if_neg hboth, if_neg hboth]
      by_cases hsome : (nx.isAddress || ny.isAddress) = true
      · rw [if_pos hsome, if_pos hsome]
        rfl
      rw [if_neg hsome, if_neg hsome]
      obtain ⟨b₃, hpx, halike₃, -⟩ := run_numeric? (nx.promoted?.getD 0) b₂
      obtain ⟨b₄, hpy, -, -⟩ := run_numeric? (ny.promoted?.getD 0) b₃
      rw [run_bind, hpx]
      dsimp only
      rw [run_bind, hpy, (halike.trans halike₃).looks, halike.looks]
      rfl

/-! ## Success and order -/

end Emit

/-- The kind of the type below the tags. -/
def TypeTable.plainKind? (t : TypeTable) (id : TypeId) : Option Kind :=
  (t.find? (t.underlying id)).map (·.kind)

namespace Tables

variable {s : Tables}

/-- A number, a pointer or a function, tags aside: what an operator takes. -/
def Promotable (s : Tables) (id : TypeId) : Prop :=
  ∃ k ∈ [Kind.int, .uint, .float, .pointer, .signature], s.types.plainKind? id = some k

/-- An integer, tags aside. -/
def Whole (s : Tables) (id : TypeId) : Prop :=
  s.types.plainKind? id = some .int ∨ s.types.plainKind? id = some .uint

/-- How many bits the type below the tags has. -/
def plainBits (s : Tables) (id : TypeId) : Int := s.bits (s.types.underlying id)

/-- A pointer and a float that is no float64. -/
def Clash (s : Tables) (a b : TypeId) : Prop :=
  s.types.plainKind? a = some .pointer ∧ s.types.plainKind? b = some .float ∧ s.plainBits b ≠ 64

theorem looks_some {type : TypeId} {n : Emit.Numeric} (h : s.looks type = some n) :
    ∃ d, s.types.find? (s.types.underlying type) = some d ∧ d.isScalar = true ∧
      n = { id := s.types.underlying type, kind := d.kind, bits := s.plainBits type,
            native := d.width == 0 && d.isInteger } := by
  unfold looks at h
  cases hd : s.types.find? (s.types.underlying type) with
  | none =>
    rw [hd] at h
    cases h
  | some d =>
    rw [hd] at h
    dsimp only at h
    split at h
    · next hs => exact ⟨d, rfl, hs, (Option.some.inj h).symm⟩
    · cases h

theorem plainKind_looks {type : TypeId} {n : Emit.Numeric} (h : s.looks type = some n) :
    s.types.plainKind? type = some n.kind ∧ n.bits = s.plainBits type := by
  obtain ⟨d, hd, -, rfl⟩ := looks_some h
  unfold TypeTable.plainKind?
  rw [hd]
  exact ⟨rfl, rfl⟩

theorem promotable_iff (type : TypeId) : s.Promotable type ↔ ∃ n, s.looks type = some n := by
  constructor
  · rintro ⟨k, hk, hkind⟩
    unfold TypeTable.plainKind? at hkind
    obtain ⟨d, hd, rfl⟩ := Option.map_eq_some_iff.mp hkind
    have hs : d.isScalar = true := by
      unfold Descriptor.isScalar
      simp only [List.mem_cons, List.not_mem_nil, or_false] at hk
      rcases hk with h | h | h | h | h <;> rw [h]
    unfold looks
    rw [hd]
    dsimp only
    rw [if_pos hs]
    exact ⟨_, rfl⟩
  · rintro ⟨n, hn⟩
    obtain ⟨d, hd, hs, -⟩ := looks_some hn
    refine ⟨d.kind, ?_, by rw [TypeTable.plainKind?, hd]; rfl⟩
    unfold Descriptor.isScalar at hs
    cases hk : d.kind <;> rw [hk] at hs <;> first | decide | cases hs

end Tables

namespace Emit

variable {op : Opcode} {look : TypeId → Option Numeric} {x y : Numeric}

theorem commonInteger_comm (x y : Numeric) : commonInteger x y = commonInteger y x := by
  have hunsigned : (if y.bits < x.bits then x.kind == .uint
        else if x.bits < y.bits then y.kind == .uint
        else x.kind == .uint || y.kind == .uint) =
      (if x.bits < y.bits then y.kind == .uint
        else if y.bits < x.bits then x.kind == .uint
        else y.kind == .uint || x.kind == .uint) := by
    rcases lt_trichotomy x.bits y.bits with hlt | heq | hlt
    · rw [if_neg (by omega), if_pos hlt, if_pos hlt]
    · rw [if_neg (by omega), if_neg (by omega), if_neg (by omega), if_neg (by omega), Bool.or_comm]
    · rw [if_pos hlt, if_neg (by omega), if_pos hlt]
  unfold commonInteger
  dsimp only
  rw [hunsigned, max_comm, Bool.or_comm (x.native && _)]

theorem joined_comm (hop : op ≠ .sub) : joined op look x y = joined op look y x := by
  have hsub : (op == Opcode.sub) = false := beq_false_of_ne hop
  unfold joined
  refine if_congr or_comm (if_congr (by rw [Bool.or_comm]) rfl (if_congr or_comm rfl rfl)) ?_
  rw [hsub, Bool.or_comm y.isAddress, commonInteger_comm]
  cases x.isAddress <;> cases y.isAddress <;> cases op == Opcode.add <;> rfl

theorem joined_none_iff : joined op look x y = none ↔
    (x.kind = .pointer ∧ y.kind = .float ∧ y.bits ≠ 64) ∨
      (y.kind = .pointer ∧ x.kind = .float ∧ x.bits ≠ 64) := by
  have hwide : ∀ n : Numeric, n.isFloat 64 = true ↔ n.kind = .float ∧ n.bits = 64 := by
    intro n
    unfold Numeric.isFloat
    simp
  unfold joined
  by_cases hfloat : x.kind = .float ∨ y.kind = .float
  · rw [if_pos hfloat]
    by_cases h64 : (x.isFloat 64 || y.isFloat 64) = true
    · rw [if_pos h64]
      rw [Bool.or_eq_true, hwide, hwide] at h64
      grind
    · rw [if_neg h64]
      rw [Bool.or_eq_true, hwide, hwide] at h64
      grind
  · rw [if_neg hfloat]
    grind

end Emit

/-! ## Widths -/

namespace Layout

variable {target : Target}

def pointerBits (target : Target) : Int := Answer.bits (.ok (pointerLayout target))

def integerLayout (target : Target) (id : TypeId) (width : UInt8) : Answer :=
  if width = 0 then .ok (pointerLayout target) else numberLayout (width.toNat / 8) id

theorem bits_integer32 (id : TypeId) : (integerLayout target id 32).bits = 32 := by
  have hsize : (32 : UInt8).toNat / 8 = 4 := by decide
  unfold integerLayout
  rw [if_neg (by decide), hsize]
  rfl

theorem bits_integer64 (id : TypeId) : (integerLayout target id 64).bits = 64 := by
  have hsize : (64 : UInt8).toNat / 8 = 8 := by decide
  unfold integerLayout
  rw [if_neg (by decide), hsize]
  rfl

theorem bits_numberLayout (size : Nat) (id : TypeId) :
    (numberLayout size id).bits = 0 ∨ (numberLayout size id).bits = 8 ∨
      (numberLayout size id).bits = 16 ∨ (numberLayout size id).bits = 32 ∨
      (numberLayout size id).bits = 64 := by
  unfold numberLayout
  split
  · next h =>
    rcases h with rfl | rfl | rfl | rfl
    · exact .inr (.inl rfl)
    · exact .inr (.inr (.inl rfl))
    · exact .inr (.inr (.inr (.inl rfl)))
    · exact .inr (.inr (.inr (.inr rfl)))
  · exact .inl rfl

end Layout

namespace Tables

variable {s : Tables} (hs : s.Founded)
include hs

theorem Founded.answer_integer {id : TypeId} {d : Descriptor} (hd : s.types.find? id = some d)
    (hint : d.kind = .int ∨ d.kind = .uint) {l : Layout}
    (ha : ((Layout.layoutOf s.target s.types id).run s.layouts).1 = .ok l) :
    Layout.integerLayout s.target id d.width = .ok l := by
  obtain ⟨⟨hright, -⟩, -⟩ : Layout.Right s.target s.types _ id _ ∧ _ :=
    Layout.layoutWithin_right hs.ordered (s.types.size + 1) hs.honest fun hf => hf.elim
  unfold Layout.layoutOf at ha
  rw [ha] at hright
  have hplain : Layout.plain s.target s.types (id + 1) id = some l := hright
  have hscalar : Layout.plain s.target s.types (id + 1) id =
      if d.width = 0 then some (Layout.pointerLayout s.target)
      else (Layout.numberLayout (d.width.toNat / 8) id).toOption := by
    unfold Layout.plain
    rw [hd]
    dsimp only
    rcases hint with hk | hk <;> rw [hk]
  rw [hscalar] at hplain
  unfold Layout.integerLayout
  by_cases h0 : d.width = 0
  · rw [if_pos h0] at hplain ⊢
    rw [Option.some.inj hplain]
  · rw [if_neg h0] at hplain ⊢
    cases hn : Layout.numberLayout (d.width.toNat / 8) id with
    | error why =>
      rw [hn] at hplain
      cases hplain
    | ok l' =>
      rw [hn] at hplain
      rw [Option.some.inj hplain]

/-- The width that is answered for an integer is that of its layout, or there is none. -/
theorem Founded.bits_integer {id : TypeId} {d : Descriptor} (hd : s.types.find? id = some d)
    (hint : d.kind = .int ∨ d.kind = .uint) :
    s.bits id = 0 ∨ s.bits id = (Layout.integerLayout s.target id d.width).bits := by
  unfold bits
  cases ha : ((Layout.layoutOf s.target s.types id).run s.layouts).1 with
  | error why => exact .inl rfl
  | ok l => exact .inr (by rw [hs.answer_integer hd hint ha])

theorem Founded.looks_first {id : Nat} {d : Descriptor} (hd : TypeTable.initial.find? id = some d)
    (hint : d.kind = .int ∨ d.kind = .uint) :
    s.looks id = some { id, kind := d.kind, bits := (Layout.integerLayout s.target id d.width).bits,
                        native := d.width == 0 } ∧ s.types.underlying id = id := by
  have hfound := hs.ordered.builtins.find? hd
  have hplain : s.types.underlying id = id :=
    TypeTable.underlying_of_not_tagged hfound fun hk => by
      rcases hint with h | h <;> rw [h] at hk <;> cases hk
  obtain ⟨hpos, hlt⟩ := TypeTable.find?_lt hd
  obtain ⟨l, hl⟩ : ∃ l, ((Layout.layoutOf s.target s.types id).run s.layouts).1 = .ok l :=
    (Layout.firm_layoutWithin hs.ordered (s.types.size + 1) id Nat.lt_succ_of_lt s.layouts
      hs.firm).1 hpos hlt
  have hbits : s.bits id = (Layout.integerLayout s.target id d.width).bits := by
    rw [hs.answer_integer hfound hint hl, ← hl]
    rfl
  have hscalar : d.isScalar = true := by
    unfold Descriptor.isScalar
    rcases hint with h | h <;> rw [h]
  have hinteger : d.isInteger = true := by
    unfold Descriptor.isInteger
    rcases hint with h | h <;> rw [h] <;> rfl
  refine ⟨?_, hplain⟩
  unfold looks
  rw [hplain, hfound]
  dsimp only
  rw [if_pos hscalar, hbits, hinteger, Bool.and_true]

end Tables

namespace Emit

variable {s : Tables} {n : Numeric}

/-- What a promoted integer looks like: pointer-sized, or of one of two widths. -/
structure Numeric.Full (target : Target) (n : Numeric) : Prop where
  wide : 32 ≤ n.bits
  native : n.native = true → n.bits = Layout.pointerBits target
  sized : n.native = false → n.bits = 32 ∨ n.bits = 64

theorem looks_integer (hs : s.Founded) (unsigned : Bool) (signed plain : Builtin) {w : UInt8}
    (hsigned : TypeTable.initial.find? signed.id = some (.int w))
    (hplain : TypeTable.initial.find? plain.id = some (.uint w)) :
    ∃ c, s.looks (if unsigned then plain.id else signed.id) = some c ∧
      (c.kind = .int ∨ c.kind = .uint) ∧ c.native = (w == 0) ∧
      ∃ id, c.bits = (Layout.integerLayout s.target id w).bits := by
  cases unsigned with
  | true => exact ⟨_, (hs.looks_first hplain (.inr rfl)).1, .inr rfl, rfl, _, rfl⟩
  | false => exact ⟨_, (hs.looks_first hsigned (.inl rfl)).1, .inl rfl, rfl, _, rfl⟩

theorem looks_promoted (hs : s.Founded) {type : TypeId} (h : s.looks type = some n)
    (hint : n.kind = .int ∨ n.kind = .uint) :
    ∃ m, s.looks (n.promoted?.getD 0) = some m ∧ m.Full s.target ∧ n.bits ≤ m.bits := by
  obtain ⟨d, hd, -, hn⟩ := Tables.looks_some h
  have hkind : n.kind = d.kind := by rw [hn]
  have hpromoted : n.promoted?.getD 0 = if n.bits < 32 then Builtin.int32.id else n.id := by
    unfold Numeric.promoted?
    rcases hint with h | h <;> rw [h] <;> rfl
  rw [hpromoted]
  by_cases hsmall : n.bits < 32
  · rw [if_pos hsmall]
    obtain ⟨m, hm, -, hnative, id, hbits⟩ := looks_integer hs false .int32 .uint32 (w := 32)
        (by decide +kernel) (by decide +kernel)
    rw [Layout.bits_integer32] at hbits
    refine ⟨m, hm, ⟨hbits.ge, fun h => ?_, fun _ => .inl hbits⟩, by omega⟩
    rw [hnative] at h
    cases h
  · rw [if_neg hsmall]
    have hsame : s.looks n.id = some n := by
      have hid : n.id = s.types.underlying type := by rw [hn]
      rw [← h]
      refine s.looks_congr ?_
      rw [hid, TypeTable.underlying_of_not_tagged hd (hs.ordered.kind_underlying type hd)]
    have hbits := hs.bits_integer hd (hkind ▸ hint)
    have hbits' : n.bits = s.bits (s.types.underlying type) := by rw [hn]; rfl
    rw [← hbits'] at hbits
    have hnative : n.native = (d.width == 0) := by
      have hinteger : d.isInteger = true := by
        unfold Descriptor.isInteger
        rcases hint with h | h <;> rw [← hkind, h] <;> rfl
      rw [hn]
      show (d.width == 0 && d.isInteger) = _
      rw [hinteger, Bool.and_true]
    refine ⟨n, hsame, ⟨by omega, fun hnat => ?_, fun hnat => ?_⟩, Int.le_refl _⟩
    · rw [hnative, beq_iff_eq] at hnat
      unfold Layout.integerLayout at hbits
      rw [if_pos hnat] at hbits
      rcases hbits with hbits | hbits
      · omega
      · exact hbits
    · rw [hnative, beq_eq_false_iff_ne] at hnat
      unfold Layout.integerLayout at hbits
      rw [if_neg hnat] at hbits
      have hnumber := Layout.bits_numberLayout (d.width.toNat / 8) (s.types.underlying type)
      omega

/-- The common type of two promoted integers is an integer type as wide as the wider of
them. -/
theorem looks_commonInteger (hs : s.Founded) {x y : Numeric} (hx : x.Full s.target)
    (hy : y.Full s.target) :
    ∃ c, s.looks (commonInteger x y) = some c ∧ (c.kind = .int ∨ c.kind = .uint) ∧
      c.bits = max x.bits y.bits := by
  unfold commonInteger
  dsimp only
  generalize (if y.bits < x.bits then x.kind == .uint else if x.bits < y.bits then y.kind == .uint
    else x.kind == .uint || y.kind == .uint) = unsigned
  by_cases hnative : (x.native && x.bits == max x.bits y.bits ||
      y.native && y.bits == max x.bits y.bits) = true
  · rw [if_pos hnative]
    obtain ⟨c, hc, hkind, -, id, hbits⟩ := looks_integer hs unsigned .nint .nuint (w := 0)
        (by decide +kernel) (by decide +kernel)
    refine ⟨c, hc, hkind, hbits.trans ?_⟩
    show Layout.pointerBits s.target = _
    simp only [Bool.or_eq_true, Bool.and_eq_true, beq_iff_eq] at hnative
    rcases hnative with ⟨hn, heq⟩ | ⟨hn, heq⟩
    · rw [← heq, hx.native hn]
    · rw [← heq, hy.native hn]
  · rw [if_neg hnative]
    -- the wider operand is not pointer-sized, so it has 32 or 64 bits
    have hmax : max x.bits y.bits = 32 ∨ max x.bits y.bits = 64 := by
      simp only [Bool.or_eq_true, Bool.and_eq_true, beq_iff_eq, not_or, not_and] at hnative
      rcases le_total x.bits y.bits with hle | hle
      · rw [max_eq_right hle] at hnative ⊢
        exact hy.sized (Bool.eq_false_iff.mpr fun hn => hnative.2 hn rfl)
      · rw [max_eq_left hle] at hnative ⊢
        exact hx.sized (Bool.eq_false_iff.mpr fun hn => hnative.1 hn rfl)
    rcases hmax with hmax | hmax
    · obtain ⟨c, hc, hkind, -, id, hbits⟩ := looks_integer hs unsigned .int32 .uint32 (w := 32)
        (by decide +kernel) (by decide +kernel)
      rw [hmax, if_neg (by decide)]
      exact ⟨c, hc, hkind, hbits.trans (Layout.bits_integer32 id)⟩
    · obtain ⟨c, hc, hkind, -, id, hbits⟩ := looks_integer hs unsigned .int64 .uint64 (w := 64)
        (by decide +kernel) (by decide +kernel)
      rw [hmax, if_pos rfl]
      exact ⟨c, hc, hkind, hbits.trans (Layout.bits_integer64 id)⟩

end Emit

/-! ## The answers of promotion -/

namespace Emit

variable {s : Tables} {name : String} {op : Opcode} {a b : TypeId}

theorem toOption_joins : (joins s name op a b).toOption =
    (s.looks a).bind fun x => (s.looks b).bind fun y => joined op s.looks x y := by
  unfold joins
  cases s.looks a with
  | none => rfl
  | some x =>
    cases s.looks b with
    | none => rfl
    | some y =>
      dsimp only [Option.bind]
      cases joined op s.looks x y <;> rfl

theorem joins_error {err : Failure} (h : joins s name op a b = .error err) :
    err.cause.code = 1006 ∧ err.function = name := by
  unfold joins at h
  split at h
  · split at h
    · cases h
    · obtain rfl := Except.error.inj h
      exact ⟨rfl, rfl⟩
  · obtain rfl := Except.error.inj h
    exact ⟨rfl, rfl⟩

theorem joins_ok_iff : (∃ c, joins s name op a b = .ok c) ↔
    s.Promotable a ∧ s.Promotable b ∧ ¬ s.Clash a b ∧ ¬ s.Clash b a := by
  have hclash : ∀ {a b : TypeId} {x y : Numeric}, s.looks a = some x → s.looks b = some y →
      (s.Clash a b ↔ x.kind = .pointer ∧ y.kind = .float ∧ y.bits ≠ 64) := by
    intro a b x y hx hy
    obtain ⟨hkx, -⟩ := Tables.plainKind_looks hx
    obtain ⟨hky, hbits⟩ := Tables.plainKind_looks hy
    unfold Tables.Clash
    rw [hkx, hky, hbits, Option.some.injEq, Option.some.injEq]
  have hoption : (∃ c, joins s name op a b = .ok c) ↔
      ∃ c, (joins s name op a b).toOption = some c := by
    cases joins s name op a b <;> simp [Except.toOption]
  rw [hoption, toOption_joins, Tables.promotable_iff, Tables.promotable_iff]
  cases hx : s.looks a with
  | none => simp
  | some x =>
    cases hy : s.looks b with
    | none => simp
    | some y =>
      have hsome : (∃ c, joined op s.looks x y = some c) ↔ ¬ joined op s.looks x y = none := by
        rw [← Option.ne_none_iff_exists']
      rw [hclash hx hy, hclash hy hx]
      simp only [Option.bind_some, hsome, joined_none_iff, not_or, Option.some.injEq, exists_eq',
        true_and]

theorem whole_looks {type : TypeId} (h : s.Whole type) :
    ∃ n, s.looks type = some n ∧ (n.kind = .int ∨ n.kind = .uint) ∧ n.bits = s.plainBits type := by
  have hpromotable : s.Promotable type := by
    rcases h with h | h
    · exact ⟨_, by decide, h⟩
    · exact ⟨_, by decide, h⟩
  obtain ⟨n, hn⟩ := (Tables.promotable_iff type).mp hpromotable
  obtain ⟨hkind, hbits⟩ := Tables.plainKind_looks hn
  unfold Tables.Whole at h
  rw [hkind, Option.some.injEq, Option.some.injEq] at h
  exact ⟨n, hn, h, hbits⟩

theorem joins_whole (hs : s.Founded) (ha : s.Whole a) (hb : s.Whole b) :
    ∃ c, joins s name op a b = .ok c ∧ s.Whole c ∧ 32 ≤ s.plainBits c ∧
      s.plainBits a ≤ s.plainBits c ∧ s.plainBits b ≤ s.plainBits c := by
  obtain ⟨x, hx, hkx, hbx⟩ := whole_looks ha
  obtain ⟨y, hy, hky, hby⟩ := whole_looks hb
  obtain ⟨px, hpx, hfx, hlex⟩ := looks_promoted hs hx hkx
  obtain ⟨py, hpy, hfy, hley⟩ := looks_promoted hs hy hky
  obtain ⟨c, hc, hkind, hbits⟩ := looks_commonInteger hs hfx hfy
  obtain ⟨hkc, hbc⟩ := Tables.plainKind_looks hc
  have hjoined : joined op s.looks x y = some (commonInteger px py) := by
    have hno : ∀ {n : Numeric}, n.kind = .int ∨ n.kind = .uint →
        n.kind ≠ .float ∧ n.isAddress = false := by
      intro n hn
      unfold Numeric.isAddress
      rcases hn with h | h <;> rw [h] <;> exact ⟨by decide, by decide⟩
    unfold joined
    rw [hpx, hpy, if_neg (not_or.mpr ⟨(hno hkx).1, (hno hky).1⟩), (hno hkx).2, (hno hky).2]
    rfl
  have hwide := hfx.wide
  refine ⟨commonInteger px py, ?_, ?_, ?_, ?_, ?_⟩
  · unfold joins
    rw [hx, hy]
    dsimp only
    rw [hjoined]
  · unfold Tables.Whole
    rw [hkc, Option.some.injEq, Option.some.injEq]
    exact hkind
  all_goals omega

end Emit

/-! ## Engines -/

namespace Engine

/-- What the engine answers when it is asked for the common type of two operands while a
function is built. -/
def commonType (e : Engine) (f : Func) (op : Opcode) (a b : TypeId) : Except Failure TypeId :=
  ((Emit.commonType op a b).run
    { target := e.target, types := e.types, layouts := e.layouts, func := f } :
      Except Failure TypeId × Bench).1

/-- Two operands have a common type exactly if both are numbers or addresses below their
tags and they are not a pointer and a float of other than 64 bits. The answer depends on
what is below the tags, is the same in both orders unless the operator is the difference,
and for two integers it is an integer type that is as wide as either and not below 32
bits. Every refusal has the code of types that do not fit. -/
theorem Reached.promotes {e : Engine} (he : e.Reached) (f : Func) (op : Opcode) (a b : TypeId) :
    ((∃ c, e.commonType f op a b = .ok c) ↔
      e.tables.Promotable a ∧ e.tables.Promotable b ∧
        ¬ e.tables.Clash a b ∧ ¬ e.tables.Clash b a) ∧
    (∀ err, e.commonType f op a b = .error err → err.cause.code = 1006 ∧ err.function = f.name) ∧
    (∀ a' b', e.types.underlying a' = e.types.underlying a →
      e.types.underlying b' = e.types.underlying b →
        (e.commonType f op a' b').toOption = (e.commonType f op a b).toOption) ∧
    (op ≠ .sub → (e.commonType f op a b).toOption = (e.commonType f op b a).toOption) ∧
    (e.tables.Whole a → e.tables.Whole b →
      ∃ c, e.commonType f op a b = .ok c ∧ e.tables.Whole c ∧ 32 ≤ e.tables.plainBits c ∧
        e.tables.plainBits a ≤ e.tables.plainBits c ∧ e.tables.plainBits b ≤ e.tables.plainBits c) := by
  have hs : e.tables.Founded := he.founded.tables
  have hrun : ∀ a b, e.commonType f op a b = Emit.joins e.tables f.name op a b :=
    fun a b => Emit.run_commonType op a b _
  refine ⟨?_, ?_, ?_, ?_, ?_⟩
  · rw [hrun, Emit.joins_ok_iff]
  · intro err herr
    rw [hrun] at herr
    exact Emit.joins_error herr
  · intro a' b' ha hb
    rw [hrun, hrun, Emit.toOption_joins, Emit.toOption_joins, e.tables.looks_congr ha,
      e.tables.looks_congr hb]
  · intro hop
    rw [hrun, hrun, Emit.toOption_joins, Emit.toOption_joins]
    cases e.tables.looks a with
    | none => cases e.tables.looks b <;> rfl
    | some x =>
      cases e.tables.looks b with
      | none => rfl
      | some y => exact Emit.joined_comm hop
  · intro ha hb
    rw [hrun]
    exact Emit.joins_whole hs ha hb

def untouched : Engine := .create .amd64 0 0 (.seeded 1) 0

theorem reached_untouched : untouched.Reached := .created _ _ _ _ _

/-- A byte and a 64-bit number have a common type of 64 bits at least, in both orders, and
no common type with nothing. -/
theorem promotes_byte :
    (∃ c, untouched.commonType default .add Builtin.int8.id Builtin.uint64.id = .ok c ∧
      64 ≤ untouched.tables.plainBits c) ∧
    (untouched.commonType default .add Builtin.int8.id Builtin.uint64.id).toOption =
      (untouched.commonType default .add Builtin.uint64.id Builtin.int8.id).toOption ∧
    ¬ ∃ c, untouched.commonType default .add Builtin.int8.id Builtin.void.id = .ok c := by
  have hbyte : untouched.tables.Whole Builtin.int8.id := .inl (by decide +kernel)
  have hlong : untouched.tables.Whole Builtin.uint64.id := .inr (by decide +kernel)
  have hbits : untouched.tables.plainBits Builtin.uint64.id = 64 := by decide +kernel
  have hvoid : untouched.types.plainKind? Builtin.void.id = some .void := by decide +kernel
  have h := reached_untouched.promotes default .add Builtin.int8.id Builtin.uint64.id
  have hnone := reached_untouched.promotes default .add Builtin.int8.id Builtin.void.id
  obtain ⟨c, hc, -, -, -, hle⟩ := h.2.2.2.2 hbyte hlong
  refine ⟨⟨c, hc, hbits ▸ hle⟩, h.2.2.2.1 (by decide), fun hsome => ?_⟩
  obtain ⟨k, hk, hkind⟩ := (hnone.1.mp hsome).2.1
  obtain rfl : k = .void := Option.mem_unique hkind hvoid
  exact absurd hk (by decide)

/-- A pointer times a float of 64 bits is a float. -/
theorem float64_takes_pointers :
    untouched.Reached ∧ untouched.types.plainKind? Builtin.voidPtr.id = some .pointer ∧
      untouched.types.plainKind? Builtin.float64.id = some .float ∧
      (untouched.commonType default .mul Builtin.voidPtr.id Builtin.float64.id).toOption =
        some Builtin.float64.id :=
  ⟨reached_untouched, by decide +kernel, by decide +kernel, by decide +kernel⟩

end Engine

end TypedIR
