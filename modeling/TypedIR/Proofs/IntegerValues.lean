import TypedIR.Proofs.ConstantNumbers

/-
  Integers as the values of registers.

  A number that an integer representation holds has one register, the word of the
  number. On such registers every operator is an operator on integers followed by
  `Rep.wrap`, which takes a number to the one that the representation holds in its
  place.
-/

namespace TypedIR

/-! ## The number held in place of a number -/

/-- The number that the representation holds in place of `n`: the one of its range
that is congruent to `n` modulo the width. -/
def Rep.wrap (r : Rep) (n : Int) : Int :=
  if r.cls = .int then n.bmod (2 ^ r.width) else n % 2 ^ r.width

def Rep.operate (r : Rep) (op : Opcode) (x y : Int) : Except Cause Int :=
  match op.exactResult r.width x y with
  | some n => .ok (r.wrap n)
  | none => .error .divideByZero

def Rep.turn (r : Rep) (op : Opcode) (x : Int) : Int :=
  r.wrap (if op = .neg then -x else -x - 1)

def Opcode.relates (op : Opcode) (x y : Int) : Bool :=
  match op with
  | .lt => x < y
  | .le => x ≤ y
  | .gt => y < x
  | .ge => y ≤ x
  | .eq => x = y
  | _ => x ≠ y

theorem compare_natCast (a b : Nat) : compare (a : Int) (b : Int) = compare a b := by
  rcases lt_trichotomy a b with hlt | rfl | hlt
  · rw [compare_lt_iff_lt.mpr hlt, compare_lt_iff_lt.mpr (Int.ofNat_lt.mpr hlt)]
  · rw [compare_eq_iff_eq.mpr rfl, compare_eq_iff_eq.mpr rfl]
  · rw [compare_gt_iff_gt.mpr hlt, compare_gt_iff_gt.mpr (Int.ofNat_lt.mpr hlt)]

namespace Rep

theorem isInteger_bool : bool.IsInteger := ⟨.inl rfl, .inl rfl⟩

theorem holds_ofBool (b : Bool) : bool.Holds (if b then 1 else 0) := by
  cases b <;> exact ⟨by decide, by decide⟩

theorem ofBool_eq (b : Bool) : Word.ofBool b = Word.ofInt (if b then 1 else 0) := by
  cases b <;> rfl

namespace IsInteger

variable {r : Rep} {n x y : Int}

theorem not_float (h : r.IsInteger) : r.cls ≠ .float := by
  rcases h.1 with hc | hc <;> simp [hc]

theorem isScalar (h : r.IsInteger) : r.isScalar = true := by
  unfold Rep.isScalar
  rcases h.1 with hc | hc <;> simp [hc]

theorem two_pow_width (h : r.IsInteger) : (2 ^ r.width : Int) = 2 * 2 ^ (r.width - 1) := by
  have hpos := h.width_pos.1
  rw [← pow_succ']
  congr 1
  omega

theorem greatest_sub_least (h : r.IsInteger) : r.greatest - r.least = 2 ^ r.width - 1 := by
  have hpow := h.two_pow_width
  unfold greatest least
  split <;> omega

theorem eq_of_modEq (h : r.IsInteger) (hx : r.Holds x) (hy : r.Holds y)
    (hmod : Int.ModEq (2 ^ r.width) x y) : x = y := by
  have hrange := h.greatest_sub_least
  obtain ⟨hxlo, hxhi⟩ := hx
  obtain ⟨hylo, hyhi⟩ := hy
  have hzero : y - x = 0 := by
    refine Int.eq_zero_of_abs_lt_dvd (Int.modEq_iff_dvd.mp hmod) ?_
    rw [abs_lt]
    omega
  omega

theorem wrap_modEq (r : Rep) (n : Int) : Int.ModEq (2 ^ r.width) (r.wrap n) n := by
  unfold wrap
  split
  · have hmod := Int.bmod_emod (x := n) (m := 2 ^ r.width)
    have hcast : ((2 ^ r.width : Nat) : Int) = 2 ^ r.width := by simp
    rwa [hcast] at hmod
  · exact Int.mod_modEq n _

theorem holds_wrap (h : r.IsInteger) (n : Int) : r.Holds (r.wrap n) := by
  have hpow := h.two_pow_width
  have hcast : ((2 ^ r.width : Nat) : Int) = 2 ^ r.width := by simp
  have hpos : (0 : Int) < 2 ^ r.width := pow_pos (by decide) _
  unfold Holds wrap least greatest
  split
  · have hlo := Int.le_bmod (x := n) (Nat.two_pow_pos r.width)
    have hhi := Int.bmod_le (x := n) (Nat.two_pow_pos r.width)
    omega
  · have hlo := Int.emod_nonneg n (ne_of_gt hpos)
    have hhi := Int.emod_lt_of_pos n hpos
    omega

theorem wrap_eq (h : r.IsInteger) (hn : r.Holds n) : r.wrap n = n :=
  h.eq_of_modEq (h.holds_wrap n) hn (wrap_modEq r n)

theorem wrap_congr (h : r.IsInteger) (hmod : Int.ModEq (2 ^ r.width) x y) : r.wrap x = r.wrap y :=
  h.eq_of_modEq (h.holds_wrap x) (h.holds_wrap y)
    ((wrap_modEq r x).trans (hmod.trans (wrap_modEq r y).symm))

/-! ## Registers -/

theorem holds_number (h : r.IsInteger) (n : Int) : r.Holds (r.number (r.normalize (Word.ofInt n))) :=
  ⟨(h.represents_normalize n).least, (h.represents_normalize n).greatest⟩

theorem normalize_ofInt (h : r.IsInteger) (n : Int) :
    r.normalize (Word.ofInt n) = Word.ofInt (r.wrap n) := by
  have hnumber : r.number (r.normalize (Word.ofInt n)) = r.wrap n :=
    h.eq_of_modEq (h.holds_number n) (h.holds_wrap n)
      ((h.represents_normalize n).congruent.trans (wrap_modEq r n).symm)
  rw [← hnumber, r.ofInt_number]

theorem number_ofInt (h : r.IsInteger) (hn : r.Holds n) : r.number (Word.ofInt n) = n := by
  have hnormal : r.normalize (Word.ofInt n) = Word.ofInt n := by rw [h.normalize_ofInt, h.wrap_eq hn]
  have hrepresents := h.represents_normalize n
  rw [hnormal] at hrepresents
  exact h.eq_of_modEq ⟨hrepresents.least, hrepresents.greatest⟩ hn hrepresents.congruent

/-! ## Operators -/

theorem truthy_ofInt (h : r.IsInteger) (hn : r.Holds n) : truthy r (Word.ofInt n) = (n != 0) := by
  have hnumber := h.number_ofInt hn
  have hzero : Word.ofInt n = 0 ↔ n = 0 := by
    refine ⟨fun hz => ?_, fun hz => by rw [hz]; rfl⟩
    rw [hz] at hnumber
    rw [← hnumber]
    unfold number
    split <;> rfl
  unfold truthy
  rw [if_neg h.not_float]
  by_cases hz : n = 0
  · rw [hz]
    rfl
  · rw [bne_iff_ne.mpr hz, bne_iff_ne]
    exact fun hw => hz (hzero.mp hw)

theorem convertWord_ofInt {source : Rep} (h : r.IsInteger) (hs : source.IsInteger) (n : Int) :
    convertWord source r (Word.ofInt n) = Word.ofInt (r.wrap n) := by
  unfold convertWord
  rw [if_neg hs.not_float, if_neg h.not_float, h.normalize_ofInt]

theorem evalUnary_ofInt (h : r.IsInteger) (hn : r.Holds n) {op : Opcode}
    (hop : op = .neg ∨ op = .not) :
    evalUnary op r (Word.ofInt n) = Word.ofInt (r.turn op n) := by
  rcases hop with rfl | rfl
  · rw [h.evalUnary_neg, h.number_ofInt hn, h.normalize_ofInt]
    rfl
  · rw [h.evalUnary_not, h.number_ofInt hn, h.normalize_ofInt]
    rfl

theorem evalBinary_ofInt (h : r.IsInteger) (hx : r.Holds x) (hy : r.Holds y) {op : Opcode}
    (hop : op.isBinary = true) :
    evalBinary op r (Word.ofInt x) (Word.ofInt y) = Word.ofInt <$> r.operate op x y := by
  rw [h.evalBinary_exact hop, h.number_ofInt hx, h.number_ofInt hy]
  unfold operate
  cases op.exactResult r.width x y with
  | some n => exact congrArg Except.ok (h.normalize_ofInt n)
  | none => rfl

theorem holds_operate (h : r.IsInteger) (op : Opcode) :
    r.operate op x y = .ok n → r.Holds n := by
  unfold operate
  cases op.exactResult r.width x y with
  | some z =>
    rintro ⟨⟩
    exact h.holds_wrap z
  | none => exact nofun

theorem evalCompare_ofInt (h : r.IsInteger) (hx : r.Holds x) (hy : r.Holds y) {op : Opcode}
    (hop : op.isCompare = true) :
    evalCompare op r (Word.ofInt x) (Word.ofInt y) =
      Word.ofInt (if op.relates x y then 1 else 0) := by
  have horder : order? r (Word.ofInt x) (Word.ofInt y) = some (compare x y) := by
    have hnx := h.number_ofInt hx
    have hny := h.number_ofInt hy
    unfold number at hnx hny
    unfold order?
    rcases h.1 with hc | hc <;> rw [hc] at hnx hny ⊢
    · rw [if_pos rfl] at hnx hny
      dsimp only
      rw [hnx, hny]
    · rw [if_neg (by decide)] at hnx hny
      dsimp only
      rw [← compare_natCast, hnx, hny]
  have hrelates : holdsFor op (compare x y) = op.relates x y := by
    rcases lt_trichotomy x y with hlt | rfl | hlt
    · rw [compare_lt_iff_lt.mpr hlt]
      cases op <;> first
        | exact (Bool.false_ne_true hop).elim
        | simp [holdsFor, Opcode.relates, hlt.le, hlt.ne, hlt]
    · rw [compare_eq_iff_eq.mpr rfl]
      cases op <;> first
        | exact (Bool.false_ne_true hop).elim
        | simp [holdsFor, Opcode.relates]
    · rw [compare_gt_iff_gt.mpr hlt]
      cases op <;> first
        | exact (Bool.false_ne_true hop).elim
        | simp [holdsFor, Opcode.relates, hlt.le, hlt.ne', hlt]
  unfold evalCompare
  rw [horder]
  dsimp only
  rw [hrelates, ofBool_eq]

theorem isWhole (h : r.IsInteger) : r.IsWhole :=
  ⟨h.1.elim .inl fun hc => .inr (.inl hc), h.2⟩

end IsInteger

/-! ## Addresses -/

/-- The unsigned integers that addresses are like; integers stay what they are. -/
def asInteger (r : Rep) : Rep :=
  if r.cls = .pointer then { cls := .uint, size := r.size } else r

namespace IsWhole

variable {r : Rep} {n : Int}

/-- An address is normalized and read as the number of its register, without a sign. -/
theorem like_asInteger (h : r.IsWhole) : r.asInteger.IsInteger ∧
    (∀ w, r.asInteger.normalize w = r.normalize w) ∧ (∀ n, r.asInteger.wrap n = r.wrap n) ∧
    (∀ n, r.asInteger.Holds n ↔ r.Holds n) := by
  unfold asInteger
  by_cases hp : r.cls = .pointer
  · rw [if_pos hp]
    refine ⟨⟨.inr rfl, h.2⟩, fun w => ?_, fun n => ?_, fun n => ?_⟩
    · simp [normalize, bits, hp]
    · simp [wrap, width, hp]
    · simp [Holds, least, greatest, width, hp]
  · rw [if_neg hp]
    refine ⟨⟨?_, h.2⟩, fun _ => rfl, fun _ => rfl, fun _ => .rfl⟩
    rcases h.1 with hc | hc | hc
    · exact .inl hc
    · exact .inr hc
    · exact absurd hc hp

theorem holds_wrap (h : r.IsWhole) (n : Int) : r.Holds (r.wrap n) := by
  obtain ⟨hi, -, hwrap, hholds⟩ := h.like_asInteger
  rw [← hholds, ← hwrap]
  exact hi.holds_wrap n

theorem wrap_eq (h : r.IsWhole) (hn : r.Holds n) : r.wrap n = n := by
  obtain ⟨hi, -, hwrap, hholds⟩ := h.like_asInteger
  rw [← hwrap]
  exact hi.wrap_eq ((hholds n).mpr hn)

theorem eq_wrap_iff (h : r.IsWhole) (k n : Int) :
    k = r.wrap n ↔ r.Holds k ∧ Int.ModEq (2 ^ r.width) k n := by
  constructor
  · rintro rfl
    exact ⟨h.holds_wrap n, IsInteger.wrap_modEq r n⟩
  · rintro ⟨hk, hmod⟩
    obtain ⟨hi, -, hwrap, hholds⟩ := h.like_asInteger
    have hwidth : r.asInteger.width = r.width := by
      unfold asInteger
      split <;> rfl
    rw [← hwrap, ← hi.wrap_eq ((hholds k).mpr hk)]
    exact hi.wrap_congr (hwidth ▸ hmod)

theorem normalize_ofInt (h : r.IsWhole) (n : Int) :
    r.normalize (Word.ofInt n) = Word.ofInt (r.wrap n) := by
  obtain ⟨hi, hnormal, hwrap, -⟩ := h.like_asInteger
  rw [← hnormal, ← hwrap]
  exact hi.normalize_ofInt n

theorem convertWord_ofInt {source : Rep} (h : r.IsWhole) (hs : source.IsWhole) (n : Int) :
    convertWord source r (Word.ofInt n) = Word.ofInt (r.wrap n) := by
  unfold convertWord
  rw [if_neg hs.not_float, if_neg h.not_float, h.normalize_ofInt]

theorem number_ofInt (h : r.IsWhole) (hn : r.Holds n) : r.number (Word.ofInt n) = n := by
  obtain ⟨hi, -, -, hholds⟩ := h.like_asInteger
  have hsame : r.asInteger.number (Word.ofInt n) = r.number (Word.ofInt n) := by
    unfold number asInteger
    by_cases hp : r.cls = .pointer
    · simp [hp]
    · rw [if_neg hp]
  rw [← hsame]
  exact hi.number_ofInt ((hholds n).mpr hn)

theorem truthy_ofInt (h : r.IsWhole) (hn : r.Holds n) : truthy r (Word.ofInt n) = (n != 0) := by
  obtain ⟨hi, -, -, hholds⟩ := h.like_asInteger
  rw [← hi.truthy_ofInt ((hholds n).mpr hn)]
  unfold truthy
  rw [if_neg h.not_float, if_neg hi.not_float]

end IsWhole

end Rep

/-! ## The types operations work in -/

namespace Rep

def promoted (r : Rep) : Rep :=
  if r.size < 4 then { cls := .int, size := 4 } else r

/-- What two operands are converted to: the wider one after promotion, and no sign if
they are as wide and one has none. -/
def common (a b : Rep) : Rep :=
  if b.promoted.size < a.promoted.size then a.promoted
  else if a.promoted.size < b.promoted.size then b.promoted
  else if a.promoted.cls = .uint then a.promoted
  else b.promoted

theorem IsInteger.promoted {r : Rep} (h : r.IsInteger) : r.promoted.IsInteger := by
  unfold Rep.promoted
  split
  · exact ⟨.inl rfl, .inr (.inr (.inl rfl))⟩
  · exact h

theorem IsInteger.promoted_size {r : Rep} (h : r.IsInteger) :
    r.promoted.size = 4 ∨ r.promoted.size = 8 := by
  unfold Rep.promoted
  rcases h.2 with hs | hs | hs | hs <;> simp [hs]

theorem IsInteger.common {a b : Rep} (ha : a.IsInteger) (hb : b.IsInteger) :
    (a.common b).IsInteger := by
  unfold Rep.common
  split
  · exact ha.promoted
  · split
    · exact hb.promoted
    · split
      · exact ha.promoted
      · exact hb.promoted

end Rep

end TypedIR
