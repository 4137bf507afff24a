import Mathlib.Algebra.Order.Ring.Int
import Mathlib.Data.Int.Bitwise
import Mathlib.Data.Int.ModEq
import Mathlib.Tactic.Ring
import TypedIR.Proofs.Reps

/-
  Integer operators compute exactly, modulo the width.

  A register of an integer representation stands for a number. What an operator
  gives is the register of the representation whose number is congruent to the
  exact result on the numbers of the operands (`Rep.IsInteger.computes_exactly`).

  `Word.ofInt` takes integers to words modulo 2^64, and every operator of words is
  the image of one on integers: one lemma for each. Cutting a word to a width keeps
  the number modulo that width (`Rep.represents_normalize`), so the two steps an
  operator takes, 64-bit arithmetic and the cut, come to arithmetic modulo the
  width.
-/

namespace TypedIR

/-! ## Words of integers -/

namespace Word

theorem toNat_ofInt (i : Int) : ((ofInt i).toNat : Int) = i % 0x10000000000000000 := by
  have h0 : 0 ≤ i % 0x10000000000000000 := Int.emod_nonneg _ (by decide)
  have h1 : i % 0x10000000000000000 < 0x10000000000000000 := Int.emod_lt_of_pos _ (by decide)
  unfold ofInt
  rw [UInt64.toNat_ofNat', Nat.mod_eq_of_lt (by omega), Int.toNat_of_nonneg h0]

theorem eq_ofInt {w : Word} {i : Int} (h : ((w.toNat : Int) - i) % 0x10000000000000000 = 0) :
    w = ofInt i := by
  have hw := w.toNat_lt
  have hi := toNat_ofInt i
  apply UInt64.toNat_inj.mp
  omega

theorem ofInt_toNat (w : Word) : ofInt (w.toNat : Int) = w :=
  (eq_ofInt (by simp)).symm

theorem ofInt_toInt (w : Word) : ofInt w.toInt = w := by
  refine (eq_ofInt ?_).symm
  unfold toInt
  split <;> omega

theorem ofInt_eq_of_emod {i j : Int}
    (h : i % 0x10000000000000000 = j % 0x10000000000000000) : ofInt i = ofInt j := by
  unfold ofInt
  rw [h]

theorem ofInt_add (i j : Int) : ofInt (i + j) = ofInt i + ofInt j := by
  refine (eq_ofInt ?_).symm
  rw [UInt64.toNat_add]
  have hi := toNat_ofInt i
  have hj := toNat_ofInt j
  omega

theorem ofInt_sub (i j : Int) : ofInt (i - j) = ofInt i - ofInt j := by
  refine (eq_ofInt ?_).symm
  rw [UInt64.toNat_sub]
  have hi := toNat_ofInt i
  have hj := toNat_ofInt j
  have hlt := (ofInt j).toNat_lt
  omega

theorem ofInt_neg (i : Int) : ofInt (-i) = 0 - ofInt i := by
  rw [show -i = 0 - i by omega, ofInt_sub]
  rfl

theorem ofInt_not (i : Int) : ofInt (-i - 1) = ~~~ofInt i := by
  refine (eq_ofInt ?_).symm
  have hnot : (~~~ofInt i).toNat = 2 ^ 64 - 1 - (ofInt i).toNat := UInt64.toNat_not _
  have hi := toNat_ofInt i
  have hlt := (ofInt i).toNat_lt
  omega

theorem ofInt_mul (i j : Int) : ofInt (i * j) = ofInt i * ofInt j := by
  refine (eq_ofInt ?_).symm
  have hmod : (((ofInt i * ofInt j).toNat : Nat) : Int) = (i * j) % 0x10000000000000000 := by
    rw [UInt64.toNat_mul, Int.natCast_emod, Int.natCast_mul, toNat_ofInt, toNat_ofInt]
    exact (Int.mul_emod i j _).symm
  omega

theorem testBit_toNat_emod (i : Int) (n k : Nat) :
    (i % 2 ^ n).toNat.testBit k = (decide (k < n) && i.testBit k) := by
  cases i with
  | ofNat m =>
    have h : ((Int.ofNat m) % 2 ^ n).toNat = m % 2 ^ n := by
      have : (Int.ofNat m) % 2 ^ n = ((m % 2 ^ n : Nat) : Int) := by simp
      rw [this, Int.toNat_natCast]
    rw [h, Nat.testBit_mod_two_pow]
    rfl
  | negSucc m =>
    have hlt : m % 2 ^ n < 2 ^ n := Nat.mod_lt _ (Nat.two_pow_pos n)
    have h : ((Int.negSucc m) % 2 ^ n).toNat = 2 ^ n - (m % 2 ^ n + 1) := by
      rw [Int.negSucc_emod _ (pow_pos (by decide) n)]
      have : ((m : Int) % 2 ^ n) = ((m % 2 ^ n : Nat) : Int) := by simp
      rw [this]
      have hpow : ((2 ^ n : Nat) : Int) = 2 ^ n := by simp
      omega
    rw [h, Nat.testBit_two_pow_sub_succ hlt, Nat.testBit_mod_two_pow]
    by_cases hk : k < n <;> simp [hk, Int.testBit]

theorem testBit_ofInt (i : Int) (k : Nat) :
    (ofInt i).toNat.testBit k = (decide (k < 64) && i.testBit k) := by
  rw [← testBit_toNat_emod, ← Int.toNat_natCast (ofInt i).toNat, toNat_ofInt]
  rfl

theorem ofInt_land (i j : Int) : ofInt (i.land j) = ofInt i &&& ofInt j := by
  apply UInt64.toNat_inj.mp
  rw [UInt64.toNat_and]
  refine Nat.eq_of_testBit_eq fun k => ?_
  rw [Nat.testBit_and, testBit_ofInt, testBit_ofInt, testBit_ofInt, Int.testBit_land]
  cases decide (k < 64) <;> simp

theorem ofInt_lor (i j : Int) : ofInt (i.lor j) = ofInt i ||| ofInt j := by
  apply UInt64.toNat_inj.mp
  rw [UInt64.toNat_or]
  refine Nat.eq_of_testBit_eq fun k => ?_
  rw [Nat.testBit_or, testBit_ofInt, testBit_ofInt, testBit_ofInt, Int.testBit_lor]
  cases decide (k < 64) <;> simp

theorem ofInt_xor (i j : Int) : ofInt (i.xor j) = ofInt i ^^^ ofInt j := by
  apply UInt64.toNat_inj.mp
  rw [UInt64.toNat_xor]
  refine Nat.eq_of_testBit_eq fun k => ?_
  rw [Nat.testBit_xor, testBit_ofInt, testBit_ofInt, testBit_ofInt, Int.testBit_lxor]
  cases decide (k < 64) <;> simp

theorem ofInt_shiftLeft (i : Int) {n : Nat} (hn : n < 64) :
    ofInt (i * 2 ^ n) = (ofInt i).shiftLeft n := by
  have hcount : (UInt64.ofNat n).toNat % 64 = n := by
    rw [UInt64.toNat_ofNat']
    omega
  unfold shiftLeft
  rw [if_pos hn]
  refine (eq_ofInt ?_).symm
  have hmod : (((ofInt i <<< UInt64.ofNat n).toNat : Nat) : Int) =
      (i * 2 ^ n) % 0x10000000000000000 := by
    rw [UInt64.toNat_shiftLeft, hcount, Nat.shiftLeft_eq, Int.natCast_emod, Int.natCast_mul,
      toNat_ofInt, Int.natCast_pow]
    exact Int.ModEq.mul_right (2 ^ n) (Int.mod_modEq i _)
  omega

theorem ofInt_shiftRight (w : Word) {n : Nat} (hn : n < 64) :
    ofInt ((w.toNat : Int) / 2 ^ n) = w.shiftRight n := by
  have hcount : (UInt64.ofNat n).toNat % 64 = n := by
    rw [UInt64.toNat_ofNat']
    omega
  unfold shiftRight
  rw [if_pos hn]
  refine (eq_ofInt ?_).symm
  rw [UInt64.toNat_shiftRight, hcount, Nat.shiftRight_eq_div_pow]
  simp

theorem ofInt_shiftRightSigned (w : Word) {n : Nat} (hn : n < 64) :
    ofInt (w.toInt / 2 ^ n) = w.shiftRightSigned n := by
  unfold shiftRightSigned
  rw [Nat.min_eq_left (by omega)]
  have h : w.toInt.shiftRight n = w.toInt / ((2 ^ n : Nat) : Int) :=
    Int.shiftRight_eq_div_pow w.toInt n
  rw [h]
  simp

end Word

/-- Repeated squaring: the rest of the loop multiplies by the rest of the
power. -/
theorem powWordWithin_ofInt (n : Nat) (acc x : Int) (y : Word) (hy : y.toNat < 2 ^ n) :
    powWordWithin n (Word.ofInt acc) (Word.ofInt x) y = Word.ofInt (acc * x ^ y.toNat) := by
  induction n generalizing acc x y with
  | zero =>
    have : y.toNat = 0 := by omega
    simp [powWordWithin, this]
  | succ n ih =>
    unfold powWordWithin
    split
    · next h => simp [h]
    · have hodd : (y &&& 1 = 1) ↔ y.toNat % 2 = 1 := by
        rw [← UInt64.toNat_inj, UInt64.toNat_and]
        simp [Nat.and_one_is_mod]
      have hhalf : (y >>> 1).toNat = y.toNat / 2 := by
        rw [UInt64.toNat_shiftRight]
        simp [Nat.shiftRight_eq_div_pow]
      have hlt : (y >>> 1).toNat < 2 ^ n := by
        rw [hhalf]
        rw [Nat.pow_succ] at hy
        omega
      -- the accumulator takes the odd factor, the square takes the rest
      have hsplit := Nat.div_add_mod y.toNat 2
      rw [← Word.ofInt_mul x x]
      by_cases ho : y.toNat % 2 = 1
      · rw [if_pos (hodd.mpr ho), ← Word.ofInt_mul, ih _ _ _ hlt, hhalf]
        congr 1
        calc acc * x * (x * x) ^ (y.toNat / 2)
            = acc * x ^ (2 * (y.toNat / 2) + 1) := by ring
          _ = acc * x ^ y.toNat := by rw [← ho, hsplit]
      · rw [if_neg fun h => ho (hodd.mp h), ih _ _ _ hlt, hhalf]
        congr 1
        have he : y.toNat % 2 = 0 := by omega
        calc acc * (x * x) ^ (y.toNat / 2)
            = acc * x ^ (2 * (y.toNat / 2) + 0) := by ring
          _ = acc * x ^ y.toNat := by rw [← he, hsplit]

theorem powWord_ofInt (x : Int) (y : Word) :
    powWord (Word.ofInt x) y = Word.ofInt (x ^ y.toNat) := by
  have h := powWordWithin_ofInt 64 1 x y y.toNat_lt
  rw [one_mul] at h
  exact h

/-! ## Cutting a word to a width -/

namespace Word

theorem toNat_lowMask {n : Nat} (h0 : 0 < n) (h64 : n ≤ 64) :
    (lowMask n).toNat = 2 ^ n - 1 := by
  unfold lowMask
  by_cases h : n = 64
  · subst h
    rfl
  · rw [if_neg (by omega)]
    have hlt : 2 ^ n < 2 ^ 64 := Nat.pow_lt_pow_right (by decide) (by omega)
    rw [UInt64.toNat_ofNat']
    exact Nat.mod_eq_of_lt (Nat.lt_of_le_of_lt (Nat.sub_le _ _) hlt)

theorem toNat_and_lowMask (w : Word) {n : Nat} (h0 : 0 < n) (h64 : n ≤ 64) :
    (w &&& lowMask n).toNat = w.toNat % 2 ^ n := by
  rw [UInt64.toNat_and, toNat_lowMask h0 h64, Nat.and_two_pow_sub_one_eq_mod]

theorem and_signBit_eq_zero {w : Word} {n : Nat} (hn : n + 1 < 64) (hw : w.toNat < 2 ^ (n + 1)) :
    w &&& UInt64.ofNat (twoTo n) = 0 ↔ w.toNat < 2 ^ n := by
  have hlt : 2 ^ n < 2 ^ 64 := Nat.pow_lt_pow_right (by decide) (by omega)
  have hbit : (UInt64.ofNat (twoTo n)).toNat = 2 ^ n := by
    rw [UInt64.toNat_ofNat']
    exact Nat.mod_eq_of_lt hlt
  have hsucc : 2 ^ (n + 1) = 2 ^ n + 2 ^ n := by rw [Nat.pow_succ, Nat.mul_two]
  rw [← UInt64.toNat_inj, UInt64.toNat_and, hbit, Nat.and_two_pow, UInt64.toNat_zero,
    Nat.testBit_eq_decide_div_mod_eq]
  by_cases h : w.toNat < 2 ^ n
  · simp [h, Nat.div_eq_of_lt h]
  · have hdiv : w.toNat / 2 ^ n = 1 := by
      apply Nat.div_eq_of_lt_le <;> omega
    simp [h, hdiv]

theorem toInt_signExtend (w : Word) {n : Nat} (h0 : 0 < n) (h64 : n ≤ 64) :
    (w.signExtend n).toInt = (w.toNat : Int).bmod (2 ^ n) := by
  obtain ⟨k, rfl⟩ : ∃ k, n = k + 1 := ⟨n - 1, by omega⟩
  by_cases h : k + 1 = 64
  · obtain rfl : k = 63 := by omega
    have hw := w.toNat_lt
    have hid : w.signExtend (63 + 1 : Nat) = w := by simp [signExtend]
    rw [hid]
    unfold toInt Int.bmod
    split <;> simp <;> omega
  · have hlow := toNat_and_lowMask w h0 h64
    have hlt : w.toNat % 2 ^ (k + 1) < 2 ^ (k + 1) := Nat.mod_lt _ (Nat.two_pow_pos _)
    have hsign := and_signBit_eq_zero (w := w &&& lowMask (k + 1 : Nat)) (n := k) (by omega)
      (by omega)
    have hsucc : 2 ^ (k + 1) = 2 ^ k + 2 ^ k := by rw [Nat.pow_succ, Nat.mul_two]
    have hle : 2 ^ (k + 1) ≤ 2 ^ 63 := Nat.pow_le_pow_right (by decide) (by omega)
    unfold signExtend
    rw [if_neg (by omega)]
    simp only [show ((k + 1 : Nat) : Int).toNat - 1 = k by omega, hsign, hlow]
    have hmod : ((w.toNat : Int) % ((2 ^ (k + 1) : Nat) : Int)) =
        ((w.toNat % 2 ^ (k + 1) : Nat) : Int) := by simp
    unfold Int.bmod
    rw [hmod]
    by_cases hneg : w.toNat % 2 ^ (k + 1) < 2 ^ k
    · rw [if_pos hneg]
      unfold toInt
      rw [hlow, if_pos (by omega), if_pos (by omega)]
    · have hnot : (~~~lowMask (k + 1 : Nat)).toNat = 2 ^ (k + 1) * (2 ^ (64 - (k + 1)) - 1) := by
        have hpow : 2 ^ (k + 1) * 2 ^ (64 - (k + 1)) = 2 ^ 64 := by
          rw [← Nat.pow_add]
          congr 1
          omega
        rw [UInt64.toNat_not, toNat_lowMask h0 h64, Nat.mul_sub, hpow, Nat.mul_one]
        simp only [UInt64.size]
        omega
      have hor : (w &&& lowMask (k + 1 : Nat) ||| ~~~lowMask (k + 1 : Nat)).toNat =
          2 ^ 64 - 2 ^ (k + 1) + w.toNat % 2 ^ (k + 1) := by
        have hpow : 2 ^ (k + 1) * 2 ^ (64 - (k + 1)) = 2 ^ 64 := by
          rw [← Nat.pow_add]
          congr 1
          omega
        rw [UInt64.toNat_or, hnot, hlow, Nat.or_comm, ← Nat.two_pow_add_eq_or_of_lt hlt,
          Nat.mul_sub, hpow, Nat.mul_one]
      rw [if_neg hneg]
      unfold toInt
      rw [hor, if_neg (by omega), if_neg (by omega)]
      omega

end Word

namespace Rep

/-- A representation of integers of one, two, four or eight bytes. -/
def IsInteger (r : Rep) : Prop :=
  (r.cls = .int ∨ r.cls = .uint) ∧ (r.size = 1 ∨ r.size = 2 ∨ r.size = 4 ∨ r.size = 8)

def width (r : Rep) : Nat := 8 * r.size.toNat

/-- The number that a register of this representation stands for. -/
def number (r : Rep) (w : Word) : Int :=
  if r.cls = .int then w.toInt else w.toNat

def least (r : Rep) : Int :=
  if r.cls = .int then -2 ^ (r.width - 1) else 0

def greatest (r : Rep) : Int :=
  if r.cls = .int then 2 ^ (r.width - 1) - 1 else 2 ^ r.width - 1

/-- The register `z` stands for `n` modulo the width, in canonical form. -/
structure Represents (r : Rep) (z : Word) (n : Int) : Prop where
  canonical : r.Canonical z
  least : r.least ≤ r.number z
  greatest : r.number z ≤ r.greatest
  congruent : Int.ModEq (2 ^ r.width) (r.number z) n

theorem ofInt_number (r : Rep) (w : Word) : Word.ofInt (r.number w) = w := by
  unfold number
  split
  · exact w.ofInt_toInt
  · exact w.ofInt_toNat

namespace IsInteger

variable {r : Rep}

theorem bits_eq (h : r.IsInteger) : r.bits = (r.width : Nat) := by
  unfold bits width
  rcases h.2 with hs | hs | hs | hs <;> rw [hs] <;> rfl

theorem width_pos (h : r.IsInteger) : 0 < r.width ∧ r.width ≤ 64 := by
  unfold width
  rcases h.2 with hs | hs | hs | hs <;> rw [hs] <;> decide

theorem modEq_ofInt (h : r.IsInteger) (n : Int) :
    Int.ModEq (2 ^ r.width) ((Word.ofInt n).toNat : Int) n := by
  have hdvd : (2 ^ r.width : Int) ∣ 2 ^ 64 := pow_dvd_pow 2 h.width_pos.2
  rw [Word.toNat_ofInt]
  exact Int.ModEq.of_dvd hdvd (Int.mod_modEq n _)

/-- Normalizing the word of an integer gives the register of that integer modulo
the width. -/
theorem represents_normalize (h : r.IsInteger) (n : Int) :
    r.Represents (r.normalize (Word.ofInt n)) n := by
  obtain ⟨hpos, h64⟩ := h.width_pos
  have hmod := h.modEq_ofInt n
  have hcast : ((2 ^ r.width : Nat) : Int) = 2 ^ r.width := by simp
  rcases h.1 with hc | hc
  · have hnum : r.number (r.normalize (Word.ofInt n)) =
        ((Word.ofInt n).toNat : Int).bmod (2 ^ r.width) := by
      simp only [number, normalize, hc, if_true, h.bits_eq]
      exact Word.toInt_signExtend _ hpos h64
    have hhalf : (2 ^ r.width : Nat) = 2 * 2 ^ (r.width - 1) := by
      rw [← Nat.pow_succ']
      congr 1
      omega
    have hlo := Int.le_bmod (x := ((Word.ofInt n).toNat : Int)) (Nat.two_pow_pos r.width)
    have hhi := Int.bmod_le (x := ((Word.ofInt n).toNat : Int)) (Nat.two_pow_pos r.width)
    have hpow : ((2 ^ (r.width - 1) : Nat) : Int) = 2 ^ (r.width - 1) := by simp
    refine ⟨r.canonical_normalize _, ?_, ?_, ?_⟩
    · rw [hnum, least, if_pos hc]
      omega
    · rw [hnum, greatest, if_pos hc]
      omega
    · rw [hnum]
      refine Int.ModEq.trans ?_ hmod
      have := Int.bmod_emod (x := ((Word.ofInt n).toNat : Int)) (m := 2 ^ r.width)
      rw [hcast] at this
      exact this
  · have hnum : r.number (r.normalize (Word.ofInt n)) =
        ((Word.ofInt n).toNat : Int) % 2 ^ r.width := by
      simp only [number, normalize, hc, h.bits_eq, reduceCtorEq, if_false]
      rw [Word.toNat_and_lowMask _ hpos h64]
      simp
    have hp : (0 : Int) < 2 ^ r.width := pow_pos (by decide) _
    have hlo := Int.emod_nonneg ((Word.ofInt n).toNat : Int) (ne_of_gt hp)
    have hhi := Int.emod_lt_of_pos ((Word.ofInt n).toNat : Int) hp
    refine ⟨r.canonical_normalize _, ?_, ?_, ?_⟩
    · rw [hnum, least, hc]
      exact hlo
    · rw [hnum, greatest, hc]
      simp only [reduceCtorEq, if_false]
      omega
    · rw [hnum]
      exact (Int.mod_modEq _ _).trans hmod

end IsInteger

end Rep

/-! ## What the operators mean -/

/-- Integers to the power of integers: what is below one is cut to zero. -/
def integerPower (x y : Int) : Int :=
  if 0 ≤ y then x ^ y.toNat
  else if x = 1 then 1
  else if x = -1 then (-1) ^ y.natAbs
  else 0

/-- The exact result of an operator on integers of `width` bits; there is none
for a division by zero. Quotients go toward zero, shift counts are taken modulo
the width, and a shift to the right goes to the next integer below. -/
def Opcode.exactResult (op : Opcode) (width : Nat) (x y : Int) : Option Int :=
  match op with
  | .add => some (x + y)
  | .sub => some (x - y)
  | .mul => some (x * y)
  | .div => if y = 0 then none else some (x.tdiv y)
  | .rem => if y = 0 then none else some (x.tmod y)
  | .pow => some (integerPower x y)
  | .and => some (x.land y)
  | .or => some (x.lor y)
  | .xor => some (x.xor y)
  | .shl => some (x * 2 ^ (y % width).toNat)
  | .shr => some (x / 2 ^ (y % width).toNat)
  | _ => none

theorem Opcode.exactResult_eq_none {op : Opcode} (h : op.isBinary = true) {width : Nat} {x y : Int} :
    op.exactResult width x y = none ↔ (op = .div ∨ op = .rem) ∧ y = 0 := by
  cases op <;> simp_all [exactResult, isBinary]

namespace Rep.IsInteger

variable {r : Rep}

theorem width_eq (h : r.IsInteger) :
    r.width = 2 ^ 3 ∨ r.width = 2 ^ 4 ∨ r.width = 2 ^ 5 ∨ r.width = 2 ^ 6 := by
  unfold width
  rcases h.2 with hs | hs | hs | hs <;> rw [hs] <;> decide

theorem shiftCount_eq (h : r.IsInteger) (b : Word) :
    shiftCount r b = (r.number b % r.width).toNat ∧ shiftCount r b < 64 := by
  obtain ⟨hpos, h64⟩ := h.width_pos
  have hmask : Word.ofInt (wrap64 (r.bits - 1)) = UInt64.ofNat (r.width - 1) := by
    rw [h.bits_eq]
    rcases h.width_eq with hw | hw | hw | hw <;> rw [hw] <;> rfl
  have hcount : shiftCount r b = b.toNat % r.width := by
    have hlt : (UInt64.ofNat (r.width - 1)).toNat = r.width - 1 := by
      rw [UInt64.toNat_ofNat']
      omega
    unfold shiftCount
    rw [hmask, UInt64.toNat_and, hlt]
    rcases h.width_eq with hw | hw | hw | hw <;> rw [hw, Nat.and_two_pow_sub_one_eq_mod]
  have hnum : (r.number b - b.toNat) % r.width = 0 := by
    have hdvd : (r.width : Int) ∣ 0x10000000000000000 := by
      rcases h.width_eq with hw | hw | hw | hw <;> rw [hw] <;> decide
    refine Int.emod_eq_zero_of_dvd (Int.dvd_trans hdvd ?_)
    unfold number Word.toInt
    split <;> [split; skip] <;> omega
  have hmod : r.number b % r.width = (b.toNat : Int) % r.width :=
    Int.emod_eq_emod_iff_emod_sub_eq_zero.mpr hnum
  have hlt : b.toNat % r.width < r.width := Nat.mod_lt _ hpos
  rw [hcount, hmod]
  omega

theorem powSigned_eq (x y : Word) : powSigned x y = Word.ofInt (integerPower x.toInt y.toInt) := by
  unfold powSigned integerPower
  by_cases hy : 0 ≤ y.toInt
  · rw [if_neg (by omega), if_pos hy]
    have hnat : y.toInt.toNat = y.toNat := by
      have := y.toNat_lt
      unfold Word.toInt at hy ⊢
      split at hy <;> omega
    have hpow := powWord_ofInt x.toInt y
    rwa [x.ofInt_toInt, ← hnat] at hpow
  · rw [if_pos (by omega), if_neg hy]
    by_cases h1 : x.toInt = 1
    · rw [if_pos h1, if_pos h1]
      rfl
    · rw [if_neg h1, if_neg h1]
      by_cases hm : x.toInt = -1
      · rw [if_pos hm, if_pos hm]
        by_cases he : y.toInt % 2 = 0
        · rw [if_pos he, Even.neg_one_pow (Nat.even_iff.mpr (by omega))]
          rfl
        · rw [if_neg he, Odd.neg_one_pow (Nat.odd_iff.mpr (by omega)), ← hm, x.ofInt_toInt]
      · rw [if_neg hm, if_neg hm]
        rfl

theorem evalSigned_exact (h : r.IsInteger) (hc : r.cls = .int) {op : Opcode}
    (hop : op.isBinary = true) (a b : Word) :
    evalSigned op r a b =
      match op.exactResult r.width (r.number a) (r.number b) with
      | some n => .ok (Word.ofInt n)
      | none => .error .divideByZero := by
  obtain ⟨hcount, hlt⟩ := h.shiftCount_eq b
  have ha := a.ofInt_toInt
  have hb := b.ofInt_toInt
  have hzero : b = 0 ↔ b.toInt = 0 := by
    refine ⟨fun h => h ▸ rfl, fun h => ?_⟩
    rw [h] at hb
    exact hb.symm
  simp only [number, hc, if_true] at hcount ⊢
  cases op <;> simp only [Opcode.isBinary, Bool.false_eq_true] at hop <;>
    simp only [evalSigned, Opcode.exactResult]
  case add => rw [Word.ofInt_add, ha, hb]
  case sub => rw [Word.ofInt_sub, ha, hb]
  case mul => rw [Word.ofInt_mul, ha, hb]
  case div =>
    simp only [hzero]
    split <;> rfl
  case rem =>
    simp only [hzero]
    split <;> rfl
  case pow => rw [powSigned_eq]
  case and => rw [Word.ofInt_land, ha, hb]
  case or => rw [Word.ofInt_lor, ha, hb]
  case xor => rw [Word.ofInt_xor, ha, hb]
  case shl => rw [← hcount, Word.ofInt_shiftLeft _ hlt, ha]
  case shr => rw [← hcount, Word.ofInt_shiftRightSigned _ hlt]

theorem evalUnsigned_exact (h : r.IsInteger) (hc : r.cls = .uint) {op : Opcode}
    (hop : op.isBinary = true) (a b : Word) :
    evalUnsigned op r a b =
      match op.exactResult r.width (r.number a) (r.number b) with
      | some n => .ok (Word.ofInt n)
      | none => .error .divideByZero := by
  obtain ⟨hcount, hlt⟩ := h.shiftCount_eq b
  have ha := a.ofInt_toNat
  have hb := b.ofInt_toNat
  have hzero : b = 0 ↔ (b.toNat : Int) = 0 := by
    rw [← UInt64.toNat_inj]
    simp
  simp only [number, hc, reduceCtorEq, if_false] at hcount ⊢
  cases op <;> simp only [Opcode.isBinary, Bool.false_eq_true] at hop <;>
    simp only [evalUnsigned, Opcode.exactResult]
  case add => rw [Word.ofInt_add, ha, hb]
  case sub => rw [Word.ofInt_sub, ha, hb]
  case mul => rw [Word.ofInt_mul, ha, hb]
  case div =>
    have hdiv : a / b = Word.ofInt ((a.toNat : Int).tdiv b.toNat) := by
      rw [← Int.ofNat_tdiv, ← UInt64.toNat_div, Word.ofInt_toNat]
    simp only [hzero, hdiv]
    split <;> rfl
  case rem =>
    have hmod : a % b = Word.ofInt ((a.toNat : Int).tmod b.toNat) := by
      rw [← Int.ofNat_tmod, ← UInt64.toNat_mod, Word.ofInt_toNat]
    simp only [hzero, hmod]
    split <;> rfl
  case pow =>
    have hpow := powWord_ofInt a.toNat b
    rw [ha] at hpow
    rw [hpow, integerPower, if_pos (by omega), Int.toNat_natCast]
  case and => rw [Word.ofInt_land, ha, hb]
  case or => rw [Word.ofInt_lor, ha, hb]
  case xor => rw [Word.ofInt_xor, ha, hb]
  case shl => rw [← hcount, Word.ofInt_shiftLeft _ hlt, ha]
  case shr => rw [← hcount, Word.ofInt_shiftRight _ hlt]

theorem evalBinary_exact (h : r.IsInteger) {op : Opcode} (hop : op.isBinary = true) (a b : Word) :
    evalBinary op r a b =
      match op.exactResult r.width (r.number a) (r.number b) with
      | some n => .ok (r.normalize (Word.ofInt n))
      | none => .error .divideByZero := by
  unfold evalBinary
  rcases h.1 with hc | hc
  · simp only [hc, h.evalSigned_exact hc hop a b]
    cases op.exactResult r.width (r.number a) (r.number b) <;> rfl
  · simp only [hc, h.evalUnsigned_exact hc hop a b]
    cases op.exactResult r.width (r.number a) (r.number b) <;> rfl

theorem evalUnary_neg (h : r.IsInteger) (a : Word) :
    evalUnary .neg r a = r.normalize (Word.ofInt (-r.number a)) := by
  have hf : r.cls ≠ .float := by rcases h.1 with hc | hc <;> simp [hc]
  unfold evalUnary
  rw [if_neg hf, if_pos rfl, Word.ofInt_neg, r.ofInt_number]

theorem evalUnary_not (h : r.IsInteger) (a : Word) :
    evalUnary .not r a = r.normalize (Word.ofInt (-r.number a - 1)) := by
  have hf : r.cls ≠ .float := by rcases h.1 with hc | hc <;> simp [hc]
  unfold evalUnary
  rw [if_neg hf, if_neg (by decide), Word.ofInt_not, r.ofInt_number]

theorem least_div_neg_one (h : r.IsInteger) (hc : r.cls = .int) :
    evalBinary .div r (Word.ofInt r.least) (Word.ofInt (-1)) = .ok (Word.ofInt r.least) := by
  obtain ⟨cls, size⟩ := r
  obtain rfl : cls = .int := hc
  rcases h.2 with hs | hs | hs | hs <;> obtain rfl := hs <;> rfl

end Rep.IsInteger

/-- Operators on integers are exact modulo the width: each gives the canonical
register of the exact result on the numbers its operands stand for, and only a
division by zero fails. -/
theorem Rep.IsInteger.computes_exactly {r : Rep} (hr : r.IsInteger) :
    (∀ op : Opcode, op.isBinary = true → ∀ a b : Word, r.Canonical a → r.Canonical b →
      (∀ n, op.exactResult r.width (r.number a) (r.number b) = some n →
        ∃ z, evalBinary op r a b = .ok z ∧ r.Represents z n) ∧
      (op.exactResult r.width (r.number a) (r.number b) = none ↔
        ∃ c, evalBinary op r a b = .error c ∧ c.code = 2001) ∧
      ((∃ c, evalBinary op r a b = .error c) ↔ (op = .div ∨ op = .rem) ∧ r.number b = 0)) ∧
    (∀ a : Word, r.Canonical a → r.Represents (evalUnary .neg r a) (-r.number a) ∧
      r.Represents (evalUnary .not r a) (-r.number a - 1)) ∧
    (r.cls = .int → r.Canonical (Word.ofInt r.least) ∧ r.number (Word.ofInt r.least) = r.least ∧
      evalBinary .div r (Word.ofInt r.least) (Word.ofInt (-1)) = .ok (Word.ofInt r.least)) := by
  refine ⟨fun op hop a b _ _ => ?_, fun a _ => ⟨?_, ?_⟩, fun hc => ?_⟩
  · have hexact := hr.evalBinary_exact hop a b
    have hnone : op.exactResult r.width (r.number a) (r.number b) = none ↔ _ :=
      Opcode.exactResult_eq_none hop
    rcases he : op.exactResult r.width (r.number a) (r.number b) with _ | n
    · rw [he] at hexact hnone
      refine ⟨nofun, ⟨fun _ => ⟨_, hexact, rfl⟩, fun _ => rfl⟩, ?_⟩
      exact ⟨fun _ => hnone.mp rfl, fun _ => ⟨_, hexact⟩⟩
    · rw [he] at hexact hnone
      refine ⟨?_, ⟨nofun, ?_⟩, ?_⟩
      · rintro m ⟨rfl⟩
        exact ⟨_, hexact, hr.represents_normalize n⟩
      · rintro ⟨c, hc, -⟩
        cases hexact.symm.trans hc
      · constructor
        · rintro ⟨c, hc⟩
          cases hexact.symm.trans hc
        · intro h
          cases hnone.mpr h
  · rw [hr.evalUnary_neg]
    exact hr.represents_normalize _
  · rw [hr.evalUnary_not]
    exact hr.represents_normalize _
  · refine ⟨?_, ?_, hr.least_div_neg_one hc⟩
    · exact canonical_evalBinary (hr.least_div_neg_one hc)
    · obtain ⟨cls, size⟩ := r
      obtain rfl : cls = .int := hc
      rcases hr.2 with hs | hs | hs | hs <;> obtain rfl := hs <;> rfl

/-- The seventh power of -3 is -2187, which wraps around in a byte. -/
theorem int8_power_wraps :
    Rep.IsInteger { cls := .int, size := 1 } ∧
      ∃ z, evalBinary .pow { cls := .int, size := 1 } (Word.ofInt (-3)) 7 = .ok z ∧
        Rep.Represents { cls := .int, size := 1 } z (-2187) := by
  have hr : Rep.IsInteger { cls := .int, size := 1 } := ⟨.inl rfl, .inl rfl⟩
  exact ⟨hr, ((hr.computes_exactly).1 .pow rfl (Word.ofInt (-3)) 7 (by decide) (by decide)).1 _
    (by decide)⟩

end TypedIR
