import TypedIR.Build.Function
import TypedIR.Build.Operand
import TypedIR.Proofs.ExactIntegers

/-
  The numbers of constants.

  A constant is handed over as a signed number: an unsigned one from the upper
  half of its type is first moved down by 2^width (`encodeUnsigned`), the register
  is cut to the width, and whoever asks for the number moves it up again. For each
  representation of whole numbers or addresses (`Rep.IsWhole`) these steps come to
  nothing: the register stands for the number (`number_register`), and reading it
  as a signed number gives it back (`toInt_signExtend_register`,
  `decodeUnsigned_register`).
-/

namespace TypedIR

/-- A number that the host hands over: a signed or an unsigned one of 64 bits. -/
inductive Literal where
  | signed (n : Int64)
  | unsigned (n : UInt64)

namespace Literal

def number : Literal → Int
  | signed n => n.toInt
  | unsigned n => n.toNat

end Literal

theorem Word.toNat_shiftLeft_one_sub {j : Nat} (hj : j < 64) :
    (Word.shiftLeft 1 j - 1).toNat = 2 ^ j - 1 := by
  have hlt : 2 ^ j < 2 ^ 64 := Nat.pow_lt_pow_right (by decide) hj
  have hcount : (UInt64.ofNat j).toNat % 64 = j := by
    rw [UInt64.toNat_ofNat']
    omega
  have hshift : (Word.shiftLeft 1 j).toNat = 2 ^ j := by
    unfold Word.shiftLeft
    rw [if_pos hj, UInt64.toNat_shiftLeft, hcount, Nat.shiftLeft_eq]
    rw [show (1 : UInt64).toNat = 1 from rfl, Nat.one_mul, Nat.mod_eq_of_lt hlt]
  have hle : (1 : Word) ≤ Word.shiftLeft 1 j := by
    rw [UInt64.le_iff_toNat_le, hshift]
    exact Nat.one_le_two_pow
  rw [UInt64.toNat_sub_of_le _ _ hle, hshift]
  rfl

namespace Rep

/-- A representation of whole numbers, addresses among them. -/
def IsWhole (r : Rep) : Prop :=
  (r.cls = .int ∨ r.cls = .uint ∨ r.cls = .pointer) ∧
    (r.size = 1 ∨ r.size = 2 ∨ r.size = 4 ∨ r.size = 8)

/-- The number is in the range of the representation. -/
def Holds (r : Rep) (n : Int) : Prop := r.least ≤ n ∧ n ≤ r.greatest

def code (r : Rep) (n : Int) : Int :=
  if r.cls = .int then n else encodeUnsigned n.toNat r.width

def register (r : Rep) (n : Int) : Word := r.normalize (Word.ofInt (r.code n))

def hostNumber (r : Rep) (n : Int) : HostValue :=
  if r.cls = .int then .int .int64 n else .int .uint64 n

namespace IsWhole

variable {r : Rep} {n : Int}

theorem width_cases (h : r.IsWhole) : r.width = 8 ∨ r.width = 16 ∨ r.width = 32 ∨ r.width = 64 := by
  unfold width
  rcases h.2 with hs | hs | hs | hs <;> rw [hs] <;> decide

theorem bits_eq (h : r.IsWhole) : r.bits = (r.width : Nat) := by
  unfold bits width
  rcases h.2 with hs | hs | hs | hs <;> rw [hs] <;> rfl

theorem width_pos (h : r.IsWhole) : 0 < r.width ∧ r.width ≤ 64 := by
  rcases h.width_cases with hw | hw | hw | hw <;> omega

theorem not_float (h : r.IsWhole) : r.cls ≠ .float := by
  rcases h.1 with hc | hc | hc <;> simp [hc]

theorem isScalar (h : r.IsWhole) : r.isScalar = true := by
  unfold Rep.isScalar
  rcases h.1 with hc | hc | hc <;> simp [hc]

/-! ## The range of a type -/

theorem holds_iff_signed (h : r.IsWhole) (hc : r.cls = .int) (hn : -2 ^ 63 ≤ n) (hn' : n < 2 ^ 63) :
    fitsSigned n r.width = true ↔ r.Holds n := by
  unfold fitsSigned Holds least greatest
  rcases h.width_cases with hw | hw | hw | hw <;> simp [hc, hw, twoTo] <;> omega

theorem holds_iff_unsigned (h : r.IsWhole) (hc : r.cls ≠ .int) {n : Nat} (hn : n < 2 ^ 64) :
    fitsUnsigned n r.width = true ↔ r.Holds n := by
  unfold fitsUnsigned Holds least greatest
  rcases h.width_cases with hw | hw | hw | hw <;> simp [hc, hw, twoTo] <;> omega

/-! ## There and back -/

theorem encodeUnsigned_eq (h : r.IsWhole) {n : Nat} (hn : n < 2 ^ r.width) :
    encodeUnsigned n r.width = if n < 2 ^ (r.width - 1) then (n : Int) else n - 2 ^ r.width := by
  have hpos := h.width_pos.1
  unfold encodeUnsigned
  by_cases h64 : r.width = 64
  · rw [h64] at hn ⊢
    rw [if_neg (by omega)]
    unfold wrap64
    rw [Int.bmod_def]
    split <;> split <;> omega
  · have hlt : r.width < 64 := by have := h.width_pos.2; omega
    have hmask := Word.toNat_shiftLeft_one_sub (j := r.width - 1) (by omega)
    have hj : ((r.width : Int) - 1).toNat = r.width - 1 := by omega
    have hle : 2 ^ r.width ≤ 2 ^ 63 := Nat.pow_le_pow_right (by decide) (by omega)
    have hhalf : 2 ^ r.width = 2 * 2 ^ (r.width - 1) := by
      rw [← Nat.pow_succ']
      congr 1
      omega
    have hcast : ((2 ^ r.width : Nat) : Int) = 2 ^ r.width := by simp
    have hsame : wrap64 n = n := wrap64_of_mem (by omega) (by omega)
    rw [hj, hmask, hsame]
    by_cases hlow : n < 2 ^ (r.width - 1)
    · rw [if_neg (by omega), if_pos hlow]
    · -- 2^63 itself would wrap around, but the width is below 63
      have hw : r.width ≤ 32 := by rcases h.width_cases with hw | hw | hw | hw <;> omega
      have hle : 2 ^ r.width ≤ 2 ^ 32 := Nat.pow_le_pow_right (by decide) hw
      have hwhole : wrap64 (twoTo (r.width : Int).toNat) = 2 ^ r.width := by
        rw [← hcast]
        exact wrap64_of_mem (i := (2 ^ r.width : Nat)) (by omega) (by omega)
      rw [if_pos (by omega), if_neg hlow, hwhole]
      exact wrap64_of_mem (by omega) (by omega)

theorem encodeUnsigned_modEq (h : r.IsWhole) {n : Nat} (hn : n < 2 ^ r.width) :
    Int.ModEq (2 ^ r.width) (encodeUnsigned n r.width) n := by
  rw [h.encodeUnsigned_eq hn]
  split
  · rfl
  · exact Int.modEq_iff_dvd.mpr ⟨1, by omega⟩

theorem code_modEq (h : r.IsWhole) (hn : r.Holds n) :
    Int.ModEq (2 ^ r.width) (r.code n) n := by
  unfold code
  by_cases hc : r.cls = .int
  · rw [if_pos hc]
  · unfold Holds least greatest at hn
    rw [if_neg hc, if_neg hc] at hn
    have hcast : ((n.toNat : Nat) : Int) = n := by omega
    have hlt : n.toNat < 2 ^ r.width := by
      have : ((2 ^ r.width : Nat) : Int) = 2 ^ r.width := by simp
      omega
    have hmod := h.encodeUnsigned_modEq hlt
    rw [hcast] at hmod
    rw [if_neg hc]
    exact hmod

/-- The register of a constant, as a number without a sign, is its number modulo
the width. -/
theorem toNat_ofInt_code (h : r.IsWhole) (hn : r.Holds n) :
    ((Word.ofInt (r.code n)).toNat : Int) % 2 ^ r.width = n % 2 ^ r.width := by
  have hdvd : (2 ^ r.width : Int) ∣ 2 ^ 64 := pow_dvd_pow 2 h.width_pos.2
  have hword := Word.toNat_ofInt (r.code n)
  calc ((Word.ofInt (r.code n)).toNat : Int) % 2 ^ r.width
      = r.code n % 2 ^ 64 % 2 ^ r.width := by rw [hword]; rfl
    _ = r.code n % 2 ^ r.width := Int.emod_emod_of_dvd _ hdvd
    _ = n % 2 ^ r.width := h.code_modEq hn

theorem unmarshal_eq {w : Word} (h : r.IsWhole) (hw : r.number w = n) :
    BuildM.unmarshal r false w = r.hostNumber n := by
  unfold number at hw
  unfold BuildM.unmarshal hostNumber
  rcases h.1 with hc | hc | hc <;> simp [hc] at hw ⊢ <;> rw [hw]

theorem number_register (h : r.IsWhole) (hn : r.Holds n) : r.number (r.register n) = n := by
  obtain ⟨hpos, h64⟩ := h.width_pos
  have hmod := h.toNat_ofInt_code hn
  have hcast : ((2 ^ r.width : Nat) : Int) = 2 ^ r.width := by simp
  unfold Holds least greatest at hn
  unfold number register normalize
  by_cases hc : r.cls = .int
  · simp only [hc, if_true] at hn ⊢
    have hhalf : (2 ^ r.width : Nat) = 2 * 2 ^ (r.width - 1) := by
      rw [← Nat.pow_succ']
      congr 1
      omega
    have hpow : ((2 ^ (r.width - 1) : Nat) : Int) = 2 ^ (r.width - 1) := by simp
    rw [h.bits_eq, Word.toInt_signExtend _ hpos h64]
    calc ((Word.ofInt (r.code n)).toNat : Int).bmod (2 ^ r.width)
        = n.bmod (2 ^ r.width) := by
          unfold Int.bmod
          rw [hcast, hmod]
      _ = n := Int.bmod_eq_of_le (by omega) (by omega)
  · have hmasked : r.number (Word.ofInt (r.code n) &&& Word.lowMask r.bits) = n := by
      unfold number
      simp only [hc, if_false] at hn ⊢
      rw [h.bits_eq, Word.toNat_and_lowMask _ hpos h64]
      push_cast
      rw [hmod]
      exact Int.emod_eq_of_lt (by omega) (by omega)
    unfold number at hmasked
    rcases h.1 with hi | hu | hp
    · exact absurd hi hc
    · simp only [hu] at hmasked ⊢
      exact hmasked
    · simp only [hp] at hmasked ⊢
      exact hmasked

theorem toInt_signExtend_register (h : r.IsWhole) (hc : r.cls = .int) (hn : r.Holds n) :
    ((r.register n).signExtend r.bits).toInt = n := by
  have hnumber := h.number_register hn
  unfold number register normalize at hnumber
  unfold register normalize
  simp only [hc, if_true] at hnumber ⊢
  rw [Word.signExtend_twice]
  exact hnumber

/-- Any other constant is read back as a signed number, which is moved up again. -/
theorem decodeUnsigned_register (h : r.IsWhole) (hc : r.cls ≠ .int) (hn : r.Holds n) :
    decodeUnsigned ((r.register n).signExtend r.bits).toInt r.width = n.toNat := by
  obtain ⟨hpos, h64⟩ := h.width_pos
  have hnumber := h.number_register hn
  unfold number at hnumber
  unfold Holds least greatest at hn
  simp only [hc, if_false] at hnumber hn
  have hcast : ((2 ^ r.width : Nat) : Int) = 2 ^ r.width := by simp
  have hdvd : (2 ^ r.width : Int) ∣ 2 ^ 64 := pow_dvd_pow 2 h64
  obtain ⟨signed, hs⟩ : ∃ m, ((r.register n).signExtend r.bits).toInt = m := ⟨_, rfl⟩
  have hsigned : signed % 2 ^ r.width = n % 2 ^ r.width := by
    rw [← hs, h.bits_eq, Word.toInt_signExtend _ hpos h64, hnumber, ← hcast, Int.bmod_emod]
  have hword : (((Word.ofInt signed).toNat % 2 ^ r.width : Nat) : Int) = n := by
    push_cast
    calc ((Word.ofInt signed).toNat : Int) % 2 ^ r.width
        = signed % 2 ^ 64 % 2 ^ r.width := by rw [Word.toNat_ofInt]; rfl
      _ = signed % 2 ^ r.width := Int.emod_emod_of_dvd _ hdvd
      _ = n % 2 ^ r.width := hsigned
      _ = n := Int.emod_eq_of_lt (by omega) (by omega)
  rw [hs]
  unfold decodeUnsigned
  split
  · have hw : r.width = 64 := by omega
    have := (Word.ofInt signed).toNat_lt
    rw [hw] at hword
    omega
  · have hmask := Word.toNat_shiftLeft_one_sub (j := r.width) (by omega)
    rw [UInt64.toNat_and, Int.toNat_natCast, hmask, Nat.and_two_pow_sub_one_eq_mod]
    omega

end IsWhole

end Rep

end TypedIR
