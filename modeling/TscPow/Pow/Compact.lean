import TscPow.Pow.ArithUint256

/-!
# The compact format

`SetCompact` and `GetCompact` (`arith_uint256.cpp`): a 256-bit number as an 8-bit exponent of base 256 and a 23-bit mantissa, bit `0x00800000` being the sign. Encoding keeps the two or three most significant bytes; `toNat_setCompact_getCompact` says which number is left, and `isGreatest_roundDown` that it is the greatest one below that a compact word stands for.
-/

namespace TscPow

namespace BaseUint

/-- What `SetCompact` leaves in `*this`, `*pfNegative` and `*pfOverflow`. -/
structure Decoded where
  target : ArithUint256
  fNegative : Bool
  fOverflow : Bool

def setCompact (nCompact : BitVec 32) : Decoded :=
  let nSize := (nCompact >>> 24).toNat
  let word := nCompact &&& 0x007fffff
  let nWord := if nSize ≤ 3 then word >>> (8 * (3 - nSize)) else word
  let bn : ArithUint256 := ofUInt64 (nWord.setWidth 64)
  { target := if nSize ≤ 3 then bn else bn.shiftLeft (8 * (nSize - 3))
    fNegative := nWord != 0 && (nCompact &&& 0x00800000) != 0
    fOverflow :=
      nWord != 0 && (decide (nSize > 34) || (decide (nWord.toNat > 0xff) && decide (nSize > 33)) ||
      (decide (nWord.toNat > 0xffff) && decide (nSize > 32))) }

/-- The mantissa and the exponent of `GetCompact`, after the mantissa has given up a byte if its top bit would read as the sign. -/
def compactParts (a : ArithUint256) : BitVec 32 × Nat :=
  let nSize := (a.bits + 7) / 8
  let nCompact : BitVec 32 :=
    if nSize ≤ 3 then (a.getLow64 <<< (8 * (3 - nSize))).setWidth 32
    else (a.shiftRight (8 * (nSize - 3))).getLow64.setWidth 32
  if nCompact &&& 0x00800000 ≠ 0 then (nCompact >>> 8, nSize + 1) else (nCompact, nSize)

/-- `GetCompact`. Its two assertions hold of every number, see `compactParts_asserts`. -/
def getCompact (a : ArithUint256) (fNegative : Bool) : BitVec 32 :=
  let (mantissa, nSize) := compactParts a
  let nCompact := mantissa ||| (BitVec.ofNat 32 nSize <<< 24)
  nCompact ||| (if fNegative ∧ nCompact &&& 0x007fffff ≠ 0 then 0x00800000 else 0)

/-! ### The number behind the parts -/

def compactExponent (n : Nat) : Nat := if n = 0 then 0 else n.size / 8 + 1

def compactMantissa (n : Nat) : Nat :=
  if compactExponent n ≤ 3 then n * 2 ^ (8 * (3 - compactExponent n))
  else n / 2 ^ (8 * (compactExponent n - 3))

/-- The mantissa `GetCompact` reads off before it looks at the sign bit. -/
private def rawMantissa (n nSize : Nat) : Nat :=
  if nSize ≤ 3 then n * 2 ^ (8 * (3 - nSize)) else n / 2 ^ (8 * (nSize - 3))

private theorem rawMantissa_lt {n nSize : Nat} (hn : n < 2 ^ (8 * nSize)) :
    rawMantissa n nSize < 2 ^ 24 := by
  rw [rawMantissa]
  split
  · calc n * 2 ^ (8 * (3 - nSize)) < 2 ^ (8 * nSize) * 2 ^ (8 * (3 - nSize)) :=
          Nat.mul_lt_mul_of_pos_right hn (Nat.two_pow_pos _)
      _ = 2 ^ 24 := by rw [← pow_add]; congr 1; omega
  · rw [Nat.div_lt_iff_lt_mul (Nat.two_pow_pos _), ← pow_add,
      show 24 + 8 * (nSize - 3) = 8 * nSize by omega]
    exact hn

private theorem le_rawMantissa_iff {n nSize : Nat} (hpos : 0 < nSize) :
    2 ^ 23 ≤ rawMantissa n nSize ↔ 2 ^ (8 * nSize - 1) ≤ n := by
  rw [rawMantissa]
  split
  · rw [show 2 ^ 23 = 2 ^ (8 * nSize - 1) * 2 ^ (8 * (3 - nSize)) by rw [← pow_add]; congr 1; omega]
    exact Nat.mul_le_mul_right_iff (Nat.two_pow_pos _)
  · rw [Nat.le_div_iff_mul_le (Nat.two_pow_pos _), ← pow_add,
      show 23 + 8 * (nSize - 3) = 8 * nSize - 1 by omega]

private theorem rawMantissa_div (n nSize : Nat) :
    rawMantissa n nSize / 2 ^ 8 = rawMantissa n (nSize + 1) := by
  rw [rawMantissa, rawMantissa]
  rcases Nat.lt_trichotomy nSize 3 with hlt | rfl | hgt
  · rw [if_pos (by omega), if_pos (by omega),
      show 8 * (3 - nSize) = 8 * (3 - (nSize + 1)) + 8 by omega, pow_add,
      ← Nat.mul_assoc, Nat.mul_div_cancel _ (Nat.two_pow_pos _)]
  · simp
  · rw [if_neg (by omega), if_neg (by omega), Nat.div_div_eq_div_mul, ← pow_add]
    congr 2
    omega

private theorem and_signBit_ne_zero_iff {x : BitVec 32} (hx : x.toNat < 2 ^ 24) :
    x &&& 0x00800000 ≠ 0 ↔ 2 ^ 23 ≤ x.toNat := by
  have hand : (x &&& 0x00800000).toNat = (x.toNat.testBit 23).toNat * 2 ^ 23 := by
    rw [BitVec.toNat_and, show (0x00800000 : BitVec 32).toNat = 2 ^ 23 by decide, Nat.and_two_pow]
  rw [Ne, ← BitVec.toNat_inj, hand]
  rcases Nat.lt_or_ge x.toNat (2 ^ 23) with hlt | hge
  · simp [Nat.testBit_lt_two_pow hlt]
    omega
  · have hbit : x.toNat.testBit 23 = true := by
      rw [Nat.testBit_eq_decide_div_mod_eq]
      rw [show x.toNat / 2 ^ 23 = 1 by omega]
      rfl
    simp [hbit]
    omega

private theorem toNat_compactWord (a : ArithUint256) :
    (if (a.bits + 7) / 8 ≤ 3 then (a.getLow64 <<< (8 * (3 - (a.bits + 7) / 8))).setWidth 32
      else (a.shiftRight (8 * ((a.bits + 7) / 8 - 3))).getLow64.setWidth 32 : BitVec 32).toNat =
      rawMantissa a.toNat ((a.toNat.size + 7) / 8) := by
  have hfit : a.toNat < 2 ^ (8 * ((a.toNat.size + 7) / 8)) := Nat.size_le.mp (by omega)
  have hraw := rawMantissa_lt hfit
  rw [bits_eq]
  generalize (a.toNat.size + 7) / 8 = nSize at *
  rw [rawMantissa] at hraw ⊢
  split
  · rename_i hle
    rw [if_pos hle] at hraw
    have hsmall : a.toNat < 2 ^ 24 :=
      lt_of_lt_of_le hfit (Nat.pow_le_pow_right (by decide) (by omega))
    rw [BitVec.toNat_setWidth, BitVec.toNat_shiftLeft, toNat_getLow64, Nat.shiftLeft_eq]
    rw [Nat.mod_eq_of_lt (show a.toNat < 2 ^ 64 by omega), Nat.mod_eq_of_lt (by omega),
      Nat.mod_eq_of_lt (by omega)]
  · rename_i hgt
    rw [if_neg hgt] at hraw
    rw [BitVec.toNat_setWidth, toNat_getLow64, toNat_shiftRight]
    generalize a.toNat / 2 ^ (8 * (nSize - 3)) = quotient at hraw ⊢
    omega

theorem compactParts_eq (a : ArithUint256) :
    (compactParts a).1.toNat = compactMantissa a.toNat ∧
    (compactParts a).2 = compactExponent a.toNat := by
  have hword := toNat_compactWord a
  have hfit : a.toNat < 2 ^ (8 * ((a.toNat.size + 7) / 8)) := Nat.size_le.mp (by omega)
  have hsign := and_signBit_ne_zero_iff (hword ▸ rawMantissa_lt hfit)
  rw [hword] at hsign
  have hmantissa : compactMantissa a.toNat = rawMantissa a.toNat (compactExponent a.toNat) := rfl
  rw [compactParts, hmantissa, compactExponent]
  rcases Nat.eq_zero_or_pos a.toNat with hzero | hpos
  · have hclear : rawMantissa a.toNat ((a.toNat.size + 7) / 8) = 0 := by simp [hzero, rawMantissa]
    rw [if_neg (by rw [hsign, hclear]; decide), if_pos hzero]
    refine ⟨?_, ?_⟩
    · rw [hword, hclear]
      simp [hzero, rawMantissa]
    · rw [bits_eq, hzero]
      rfl
  · have hsize : 0 < a.toNat.size := Nat.size_pos.mpr hpos
    have htop : 2 ^ 23 ≤ rawMantissa a.toNat ((a.toNat.size + 7) / 8) ↔
        a.toNat.size = 8 * ((a.toNat.size + 7) / 8) := by
      rw [le_rawMantissa_iff (by omega), ← Nat.lt_size]
      omega
    rw [if_neg (show a.toNat ≠ 0 by omega)]
    by_cases hfull : a.toNat.size = 8 * ((a.toNat.size + 7) / 8)
    · rw [if_pos (hsign.mpr (htop.mpr hfull))]
      have hexp : a.toNat.size / 8 + 1 = (a.toNat.size + 7) / 8 + 1 := by omega
      rw [hexp]
      refine ⟨?_, by rw [bits_eq]⟩
      rw [BitVec.toNat_ushiftRight, hword, Nat.shiftRight_eq_div_pow, rawMantissa_div]
    · rw [if_neg (by rw [hsign, htop]; exact hfull)]
      have hexp : a.toNat.size / 8 + 1 = (a.toNat.size + 7) / 8 := by omega
      rw [hexp]
      exact ⟨hword, by rw [bits_eq]⟩

theorem compactMantissa_lt (n : Nat) : compactMantissa n < 2 ^ 23 := by
  have hmantissa : compactMantissa n = rawMantissa n (compactExponent n) := rfl
  rcases Nat.eq_zero_or_pos n with rfl | hpos
  · decide
  · have hexp : compactExponent n = n.size / 8 + 1 := if_neg (by omega)
    rw [hmantissa, ← Nat.not_le, le_rawMantissa_iff (by omega), ← Nat.lt_size]
    omega

theorem compactExponent_le {n : Nat} (hn : n < 2 ^ 256) : compactExponent n ≤ 33 := by
  have := Nat.size_le.mpr hn
  rw [compactExponent]
  split <;> omega

theorem compactParts_asserts (a : ArithUint256) :
    (compactParts a).1 &&& ~~~0x007fffff = 0 ∧ (compactParts a).2 < 256 := by
  obtain ⟨hmantissa, hexponent⟩ := compactParts_eq a
  refine ⟨?_, hexponent.trans_lt ((compactExponent_le a.toNat_lt).trans_lt (by decide))⟩
  have hlt := hmantissa.trans_lt (compactMantissa_lt a.toNat)
  generalize (compactParts a).1 = mantissa at hlt ⊢
  refine BitVec.eq_of_getLsbD_eq fun i hi => ?_
  rcases Nat.lt_or_ge i 23 with hlow | hhigh
  · have hmask : ∀ i < 23, (~~~0x007fffff : BitVec 32).getLsbD i = false := by decide
    rw [BitVec.getLsbD_and, hmask i hlow, Bool.and_false]
    exact BitVec.getLsbD_zero.symm
  · rw [BitVec.getLsbD_and, BitVec.getLsbD,
      Nat.testBit_lt_two_pow (hlt.trans_le (Nat.pow_le_pow_right (by decide) hhigh))]
    simp

theorem toNat_getCompact (a : ArithUint256) :
    (a.getCompact false).toNat = compactMantissa a.toNat + 2 ^ 24 * compactExponent a.toNat := by
  obtain ⟨hmantissa, hexponent⟩ := compactParts_eq a
  have hlt := compactMantissa_lt a.toNat
  have hexp := compactExponent_le a.toNat_lt
  simp only [getCompact, Bool.false_eq_true, false_and, if_false, BitVec.ofNat_eq_ofNat, BitVec.or_zero,
    BitVec.toNat_or, BitVec.toNat_shiftLeft, BitVec.toNat_ofNat, hmantissa, hexponent, Nat.shiftLeft_eq]
  rw [Nat.mod_eq_of_lt (show compactExponent a.toNat < 2 ^ 32 by omega),
    Nat.mod_eq_of_lt (by omega), Nat.or_comm,
    Nat.mul_comm _ (2 ^ 24), ← Nat.two_pow_add_eq_or_of_lt (by omega), Nat.add_comm]

theorem parts_getCompact (a : ArithUint256) :
    (a.getCompact false).toNat / 2 ^ 24 = compactExponent a.toNat ∧
    (a.getCompact false).toNat % 2 ^ 23 = compactMantissa a.toNat := by
  have hmantissa := compactMantissa_lt a.toNat
  rw [toNat_getCompact]
  omega

theorem getCompact_congr {a b : ArithUint256} (h : a.toNat = b.toNat) :
    a.getCompact false = b.getCompact false := by
  apply BitVec.eq_of_toNat_eq
  rw [toNat_getCompact, toNat_getCompact, h]

/-! ### Decoding -/

theorem toNat_exponentByte (nCompact : BitVec 32) :
    (nCompact >>> 24).toNat = nCompact.toNat / 2 ^ 24 := by
  rw [BitVec.toNat_ushiftRight, Nat.shiftRight_eq_div_pow]

theorem toNat_mantissaBits (nCompact : BitVec 32) :
    (nCompact &&& 0x007fffff).toNat = nCompact.toNat % 2 ^ 23 := by
  rw [BitVec.toNat_and, show (0x007fffff : BitVec 32).toNat = 2 ^ 23 - 1 by decide,
    Nat.and_two_pow_sub_one_eq_mod]

theorem toNat_setCompact (nCompact : BitVec 32) :
    (setCompact nCompact).target.toNat =
      if nCompact.toNat / 2 ^ 24 ≤ 3 then
        nCompact.toNat % 2 ^ 23 / 2 ^ (8 * (3 - nCompact.toNat / 2 ^ 24))
      else nCompact.toNat % 2 ^ 23 * 2 ^ (8 * (nCompact.toNat / 2 ^ 24 - 3)) % 2 ^ 256 := by
  have hsize := toNat_exponentByte nCompact
  have hword := toNat_mantissaBits nCompact
  have hwide (x : BitVec 32) : (ofUInt64 (x.setWidth 64) : ArithUint256).toNat = x.toNat := by
    rw [toNat_ofUInt64 _ (by decide), BitVec.toNat_setWidth, Nat.mod_eq_of_lt (by omega)]
  simp only [setCompact, hsize]
  split
  · rw [hwide, BitVec.toNat_ushiftRight, hword, Nat.shiftRight_eq_div_pow]
  · rw [toNat_shiftLeft, hwide, hword]

/-- The number that survives the compact format: all but the bytes below the mantissa. -/
def truncate (n : Nat) : Nat :=
  n / 2 ^ (8 * (compactExponent n - 3)) * 2 ^ (8 * (compactExponent n - 3))

theorem truncate_le (n : Nat) : truncate n ≤ n := Nat.div_mul_le_self _ _

theorem toNat_setCompact_getCompact (a : ArithUint256) :
    (setCompact (a.getCompact false)).target.toNat = truncate a.toNat := by
  obtain ⟨hsize, hword⟩ := parts_getCompact a
  rw [toNat_setCompact, hsize, hword, compactMantissa, truncate]
  split
  · rename_i hle
    rw [Nat.mul_div_cancel _ (Nat.two_pow_pos _), show compactExponent a.toNat - 3 = 0 by omega]
    simp
  · exact Nat.mod_eq_of_lt (lt_of_le_of_lt (truncate_le _) a.toNat_lt)

theorem two_pow_le_truncate {n : Nat} (h : 3 < compactExponent n) :
    2 ^ (8 * (compactExponent n - 1) - 1) ≤ truncate n := by
  have hpos : n ≠ 0 := by
    rintro rfl
    exact absurd h (by decide)
  have hexp : compactExponent n = n.size / 8 + 1 := if_neg hpos
  have htop : 2 ^ (8 * (compactExponent n - 1) - 1) ≤ n := Nat.lt_size.mp (by omega)
  have hsplit : 8 * (compactExponent n - 1) - 1 = 15 + 8 * (compactExponent n - 3) := by omega
  rw [hsplit, pow_add] at htop ⊢
  rw [truncate]
  exact Nat.mul_le_mul_right _ ((Nat.le_div_iff_mul_le (Nat.two_pow_pos _)).mpr htop)

/-- No number of the form `m * 2 ^ (8 * k)` with a mantissa of 23 bits lies between the truncation of a number and the number. -/
theorem le_truncate_of_le {m k n : Nat} (hm : m < 2 ^ 23) (hle : m * 2 ^ (8 * k) ≤ n) :
    m * 2 ^ (8 * k) ≤ truncate n := by
  rcases Nat.lt_or_ge k (compactExponent n - 3) with hfine | hcoarse
  · -- in a finer unit the mantissa does not reach the top bit
    have hpow : 2 ^ 23 * 2 ^ (8 * k) ≤ 2 ^ (8 * (compactExponent n - 1) - 1) := by
      rw [← pow_add]
      exact Nat.pow_le_pow_right (by decide) (by omega)
    have hbelow : m * 2 ^ (8 * k) ≤ 2 ^ 23 * 2 ^ (8 * k) := Nat.mul_le_mul_right _ hm.le
    exact hbelow.trans (hpow.trans (two_pow_le_truncate (by omega)))
  · -- a multiple of the unit in which the truncation is made
    obtain ⟨j, rfl⟩ := Nat.exists_eq_add_of_le' hcoarse
    rw [Nat.mul_add, pow_add, ← Nat.mul_assoc] at hle ⊢
    rw [truncate]
    exact Nat.mul_le_mul_right _ ((Nat.le_div_iff_mul_le (Nat.two_pow_pos _)).mpr hle)

theorem exists_truncate_eq (n : Nat) : ∃ m k, m < 2 ^ 23 ∧ truncate n = m * 2 ^ (8 * k) := by
  have hmantissa := compactMantissa_lt n
  rw [compactMantissa] at hmantissa
  refine ⟨n / 2 ^ (8 * (compactExponent n - 3)), compactExponent n - 3, ?_, rfl⟩
  split at hmantissa
  · rename_i hle
    rw [show compactExponent n - 3 = 0 by omega, Nat.mul_zero, pow_zero, Nat.div_one]
    exact lt_of_le_of_lt (Nat.le_mul_of_pos_right n (Nat.two_pow_pos _)) hmantissa
  · exact hmantissa

theorem truncate_le_truncate {m n : Nat} (hle : m ≤ n) : truncate m ≤ truncate n := by
  obtain ⟨mantissa, k, hlt, heq⟩ := exists_truncate_eq m
  have hbelow := (truncate_le m).trans hle
  rw [heq] at hbelow ⊢
  exact le_truncate_of_le hlt hbelow

/-! ### Rounding down -/

/-- A number that some compact word stands for, without the negative or the overflow flag. -/
def Represented (n : Nat) : Prop :=
  ∃ nCompact, (setCompact nCompact).fNegative = false ∧ (setCompact nCompact).fOverflow = false ∧
    (setCompact nCompact).target.toNat = n

theorem fOverflow_eq_false_iff (nCompact : BitVec 32) : (setCompact nCompact).fOverflow = false ↔
    nCompact.toNat / 2 ^ 24 ≤ 3 ∨
      nCompact.toNat % 2 ^ 23 * 2 ^ (8 * (nCompact.toNat / 2 ^ 24 - 3)) < 2 ^ 256 := by
  have hsize := toNat_exponentByte nCompact
  have hword := toNat_mantissaBits nCompact
  have hzero : (nCompact &&& 0x007fffff != 0) = true ↔ nCompact.toNat % 2 ^ 23 ≠ 0 := by
    rw [bne_iff_ne, ← hword, Ne, Ne, ← BitVec.toNat_inj]
    rfl
  have hmantissa : nCompact.toNat % 2 ^ 23 < 2 ^ 23 := Nat.mod_lt _ (Nat.two_pow_pos _)
  simp only [setCompact, hsize]
  generalize nCompact.toNat / 2 ^ 24 = nSize
  by_cases hsmall : nSize ≤ 3
  · have hall : ¬ nSize > 34 ∧ ¬ nSize > 33 ∧ ¬ nSize > 32 := by omega
    simp [hsmall, hall]
  · rw [if_neg hsmall, ← Bool.not_eq_true, Bool.and_eq_true, hzero, hword]
    generalize nCompact.toNat % 2 ^ 23 = nWord at hmantissa ⊢
    simp only [Bool.or_eq_true, Bool.and_eq_true, decide_eq_true_eq, hsmall, false_or]
    have hshift : nSize ≤ 32 ∨ nSize = 33 ∨ nSize = 34 ∨ 35 ≤ nSize := by omega
    rcases hshift with hle | rfl | rfl | hge
    · have hfits : nWord * 2 ^ (8 * (nSize - 3)) < 2 ^ 23 * 2 ^ 232 :=
        Nat.mul_lt_mul_of_lt_of_le hmantissa (Nat.pow_le_pow_right (by decide) (by omega))
          (Nat.two_pow_pos _)
      exact iff_of_true (by omega) (hfits.trans (by decide))
    · omega
    · omega
    · have hpow : 2 ^ 256 ≤ 2 ^ (8 * (nSize - 3)) := Nat.pow_le_pow_right (by decide) (by omega)
      rcases Nat.eq_zero_or_pos nWord with rfl | hpos
      · simp
      · refine iff_of_false (by omega) (Nat.not_lt.mpr (hpow.trans (Nat.le_mul_of_pos_left _ hpos)))

theorem Represented.exists_eq {n : Nat} (h : Represented n) :
    ∃ m k, m < 2 ^ 23 ∧ n = m * 2 ^ (8 * k) := by
  obtain ⟨nCompact, -, hoverflow, rfl⟩ := h
  have hmantissa : nCompact.toNat % 2 ^ 23 < 2 ^ 23 := Nat.mod_lt _ (Nat.two_pow_pos _)
  rw [toNat_setCompact]
  split
  · exact ⟨_, 0, lt_of_le_of_lt (Nat.div_le_self _ _) hmantissa,
      by rw [Nat.mul_zero, pow_zero, Nat.mul_one]⟩
  · rename_i hlarge
    have hfits := ((fOverflow_eq_false_iff nCompact).mp hoverflow).resolve_left hlarge
    exact ⟨_, _, hmantissa, Nat.mod_eq_of_lt hfits⟩

theorem setCompact_getCompact_flags (a : ArithUint256) :
    (setCompact (a.getCompact false)).fNegative = false ∧
    (setCompact (a.getCompact false)).fOverflow = false := by
  have hmantissa := compactMantissa_lt a.toNat
  obtain ⟨hsize, hword⟩ := parts_getCompact a
  constructor
  · have hbit : (a.getCompact false).toNat.testBit 23 = false := by
      rw [Nat.testBit_eq_decide_div_mod_eq, toNat_getCompact, decide_eq_false_iff_not]
      omega
    have hsign : a.getCompact false &&& 0x00800000 = 0 := by
      rw [← BitVec.toNat_inj, BitVec.toNat_and,
        show (0x00800000 : BitVec 32).toNat = 2 ^ 23 by decide, Nat.and_two_pow, hbit]
      rfl
    simp only [setCompact, hsign, bne_self_eq_false, Bool.and_false]
  · rw [fOverflow_eq_false_iff, hsize, hword, compactMantissa]
    rcases Nat.lt_or_ge 3 (compactExponent a.toNat) with hlarge | hsmall
    · rw [if_neg (by omega)]
      exact .inr (lt_of_le_of_lt (Nat.div_mul_le_self _ _) a.toNat_lt)
    · exact .inl hsmall

/-- `SetCompact` of `GetCompact`. -/
def roundDown (a : ArithUint256) : ArithUint256 := (setCompact (a.getCompact false)).target

theorem isGreatest_roundDown (a : ArithUint256) :
    IsGreatest {n | Represented n ∧ n ≤ a.toNat} (roundDown a).toNat := by
  have hvalue : (roundDown a).toNat = truncate a.toNat := toNat_setCompact_getCompact a
  refine ⟨⟨⟨_, (setCompact_getCompact_flags a).1, (setCompact_getCompact_flags a).2, rfl⟩, ?_⟩, ?_⟩
  · rw [hvalue]
    exact truncate_le _
  · rintro n ⟨hrepresented, hle⟩
    obtain ⟨m, k, hm, rfl⟩ := hrepresented.exists_eq
    rw [hvalue]
    exact le_truncate_of_le hm hle

theorem roundDown_of_represented {a : ArithUint256} (h : Represented a.toNat) : roundDown a = a :=
  toNat_inj ((isGreatest_roundDown a).unique ⟨⟨h, Nat.le_refl _⟩, fun _ hn => hn.2⟩)

/-- Encoding and decoding set no flag and give the greatest number not above the given one that a compact word stands for. So it makes no difference to do it twice, the order is kept, and what a word stands for comes back unchanged. -/
theorem roundDown_greatest_below :
    (∀ a : ArithUint256, (setCompact (a.getCompact false)).fNegative = false ∧
      (setCompact (a.getCompact false)).fOverflow = false ∧
      IsGreatest {n | Represented n ∧ n ≤ a.toNat} (setCompact (a.getCompact false)).target.toNat) ∧
    (∀ a, roundDown (roundDown a) = roundDown a) ∧ (∀ a b, a ≤ b → roundDown a ≤ roundDown b) ∧
    ∀ nCompact, (setCompact nCompact).fNegative = false → (setCompact nCompact).fOverflow = false →
      (setCompact nCompact).target.toNat ≠ 0 →
      (setCompact ((setCompact nCompact).target.getCompact false)).target =
      (setCompact nCompact).target := by
  refine ⟨fun a =>
    ⟨(setCompact_getCompact_flags a).1, (setCompact_getCompact_flags a).2, isGreatest_roundDown a⟩,
    fun a => ?_, fun a b hle => ?_,
    fun nCompact hnegative hoverflow _ => ?_⟩
  · exact roundDown_of_represented (isGreatest_roundDown a).1.1
  · rw [le_iff] at hle ⊢
    exact (isGreatest_roundDown b).2
      ⟨(isGreatest_roundDown a).1.1, (isGreatest_roundDown a).1.2.trans hle⟩
  · exact roundDown_of_represented ⟨nCompact, hnegative, hoverflow, rfl⟩

end BaseUint

end TscPow
