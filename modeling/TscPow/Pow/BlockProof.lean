import TscPow.Chain.Accept

/-!
# The work of a block

`GetBlockProof` (`chain.cpp`) on the words of `arith_uint256`. The quotient of `2 ^ 256` by the target plus one is wanted, and `2 ^ 256` has no room in the words; the complement of the target, divided by the target plus one, is one less. The rest of the development has this number as `getBlockProof`.
-/

namespace TscPow

namespace BaseUint

variable {WIDTH : Nat}

def complement (a : BaseUint WIDTH) : BaseUint WIDTH where
  pn := a.pn.map fun word => ~~~word
  length_pn := by rw [List.length_map, a.length_pn]

theorem toNat_complement (a : BaseUint WIDTH) : a.complement.toNat = 2 ^ (32 * WIDTH) - 1 - a.toNat := by
  have h := Limbs.value_complement a.pn
  rw [a.length_pn] at h
  change Limbs.value (a.pn.map fun word => ~~~word) = 2 ^ (32 * WIDTH) - 1 - Limbs.value a.pn
  omega

def add (a b : BaseUint WIDTH) : BaseUint WIDTH where
  pn := Limbs.add a.pn b.pn
  length_pn := by rw [Limbs.length_add _ _ (a.length_pn.trans b.length_pn.symm), a.length_pn]

theorem toNat_add (a b : BaseUint WIDTH) : (a.add b).toNat = (a.toNat + b.toNat) % 2 ^ (32 * WIDTH) := by
  rw [toNat, add, Limbs.value_add (by decide) _ _ (a.length_pn.trans b.length_pn.symm), a.length_pn,
    toNat, toNat]

end BaseUint

open BaseUint

/-- `GetBlockProof`; `none` is the exception of a division by zero. -/
def getBlockProofWords (nBits : BitVec 32) : Option ArithUint256 :=
  let decoded := setCompact nBits
  let bnTarget := decoded.target
  if decoded.fNegative || decoded.fOverflow || bnTarget.equalTo 0 then some (ofUInt64 0)
  else (bnTarget.complement.div (bnTarget.add (ofUInt64 1))).map fun quotient => quotient.add (ofUInt64 1)

/-- The word stands for a target: no flag is set, and the number is not zero. -/
structure ValidTarget (nBits : BitVec 32) : Prop where
  fNegative : (setCompact nBits).fNegative = false
  fOverflow : (setCompact nBits).fOverflow = false
  nonzero : (setCompact nBits).target.toNat ≠ 0

theorem ValidTarget.lt {nBits : BitVec 32} (h : ValidTarget nBits) :
    (setCompact nBits).target.toNat + 1 < 2 ^ 256 := by
  obtain ⟨m, k, hm, heq⟩ := Represented.exists_eq ⟨nBits, h.fNegative, h.fOverflow, rfl⟩
  have hlt : (setCompact nBits).target.toNat < 2 ^ 256 := toNat_lt _
  -- the number with all bits set is no mantissa of 23 bits times a power of 256
  have hne : (setCompact nBits).target.toNat ≠ 2 ^ 256 - 1 := by
    rw [heq]
    intro hall
    rcases Nat.eq_zero_or_pos k with rfl | hk
    · omega
    · have heven : 2 ∣ m * 2 ^ (8 * k) := Dvd.dvd.mul_left (dvd_pow_self 2 (by omega)) m
      omega
  omega

theorem div_add_one_eq {t : Nat} (ht : t + 1 ≤ 2 ^ 256) :
    (2 ^ 256 - 1 - t) / (t + 1) + 1 = 2 ^ 256 / (t + 1) := by
  rw [← Nat.add_div_right _ (Nat.succ_pos t)]
  congr 1
  omega

theorem ValidTarget.getBlockProofWords_eq {nBits : BitVec 32} (h : ValidTarget nBits) :
    ∃ work, getBlockProofWords nBits = some work ∧
      work.toNat = 2 ^ 256 / ((setCompact nBits).target.toNat + 1) := by
  have hlt := h.lt
  have hpos := h.nonzero
  have hone : (ofUInt64 1 : ArithUint256).toNat = 1 := toNat_ofUInt64 _ (by decide)
  have hnext :
      ((setCompact nBits).target.add (ofUInt64 1)).toNat = (setCompact nBits).target.toNat + 1 := by
    rw [toNat_add, hone, Nat.mod_eq_of_lt hlt]
  have hzero : (setCompact nBits).target.equalTo 0 = false := by
    rw [← Bool.not_eq_true, equalTo_zero_iff]
    exact h.nonzero
  obtain ⟨quotient, hdiv, hquotient⟩ :=
    toNat_div (setCompact nBits).target.complement ((setCompact nBits).target.add (ofUInt64 1))
    (by rw [hnext]; exact Nat.succ_ne_zero _)
  rw [toNat_complement, hnext] at hquotient
  have hwork := div_add_one_eq hlt.le
  have hbound : 2 ^ 256 / ((setCompact nBits).target.toNat + 1) < 2 ^ 256 :=
    Nat.div_lt_self (by decide) (by omega)
  refine ⟨quotient.add (ofUInt64 1), ?_, ?_⟩
  · simp only [getBlockProofWords, h.fNegative, h.fOverflow, hzero, Bool.or_self,
      Bool.false_eq_true, if_false, hdiv, Option.map_some]
  · rw [toNat_add, hone, hquotient, hwork, Nat.mod_eq_of_lt hbound]

theorem toNat_getBlockProofWords (nBits : BitVec 32) :
    (getBlockProofWords nBits).map toNat = some (getBlockProof nBits) := by
  by_cases hvalid : ValidTarget nBits
  · obtain ⟨work, hwork, hvalue⟩ := hvalid.getBlockProofWords_eq
    have hzero : (setCompact nBits).target.toNat == 0 ↔ False := by simp [hvalid.nonzero]
    rw [hwork, Option.map_some, hvalue, getBlockProof, ← div_add_one_eq hvalid.lt.le]
    simp only [hvalid.fNegative, hvalid.fOverflow, hzero, Bool.or_self, Bool.false_or, if_false]
  · have hinvalid :
        ((setCompact nBits).fNegative || (setCompact nBits).fOverflow ||
          (setCompact nBits).target.toNat == 0) = true := by
      by_contra hall
      simp only [Bool.or_eq_true, not_or, Bool.not_eq_true, beq_eq_false_iff_ne] at hall
      exact hvalid ⟨hall.1.1, hall.1.2, hall.2⟩
    have hwords : (setCompact nBits).target.equalTo 0 = ((setCompact nBits).target.toNat == 0) := by
      rw [Bool.eq_iff_iff, equalTo_zero_iff, beq_iff_eq]
    have hzero : (ofUInt64 0 : ArithUint256).toNat = 0 := toNat_ofUInt64 _ (by decide)
    simp only [getBlockProofWords, getBlockProof, hwords, hinvalid, if_true, Option.map_some, hzero]

/-- Division gives the quotient, of which the block proof makes the quotient of `2 ^ 256`. It is at least one, and it does not increase with the target. -/
theorem division_and_work_exact :
    (∀ a b : ArithUint256, b.toNat ≠ 0 → ∃ q r, a.div b = some q ∧ a.toNat = q.toNat * b.toNat + r ∧
      r < b.toNat) ∧
    (∀ nBits, ValidTarget nBits →
      ∃ work, getBlockProofWords nBits = some work ∧
        work.toNat = 2 ^ 256 / ((setCompact nBits).target.toNat + 1) ∧ 1 ≤ work.toNat) ∧
    ∀ nBits nBits' work work', ValidTarget nBits → ValidTarget nBits' →
      (setCompact nBits).target ≤ (setCompact nBits').target →
      getBlockProofWords nBits = some work → getBlockProofWords nBits' = some work' → work' ≤ work := by
  refine ⟨fun a b hb => ?_, fun nBits hvalid => ?_,
    fun nBits nBits' work work' hvalid hvalid' hle hwork hwork' => ?_⟩
  · obtain ⟨q, hdiv, hq⟩ := toNat_div a b hb
    refine ⟨q, a.toNat % b.toNat, hdiv, ?_, Nat.mod_lt _ (Nat.pos_of_ne_zero hb)⟩
    rw [hq, Nat.mul_comm]
    exact (Nat.div_add_mod _ _).symm
  · obtain ⟨work, hwork, hvalue⟩ := hvalid.getBlockProofWords_eq
    refine ⟨work, hwork, hvalue, ?_⟩
    rw [hvalue]
    exact Nat.div_pos hvalid.lt.le (Nat.succ_pos _)
  · obtain ⟨w, hw, hvalue⟩ := hvalid.getBlockProofWords_eq
    obtain ⟨w', hw', hvalue'⟩ := hvalid'.getBlockProofWords_eq
    obtain rfl := Option.some.inj (hw.symm.trans hwork)
    obtain rfl := Option.some.inj (hw'.symm.trans hwork')
    rw [le_iff] at hle ⊢
    rw [hvalue, hvalue']
    exact Nat.div_le_div_left (Nat.succ_le_succ hle) (Nat.succ_pos _)

/-- The first target that the main network allows. -/
example : ValidTarget 0x1f00ffff := ⟨by decide +kernel, by decide +kernel, by decide +kernel⟩

end TscPow
