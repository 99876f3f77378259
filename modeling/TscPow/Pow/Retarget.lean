import TscPow.Pow.NextWork

/-!
# What the difficulty adjustment computes

The intended adjustment scales the old target by the clamped ratio of the measured to the nominal timespan, over the integers, and caps it at the proof-of-work limit. `CalculateNextWorkRequired` multiplies first, in 256 bits. On the main network the limit leaves only sixteen spare bits while the timespan factor needs seventeen, so for the largest targets the product wraps around; at the other end, a target too small to survive the division is replaced by the limit.
-/

namespace TscPow

open BaseUint

namespace Retarget

def timespan : Nat := 20160

def clamp (elapsed : Int) : Nat := (max 5040 (min 80640 elapsed)).toNat

def targetOf (nBits : BitVec 32) : Nat := (setCompact nBits).target.toNat

def limit : Nat := 2 ^ 240 - 1

def exactTarget (old : Nat) (elapsed : Int) : Nat := min limit (old * clamp elapsed / timespan)

theorem clamp_bounds (elapsed : Int) : 5040 ≤ clamp elapsed ∧ clamp elapsed ≤ 80640 := by
  rw [clamp]
  omega

theorem clamp_mono {elapsed elapsed' : Int} (h : elapsed ≤ elapsed') :
    clamp elapsed ≤ clamp elapsed' := by
  rw [clamp, clamp]
  omega

private theorem toNat_powLimit : (uintToArith256 mainParams.powLimit).toNat = limit := by
  rw [toNat_uintToArith256]
  decide +kernel

/-- The target after multiplication in 256 bits, division and the final range check. -/
def computedTarget (old : Nat) (elapsed : Int) : Nat :=
  let quotient := old * clamp elapsed % 2 ^ 256 / timespan
  if quotient = 0 ∨ limit < quotient then limit else quotient

theorem calculateNextWorkRequired_main (pindexLast : BlockIndex) (nFirstBlockTime : Int) :
    ∃ bnNew : ArithUint256, calculateNextWorkRequired pindexLast nFirstBlockTime mainParams =
      .ok (bnNew.getCompact false) ∧
      bnNew.toNat = computedTarget (targetOf pindexLast.header.nBits)
        (pindexLast.getBlockTime - nFirstBlockTime) := by
  have hfactor (elapsed : Int) :
      (BitVec.ofInt 32 (limitAdjustmentStep (2 * 5 * 2016) elapsed)).toNat = clamp elapsed := by
    rw [BitVec.toNat_ofInt, limitAdjustmentStep, clamp, show Int.tdiv (2 * 5 * 2016) 4 = 5040 by decide]
    split <;> split <;> omega
  have hdivisor : (ofUInt64 (BitVec.ofInt 64 (2 * 5 * 2016)) : ArithUint256).toNat = timespan := by
    rw [toNat_ofUInt64 _ (by decide)]
    decide
  have hzero : (ofUInt64 0 : ArithUint256).toNat = 0 := by
    rw [toNat_ofUInt64 _ (by decide)]
    rfl
  obtain ⟨quotient, hdiv, hquotient⟩ := toNat_div
    ((setCompact pindexLast.header.nBits).target.mulU32
      (BitVec.ofInt 32 (limitAdjustmentStep (2 * 5 * 2016) (pindexLast.getBlockTime - nFirstBlockTime))))
    (ofUInt64 (BitVec.ofInt 64 (2 * 5 * 2016))) (by rw [hdivisor]; decide)
  rw [toNat_mulU32, hfactor, hdivisor] at hquotient
  refine ⟨if quotient ≤ ofUInt64 0 ∨ uintToArith256 mainParams.powLimit < quotient then
    uintToArith256 mainParams.powLimit else quotient, ?_, ?_⟩
  · rw [calculateNextWorkRequired, if_neg (by decide)]
    simp only [show mainParams.nPowTargetTimespan = 2 * 5 * 2016 from rfl, hdiv]
  · have hcond : (quotient ≤ ofUInt64 0 ∨ uintToArith256 mainParams.powLimit < quotient) ↔
        quotient.toNat = 0 ∨ limit < quotient.toNat := by
      rw [le_iff, lt_iff, hzero, toNat_powLimit, Nat.le_zero]
    rw [computedTarget, targetOf, ← hquotient]
    by_cases hout : quotient.toNat = 0 ∨ limit < quotient.toNat
    · rw [if_pos (hcond.mpr hout), if_pos hout, toNat_powLimit]
    · rw [if_neg (mt hcond.mp hout), if_neg hout]

/-! ### The range of targets -/

theorem targetOf_bounds {hash : Uint256} {nBits : BitVec 32}
    (hcheck : checkProofOfWork hash nBits mainParams = true) :
    0 < targetOf nBits ∧ targetOf nBits ≤ limit := by
  rw [checkProofOfWork, Bool.and_eq_true] at hcheck
  have hrange := hcheck.1
  simp only [checkTargetRange, Bool.not_eq_true', Bool.or_eq_false_iff, decide_eq_false_iff_not, lt_iff,
    toNat_powLimit, Nat.not_lt] at hrange
  obtain ⟨⟨⟨-, hzero⟩, -⟩, hle⟩ := hrange
  refine ⟨Nat.pos_of_ne_zero fun h => ?_, hle⟩
  rw [(equalTo_zero_iff _).mpr h] at hzero
  cases hzero

theorem dvd_targetOf {nBits : BitVec 32} (hlarge : 2 ^ 239 ≤ targetOf nBits) :
    2 ^ 224 ∣ targetOf nBits := by
  have hword : nBits.toNat % 2 ^ 23 < 2 ^ 23 := Nat.mod_lt _ (by decide)
  rw [targetOf, toNat_setCompact] at hlarge ⊢
  generalize nBits.toNat % 2 ^ 23 = word at *
  generalize nBits.toNat / 2 ^ 24 = nSize at *
  split at hlarge
  · have := Nat.div_le_self word (2 ^ (8 * (3 - nSize)))
    omega
  · rename_i hgt
    rw [if_neg hgt]
    rcases Nat.lt_or_ge nSize 31 with hlt | hge
    · have hsmall : word * 2 ^ (8 * (nSize - 3)) < 2 ^ 23 * 2 ^ 216 :=
        Nat.mul_lt_mul_of_lt_of_le hword (Nat.pow_le_pow_right (by decide) (by omega)) (by positivity)
      have := Nat.mod_le (word * 2 ^ (8 * (nSize - 3))) (2 ^ 256)
      omega
    · exact (Nat.dvd_mod_iff (pow_dvd_pow 2 (by decide))).mpr
        ((pow_dvd_pow 2 (show 224 ≤ 8 * (nSize - 3) by omega)).mul_left _)

/-! ### Exactness -/

private theorem truncate_limit : truncate limit = 65535 * 2 ^ 224 := by
  have hsize : limit.size = 240 :=
    le_antisymm (Nat.size_le.mpr (by decide)) (Nat.lt_size.mpr (by decide))
  have hexp : compactExponent limit = 31 := by
    rw [compactExponent, if_neg (by decide), hsize]
  rw [truncate, hexp]
  decide

theorem wrapped_quotient {old : Nat} {elapsed : Int} (hle : old ≤ limit) (hdvd : 2 ^ 224 ∣ old)
    (hwrap : 2 ^ 256 ≤ old * clamp elapsed) :
    0 < old * clamp elapsed % 2 ^ 256 / timespan ∧
      old * clamp elapsed % 2 ^ 256 / timespan < 65535 * 2 ^ 224 := by
  obtain ⟨-, hclamp⟩ := clamp_bounds elapsed
  generalize clamp elapsed = factor at *
  obtain ⟨m, rfl⟩ := hdvd
  have hm : m ≤ 65535 := by
    rw [limit] at hle
    omega
  have hprod : m * factor ≤ 65535 * 80640 := Nat.mul_le_mul hm hclamp
  have hge : 2 ^ 32 ≤ m * factor := by
    rw [Nat.mul_assoc] at hwrap
    omega
  -- a factor of `2 ^ 32` is a power of two, and none lies between `2 ^ 16` and four timespans
  have hne : m * factor ≠ 2 ^ 32 := by
    intro heq
    obtain ⟨k, -, hk⟩ := (Nat.dvd_prime_pow Nat.prime_two).mp (Dvd.intro_left m heq)
    have hk16 : k ≤ 16 := by
      by_contra hgt
      have := Nat.pow_le_pow_right (show 0 < 2 by decide) (show 17 ≤ k by omega)
      omega
    have := Nat.pow_le_pow_right (show 0 < 2 by decide) hk16
    have hfactor : factor ≤ 65536 := by omega
    have := Nat.mul_le_mul hm hfactor
    omega
  have hmod : 2 ^ 224 * m * factor % 2 ^ 256 = (m * factor - 2 ^ 32) * 2 ^ 224 := by
    rw [Nat.mul_assoc]
    omega
  rw [hmod, timespan]
  omega

theorem computedTarget_eq_exactTarget {old : Nat} {elapsed : Int} (hkept : timespan ≤ old * clamp elapsed)
    (hfit : old * clamp elapsed < 2 ^ 256) : computedTarget old elapsed = exactTarget old elapsed := by
  have hpos : 0 < old * clamp elapsed / timespan := Nat.div_pos hkept (by decide)
  rw [computedTarget, exactTarget, Nat.mod_eq_of_lt hfit]
  rcases Nat.lt_or_ge limit (old * clamp elapsed / timespan) with hgt | hle
  · rw [if_pos (Or.inr hgt), min_eq_left hgt.le]
  · rw [if_neg (by omega), min_eq_right hle]

theorem truncate_computedTarget_ne {old : Nat} (elapsed : Int) (hle : old ≤ limit)
    (hdvd : 2 ^ 239 ≤ old → 2 ^ 224 ∣ old)
    (hout : old * clamp elapsed < timespan ∨ 2 ^ 256 ≤ old * clamp elapsed) :
    truncate (computedTarget old elapsed) ≠ truncate (exactTarget old elapsed) := by
  rcases hout with hlost | hwrap
  · have hquotient : old * clamp elapsed / timespan = 0 := Nat.div_eq_of_lt hlost
    have hcomputed : computedTarget old elapsed = limit := by
      rw [timespan] at hlost
      rw [computedTarget, Nat.mod_eq_of_lt (by omega), if_pos (Or.inl hquotient)]
    rw [hcomputed, exactTarget, hquotient, truncate_limit]
    simp [truncate]
  · obtain ⟨-, hclamp⟩ := clamp_bounds elapsed
    have hlarge : 2 ^ 239 ≤ old := by
      by_contra hsmall
      have := Nat.mul_le_mul (Nat.le_of_lt (Nat.lt_of_not_le hsmall)) hclamp
      omega
    obtain ⟨hpos, hlt⟩ := wrapped_quotient hle (hdvd hlarge) hwrap
    have hexact : exactTarget old elapsed = limit := by
      refine min_eq_left ?_
      rw [Nat.le_div_iff_mul_le (by decide)]
      refine le_trans ?_ hwrap
      decide
    have hcomputed : computedTarget old elapsed = old * clamp elapsed % 2 ^ 256 / timespan := by
      rw [computedTarget, if_neg]
      rw [limit]
      omega
    rw [hexact, truncate_limit, hcomputed]
    exact ne_of_lt (lt_of_le_of_lt (truncate_le _) hlt)

def exactBits (pindexLast : BlockIndex) (nFirstBlockTime : Int) : BitVec 32 :=
  (ofNat 8 (exactTarget (targetOf pindexLast.header.nBits)
    (pindexLast.getBlockTime - nFirstBlockTime))).getCompact false

private theorem toNat_exactTarget (old : Nat) (elapsed : Int) :
    (ofNat 8 (exactTarget old elapsed)).toNat = exactTarget old elapsed := by
  refine toNat_ofNat _ (lt_of_le_of_lt (min_le_left _ _) ?_)
  decide

theorem exact_iff_of_check {hash : Uint256} (pindexLast : BlockIndex) (nFirstBlockTime : Int)
    (hcheck : checkProofOfWork hash pindexLast.header.nBits mainParams = true) :
    calculateNextWorkRequired pindexLast nFirstBlockTime mainParams =
      .ok (exactBits pindexLast nFirstBlockTime) ↔
      timespan ≤ targetOf pindexLast.header.nBits * clamp (pindexLast.getBlockTime - nFirstBlockTime) ∧
        targetOf pindexLast.header.nBits * clamp (pindexLast.getBlockTime - nFirstBlockTime) <
          2 ^ 256 := by
  obtain ⟨bnNew, hcalc, hvalue⟩ := calculateNextWorkRequired_main pindexLast nFirstBlockTime
  obtain ⟨-, hle⟩ := targetOf_bounds hcheck
  rw [hcalc, exactBits]
  constructor
  · intro heq
    by_contra hout
    refine truncate_computedTarget_ne (pindexLast.getBlockTime - nFirstBlockTime) hle dvd_targetOf
      (by omega) ?_
    rw [← hvalue, ← toNat_setCompact_getCompact, Except.ok.inj heq, toNat_setCompact_getCompact,
      toNat_exactTarget]
  · rintro ⟨hkept, hfit⟩
    rw [getCompact_congr
      (hvalue.trans
        ((computedTarget_eq_exactTarget hkept hfit).trans (toNat_exactTarget _ _).symm))]

theorem exactTarget_mono (old : Nat) {elapsed elapsed' : Int} (h : elapsed ≤ elapsed') :
    exactTarget old elapsed ≤ exactTarget old elapsed' :=
  min_le_min_left _ (Nat.div_le_div_right (Nat.mul_le_mul_left _ (clamp_mono h)))

/-- The adjustment of a given old target does what it should for all block times: it is exact, and a longer timespan never yields a smaller target. -/
structure Sound (nBits : BitVec 32) : Prop where
  exact : ∀ (pindexLast : BlockIndex) (nFirstBlockTime : BitVec 32), pindexLast.header.nBits = nBits →
    calculateNextWorkRequired pindexLast nFirstBlockTime.toNat mainParams =
      .ok (exactBits pindexLast nFirstBlockTime.toNat)
  mono : ∀ (last last' : BlockIndex) (first first' : BitVec 32) (new new' : BitVec 32),
    last.header.nBits = nBits → last'.header.nBits = nBits →
    last.getBlockTime - first.toNat ≤ last'.getBlockTime - first'.toNat →
    calculateNextWorkRequired last first.toNat mainParams = .ok new →
    calculateNextWorkRequired last' first'.toNat mainParams = .ok new' → targetOf new ≤ targetOf new'

private theorem targetOf_exactBits (pindexLast : BlockIndex) (nFirstBlockTime : Int) :
    targetOf (exactBits pindexLast nFirstBlockTime) =
      truncate (exactTarget (targetOf pindexLast.header.nBits)
        (pindexLast.getBlockTime - nFirstBlockTime)) := by
  rw [targetOf, exactBits, toNat_setCompact_getCompact, toNat_exactTarget]

/-- For every old target that `CheckProofOfWork` accepts, an adjustment is exact just when the target survives the division and the product with the timespan fits in 256 bits; hence the adjustments of that target are sound for all block times just when it is at least four and its product with four timespans fits. -/
theorem calculateNextWorkRequired_exact_iff (nBits : BitVec 32)
    (hrange : ∃ hash, checkProofOfWork hash nBits mainParams = true) :
    (∀ (pindexLast : BlockIndex) (nFirstBlockTime : BitVec 32), pindexLast.header.nBits = nBits →
      (calculateNextWorkRequired pindexLast nFirstBlockTime.toNat mainParams =
        .ok (exactBits pindexLast nFirstBlockTime.toNat) ↔
        timespan ≤ targetOf nBits * clamp (pindexLast.getBlockTime - nFirstBlockTime.toNat) ∧
          targetOf nBits * clamp (pindexLast.getBlockTime - nFirstBlockTime.toNat) < 2 ^ 256)) ∧
    (Sound nBits ↔ 4 ≤ targetOf nBits ∧ targetOf nBits * (4 * timespan) < 2 ^ 256) := by
  obtain ⟨hash, hcheck⟩ := hrange
  have hexact (pindexLast : BlockIndex) (nFirstBlockTime : BitVec 32)
    (hbits : pindexLast.header.nBits = nBits) :=
    exact_iff_of_check pindexLast nFirstBlockTime.toNat (hbits ▸ hcheck)
  refine ⟨fun pindexLast nFirstBlockTime hbits => hbits ▸ hexact pindexLast nFirstBlockTime hbits, ?_, ?_⟩
  · intro hsound
    have hspan (nTime : BitVec 32) :=
      (hexact ⟨{ (default : BlockHeader) with nTime := nTime, nBits := nBits }, []⟩ 0 rfl).mp
        (hsound.exact _ _ rfl)
    have hshort := (hspan 0).1
    have hlong := (hspan 80640).2
    simp only [BlockIndex.getBlockTime, BlockHeader.getBlockTime] at hshort hlong
    rw [show clamp (((0 : BitVec 32).toNat : Int) - (0 : BitVec 32).toNat) = 5040 by decide,
      timespan] at hshort
    rw [show clamp (((80640 : BitVec 32).toNat : Int) - (0 : BitVec 32).toNat) = 80640 by decide] at hlong
    rw [timespan]
    omega
  · rintro ⟨hfour, hfit⟩
    have hall (pindexLast : BlockIndex) (nFirstBlockTime : BitVec 32)
      (hbits : pindexLast.header.nBits = nBits) :
        calculateNextWorkRequired pindexLast nFirstBlockTime.toNat mainParams =
          .ok (exactBits pindexLast nFirstBlockTime.toNat) := by
      obtain ⟨hmin, hmax⟩ := clamp_bounds (pindexLast.getBlockTime - nFirstBlockTime.toNat)
      refine (hexact pindexLast nFirstBlockTime hbits).mpr ⟨?_, ?_⟩
      · rw [hbits]
        exact Nat.mul_le_mul hfour hmin
      · rw [hbits]
        exact lt_of_le_of_lt (Nat.mul_le_mul_left _ hmax) hfit
    refine ⟨hall, ?_⟩
    intro last last' first first' new new' hbits hbits' hspan hnew hnew'
    rw [hall last first hbits] at hnew
    rw [hall last' first' hbits'] at hnew'
    rw [← Except.ok.inj hnew, ← Except.ok.inj hnew', targetOf_exactBits, targetOf_exactBits, hbits,
      hbits']
    exact truncate_le_truncate (exactTarget_mono _ hspan)

/-- A target in the middle of the range, `0x1d00ffff`, is adjusted exactly and monotonically. -/
theorem calculateNextWorkRequired_exact_sound : Sound 0x1d00ffff :=
  (calculateNextWorkRequired_exact_iff 0x1d00ffff ⟨.ofNat 0, by decide +kernel⟩).2.mpr (by decide +kernel)

def getNextWorkTest (nTime : BitVec 32) : BlockIndex :=
  ⟨{ (default : BlockHeader) with nTime := nTime, nBits := 0x1f00ffff }, []⟩

/-- At the proof-of-work limit, a timespan of more than four times the nominal one should leave the target at the limit, as the unit test `get_next_work` expects; the product wraps around and the target becomes smaller, also smaller than after a timespan of exactly the nominal length. -/
theorem calculateNextWorkRequired_wraps :
    checkProofOfWork (.ofNat 0) 0x1f00ffff mainParams = true ∧
      exactBits (getNextWorkTest 1262152739) 1261130161 = 0x1f00ffff ∧
      calculateNextWorkRequired (getNextWorkTest 1262152739) 1261130161 mainParams = .ok 0x1f00bfc7 ∧
      calculateNextWorkRequired (getNextWorkTest 1261150321) 1261130161 mainParams = .ok 0x1f00ffff ∧
      targetOf 0x1f00bfc7 < targetOf 0x1f00ffff := by
  decide +kernel

end Retarget

end TscPow
