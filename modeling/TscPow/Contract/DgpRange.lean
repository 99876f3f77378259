import TscPow.Contract.DgpStorage

/-!
# Governance values and their bounds

A governance contract returns words of 256 bits. `TscDGP` narrows them first, to 64 bits and on to 32 bits for the block size and for the numbers of a gas schedule, and holds what is left against the bounds. A value that is too wide is out of bounds; it is taken for another one when its low bits happen to be within them.
-/

namespace TscPow

namespace TscDGP

/-- The contract has this word for its getter, in the way in which `d` reads it. -/
def Supplies (d : TscDGP) (getter : List Byte) (template : Address) (value : U256) : Prop :=
  if d.dgpevm then d.callContract template getter = .ok value.toBytes
  else (d.storage template (d.sha3 0)).map Prod.snd = if value = 0 then none else some value

/-- The limits of `checkLimitSchedule` for a number, from its default. -/
def scheduleLimits (default : BitVec 32) : Nat × Nat :=
  (if default.toNat / 100 > 0 then default.toNat / 100 else 1, if default.toNat * 1000 > 0 then
    default.toNat * 1000 else 1000)

/-- The 39 words are all within their limits, at full width. -/
def WithinLimits (words : List U256) : Prop :=
  words.length = 39 ∧ ∀ p ∈ EIP158Schedule.zip words, (scheduleLimits p.1).1 ≤ p.2.toNat ∧
    p.2.toNat ≤ (scheduleLimits p.1).2

instance (words : List U256) : Decidable (WithinLimits words) := by
  unfold WithinLimits
  infer_instance

/-- The schedule that is due for the words of a contract. -/
def scheduleInBounds (words : List U256) : EVMSchedule :=
  if WithinLimits words then words.map fun word => word.setWidth 32 else EIP158Schedule

variable {d : TscDGP} {h : Nat} {contract template : Address} {getter : List Byte} {value : U256}
  {words : List U256}

/-! ### Single numbers -/

theorem Supplies.parseOneUint64_eq (hsupplies : d.Supplies getter template value) :
    d.parseOneUint64 d.callContract template getter = .ok (value.toNat % 2 ^ 64) := by
  rw [Supplies] at hsupplies
  rw [parseOneUint64]
  split at hsupplies
  · rename_i hevm
    rw [if_pos hevm, hsupplies]
    change Except.ok (if value.toBytes.length = 32 then (U256.ofBytes value.toBytes).toUint64 else 0) = _
    rw [if_pos (U256.length_toBytes value), U256.ofBytes_toBytes, U256.toUint64, BitVec.toNat_setWidth]
  · rename_i hevm
    rw [if_neg hevm]
    cases hstored : d.storage template (d.sha3 0) with
    | none =>
      rw [hstored] at hsupplies
      split at hsupplies
      · rename_i hzero
        rw [hzero]
        rfl
      · cases hsupplies
    | some entry =>
      rw [hstored] at hsupplies
      split at hsupplies
      · cases hsupplies
      · rw [Option.map_some, Option.getD_some, U256.toUint64, Option.some.inj hsupplies,
          BitVec.toNat_setWidth]

theorem getUint64FromDGP_of_supplies (hstorages : d.initStorages contract h = .ok (some template))
    (hsupplies : d.Supplies getter template value) :
    d.getUint64FromDGP h contract getter = .ok (value.toNat % 2 ^ 64) := by
  rw [getUint64FromDGP, uint64FromDGP, hstorages, ← hsupplies.parseOneUint64_eq]
  rfl

/-- A value held against its bounds after narrowing comes out as it does before, unless it is too wide and its low bits are another value within the bounds. -/
theorem inBounds_mod_eq_iff {default min max modulus value : Nat} (hmax : max < modulus) :
    inBounds default min max (value % modulus) = inBounds default min max value ↔
      (modulus ≤ value → inBounds default min max (value % modulus) = default) := by
  by_cases hwide : modulus ≤ value
  · have hout : inBounds default min max value = default := if_neg fun hin => absurd hin.1 (by omega)
    rw [hout, forall_prop_of_true hwide]
  · rw [Nat.mod_eq_of_lt (not_le.mp hwide)]
    simp [hwide]

theorem getter_eq_iff {default min max modulus value : Nat} {result : Except Fault Nat}
    (hmax : max < modulus) (hresult : result = .ok (inBounds default min max (value % modulus))) :
    result = .ok (inBounds default min max value) ↔
      (modulus ≤ value → inBounds default min max (value % modulus) = default) := by
  rw [hresult, Except.ok.injEq]
  exact inBounds_mod_eq_iff hmax

theorem getBlockSize_of_supplies (hstorages : d.initStorages BlockSizeDGP h = .ok (some template))
    (hsupplies : d.Supplies [0x92, 0xac, 0x3c, 0x62] template value) :
    d.getBlockSize h =
      .ok (inBounds DEFAULT_BLOCK_SIZE_DGP MIN_BLOCK_SIZE_DGP MAX_BLOCK_SIZE_DGP
        (value.toNat % 2 ^ 32)) := by
  have hmod : value.toNat % 2 ^ 64 % 2 ^ 32 = value.toNat % 2 ^ 32 :=
    Nat.mod_mod_of_dvd _ (Nat.pow_dvd_pow 2 (by decide))
  rw [getBlockSize, getUint64FromDGP_of_supplies hstorages hsupplies, ← hmod]
  rfl

theorem getMinGasPrice_of_supplies (hstorages : d.initStorages GasPriceDGP h = .ok (some template))
    (hsupplies : d.Supplies [0x3f, 0xb5, 0x88, 0x19] template value) :
    d.getMinGasPrice h =
      .ok (inBounds DEFAULT_MIN_GAS_PRICE_DGP MIN_MIN_GAS_PRICE_DGP MAX_MIN_GAS_PRICE_DGP
        (value.toNat % 2 ^ 64)) := by
  rw [getMinGasPrice, getUint64FromDGP_of_supplies hstorages hsupplies]
  rfl

theorem getBlockGasLimit_of_supplies (hstorages : d.initStorages BlockGasLimitDGP h = .ok (some template))
    (hsupplies : d.Supplies [0x2c, 0xc8, 0x37, 0x7d] template value) :
    d.getBlockGasLimit h =
      .ok (inBounds DEFAULT_BLOCK_GAS_LIMIT_DGP MIN_BLOCK_GAS_LIMIT_DGP MAX_BLOCK_GAS_LIMIT_DGP
        (value.toNat % 2 ^ 64)) := by
  have hvalue := getUint64FromDGP_of_supplies hstorages hsupplies
  rw [getUint64FromDGP] at hvalue
  rw [getBlockGasLimit, blockGasLimitBy, hvalue]
  rfl

/-! ### The schedule -/

theorem scheduleLimits_small : ∀ default ∈ EIP158Schedule, default.toNat ≤ 53000 := by
  simp [EIP158Schedule]

theorem scheduleLimits_lt {default : BitVec 32} (hdefault : default ∈ EIP158Schedule) :
    (scheduleLimits default).2 < 2 ^ 32 := by
  have hsmall := scheduleLimits_small default hdefault
  change (if default.toNat * 1000 > 0 then default.toNat * 1000 else 1000) < 2 ^ 32
  split <;> omega

theorem scheduleLimits_eq {default : BitVec 32} (hdefault : default ∈ EIP158Schedule) :
    (if default / 100 > 0 then default / 100 else 1).toNat = (scheduleLimits default).1 ∧
      (if default * 1000 > 0 then default * 1000 else 1 * 1000).toNat = (scheduleLimits default).2 := by
  have hsmall := scheduleLimits_small default hdefault
  have hmin : (default / 100).toNat = default.toNat / 100 := BitVec.toNat_udiv
  have hmax : (default * 1000).toNat = default.toNat * 1000 := by
    change default.toNat * 1000 % 2 ^ 32 = _
    exact Nat.mod_eq_of_lt (by omega)
  rw [apply_ite BitVec.toNat, apply_ite BitVec.toNat, hmin, hmax]
  simp only [gt_iff_lt, BitVec.lt_def, hmin, hmax, scheduleLimits]
  exact ⟨rfl, rfl⟩

theorem checkLimitSchedule_iff {values : EVMSchedule} :
    checkLimitSchedule EIP158Schedule values = true ↔ values.length = 39 ∧
      ∀ p ∈ EIP158Schedule.zip values, (scheduleLimits p.1).1 ≤ p.2.toNat ∧
        p.2.toNat ≤ (scheduleLimits p.1).2 := by
  have hlength : (EIP158Schedule.length == 39) = true := by decide
  rw [checkLimitSchedule, hlength, Bool.true_and, Bool.and_eq_true_iff, beq_iff_eq, List.all_eq_true]
  refine and_congr_right fun _ => forall_congr' fun p => forall_congr' fun hp => ?_
  obtain ⟨hmin, hmax⟩ := scheduleLimits_eq (List.of_mem_zip hp).1
  simp only [Bool.not_eq_true', Bool.or_eq_false_iff, decide_eq_false_iff_not, gt_iff_lt,
    BitVec.not_lt, BitVec.le_def]
  rw [← hmin, ← hmax, and_comm]

theorem withinLimits_iff : WithinLimits words ↔
    (∀ word ∈ words, word.toNat < 2 ^ 32) ∧ checkLimitSchedule EIP158Schedule
    (words.map fun word => word.setWidth 32) = true := by
  have hnarrow : ∀ {word : U256}, word.toNat < 2 ^ 32 → (word.setWidth 32).toNat = word.toNat := by
    intro word hword
    rw [BitVec.toNat_setWidth, Nat.mod_eq_of_lt hword]
  rw [WithinLimits, checkLimitSchedule_iff, List.length_map, List.zip_map_right]
  simp only [List.forall_mem_map, Prod.map_fst, Prod.map_snd, id_eq]
  constructor
  · rintro ⟨hlength, hlimits⟩
    have hfits : ∀ word ∈ words, word.toNat < 2 ^ 32 := by
      intro word hword
      obtain ⟨i, hi, rfl⟩ := List.getElem_of_mem hword
      have hzip : i < (EIP158Schedule.zip words).length := by
        rw [List.length_zip]
        exact lt_min (hi.trans_eq hlength) hi
      have hmem := List.getElem_mem hzip
      have hle := (hlimits _ hmem).2
      rw [List.getElem_zip] at hmem hle
      exact hle.trans_lt (scheduleLimits_lt (List.of_mem_zip hmem).1)
    refine ⟨hfits, hlength, fun p hp => ?_⟩
    rw [hnarrow (hfits _ (List.of_mem_zip hp).2)]
    exact hlimits p hp
  · rintro ⟨hfits, hlength, hlimits⟩
    refine ⟨hlength, fun p hp => ?_⟩
    rw [← hnarrow (hfits _ (List.of_mem_zip hp).2)]
    exact hlimits p hp

theorem toNat_wide_lt (value : BitVec 32) : (value.setWidth 256).toNat < 2 ^ 32 := by
  rw [BitVec.toNat_setWidth]
  exact (Nat.mod_le _ _).trans_lt value.isLt

theorem scheduleInBounds_wide (values : EVMSchedule) :
    scheduleInBounds (values.map fun value => value.setWidth 256) =
      if checkLimitSchedule EIP158Schedule values then values else EIP158Schedule := by
  have hfits : ∀ word ∈ (values.map fun value => value.setWidth 256 : List U256),
      word.toNat < 2 ^ 32 := by
    simp only [List.forall_mem_map]
    intro value _
    exact toNat_wide_lt value
  have hiff := @withinLimits_iff (values.map fun value => value.setWidth 256)
  rw [narrow_wide, and_iff_right hfits] at hiff
  rw [scheduleInBounds, narrow_wide]
  simp only [hiff]

theorem createEVMSchedule_eq_iff (hevm : d.dgpevm = true)
    (hreturned : d.callContract template getter = .ok (words.flatMap U256.toBytes)) :
    d.createEVMSchedule template getter = .ok (scheduleInBounds words) ↔
      (∀ word ∈ words, word.toNat < 2 ^ 32) ∨
      checkLimitSchedule EIP158Schedule (words.map fun word => word.setWidth 32) = false := by
  rw [createEVMSchedule, if_pos hevm, hreturned]
  change Except.ok
    (if checkLimitSchedule EIP158Schedule
      (parseDataScheduleContract (words.flatMap U256.toBytes)) then _ else _) = _ ↔ _
  rw [parseDataScheduleContract_words, scheduleInBounds, Except.ok.injEq]
  by_cases hfits : ∀ word ∈ words, word.toNat < 2 ^ 32
  · refine iff_of_true ?_ (.inl hfits)
    simp only [withinLimits_iff, and_iff_right hfits]
  · rw [if_neg fun hwithin => hfits (withinLimits_iff.mp hwithin).1, or_iff_right hfits]
    exact ite_checkLimitSchedule_eq_iff

/-- The block size, the gas price and the gas limit are the value of the contract in force if it is within the bounds and the default otherwise, exactly as long as it is not too wide with low bits that are another value within the bounds: too wide for 32 bits for the block size and for 64 bits for the others. The same holds of the schedule made from the words of a contract; one that is read from storage is the default schedule, also when the numbers in storage are within the limits. -/
theorem governance_in_bounds_iff (d : TscDGP) (h : Nat) :
    (∀ template value, d.initStorages BlockSizeDGP h = .ok (some template) →
      d.Supplies [0x92, 0xac, 0x3c, 0x62] template value →
      (d.getBlockSize h =
        .ok (inBounds DEFAULT_BLOCK_SIZE_DGP MIN_BLOCK_SIZE_DGP MAX_BLOCK_SIZE_DGP value.toNat) ↔
        (2 ^ 32 ≤ value.toNat →
          inBounds DEFAULT_BLOCK_SIZE_DGP MIN_BLOCK_SIZE_DGP MAX_BLOCK_SIZE_DGP
            (value.toNat % 2 ^ 32) = DEFAULT_BLOCK_SIZE_DGP))) ∧
    (∀ template value, d.initStorages GasPriceDGP h = .ok (some template) →
      d.Supplies [0x3f, 0xb5, 0x88, 0x19] template value →
      (d.getMinGasPrice h = .ok
        (inBounds DEFAULT_MIN_GAS_PRICE_DGP MIN_MIN_GAS_PRICE_DGP MAX_MIN_GAS_PRICE_DGP
          value.toNat) ↔
        (2 ^ 64 ≤ value.toNat → inBounds DEFAULT_MIN_GAS_PRICE_DGP MIN_MIN_GAS_PRICE_DGP
          MAX_MIN_GAS_PRICE_DGP (value.toNat % 2 ^ 64) = DEFAULT_MIN_GAS_PRICE_DGP))) ∧
    (∀ template value, d.initStorages BlockGasLimitDGP h = .ok (some template) →
      d.Supplies [0x2c, 0xc8, 0x37, 0x7d] template value →
      (d.getBlockGasLimit h =
        .ok (inBounds DEFAULT_BLOCK_GAS_LIMIT_DGP MIN_BLOCK_GAS_LIMIT_DGP MAX_BLOCK_GAS_LIMIT_DGP
          value.toNat) ↔
        (2 ^ 64 ≤ value.toNat → inBounds DEFAULT_BLOCK_GAS_LIMIT_DGP MIN_BLOCK_GAS_LIMIT_DGP
          MAX_BLOCK_GAS_LIMIT_DGP (value.toNat % 2 ^ 64) = DEFAULT_BLOCK_GAS_LIMIT_DGP))) ∧
    (∀ template words, d.dgpevm = true →
      d.callContract template [0x26, 0xfa, 0xdb, 0xe2] = .ok (words.flatMap U256.toBytes) →
      (d.createEVMSchedule template [0x26, 0xfa, 0xdb, 0xe2] = .ok (scheduleInBounds words) ↔
        ((∀ word ∈ words, word.toNat < 2 ^ 32) ∨
          checkLimitSchedule EIP158Schedule (words.map fun word => word.setWidth 32) = false))) ∧
    ∀ template values, d.dgpevm = false → d.ServesSchedule template values →
      (d.createEVMSchedule template [0x26, 0xfa, 0xdb, 0xe2] =
        .ok (scheduleInBounds (values.map fun value => value.setWidth 256)) ↔
        checkLimitSchedule EIP158Schedule values = false) := by
  refine ⟨?_, ?_, ?_, ?_, ?_⟩
  · intro template value hstorages hsupplies
    exact getter_eq_iff (by decide +kernel) (getBlockSize_of_supplies hstorages hsupplies)
  · intro template value hstorages hsupplies
    exact getter_eq_iff (by decide +kernel) (getMinGasPrice_of_supplies hstorages hsupplies)
  · intro template value hstorages hsupplies
    exact getter_eq_iff (by decide +kernel) (getBlockGasLimit_of_supplies hstorages hsupplies)
  · intro template words hevm hreturned
    exact createEVMSchedule_eq_iff hevm hreturned
  · intro template values hevm _
    have hstorage := createEVMSchedule_storage d template [0x26, 0xfa, 0xdb, 0xe2]
    rw [← hevm] at hstorage
    rw [hstorage, scheduleInBounds_wide, Except.ok.injEq, eq_comm]
    exact ite_checkLimitSchedule_eq_iff

namespace WideValues

/-- The numbers of a schedule within the limits, with `excess` added to each. -/
def schedule (excess : U256) : List U256 :=
  CheapSteps.schedule.map fun value => value.setWidth 256 + excess

/-- The storage of governance contracts that each have one instance in force, at the address `0x700`. -/
def instances (key : U256) : Option (U256 × U256) :=
  if key = 1000 then some (0, 1) else if key = 2000 then some (1000, 1)
  else if key = 2001 then some (1001, 0x700) else none

/-- The instances of all contracts but the block gas limit return a value within the bounds with `excess` added. -/
def called (excess : U256) : TscDGP where
  dgpevm := true
  storage addr key := if addr = 0x700 ∨ addr = BlockGasLimitDGP then none else instances key
  sha3 u := u + 1000
  performByteCode _ _ getter :=
    if getter = [0x92, 0xac, 0x3c, 0x62] then U256.toBytes (1000000 + excess)
    else if getter = [0x3f, 0xb5, 0x88, 0x19] then U256.toBytes (100 + excess)
    else (schedule excess).flatMap U256.toBytes
  tipHeight := 0
  stack := 100

/-- The instance of the block gas limit stores a value. -/
def stored (value : U256) : TscDGP where
  dgpevm := false
  storage addr key :=
    if addr = 0x700 then if key = 1000 then some (0, value) else none
    else if addr = BlockGasLimitDGP then instances key else none
  sha3 u := u + 1000
  performByteCode _ _ _ := []
  tipHeight := 0
  stack := 100

theorem stored_supplies {value : U256} (getter : List Byte) (hvalue : value ≠ 0) :
    (stored value).Supplies getter 0x700 value := by
  rw [Supplies, if_neg (by simp [stored]), if_neg hvalue]
  rfl

theorem schedule_zero_lt : ∀ word ∈ schedule 0, word.toNat < 2 ^ 32 := by
  simp only [schedule, List.forall_mem_map]
  intro value _
  have hzero : value.setWidth 256 + (0 : U256) = value.setWidth 256 := BitVec.add_zero _
  rw [hzero]
  exact toNat_wide_lt value

theorem schedule_out_of_limits : ¬ WithinLimits (schedule (2 ^ 64)) := by
  intro hwithin
  have hfits := (withinLimits_iff.mp hwithin).1 (1 + 2 ^ 64) (by decide +kernel)
  revert hfits
  decide +kernel

end WideValues

open WideValues in
theorem governance_in_bounds_iff_narrow :
    (called 0).getBlockSize 1 = .ok 1000000 ∧ (called 0).getMinGasPrice 1 = .ok 100 ∧
    (stored 50000000).getBlockGasLimit 1 = .ok 50000000 ∧
      (called 0).createEVMSchedule 0x700 [0x26, 0xfa, 0xdb, 0xe2] = .ok
      (scheduleInBounds (schedule 0)) := by
  obtain ⟨hsize, hprice, -, hschedule, -⟩ := governance_in_bounds_iff (called 0) 1
  obtain ⟨-, -, hlimit, -⟩ := governance_in_bounds_iff (stored 50000000) 1
  refine ⟨(hsize 0x700 1000000 (by decide +kernel) rfl).mpr ?_,
    (hprice 0x700 100 (by decide +kernel) rfl).mpr ?_,
    (hlimit 0x700 50000000 (by decide +kernel) (stored_supplies _ (by decide))).mpr ?_,
      (hschedule 0x700 (schedule 0) rfl rfl).mpr (.inl ?_)⟩
  · decide +kernel
  · decide +kernel
  · decide +kernel
  · exact schedule_zero_lt

open WideValues in
/-- Values beyond 64 bits are far out of bounds; their low bits are put in force. -/
theorem wide_values_in_force :
    (called (2 ^ 64)).Supplies [0x92, 0xac, 0x3c, 0x62] 0x700 (1000000 + 2 ^ 64) ∧
    (called (2 ^ 64)).getBlockSize 1 = .ok 1000000 ∧
      (called (2 ^ 64)).Supplies [0x3f, 0xb5, 0x88, 0x19] 0x700 (100 + 2 ^ 64) ∧
      (called (2 ^ 64)).getMinGasPrice 1 = .ok 100 ∧
      (called (2 ^ 64)).createEVMSchedule 0x700 [0x26, 0xfa, 0xdb, 0xe2] = .ok CheapSteps.schedule ∧
        ¬ WithinLimits (schedule (2 ^ 64)) ∧
      (stored (50000000 + 2 ^ 64)).Supplies [0x2c, 0xc8, 0x37, 0x7d] 0x700 (50000000 + 2 ^ 64) ∧
      (stored (50000000 + 2 ^ 64)).getBlockGasLimit 1 = .ok 50000000 := by
  refine ⟨rfl, by decide +kernel, rfl, by decide +kernel, by decide +kernel, schedule_out_of_limits,
    stored_supplies _ (by decide +kernel), by decide +kernel⟩

end TscDGP

end TscPow
