import TscPow.Contract.Dgp

/-!
# Governance parameters from storage and from calls

A `TscDGP` object reads the values of a template contract from its storage (`-dgpstorage`) or by calling its getter (`-dgpevm`). A contract keeps a single number in its first storage slot, and the numbers of a gas schedule in the first five, eight of 32 bits to a slot. A slot of zeros is not in the storage at all.

For the single numbers it makes no difference which way they are read, as long as calls return. A schedule of 39 numbers takes up five slots, and from these forty numbers are read, the last of them zero. `checkLimitSchedule` wants 39 of them, so no schedule that is read from storage is ever in force.
-/

namespace TscPow

/-! ### Words as bytes -/

/-- A word as the virtual machine returns it, the most significant byte first. -/
def U256.toBytes (u : U256) : List Byte := (List.range 32).map fun i => (u >>> (8 * (31 - i))).setWidth 8

@[simp] theorem U256.length_toBytes (u : U256) : u.toBytes.length = 32 := by simp [U256.toBytes]

theorem U256.ofBytes_toBytes (u : U256) : U256.ofBytes u.toBytes = u := by
  have hwords := Limbs.foldl_words (w := 8) (n := 32) u (Nat.le_refl _) (Nat.le_refl 32)
  rwa [Nat.sub_self, Nat.mul_zero, BitVec.ushiftRight_zero] at hwords

/-! ### The layout -/

namespace TscDGP

/-- Eight numbers in a slot, the first in the lowest bits. -/
def packSlot (values : EVMSchedule) : U256 :=
  values.foldr (fun value slot => slot <<< 32 ||| value.setWidth 256) 0

/-- The slot of a schedule with the numbers from `8 * i` on. -/
def slotOf (values : EVMSchedule) (i : Nat) : U256 := packSlot ((values.drop (8 * i)).take 8)

def storedWord (key value : U256) : Option (U256 × U256) := if value = 0 then none else some (key, value)

/-- The template contract stores these numbers and returns them from its getter. -/
structure ServesSchedule (d : TscDGP) (template : Address) (values : EVMSchedule) : Prop where
  length : values.length ≤ 40
  stored : ∀ i < 5, d.storage template (d.sha3 (BitVec.ofNat 256 i)) =
    storedWord (BitVec.ofNat 256 i) (slotOf values i)
  returned : d.performByteCode DEFAULT_BLOCK_GAS_LIMIT_DGP template [0x26, 0xfa, 0xdb, 0xe2] =
    values.flatMap fun value => U256.toBytes (value.setWidth 256)

structure ServesNumber (d : TscDGP) (getter : List Byte) (template : Address) (value : U256) : Prop where
  stored : d.storage template (d.sha3 0) = storedWord 0 value
  returned : d.performByteCode DEFAULT_BLOCK_GAS_LIMIT_DGP template getter = value.toBytes

theorem getLsbD_packSlot (values : EVMSchedule) {k : Nat} (hk : k < 256) :
    (packSlot values).getLsbD k = ((values[k / 32]?).getD 0).getLsbD (k % 32) := by
  induction values generalizing k with
  | nil => simp [packSlot]
  | cons value values ih =>
    have hcons : packSlot (value :: values) = packSlot values <<< 32 ||| value.setWidth 256 := rfl
    rw [hcons, BitVec.getLsbD_or, BitVec.getLsbD_shiftLeft, BitVec.getLsbD_setWidth]
    by_cases hlow : k < 32
    · rw [Nat.div_eq_of_lt hlow, Nat.mod_eq_of_lt hlow]
      simp [hk, hlow]
    · have hdiv : k / 32 = (k - 32) / 32 + 1 := by omega
      have hmod : k % 32 = (k - 32) % 32 := by omega
      have hhigh : value.getLsbD k = false := BitVec.getLsbD_of_ge value k (by omega)
      rw [hdiv, hmod, List.getElem?_cons_succ, ← ih (by omega), hhigh]
      simp [hk, hlow]

theorem scheduleSlot_packSlot (values : EVMSchedule) :
    scheduleSlot (packSlot values) = (List.range 8).map fun i => (values[i]?).getD 0 := by
  apply List.map_congr_left
  intro i hi
  rw [List.mem_range] at hi
  apply BitVec.eq_of_getLsbD_eq
  intro k hk
  have hdiv : (32 * i + k) / 32 = i := by omega
  have hmod : (32 * i + k) % 32 = k := by omega
  rw [BitVec.getLsbD_setWidth, BitVec.getLsbD_ushiftRight, getLsbD_packSlot _ (by omega), hdiv, hmod]
  simp [hk]

variable {d : TscDGP} {template : Address} {values : EVMSchedule} {value : U256}
  {getter : List Byte} {h : Nat}

/-! ### Reading a schedule -/

theorem ServesSchedule.parseStorageScheduleContract_eq (hserves : ServesSchedule d template values)
    (hslots : ∀ i < 5, slotOf values i ≠ 0) :
    d.parseStorageScheduleContract template = (List.range 5).flatMap fun i =>
      (List.range 8).map fun j => (((values.drop (8 * i)).take 8)[j]?).getD 0 := by
  have hdata : ((List.range 5).filterMap fun i => d.storage template (d.sha3 (BitVec.ofNat 256 i))) =
      (List.range 5).map fun i => (BitVec.ofNat 256 i, slotOf values i) := by
    rw [← List.filterMap_eq_map]
    apply List.filterMap_congr
    intro i hi
    rw [List.mem_range] at hi
    rw [hserves.stored i hi, storedWord, if_neg (hslots i hi)]
    rfl
  have hsorted : ((List.range 5).map fun i => (BitVec.ofNat 256 i, slotOf values i)).mergeSort
    (fun a b => decide (a.1 ≤ b.1)) =
      (List.range 5).map fun i => (BitVec.ofNat 256 i, slotOf values i) := by
    have hkeys : (List.range 5).Pairwise fun i j =>
        decide (BitVec.ofNat 256 i ≤ BitVec.ofNat 256 j) = true := by decide
    exact List.mergeSort_of_pairwise (List.pairwise_map.mpr hkeys)
  rw [parseStorageScheduleContract, hdata, hsorted, List.flatMap_map]
  apply List.flatMap_congr
  intro i _
  exact scheduleSlot_packSlot _

theorem length_parseStorageScheduleContract (d : TscDGP) (template : Address) :
    8 ∣ (d.parseStorageScheduleContract template).length := by
  rw [parseStorageScheduleContract]
  induction (((List.range 5).filterMap fun i =>
    d.storage template (d.sha3 (BitVec.ofNat 256 i))).mergeSort fun a b => decide (a.1 ≤ b.1)) with
  | nil => exact Nat.dvd_zero 8
  | cons entry entries ih =>
    have hslot : (scheduleSlot entry.2).length = 8 := by simp [scheduleSlot]
    rw [List.flatMap_cons, List.length_append, hslot]
    exact Nat.dvd_add (Nat.dvd_refl 8) ih

theorem checkLimitSchedule_of_length_ne {values : EVMSchedule} (hlength : values.length ≠ 39) :
    checkLimitSchedule EIP158Schedule values = false := by
  rw [checkLimitSchedule, beq_false_of_ne hlength, Bool.and_false, Bool.false_and]

theorem parseDataScheduleContract_words (words : List U256) :
    parseDataScheduleContract (words.flatMap U256.toBytes) = words.map fun word => word.setWidth 32 := by
  induction words with
  | nil => rfl
  | cons word words ih =>
    generalize hrest : words.flatMap U256.toBytes = rest at ih
    have hsize : (word.toBytes ++ rest).length / 32 = rest.length / 32 + 1 := by
      rw [List.length_append, U256.length_toBytes]
      omega
    rw [List.flatMap_cons, hrest, parseDataScheduleContract, hsize, List.range_succ_eq_map,
      List.map_cons, List.map_map, List.map_cons]
    refine congrArg₂ List.cons ?_ ?_
    · rw [Nat.mul_zero, List.drop_zero, List.take_left' (U256.length_toBytes _), U256.ofBytes_toBytes]
    · rw [parseDataScheduleContract] at ih
      rw [← ih]
      apply List.map_congr_left
      intro i _
      have hdrop : 32 * (i + 1) = word.toBytes.length + 32 * i := by
        rw [U256.length_toBytes]
        omega
      rw [Function.comp_apply, Nat.succ_eq_add_one, hdrop, List.drop_length_add_append]

theorem narrow_wide (values : EVMSchedule) :
    ((values.map fun value => value.setWidth 256).map fun word : U256 => word.setWidth 32) =
      values := by
  rw [List.map_map]
  conv_rhs => rw [← List.map_id values]
  apply List.map_congr_left
  intro value _
  simp

theorem parseDataScheduleContract_flatMap (values : EVMSchedule) :
    parseDataScheduleContract (values.flatMap fun value => U256.toBytes (value.setWidth 256)) =
      values := by
  have hwords : (values.flatMap fun value => U256.toBytes (value.setWidth 256)) =
      (values.map fun value => value.setWidth 256).flatMap U256.toBytes := by
    rw [List.flatMap_map]
  rw [hwords, parseDataScheduleContract_words, narrow_wide]

/-! ### The two ways -/

theorem initStorages_dgpevm (d : TscDGP) (dgpevm : Bool) :
    { d with dgpevm := dgpevm }.initStorages = d.initStorages := rfl

theorem ServesNumber.parseOneUint64_storage (hserves : ServesNumber d getter template value)
    (call : Address → List Byte → Except Fault (List Byte)) :
    { d with dgpevm := false }.parseOneUint64 call template getter = .ok value.toUint64 := by
  rw [parseOneUint64, if_neg Bool.false_ne_true]
  dsimp only
  rw [hserves.stored, storedWord]
  split
  · rename_i hzero
    rw [hzero]
    rfl
  · rfl

theorem ServesNumber.parseOneUint64_call_iff (hserves : ServesNumber d getter template value)
    {result : Nat} :
    { d with dgpevm := true }.parseOneUint64
    { d with dgpevm := true }.callContract template getter = .ok result ↔
      d.CallsReturn ∧ value.toUint64 = result := by
  rw [parseOneUint64, if_pos rfl, Except.bind_eq_ok_iff]
  simp only [callContract_eq_ok_iff, and_assoc, exists_and_left, exists_eq_left', Except.pure_eq_ok_iff]
  rw [hserves.returned, if_pos (U256.length_toBytes value), U256.ofBytes_toBytes]
  rfl

theorem getUint64FromDGP_eq_iff {contract : Address} (bounded : Nat → Nat)
    (hserves : ∀ template, d.initStorages contract h = .ok (some template) →
      ∃ value, ServesNumber d getter template value) :
    (do return bounded (← { d with dgpevm := false }.getUint64FromDGP h contract getter)) =
        (do return bounded (← { d with dgpevm := true }.getUint64FromDGP h contract getter)) ↔
      ∀ template, d.initStorages contract h = .ok (some template) → d.CallsReturn := by
  rw [getUint64FromDGP, getUint64FromDGP, uint64FromDGP, uint64FromDGP, initStorages_dgpevm d false,
    initStorages_dgpevm d true]
  cases hstorages : d.initStorages contract h with
  | error fault => exact iff_of_true rfl fun _ heq => by cases heq
  | ok template =>
    cases template with
    | none => exact iff_of_true rfl fun _ heq => by cases heq
    | some template =>
      obtain ⟨value, hvalue⟩ := hserves template hstorages
      change { d with dgpevm := false }.parseOneUint64
        { d with dgpevm := false }.callContract template getter >>= _ =
        ({ d with dgpevm := true }.parseOneUint64 { d with dgpevm := true }.callContract template
          getter >>= _) ↔ _
      rw [hvalue.parseOneUint64_storage, eq_comm]
      refine Except.bind_eq_ok_iff.trans ?_
      simp [hvalue.parseOneUint64_call_iff, Except.pure_eq_ok_iff]

theorem createEVMSchedule_storage (d : TscDGP) (template : Address) (getter : List Byte) :
    { d with dgpevm := false }.createEVMSchedule template getter = .ok EIP158Schedule := by
  have hlength := length_parseStorageScheduleContract { d with dgpevm := false } template
  have hout :
      checkLimitSchedule EIP158Schedule
        ({ d with dgpevm := false }.parseStorageScheduleContract template) = false :=
    checkLimitSchedule_of_length_ne (by omega)
  change Except.ok (if checkLimitSchedule EIP158Schedule _ then _ else EIP158Schedule) = _
  rw [hout]
  rfl

theorem ServesSchedule.createEVMSchedule_call_iff (hserves : ServesSchedule d template values)
    {result : EVMSchedule} :
    { d with dgpevm := true }.createEVMSchedule template [0x26, 0xfa, 0xdb, 0xe2] = .ok result ↔
      d.CallsReturn ∧
        (if checkLimitSchedule EIP158Schedule values then values else EIP158Schedule) = result := by
  rw [createEVMSchedule, if_pos rfl, Except.bind_eq_ok_iff]
  simp only [Except.map_eq_ok_iff, callContract_eq_ok_iff, and_assoc, exists_and_left,
    exists_eq_left', Except.pure_eq_ok_iff]
  rw [hserves.returned, parseDataScheduleContract_flatMap]
  rfl

theorem checkLimitSchedule_EIP158Schedule :
    checkLimitSchedule EIP158Schedule EIP158Schedule = false := by decide

/-- The default schedule is not within its own limits, so it is never the schedule that passed. -/
theorem ite_checkLimitSchedule_eq_iff {values : EVMSchedule} :
    (if checkLimitSchedule EIP158Schedule values then values else EIP158Schedule) = EIP158Schedule ↔
      checkLimitSchedule EIP158Schedule values = false := by
  constructor
  · intro hsame
    rw [Bool.eq_false_iff]
    intro hpasses
    rw [if_pos hpasses] at hsame
    rw [hsame, checkLimitSchedule_EIP158Schedule] at hpasses
    cases hpasses
  · intro hfails
    rw [hfails]
    rfl

theorem getGasSchedule_eq_iff {schedule : Address → EVMSchedule}
    (hserves : ∀ template, d.initStorages GasScheduleDGP h = .ok (some template) →
      ServesSchedule d template (schedule template)) :
    { d with dgpevm := false }.getGasSchedule h = { d with dgpevm := true }.getGasSchedule h ↔
      ∀ template, d.initStorages GasScheduleDGP h = .ok (some template) →
        d.CallsReturn ∧ checkLimitSchedule EIP158Schedule (schedule template) = false := by
  rw [getGasSchedule, getGasSchedule, initStorages_dgpevm d false, initStorages_dgpevm d true]
  cases hstorages : d.initStorages GasScheduleDGP h with
  | error fault => exact iff_of_true rfl fun _ heq => by cases heq
  | ok template =>
    cases template with
    | none => exact iff_of_true rfl fun _ heq => by cases heq
    | some template =>
      change { d with dgpevm := false }.createEVMSchedule template [0x26, 0xfa, 0xdb, 0xe2] =
        { d with dgpevm := true }.createEVMSchedule template [0x26, 0xfa, 0xdb, 0xe2] ↔ _
      rw [createEVMSchedule_storage, eq_comm, (hserves template hstorages).createEVMSchedule_call_iff]
      rw [ite_checkLimitSchedule_eq_iff]
      exact ⟨fun hboth _ heq => by cases heq; exact hboth, fun hall => hall template rfl⟩

/-- The block size, the gas price and the gas limit are the same whichever way they are read, exactly if no contract for the value is in force or calls return. The gas schedule is the same exactly if, besides, the contract in force has none that is within the limits. -/
theorem storage_eq_call_iff (d : TscDGP) (h : Nat) (schedule : Address → EVMSchedule)
    (number : Address → U256)
    (hschedule : ∀ template, d.initStorages GasScheduleDGP h = .ok (some template) →
      ServesSchedule d template (schedule template))
    (hsize : ∀ template, d.initStorages BlockSizeDGP h = .ok (some template) →
      ServesNumber d [0x92, 0xac, 0x3c, 0x62] template (number template))
    (hprice : ∀ template, d.initStorages GasPriceDGP h = .ok (some template) →
      ServesNumber d [0x3f, 0xb5, 0x88, 0x19] template (number template))
    (hlimit : ∀ template, d.initStorages BlockGasLimitDGP h = .ok (some template) →
      ServesNumber d [0x2c, 0xc8, 0x37, 0x7d] template (number template)) :
    let storage := { d with dgpevm := false }
    let call := { d with dgpevm := true }
    (storage.getBlockSize h = call.getBlockSize h ↔
      ∀ template, d.initStorages BlockSizeDGP h = .ok (some template) → d.CallsReturn) ∧
    (storage.getMinGasPrice h = call.getMinGasPrice h ↔
      ∀ template, d.initStorages GasPriceDGP h = .ok (some template) → d.CallsReturn) ∧
    (storage.getBlockGasLimit h = call.getBlockGasLimit h ↔
      ∀ template, d.initStorages BlockGasLimitDGP h = .ok (some template) → d.CallsReturn) ∧
    (storage.getGasSchedule h = call.getGasSchedule h ↔
      ∀ template, d.initStorages GasScheduleDGP h = .ok (some template) →
        d.CallsReturn ∧ checkLimitSchedule EIP158Schedule (schedule template) = false) :=
  ⟨getUint64FromDGP_eq_iff _ fun template htemplate => ⟨_, hsize template htemplate⟩,
    getUint64FromDGP_eq_iff _ fun template htemplate => ⟨_, hprice template htemplate⟩,
    getUint64FromDGP_eq_iff _ fun template htemplate => ⟨_, hlimit template htemplate⟩,
      getGasSchedule_eq_iff hschedule⟩

namespace CheapSteps

def schedule : EVMSchedule := EIP158Schedule.map fun value => if value = 0 then 1 else value

def governed : TscDGP where
  dgpevm := true
  storage addr key :=
    if addr = GasScheduleDGP then
      if key = 1000 then some (0, 1) else if key = 2000 then some (1000, 1)
      else if key = 2001 then some (1001, 0x600) else none
    else if addr = 0x600 ∧ 1000 ≤ key ∧ key < 1005 then
      storedWord (key - 1000) (slotOf schedule (key - 1000).toNat)
    else none
  sha3 u := u + 1000
  performByteCode _ addr data :=
    if addr = 0x600 ∧ data = [0x26, 0xfa, 0xdb, 0xe2] then schedule.flatMap fun value =>
      U256.toBytes (value.setWidth 256) else []
  tipHeight := 0
  stack := 100

theorem initStorages_schedule : governed.initStorages GasScheduleDGP 1 = .ok (some 0x600) := by
  decide +kernel

theorem initStorages_other {contract : Address} (hschedule : contract ≠ GasScheduleDGP)
    (htemplate : contract ≠ 0x600) :
    governed.initStorages contract 1 = .ok none := by
  have hinstances : governed.createParamsInstance contract = .ok [] := by
    rw [createParamsInstance]
    simp only [governed, if_neg hschedule, htemplate, false_and, if_false]
  rw [initStorages, hinstances]
  rfl

theorem callsReturn : governed.CallsReturn := initStorages_other (by decide) (by decide)

theorem servesSchedule : ServesSchedule governed 0x600 schedule :=
  ⟨by decide, by decide +kernel, by decide +kernel⟩

end CheapSteps

open CheapSteps in
theorem storage_eq_call_iff_cheapSteps :
    { governed with dgpevm := false }.getBlockSize 1 = { governed with dgpevm := true }.getBlockSize 1 ∧
      ({ governed with dgpevm := false }.getGasSchedule 1 =
        { governed with dgpevm := true }.getGasSchedule 1 ↔
        ∀ template, governed.initStorages GasScheduleDGP 1 = .ok (some template) →
          governed.CallsReturn ∧ checkLimitSchedule EIP158Schedule schedule = false) := by
  have hnone : ∀ contract, contract ≠ GasScheduleDGP → contract ≠ 0x600 → ∀ template getter,
      governed.initStorages contract 1 = .ok (some template) →
        ServesNumber governed getter template 0 := by
    intro contract hschedule htemplate template getter hinit
    rw [initStorages_other hschedule htemplate] at hinit
    cases hinit
  have h := storage_eq_call_iff governed 1 (fun _ => schedule) (fun _ => 0)
    (fun template htemplate => by
      rw [initStorages_schedule] at htemplate
      cases htemplate
      exact servesSchedule)
    (fun template => hnone _ (by decide) (by decide) template _)
      (fun template => hnone _ (by decide) (by decide) template _)
    (fun template => hnone _ (by decide) (by decide) template _)
  exact ⟨h.1.mpr fun _ _ => callsReturn, h.2.2.2⟩

open CheapSteps in
/-- The contract stores 39 numbers within the limits and returns them from its getter; read from storage they are not in force. -/
theorem stored_schedule_ignored :
    ServesSchedule governed 0x600 schedule ∧ checkLimitSchedule EIP158Schedule schedule = true ∧
      { governed with dgpevm := true }.getGasSchedule 1 = .ok schedule ∧
      governed.parseStorageScheduleContract 0x600 = schedule ++ [0] ∧
      { governed with dgpevm := false }.getGasSchedule 1 = .ok EIP158Schedule ∧
        schedule ≠ EIP158Schedule := by
  refine ⟨servesSchedule, by decide +kernel, by decide +kernel, ?_, ?_, by decide⟩
  · rw [servesSchedule.parseStorageScheduleContract_eq (by decide +kernel)]
    decide +kernel
  · rw [getGasSchedule, initStorages_dgpevm governed false, initStorages_schedule]
    exact createEVMSchedule_storage governed 0x600 [0x26, 0xfa, 0xdb, 0xe2]

end TscDGP

end TscPow
