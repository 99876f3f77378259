import TscPow.Contract.State
import TscPow.Validation.ConnectBlock

/-!
# Governance parameters

`TscDGP` (`tscDGP.h`, `tscDGP.cpp`) reads the gas schedule, the block size, the minimum gas price and the block gas limit from governance contracts. Each of them holds a list of instances with the height from which they are in force; the last instance of the list whose height has come is looked up and asked for the value, and a value outside its bounds is replaced by the default.

`CreateNewBlock` looks up the height of the block it builds, `ConnectBlock` the height after the block it validates. The two agree unless an instance comes into force at exactly that later height.

Values are read from the storage of the instance or by a call of it. `CallContract` looks up the block gas limit itself, in the same way, so where values come from calls it never returns while an instance of that contract is in force.
-/

namespace TscPow

def GasScheduleDGP : Address := 0x80
def BlockSizeDGP : Address := 0x81
def GasPriceDGP : Address := 0x82
def BlockGasLimitDGP : Address := 0x84

def MIN_BLOCK_SIZE_DGP : Nat := 500000
def MAX_BLOCK_SIZE_DGP : Nat := 32000000
def DEFAULT_BLOCK_SIZE_DGP : Nat := 2000000
def MIN_MIN_GAS_PRICE_DGP : Nat := 1
def MAX_MIN_GAS_PRICE_DGP : Nat := 10000
def DEFAULT_MIN_GAS_PRICE_DGP : Nat := 40
def MIN_BLOCK_GAS_LIMIT_DGP : Nat := 1000000
def MAX_BLOCK_GAS_LIMIT_DGP : Nat := 1000000000
def DEFAULT_BLOCK_GAS_LIMIT_DGP : Nat := 40000000

/-- The numbers of an `EVMSchedule` that governance may change, in the order of `initDataEIP158`. -/
abbrev EVMSchedule := List (BitVec 32)

def EIP158Schedule : EVMSchedule :=
  [0, 2, 3, 5, 8, 10, 20, 0, 10, 50, 30, 6, 200, 20000, 5000, 15000, 1, 375, 8, 375, 32000, 700,
    2300, 9000, 25000, 24000, 3, 512,
    200, 21000, 53000, 4, 68, 3, 700, 700, 400, 5000, 0x6000]

def U256.toUint64 (u : U256) : Nat := (u.setWidth 64).toNat

/-- The number that bytes spell, most significant first. -/
def U256.ofBytes (bytes : List Byte) : U256 := bytes.foldl (fun u b => u <<< 8 ||| b.setWidth 256) 0

/-- What a `TscDGP` object reads: whether values come from calls or from storage, the storage of an account under hashed keys, and the hash. A call runs on the virtual machine (`performByteCode`) with the gas limit for the block after the active tip; `stack` is how many calls may nest in the first one. -/
structure TscDGP where
  dgpevm : Bool
  storage : Address → U256 → Option (U256 × U256)
  sha3 : U256 → U256
  performByteCode : (blockGasLimit : Nat) → Address → List Byte → List Byte
  tipHeight : Nat
  stack : Nat

/-- A parameter instance: the height from which it is in force, and its contract. -/
abbrev ParamsInstance := Nat × Address

/-- The search of `getAddressForBlock`, from the last instance down. -/
def instanceForBlock (paramsInstance : List ParamsInstance) (blockHeight : Nat) : Option ParamsInstance :=
  paramsInstance.reverse.find? fun i => decide (i.1 ≤ blockHeight)

def getAddressForBlock (paramsInstance : List ParamsInstance) (blockHeight : Nat) : Address :=
  (instanceForBlock paramsInstance blockHeight).elim 0 Prod.snd

namespace TscDGP

variable (d : TscDGP)

/-- The value stored under a key. The source dereferences the result of `find` without a check. -/
def storedValue (addr : Address) (key : U256) : Except Fault U256 :=
  match d.storage addr (d.sha3 key) with
  | none => .error .undefined
  | some (_, value) => .ok value

/-- `createParamsInstance`, on the storage of `addr`. -/
def createParamsInstance (addr : Address) : Except Fault (List ParamsInstance) :=
  let paramsInstanceHash := d.sha3 0
  match d.storage addr paramsInstanceHash with
  | none => .ok []
  | some (_, paramsInstanceSize) =>
    (List.range paramsInstanceSize.toUint64).mapM fun i => do
      let first ← d.storedValue addr (paramsInstanceHash + BitVec.ofNat 256 (2 * i))
      let second ← d.storedValue addr (paramsInstanceHash + BitVec.ofNat 256 (2 * i + 1))
      return ((first.setWidth 32).toNat, second.setWidth 160)

/-- `initStorages`: the template contract in force, unless it is the null address. -/
def initStorages (addr : Address) (blockHeight : Nat) : Except Fault (Option Address) := do
  let paramsInstance ← d.createParamsInstance addr
  let address := getAddressForBlock paramsInstance blockHeight
  return if address ≠ 0 then some address else none

/-- `parseStorageOneUint64` and `parseDataOneUint64`, the latter on the output of a call. -/
def parseOneUint64 (call : Address → List Byte → Except Fault (List Byte)) (template : Address)
    (data : List Byte) :
    Except Fault Nat :=
  if d.dgpevm then do
    let dataTemplate ← call template data
    return if dataTemplate.length = 32 then (U256.ofBytes dataTemplate).toUint64 else 0
  else .ok (((d.storage template (d.sha3 0)).map fun entry => entry.2.toUint64).getD 0)

def uint64FromDGP (call : Address → List Byte → Except Fault (List Byte)) (blockHeight : Nat)
    (contract : Address) (data : List Byte) : Except Fault Nat := do
  let template ← d.initStorages contract blockHeight
  template.elim (.ok 0) fun address => d.parseOneUint64 call address data

/-- The default unless the value lies between its bounds. -/
def inBounds (default min max value : Nat) : Nat := if value ≤ max ∧ value ≥ min then value else default

def blockGasLimitBy (call : Address → List Byte → Except Fault (List Byte)) (blockHeight : Nat) :
    Except Fault Nat := do
  let value ← d.uint64FromDGP call blockHeight BlockGasLimitDGP [0x2c, 0xc8, 0x37, 0x7d]
  return inBounds DEFAULT_BLOCK_GAS_LIMIT_DGP MIN_BLOCK_GAS_LIMIT_DGP MAX_BLOCK_GAS_LIMIT_DGP value

/-- `CallContract` with room for `depth` calls. It asks for the block gas limit before it runs the contract, in the same mode: where values come from calls, that may be a call again. -/
def callWithin : Nat → Address → List Byte → Except Fault (List Byte)
  | 0, _, _ => .error .undefined
  | depth + 1, addr, data => do
    let blockGasLimit ← d.blockGasLimitBy (callWithin depth) (d.tipHeight + 1)
    return d.performByteCode blockGasLimit addr data

def callContract : Address → List Byte → Except Fault (List Byte) := d.callWithin (d.stack + 1)

/-- No instance of the block gas limit is in force for the block after the tip. -/
def CallsReturn : Prop := d.initStorages BlockGasLimitDGP (d.tipHeight + 1) = .ok none

theorem callWithin_of_callsReturn {d : TscDGP} (hfree : d.CallsReturn) (depth : Nat)
    (addr : Address) (data : List Byte) :
    d.callWithin (depth + 1) addr data =
      .ok (d.performByteCode DEFAULT_BLOCK_GAS_LIMIT_DGP addr data) := by
  rw [callWithin, blockGasLimitBy, uint64FromDGP, hfree]
  rfl

/-- Each call leads to the next one until the stack is used up. -/
theorem callWithin_ne_ok {d : TscDGP} (hevm : d.dgpevm = true) (hlimit : ¬ d.CallsReturn)
    (depth : Nat) (addr : Address) (data out : List Byte) : d.callWithin depth addr data ≠ .ok out := by
  induction depth generalizing addr data out with
  | zero => exact nofun
  | succ depth ih =>
    intro hcall
    rw [callWithin, blockGasLimitBy, uint64FromDGP] at hcall
    simp only [Except.bind_eq_ok_iff] at hcall
    obtain ⟨blockGasLimit, ⟨value, ⟨template, hstorages, hvalue⟩, -⟩, -⟩ := hcall
    cases template with
    | none => exact hlimit hstorages
    | some address =>
      rw [Option.elim_some, parseOneUint64, if_pos hevm] at hvalue
      obtain ⟨dataTemplate, hinner, -⟩ := Except.bind_eq_ok_iff.mp hvalue
      exact ih _ _ _ hinner

theorem callContract_eq_ok_iff {d : TscDGP} (hevm : d.dgpevm = true) {addr : Address}
    {data out : List Byte} :
    d.callContract addr data = .ok out ↔
      d.CallsReturn ∧ d.performByteCode DEFAULT_BLOCK_GAS_LIMIT_DGP addr data = out := by
  by_cases hfree : d.CallsReturn
  · rw [callContract, callWithin_of_callsReturn hfree, Except.ok.injEq, and_iff_right hfree]
  · exact iff_of_false (callWithin_ne_ok hevm hfree _ _ _ _) fun h => hfree h.1

def getUint64FromDGP : Nat → Address → List Byte → Except Fault Nat := d.uint64FromDGP d.callContract

def getBlockSize (blockHeight : Nat) : Except Fault Nat := do
  let value ← d.getUint64FromDGP blockHeight BlockSizeDGP [0x92, 0xac, 0x3c, 0x62]
  -- the value is narrowed to a `uint32_t` before it is held against the bounds
  return inBounds DEFAULT_BLOCK_SIZE_DGP MIN_BLOCK_SIZE_DGP MAX_BLOCK_SIZE_DGP (value % 2 ^ 32)

def getMinGasPrice (blockHeight : Nat) : Except Fault Nat := do
  let value ← d.getUint64FromDGP blockHeight GasPriceDGP [0x3f, 0xb5, 0x88, 0x19]
  return inBounds DEFAULT_MIN_GAS_PRICE_DGP MIN_MIN_GAS_PRICE_DGP MAX_MIN_GAS_PRICE_DGP value

def getBlockGasLimit : Nat → Except Fault Nat := d.blockGasLimitBy d.callContract

/-! ### The gas schedule -/

/-- `checkLimitSchedule`; the products are made in 32 bits. -/
def checkLimitSchedule (defaultData checkData : EVMSchedule) : Bool :=
  defaultData.length == 39 && checkData.length == 39 &&
    (defaultData.zip checkData).all fun (default, value) =>
      let max := if default * 1000 > 0 then default * 1000 else 1 * 1000
      let min := if default / 100 > 0 then default / 100 else 1
      !(decide (value > max) || decide (value < min))

/-- The four pairs of numbers in a storage slot, from the lowest bits up. -/
def scheduleSlot (value : U256) : EVMSchedule :=
  (List.range 8).map fun i => (value >>> (32 * i)).setWidth 32

def parseStorageScheduleContract (template : Address) : EVMSchedule :=
  let data := (List.range 5).filterMap fun i => d.storage template (d.sha3 (BitVec.ofNat 256 i))
  (data.mergeSort fun a b => decide (a.1 ≤ b.1)).flatMap fun entry => scheduleSlot entry.2

def parseDataScheduleContract (dataTemplate : List Byte) : EVMSchedule :=
  (List.range (dataTemplate.length / 32)).map fun i =>
    (U256.ofBytes ((dataTemplate.drop (32 * i)).take 32)).setWidth 32

def createEVMSchedule (template : Address) (data : List Byte) : Except Fault EVMSchedule := do
  let uint32Values ←
    if d.dgpevm then parseDataScheduleContract <$> d.callContract template data
    else .ok (d.parseStorageScheduleContract template)
  return if checkLimitSchedule EIP158Schedule uint32Values then uint32Values else EIP158Schedule

def getGasSchedule (blockHeight : Nat) : Except Fault EVMSchedule := do
  let template ← d.initStorages GasScheduleDGP blockHeight
  template.elim (.ok EIP158Schedule) fun address => d.createEVMSchedule address [0x26, 0xfa, 0xdb, 0xe2]

end TscDGP

/-! ### The two callers -/

/-- What both callers take from a `TscDGP` object. -/
structure Governance where
  gasSchedule : EVMSchedule
  blockSize : Nat
  minGasPrice : Nat
  blockGasLimit : Nat
deriving DecidableEq

namespace TscDGP

variable (d : TscDGP)

def governance (blockHeight : Nat) : Except Fault Governance := do
  let gasSchedule ← d.getGasSchedule blockHeight
  let blockSize ← d.getBlockSize blockHeight
  let minGasPrice ← d.getMinGasPrice blockHeight
  let blockGasLimit ← d.getBlockGasLimit blockHeight
  return ⟨gasSchedule, blockSize, minGasPrice, blockGasLimit⟩

/-- The parameters of `ConnectBlock` for the block of an index entry. -/
def connectGovernance (pindex : BlockIndex) : Except Fault Governance := d.governance (pindex.nHeight + 1)

/-- The parameters of `CreateNewBlock` for a block on top of `pindexPrev`. The option `-staker-min-tx-gas-price` may raise the minimum gas price. -/
def createGovernance (stakerMinGasPrice : Option Nat) (pindexPrev : BlockIndex) :
    Except Fault Governance := do
  let nHeight := pindexPrev.nHeight + 1
  let g ← d.governance nHeight
  return { g with minGasPrice := stakerMinGasPrice.elim g.minGasPrice (max g.minGasPrice) }

/-- The governance values of a contract state, as `ConnectBlock` reads them. -/
def dgp {World : Type} (d : World → TscDGP) (world : World) (blockHeight : Int) : Dgp :=
  match (d world).governance blockHeight.toNat with
  | .ok g => ⟨g.blockSize, g.minGasPrice, g.blockGasLimit⟩
  | .error _ => ⟨DEFAULT_BLOCK_SIZE_DGP, DEFAULT_MIN_GAS_PRICE_DGP, DEFAULT_BLOCK_GAS_LIMIT_DGP⟩

/-- The instance of a governance contract that is in force at a height has not just come into force. -/
def Steady (addr : Address) (blockHeight : Nat) : Prop :=
  ∀ paramsInstance, d.createParamsInstance addr = .ok paramsInstance →
    ∀ i ∈ instanceForBlock paramsInstance blockHeight, i.1 ≠ blockHeight

end TscDGP

section

variable {d : TscDGP} {addr : Address} {h : Nat}

theorem instanceForBlock_succ_iff (paramsInstance : List ParamsInstance) (h : Nat) :
    instanceForBlock paramsInstance h = instanceForBlock paramsInstance (h + 1) ↔
      ∀ i ∈ instanceForBlock paramsInstance (h + 1), i.1 ≠ h + 1 := by
  rw [instanceForBlock, instanceForBlock]
  induction paramsInstance.reverse with
  | nil => simp
  | cons a rest ih =>
    rcases Nat.lt_trichotomy a.1 (h + 1) with hlt | heq | hgt
    · rw [List.find?_cons_of_pos (by simpa using Nat.lt_succ_iff.mp hlt),
        List.find?_cons_of_pos (by simpa using hlt.le)]
      simp [hlt.ne]
    · have hlater : ¬ a.1 ≤ h := by omega
      rw [List.find?_cons_of_neg (by simpa using hlater), List.find?_cons_of_pos (by simpa using heq.le)]
      refine iff_of_false (fun hfind => ?_) (fun hall => hall a rfl heq)
      -- what is found for the lower height is in force there, and `a` is not
      have hfound := List.find?_some hfind
      exact hlater (of_decide_eq_true hfound)
    · have hlater : ¬ a.1 ≤ h + 1 := by omega
      have hlater' : ¬ a.1 ≤ h := by omega
      rw [List.find?_cons_of_neg (by simpa using hlater'), List.find?_cons_of_neg (by simpa using hlater)]
      exact ih

theorem initStorages_of_steady (hsteady : d.Steady addr (h + 1)) :
    d.initStorages addr h = d.initStorages addr (h + 1) := by
  rw [TscDGP.initStorages, TscDGP.initStorages]
  cases hinstances : d.createParamsInstance addr with
  | error fault => rfl
  | ok paramsInstance =>
    have hsame := (instanceForBlock_succ_iff paramsInstance h).mpr (hsteady paramsInstance hinstances)
    have haddress : getAddressForBlock paramsInstance h = getAddressForBlock paramsInstance (h + 1) := by
      rw [getAddressForBlock, getAddressForBlock, hsame]
    change Except.ok (if getAddressForBlock paramsInstance h ≠ 0 then
      some (getAddressForBlock paramsInstance h) else none) = _
    rw [haddress]
    rfl

theorem governance_of_steady
    (hsteady : ∀ addr ∈ [GasScheduleDGP, BlockSizeDGP, GasPriceDGP, BlockGasLimitDGP],
      d.Steady addr (h + 1)) :
    d.governance h = d.governance (h + 1) := by
  simp only [List.forall_mem_cons] at hsteady
  obtain ⟨hschedule, hsize, hprice, hlimit, -⟩ := hsteady
  simp only [TscDGP.governance, TscDGP.getGasSchedule, TscDGP.getBlockSize, TscDGP.getMinGasPrice,
    TscDGP.getBlockGasLimit, TscDGP.blockGasLimitBy, TscDGP.getUint64FromDGP, TscDGP.uint64FromDGP,
      initStorages_of_steady hschedule, initStorages_of_steady hsize, initStorages_of_steady hprice,
    initStorages_of_steady hlimit]

theorem getMinGasPrice_of_governance {g : Governance} (hg : d.governance h = .ok g) :
    d.getMinGasPrice h = .ok g.minGasPrice := by
  simp only [TscDGP.governance, Except.bind_eq_ok_iff, Except.pure_eq_ok_iff] at hg
  obtain ⟨schedule, -, size, -, price, hprice, limit, -, rfl⟩ := hg
  exact hprice

theorem connection_governance {World : Type} {contracts : Contracts World} {x : ConnectInput World}
    {d : World → TscDGP} {g : Governance} (hdgp : contracts.dgp = TscDGP.dgp d)
    (hg : (d x.world).connectGovernance x.pindex = .ok g) :
    (x.connection contracts).minGasPrice = g.minGasPrice ∧
    (x.connection contracts).blockGasLimit = g.blockGasLimit ∧
      (g.blockSize ≠ 0 → (x.connection contracts).limits = Limits.ofBlockSize g.blockSize) := by
  have hheight : ((x.pindex.nHeight : Int) + 1).toNat = x.pindex.nHeight + 1 := by omega
  rw [TscDGP.connectGovernance, ← hheight] at hg
  have hvalues : contracts.dgp x.world (x.pindex.nHeight + 1) =
      ⟨g.blockSize, g.minGasPrice, g.blockGasLimit⟩ := by
    rw [hdgp, TscDGP.dgp, hg]
  refine ⟨?_, ?_, fun hsize => ?_⟩
  · rw [ConnectInput.connection, hvalues]
  · rw [ConnectInput.connection, hvalues]
  · rw [ConnectInput.connection, ConnectInput.limits, hvalues, if_pos hsize]

end

/-- The block built on top of a tip and the block validated on top of it use the same parameters if no instance of the four governance contracts is found for the height after the block that comes into force at that height, and the option of the miner does not raise the gas price. From one height to the next, another instance is found only in that case. -/
theorem createGovernance_eq_connectGovernance (d : TscDGP) (stakerMinGasPrice : Option Nat)
    (pindexPrev : BlockIndex) (header : BlockHeader) :
    ((∀ addr ∈ [GasScheduleDGP, BlockSizeDGP, GasPriceDGP, BlockGasLimitDGP],
      d.Steady addr (pindexPrev.nHeight + 1 + 1)) →
      (∀ price ∈ stakerMinGasPrice, ∀ value, d.getMinGasPrice (pindexPrev.nHeight + 1) = .ok value →
        price ≤ value) →
        d.createGovernance stakerMinGasPrice pindexPrev = d.connectGovernance (pindexPrev.child header)) ∧
    ∀ paramsInstance h, instanceForBlock paramsInstance h = instanceForBlock paramsInstance (h + 1) ↔
      ∀ i ∈ instanceForBlock paramsInstance (h + 1), i.1 ≠ h + 1 := by
  refine ⟨fun hsteady hoption => ?_, instanceForBlock_succ_iff⟩
  rw [TscDGP.createGovernance, TscDGP.connectGovernance,
    BlockIndex.nHeight_child, ← governance_of_steady hsteady]
  cases hg : d.governance (pindexPrev.nHeight + 1) with
  | error fault => rfl
  | ok g =>
    cases stakerMinGasPrice with
    | none => rfl
    | some price =>
      have hle : price ≤ g.minGasPrice := hoption price rfl _ (getMinGasPrice_of_governance hg)
      change Except.ok { g with minGasPrice := max g.minGasPrice price } = Except.ok g
      rw [Nat.max_eq_left hle]

namespace GasPriceChange

def governed : TscDGP where
  dgpevm := false
  storage addr key :=
    if addr = GasPriceDGP then
      if key = 1000 then some (0, 1) else if key = 2000 then some (1000, 10)
      else if key = 2001 then some (1001, 0x500) else none
    else if addr = 0x500 ∧ key = 1000 then some (0, 100)
    else none
  sha3 u := u + 1000
  performByteCode _ _ _ := []
  tipHeight := 8
  stack := 100

def tip (height : Nat) : BlockIndex := ⟨default, List.replicate height default⟩

theorem createParamsInstance_gasPrice :
    governed.createParamsInstance GasPriceDGP = .ok [(10, 0x500)] := by decide +kernel

theorem createParamsInstance_other {addr : Address} (hgas : addr ≠ GasPriceDGP)
    (htemplate : addr ≠ 0x500) :
    governed.createParamsInstance addr = .ok [] := by
  rw [TscDGP.createParamsInstance]
  simp only [governed, if_neg hgas, htemplate, false_and, if_false]

theorem steady_eleven {addr : Address} (htemplate : addr ≠ 0x500) : governed.Steady addr 11 := by
  intro paramsInstance hinstances i hi
  by_cases hgas : addr = GasPriceDGP
  · rw [hgas, createParamsInstance_gasPrice] at hinstances
    cases hinstances
    cases hi
    decide
  · rw [createParamsInstance_other hgas htemplate] at hinstances
    cases hinstances
    cases hi

theorem steady_contracts : ∀ addr ∈ [GasScheduleDGP, BlockSizeDGP, GasPriceDGP, BlockGasLimitDGP],
    governed.Steady addr 11 := by
  simp only [List.forall_mem_cons]
  exact ⟨steady_eleven (by decide), steady_eleven (by decide), steady_eleven (by decide),
    steady_eleven (by decide), by simp⟩

end GasPriceChange

open GasPriceChange in
theorem createGovernance_eq_connectGovernance_gasPrice :
    governed.createGovernance none (tip 9) = governed.connectGovernance ((tip 9).child default) ∧
      governed.createGovernance none (tip 9) = .ok ⟨EIP158Schedule, 2000000, 100, 40000000⟩ :=
  ⟨(createGovernance_eq_connectGovernance governed none (tip 9) default).1 steady_contracts
    (by simp), by decide +kernel⟩

open GasPriceChange in
/-- Block nine is built with the default price of forty and validated with the price of one hundred that is in force from block ten on. -/
theorem gas_price_one_block_early :
    governed.createGovernance none (tip 8) = .ok ⟨EIP158Schedule, 2000000, 40, 40000000⟩ ∧
      governed.connectGovernance ((tip 8).child default) =
        .ok ⟨EIP158Schedule, 2000000, 100, 40000000⟩ := by
  decide +kernel

end TscPow
