import TscPow.Contract.Results
import TscPow.Validation.CheckBlock

/-!
# Connecting a block

`ConnectBlock` and `CheckReward` (`validation.cpp`): the transactions of a block are applied one after another to the view of unspent coins and to the contract state, fees are added up, and the coinbase is held against the reward. Contract execution enters as a parameter, `Contracts`; writing undo data and indexes to disk is taken to succeed and is not represented.
-/

namespace TscPow

/-- The values that the on-chain governance contracts set for a height. -/
structure Dgp where
  blockSize : Nat
  minGasPrice : Nat
  blockGasLimit : Nat

/-- Contract execution over a state `World`: the governance values, the conversion of contract outputs, execution with commitment, and the two state roots. -/
structure Contracts (World : Type) where
  dgp : World → Int → Dgp
  extractionTscTransactions : Tx → CoinsView → List Tx → Option (List TscTransaction)
  performByteCode : World → Block → List TscTransaction → Nat → Option (World × List ResultExecute)
  rootHash : World → Uint256
  rootHashUTXO : World → Uint256

def isPayToPubkey (script : Script) : Bool :=
  (script.length == 35 && script[0]? == some 33 && script[34]? == some 0xac &&
      (script[1]? == some 0x02 || script[1]? == some 0x03)) ||
    (script.length == 67 && script[0]? == some 65 && script[66]? == some 0xac && script[1]? == some 0x04)

def isPayToPubkeyHash (script : Script) : Bool :=
  script.length == 25 && script[0]? == some 0x76 && script[1]? == some 0xa9 && script[2]? == some 0x14 &&
    script[23]? == some 0x88 && script[24]? == some 0xac

def checkSenderScript (view : CoinsView) (tx : Tx) : Bool :=
  match tx.vin with
  | [] => false
  | input :: _ =>
    let script := (view.accessCoin input.prevout).out.scriptPubKey
    isPayToPubkeyHash script || isPayToPubkey script

def getBlockSubsidy (nHeight : Nat) : Amount := if nHeight ≤ TICKET_VALVE then 260000 * COIN
    else 2200 * COIN

def getBlockScriptFlags (env : Env) (pindex : BlockIndex) : Nat :=
  (if pindex.getBlockTime ≥ 1333238400 then SCRIPT_VERIFY_P2SH else 0) |||
    (if (pindex.nHeight : Int) ≥ env.params.BIP66Height then 2 ^ 2 else 0) |||
    (if (pindex.nHeight : Int) ≥ env.params.BIP65Height then 2 ^ 9 else 0) |||
    (if env.csvActive pindex.pprev then 2 ^ 10 else 0) |||
    (if env.segwitActive pindex.pprev then 2 ^ 11 ||| 2 ^ 4 else 0)

/-! ### Relative lock times -/

/-- The loop of `CalculateSequenceLocks` over the inputs and the heights of the coins they spend. -/
def sequenceLock (pindex : BlockIndex) (lock : Int × Int) (input : TxIn × Int) :
    Except Fault (Int × Int) :=
  let (txin, nCoinHeight) := input
  if txin.nSequence &&& 0x80000000 ≠ 0 then .ok lock
  else
    let locktime : Int := (txin.nSequence &&& 0x0000ffff).toNat
    if txin.nSequence &&& 0x00400000 ≠ 0 then
      match pindex.getAncestor (max (nCoinHeight - 1) 0) with
      | none => .error .undefined
      | some ancestor => .ok (lock.1, max lock.2 (ancestor.getMedianTimePast + locktime * 512 - 1))
    else .ok (max lock.1 (nCoinHeight + locktime - 1), lock.2)

def sequenceLocks (tx : Tx) (fVerifySequence : Bool) (prevHeights : List Int)
    (pindex : BlockIndex) : Except Fault Bool := do
  let enforce := fVerifySequence ∧ tx.nVersion % 2 ^ 32 ≥ 2
  let (nMinHeight, nMinTime) ← if enforce then
    (tx.vin.zip prevHeights).foldlM (sequenceLock pindex) (-1, -1) else .ok (-1, -1)
  match pindex.pprev with
  | none => .error .assertion
  | some pprev => .ok (decide (¬ (nMinHeight ≥ pindex.nHeight ∨ nMinTime ≥ pprev.getMedianTimePast)))

/-! ### Script checks -/

/-- `STANDARD_NOT_MANDATORY_VERIFY_FLAGS`: every flag but `P2SH` and `SIGPUSHONLY`. -/
def STANDARD_NOT_MANDATORY_VERIFY_FLAGS : Nat := 2 ^ 16 - 1 - 2 ^ 0 - 2 ^ 5

/-- The script check of input `i` in `CheckInputs`, performed inline. -/
def checkInputScript (env : Env) (tx : Tx) (inputs : CoinsView) (flags : Nat) (input : TxIn × Nat) :
    Validation Unit :=
  let out := (inputs.accessCoin input.1.prevout).out
  match env.interpreter.verifyScript tx input.2 out flags with
  | none => .ok ()
  | some err =>
    let mandatory := flags &&& (2 ^ 32 - 1 - STANDARD_NOT_MANDATORY_VERIFY_FLAGS)
    if flags &&& STANDARD_NOT_MANDATORY_VERIFY_FLAGS ≠ 0 ∧
      env.interpreter.verifyScript tx input.2 out mandatory = none then
      .error (.invalid ⟨0, REJECT_NONSTANDARD, "non-mandatory-script-verify-flag (" ++ err ++ ")", false⟩)
    else .error
      (.invalid ⟨100, REJECT_INVALID, "mandatory-script-verify-flag-failed (" ++ err ++ ")", false⟩)

/-- `CheckInputs` for a transaction that is not a coinbase. With a queue for script checks it answers whether they will pass; without one they are performed here. -/
def checkInputs (env : Env) (tx : Tx) (inputs : CoinsView) (nSpendHeight : Int)
    (fScriptChecks : Bool) (flags : Nat) (queued : Bool) : Validation Bool := do
  checkTxInputs tx inputs nSpendHeight
  if fScriptChecks then
    if queued then
      pure (tx.vin.zipIdx.all fun (txin, i) =>
        (env.interpreter.verifyScript tx i (inputs.accessCoin txin.prevout).out flags).isNone)
    else
      tx.vin.zipIdx.forM (checkInputScript env tx inputs flags)
      pure true
  else pure true

/-! ### The transaction loop -/

/-- What stays fixed while the transactions of a block are connected. -/
structure Connection where
  block : Block
  pindex : BlockIndex
  fJustCheck : Bool
  fScriptChecks : Bool
  scriptCheckThreads : Bool
  limits : Limits
  minGasPrice : Nat
  blockGasLimit : Nat

/-- The local variables of `ConnectBlock` that the loop changes; `queuedChecks` is what `control.Wait()` will answer. -/
structure Connecting (World : Type) where
  view : CoinsView
  world : World
  nFees : Amount
  nActualStakeReward : Amount
  nSigOpsCost : Nat
  blockGasUsed : Nat
  gasRefunds : Amount
  nValueOut : Nat
  nValueIn : Nat
  checkVtx : List Tx
  checkVouts : List TxOut
  vtxundo : List (List Coin)
  queuedChecks : Bool

variable {World : Type} (env : Env) (contracts : Contracts World) (c : Connection)

/-- Availability and relative lock times of the inputs. -/
def checkAvailable (view : CoinsView) (tx : Tx) : Validation Unit := do
  rule (view.haveInputs tx) ⟨100, REJECT_INVALID, "bad-txns-inputs-missingorspent", false⟩
  let prevheights := tx.vin.map fun i => ((view.accessCoin i.prevout).nHeight : Int)
  let final ← orFault (sequenceLocks tx (env.csvActive c.pindex.pprev) prevheights c.pindex)
  rule final ⟨100, REJECT_INVALID, "bad-txns-nonfinal", false⟩

/-- The part of the loop for a transaction that is not a coinbase: fee or stake reward, `CheckInputs`, and no contract coin spent without `OP_SPEND`. -/
def checkSpend (st : Connecting World) (tx : Tx) : Validation (Connecting World) := do
  let nValueOut ← orFault tx.getValueOut
  let nValueIn := st.view.getValueIn tx
  let st := if tx.isCoinStake then { st with nActualStakeReward := nValueOut - nValueIn }
    else { st with nFees := st.nFees + (nValueIn - nValueOut) }
  let queued := c.scriptCheckThreads && !(tx.hasOpSpend || tx.hasCreateOrCall)
  let passes ← checkInputs env tx st.view c.pindex.nHeight c.fScriptChecks
    (getBlockScriptFlags env c.pindex) queued
  rule (∀ i ∈ tx.vin, !Script.hasOpSpend i.scriptSig →
      !(Script.hasOpCreate (st.view.accessCoin i.prevout).out.scriptPubKey ||
        Script.hasOpCall (st.view.accessCoin i.prevout).out.scriptPubKey))
    ⟨100, REJECT_INVALID, "bad-txns-invalid-contract-spend", false⟩
  pure { st with queuedChecks := st.queuedChecks && passes }

/-- The totals behind the money supply, kept as `uint64_t`. -/
def tallyValues (st : Connecting World) (tx : Tx) : Validation (Connecting World) :=
  if tx.isCoinBase then do
    let realOut ← orFault tx.getCoinBaseRealOut
    let minted := if c.pindex.nHeight > TICKET_VALVE then realOut - TICKET_PRICE * 5 * COIN else realOut
    pure { st with nValueOut := ((st.nValueOut + minted) % 2 ^ 64).toNat }
  else do
    let nTxValueOut ← orFault tx.getValueOut
    pure { st with
      nValueIn := ((st.nValueIn + st.view.getValueIn tx) % 2 ^ 64).toNat
      nValueOut := ((st.nValueOut + nTxValueOut) % 2 ^ 64).toNat }

def MINIMUM_GAS_LIMIT : Nat := 10000

/-- The state of the loop over the converted outputs: `sumGas`, `gasAllTxs` and `nonZeroVersion`. -/
abbrev GasTally := Nat × Nat × Bool

/-- The checks on one converted output before execution. -/
def checkTscTransaction (nTxFee : Amount) (tally : GasTally) (qtx : TscTransaction) :
    Validation GasTally := do
  let (sumGas, gasAllTxs, nonZeroVersion) := tally
  let sumGas : Nat := (sumGas + qtx.gas * qtx.gasPrice) % 2 ^ 256
  rule (sumGas ≤ 2 ^ 63 - 1) ⟨100, REJECT_INVALID, "bad-tx-gas-stipend-overflow", false⟩
  -- `dev::u256(nTxFee)` of a negative fee is a huge number
  rule ((sumGas : Int) ≤ nTxFee % 2 ^ 256) ⟨100, REJECT_INVALID, "bad-txns-fee-notenough", false⟩
  let v := qtx.version
  rule (v.format = 0) ⟨100, REJECT_INVALID, "bad-tx-version-format", false⟩
  rule (v.rootVM = 0 → !nonZeroVersion) ⟨100, REJECT_INVALID, "bad-tx-mixed-zero-versions", false⟩
  rule (v.rootVM = 0 ∨ v.rootVM = 1) ⟨100, REJECT_INVALID, "bad-tx-version-rootvm", false⟩
  rule (v.vmVersion = 0) ⟨100, REJECT_INVALID, "bad-tx-version-vmversion", false⟩
  rule (v.flagOptions = 0) ⟨100, REJECT_INVALID, "bad-tx-version-flags", false⟩
  rule (¬ (qtx.gas < MINIMUM_GAS_LIMIT ∧ v.rootVM ≠ 0))
    ⟨100, REJECT_INVALID, "bad-tx-too-little-gas", false⟩
  rule (qtx.gas ≤ 2 ^ 32 - 1) ⟨100, REJECT_INVALID, "bad-tx-too-much-gas", false⟩
  let gasAllTxs := gasAllTxs + qtx.gas
  rule (gasAllTxs ≤ c.blockGasLimit) ⟨1, REJECT_INVALID, "bad-txns-gas-exceeds-blockgaslimit", false⟩
  rule (¬ (v.rootVM ≠ 0 ∧ qtx.gasPrice % 2 ^ 64 < c.minGasPrice))
    ⟨100, REJECT_INVALID, "bad-tx-low-gas-price", false⟩
  pure (sumGas, gasAllTxs, nonZeroVersion || v.rootVM != 0)

/-- The contract part of the loop: convert, check, execute, and collect refunds and value transfers. -/
def runContracts (st : Connecting World) (tx : Tx) : Validation (Connecting World) := do
  rule (checkSenderScript st.view tx) ⟨100, REJECT_INVALID, "bad-txns-invalid-sender-script", false⟩
  let txs ← valueOr (contracts.extractionTscTransactions tx st.view c.block.vtx)
    (.invalid ⟨100, REJECT_INVALID, "bad-tx-bad-contract-format", false⟩)
  rule (∀ qtx ∈ txs, c.minGasPrice ≤ qtx.gasPrice) ⟨100, REJECT_INVALID, "bad-tx-low-gas-price", false⟩
  let nValueOut ← orFault tx.getValueOut
  let (_, _, nonZeroVersion) ←
    txs.foldlM (checkTscTransaction c (st.view.getValueIn tx - nValueOut)) (0, 0, false)
  rule (!nonZeroVersion → tx.hasOpSpend) ⟨100, REJECT_INVALID, "bad-tx-improper-version-0", false⟩
  let (world, results) ← valueOr (contracts.performByteCode st.world c.block txs c.blockGasLimit)
    (.invalid ⟨100, REJECT_INVALID, "bad-tx-unknown-error", false⟩)
  let bcer ← valueOr (processingResults txs results)
    (.invalid ⟨100, REJECT_INVALID, "bad-vm-exec-processing", false⟩)
  let blockGasUsed := (st.blockGasUsed + bcer.usedGas) % 2 ^ 64
  rule (blockGasUsed ≤ c.blockGasLimit) ⟨1000, REJECT_INVALID, "bad-blk-gaslimit", false⟩
  pure { st with
    world := world
    blockGasUsed := blockGasUsed
    gasRefunds := st.gasRefunds + (bcer.refundOutputs.map TxOut.nValue).sum
    checkVouts := st.checkVouts ++ bcer.refundOutputs
    checkVtx := st.checkVtx ++ bcer.valueTransfers }

/-- One round of the loop of `ConnectBlock` over `block.vtx`. -/
def connectTx (st : Connecting World) (tx : Tx) : Validation (Connecting World) := do
  if tx.isCoinBase then pure () else checkAvailable env c st.view tx
  let cost ←
    orFault (getTransactionSigOpCost env.interpreter tx st.view (getBlockScriptFlags env c.pindex))
  let st := { st with nSigOpsCost := st.nSigOpsCost + cost }
  rule (st.nSigOpsCost ≤ c.limits.dgpMaxBlockSigOps) ⟨100, REJECT_INVALID, "bad-blk-sigops", false⟩
  let st ← if tx.isCoinBase then pure st else checkSpend env c st tx
  let st ← tallyValues c st tx
  let st := if tx.hasOpSpend then st else { st with checkVtx := st.checkVtx ++ [tx] }
  let st ← if tx.hasCreateOrCall && !tx.hasOpSpend then runContracts contracts c st tx else pure st
  let (view, undo) ← orFault (st.view.updateCoins (env.hashing.txHash tx) tx c.pindex.nHeight)
  pure { st with view := view, vtxundo := st.vtxundo ++ [undo] }

/-! ### The reward -/

/-- The search of `CheckReward` for the gas refunds among the coinbase outputs: each takes out the first equal output. -/
def takeRefund (vTempVouts : List TxOut) (vout : TxOut) : Validation (List TxOut) :=
  if vout ∈ vTempVouts then .ok (vTempVouts.erase vout)
  else .error (.invalid ⟨100, 0, "", false⟩)

/-- The number of coinbase outputs after the first, the `N` of `CheckReward`. -/
def rewardOutputs (vtx : List Tx) : Int :=
  match vtx.find? Tx.isCoinBase with
  | none => 0
  | some tx => (tx.vout.length : Int) - 1

/-- The most that the coinbase may pay: fees, subsidy and one ticket price for every output after the first. The sum is made in 64 bits, and so is the product `N * TICKET_PRICE * COIN`: compilers multiply by the product of the two constants. -/
def blockReward (nHeight : Nat) (vtx : List Tx) (nFees : Amount) : Except Fault Amount :=
  let reward := nFees + getBlockSubsidy nHeight + rewardOutputs vtx * TICKET_PRICE * COIN
  if -2 ^ 63 ≤ reward ∧ reward < 2 ^ 63 then .ok reward else .error .undefined

theorem blockReward_eq_ok_iff {nHeight : Nat} {vtx : List Tx} {nFees limit : Amount} :
    blockReward nHeight vtx nFees = .ok limit ↔
      nFees + getBlockSubsidy nHeight + rewardOutputs vtx * TICKET_PRICE * COIN = limit ∧
        -2 ^ 63 ≤ limit ∧ limit < 2 ^ 63 := by
  rw [blockReward]
  constructor
  · intro h
    split at h
    · cases h
      exact ⟨rfl, ‹_›⟩
    · cases h
  · rintro ⟨rfl, hbounds⟩
    exact if_pos hbounds

/-- `CheckReward`, for proof of work. -/
def checkReward (block : Block) (nHeight : Nat) (nFees : Amount) (vouts : List TxOut) : Validation Unit :=
  match block.vtx with
  | [] => .error (.fault .undefined)
  | coinbase :: _ => do
    let _ ← vouts.foldlM takeRefund coinbase.vout
    let limit ← orFault (blockReward nHeight block.vtx nFees)
    let valueOut ← orFault coinbase.getValueOut
    rule (¬ valueOut > limit) ⟨100, REJECT_INVALID, "bad-cb-amount", false⟩

/-- A failure inside `CheckReward` reaches the caller as another `DoS(100)`, which also clears the code and the reason. -/
def rewardFailure {α : Type} (x : Validation α) : Validation α :=
  x.mapError fun
    | .invalid reject => .invalid ⟨reject.nDoS + 100, 0, "", false⟩
    | .fault f => .fault f

/-! ### The whole block -/

/-- The arguments of `ConnectBlock` and the globals it reads. `phashBlock` says whether the index entry has its hash yet, which it lacks only when a block template is tested; `nMoneySupply` is the supply recorded for the parent. -/
structure ConnectInput (World : Type) where
  block : Block
  pindex : BlockIndex
  view : CoinsView
  world : World
  dgpMaxBlockSize : Nat
  nMoneySupply : Nat
  fJustCheck : Bool
  fScriptChecks : Bool
  scriptCheckThreads : Bool
  phashBlock : Bool

structure ConnectOutput (World : Type) where
  view : CoinsView
  world : World
  nMoneySupply : Nat
  vtxundo : List (List Coin)

namespace ConnectInput

variable (x : ConnectInput World)

/-- The limits after the block size of the governance contract, if it sets one, has taken effect. -/
def limits : Limits :=
  let sizeBlockDGP := (contracts.dgp x.world (x.pindex.nHeight + 1)).blockSize
  Limits.ofBlockSize (if sizeBlockDGP ≠ 0 then sizeBlockDGP else x.dgpMaxBlockSize)

def connection : Connection where
  block := x.block
  pindex := x.pindex
  fJustCheck := x.fJustCheck
  fScriptChecks := x.fScriptChecks
  scriptCheckThreads := x.scriptCheckThreads
  limits := x.limits contracts
  minGasPrice := (contracts.dgp x.world (x.pindex.nHeight + 1)).minGasPrice
  blockGasLimit := (contracts.dgp x.world (x.pindex.nHeight + 1)).blockGasLimit

def start : Connecting World where
  view := x.view
  world := x.world
  nFees := 0
  nActualStakeReward := 0
  nSigOpsCost := 0
  blockGasUsed := 0
  gasRefunds := 0
  nValueOut := 0
  nValueIn := 0
  checkVtx := []
  checkVouts := []
  vtxundo := []
  queuedChecks := true

/-- The state of the loop after a number of transactions. -/
def connectPrefix (n : Nat) : Validation (Connecting World) :=
  (x.block.vtx.take n).foldlM (connectTx env contracts (x.connection contracts)) x.start

end ConnectInput

/-- Rejects blocks that overwrite unspent transactions. The rule is in force only for index entries without a hash. -/
def enforceBIP30 (x : ConnectInput World) (pprev : BlockIndex) : Validation Unit :=
  let known := (pprev.getAncestor env.params.BIP34Height).any fun i =>
    env.hashing.blockHash i.header = env.params.BIP34Hash
  rule (!x.phashBlock ∧ !known → ∀ tx ∈ x.block.vtx, ∀ o < tx.vout.length,
      !x.view.haveCoin ⟨env.hashing.txHash tx, BitVec.ofNat 32 o⟩)
    ⟨100, REJECT_INVALID, "bad-txns-BIP30", false⟩

/-- The header of the block that the source rebuilds from the transactions it expects and the resulting contract state. -/
def checkBlockHash (x : ConnectInput World) (st : Connecting World) : Uint256 :=
  env.hashing.blockHash { x.block.header with
    hashMerkleRoot := (blockMerkleRoot env st.checkVtx).1
    hashStateRoot := contracts.rootHash st.world
    hashUTXORoot := contracts.rootHashUTXO st.world }

/-- The largest money supply that is accepted above the ticket valve. The count of coins is an `int`, the product a `uint64_t`. -/
def expectedMoneySupply (nHeight : Nat) : Nat :=
  (Int.bmod (100000000 * 13 + ((nHeight : Int) - TICKET_VALVE) * 2200) (2 ^ 32) * COIN % 2 ^ 64).toNat

/-- `ConnectBlock`, after the special case of the genesis block. -/
def connectTransactions (x : ConnectInput World) : Validation (ConnectOutput World) := do
  let pprev ← valueOr x.pindex.pprev (.fault .undefined)
  let nBits ← orFault (getNextWorkRequired pprev x.block.header env.params)
  rule (x.block.nBits = nBits) ⟨100, 0, "", false⟩
  enforceBIP30 env x pprev
  let st ← x.block.vtx.foldlM (connectTx env contracts (x.connection contracts)) x.start
  rule (¬ st.nFees < st.gasRefunds) ⟨1000, REJECT_INVALID, "bad-blk-fees-greater-gasrefund", false⟩
  rewardFailure (checkReward x.block x.pindex.nHeight st.nFees st.checkVouts)
  rule st.queuedChecks ⟨100, REJECT_INVALID, "block-validation-failed", false⟩
  rule (checkBlockHash env contracts x st = env.hashing.blockHash x.block.header ∨ x.fJustCheck)
    ⟨100, REJECT_INVALID, "incorrect-transactions-or-hashes-block", false⟩
  -- a test run puts the contract state of the parent back
  if x.fJustCheck then pure ⟨st.view, x.world, x.nMoneySupply, st.vtxundo⟩
  else
    let nMoneySupply := (((x.nMoneySupply : Int) + st.nValueOut - st.nValueIn) % 2 ^ 64).toNat
    rule (x.pindex.nHeight > 5000 ∧ !env.params.fPoSNoRetargeting →
      nMoneySupply ≤ expectedMoneySupply x.pindex.nHeight)
      ⟨100, REJECT_INVALID, "incorrect-money-supply", false⟩
    pure ⟨{ st.view with bestBlock := env.hashing.blockHash x.pindex.header }, st.world,
      nMoneySupply, st.vtxundo⟩

def connectBlock (x : ConnectInput World) : Validation (ConnectOutput World) := do
  let limits := x.limits contracts
  asserts (x.phashBlock → env.hashing.blockHash x.pindex.header = env.hashing.blockHash x.block.header)
  rule (x.block.vtx ≠ [] ∧ x.block.vtx.length ≤ limits.dgpMaxBlockSize ∧
    x.block.strippedSize ≤ limits.dgpMaxBlockSize)
    ⟨100, REJECT_INVALID, "bad-blk-length", false⟩
  rule (x.block.weight ≤ limits.dgpMaxBlockWeight) ⟨100, REJECT_INVALID, "bad-blk-weight", false⟩
  checkBlock env limits x.block (!x.fJustCheck) (!x.fJustCheck)
  let hashPrevBlock :=
    x.pindex.pprev.elim (Uint256.ofNat 0) fun pprev => env.hashing.blockHash pprev.header
  asserts (hashPrevBlock = x.view.bestBlock)
  if env.hashing.blockHash x.block.header = env.params.hashGenesisBlock then
    let view := if x.fJustCheck then x.view
      else { x.view with bestBlock := env.hashing.blockHash x.pindex.header }
    pure ⟨view, x.world, x.nMoneySupply, []⟩
  else connectTransactions env contracts x

end TscPow
