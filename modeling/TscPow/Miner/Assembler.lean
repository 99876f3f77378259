import TscPow.Contract.Results
import TscPow.Mempool.TxMempool
import TscPow.Validation.ConnectBlock

/-!
# Adding a contract transaction to a block

`AttemptToAddContractToBlock` (`miner.cpp`) executes the contract outputs of a transaction of the memory pool and adds it to the block together with the transfers it leads to, unless the time, the gas or the limits of the block turn it down; then the state is put back.

The adjusted time is given as its values one reading after the other. Sizes and numbers of signature operations are unbounded; those that the source subtracts from an unsigned counter have been added to it before.
-/

namespace TscPow

def BYTECODE_TIME_BUFFER : Int := 6

def getTransactionWeight (tx : Tx) : Nat := tx.strippedSize * (WITNESS_SCALE_FACTOR - 1) + tx.totalSize

/-- Contract execution over a state `World`. `performByteCode` changes the state also if it returns `false`. `setRoots` puts the roots of an earlier state back. -/
structure ContractEngine (World : Type) where
  extractionTscTransactions : Tx → List Tx → Option (List TscTransaction)
  performByteCode : World → Block → List TscTransaction → Nat → World × List ResultExecute × Bool
  setRoots : World → World → World

/-- What stays the same while a block is filled. -/
structure AssemblerParams where
  nHeight : Nat
  nLockTimeCutoff : Int
  fIncludeWitness : Bool
  nTimeLimit : Int
  getAdjustedTime : Nat → Int
  disableContractStaking : Bool
  minGasPrice : Nat
  txGasLimit : Nat
  softBlockGasLimit : Nat
  hardBlockGasLimit : Nat
  nBlockMaxWeight : Nat
  limits : Limits
  blockMinFeeRate : Amount
  originalRewardTx : Tx

/-- The members of `BlockAssembler` and of its template that change. `readings` counts how often the time has been looked at. -/
structure BlockAssembler (World : Type) where
  block : Block
  vTxFees : List Amount
  vTxSigOpsCost : List Int
  nBlockWeight : Nat
  nBlockSigOpsCost : Nat
  nBlockTx : Nat
  nFees : Amount
  inBlock : List Uint256
  bceResult : ByteCodeExecResult
  world : World
  readings : Nat

namespace BlockAssembler

variable {World : Type} (engine : ContractEngine World) (p : AssemblerParams)

/-- The test of the time, which comes before `lookAtTime`. -/
def late (s : BlockAssembler World) (limit : Int) : Bool :=
  decide (p.nTimeLimit ≠ 0) && decide (limit ≤ p.getAdjustedTime s.readings)

def lookAtTime (s : BlockAssembler World) : BlockAssembler World := { s with readings := s.readings + 1 }

def rewardTx (nFees : Amount) (bceResult : ByteCodeExecResult) : Tx :=
  { p.originalRewardTx with
    vout := (p.originalRewardTx.vout.modifyHead fun out =>
      ⟨nFees + (getBlockSubsidy p.nHeight).tdiv 10 * 7 - bceResult.refundSender,
        out.scriptPubKey⟩) ++
      bceResult.refundOutputs }

def rebuildRefundTransaction (s : BlockAssembler World) : BlockAssembler World :=
  { s with block := { s.block with vtx := s.block.vtx.set 0 (rewardTx p s.nFees s.bceResult) } }

def proofTx (s : BlockAssembler World) : Tx := s.block.vtx.headD ⟨0, [], [], 0⟩

/-- The test of the gas limits and prices of the contract outputs, with the gas of those before. -/
def gasAcceptable (usedGas : Nat) : Nat → List TscTransaction → Bool
  | _, [] => true
  | txGas, qtx :: rest =>
    decide (txGas + qtx.gas ≤ p.txGasLimit) && decide (usedGas + qtx.gas ≤ p.softBlockGasLimit) &&
      decide (p.minGasPrice ≤ qtx.gasPrice) &&
      gasAcceptable usedGas (txGas + qtx.gas) rest

/-- The contract outputs that are to be executed; without any, the transaction is turned down before. -/
def executable (s : BlockAssembler World) (e : CTxMemPoolEntry) : Option (List TscTransaction) :=
  if s.late p (p.nTimeLimit - BYTECODE_TIME_BUFFER) || p.disableContractStaking then none
  else (engine.extractionTscTransactions e.tx s.block.vtx).filter (gasAcceptable p s.bceResult.usedGas 0)

/-- The weight and the signature operations of the block with a contract transaction and what comes of it. -/
def costsWith (s : BlockAssembler World) (e : CTxMemPoolEntry)
    (testExecResult : ByteCodeExecResult) : Nat × Nat :=
  let contrTx := { s.proofTx with vout := s.proofTx.vout ++ testExecResult.refundOutputs }
  (s.nBlockWeight + getTransactionWeight e.tx +
    (testExecResult.valueTransfers.map getTransactionWeight).sum,
    s.nBlockSigOpsCost + e.sigOpCost + (testExecResult.valueTransfers.map getLegacySigOpCount).sum +
      getLegacySigOpCount contrTx -
      getLegacySigOpCount s.proofTx)

/-- Whether the results of an execution fit into the block. -/
def fits (s : BlockAssembler World) (e : CTxMemPoolEntry) (testExecResult : ByteCodeExecResult) : Bool :=
  decide ((s.bceResult.usedGas + testExecResult.usedGas) % 2 ^ 64 ≤ p.softBlockGasLimit) &&
    decide ((s.costsWith e testExecResult).2 * WITNESS_SCALE_FACTOR ≤ p.limits.dgpMaxBlockSigOps) &&
    decide ((s.costsWith e testExecResult).1 ≤ p.limits.dgpMaxBlockWeight)

def addToBlock (s : BlockAssembler World) (iter : Uint256) (e : CTxMemPoolEntry) : BlockAssembler World :=
  { s with
    block := { s.block with vtx := s.block.vtx ++ [e.tx] }
    vTxFees := s.vTxFees ++ [e.nFee]
    vTxSigOpsCost := s.vTxSigOpsCost ++ [(e.sigOpCost : Int)]
    nBlockWeight := s.nBlockWeight + getTransactionWeight e.tx
    nBlockTx := s.nBlockTx + 1
    nBlockSigOpsCost := s.nBlockSigOpsCost + e.sigOpCost
    nFees := s.nFees + e.nFee
    inBlock := s.inBlock ++ [iter] }

def addTransfers (s : BlockAssembler World) (transfers : List Tx) : BlockAssembler World :=
  { s with
    block := { s.block with vtx := s.block.vtx ++ transfers }
    nBlockWeight := s.nBlockWeight + (transfers.map getTransactionWeight).sum
    nBlockTx := s.nBlockTx + transfers.length
    nBlockSigOpsCost := s.nBlockSigOpsCost + (transfers.map getLegacySigOpCount).sum }

def applyExecution (s : BlockAssembler World) (iter : Uint256) (e : CTxMemPoolEntry)
    (testExecResult : ByteCodeExecResult) : BlockAssembler World :=
  let bceResult : ByteCodeExecResult :=
    { usedGas := (s.bceResult.usedGas + testExecResult.usedGas) % 2 ^ 64
      refundSender := s.bceResult.refundSender + testExecResult.refundSender
      refundOutputs := s.bceResult.refundOutputs ++ testExecResult.refundOutputs
      valueTransfers := [] }
  let added :=
    ({ s with bceResult := bceResult }.addToBlock iter e).addTransfers testExecResult.valueTransfers
  let rebuilt := added.rebuildRefundTransaction p
  { rebuilt with
    nBlockSigOpsCost := added.nBlockSigOpsCost +
      getLegacySigOpCount rebuilt.proofTx - getLegacySigOpCount added.proofTx }

def attemptToAddContractToBlock (s : BlockAssembler World) (iter : Uint256) (e : CTxMemPoolEntry) :
    BlockAssembler World × Bool :=
  let looked := s.lookAtTime
  match s.executable engine p e with
  | none => (looked, false)
  | some tscTransactions =>
    let exec := engine.performByteCode s.world s.block tscTransactions p.hardBlockGasLimit
    let reverted := { looked with world := engine.setRoots s.world exec.1 }
    if !exec.2.2 then (reverted, false)
    else
      match processingResults tscTransactions exec.2.1 with
      | none => (reverted, false)
      | some testExecResult =>
        if !s.fits p e testExecResult then (reverted, false)
        else ({ looked with world := exec.1 }.applyExecution p iter e testExecResult, true)

end BlockAssembler

end TscPow
