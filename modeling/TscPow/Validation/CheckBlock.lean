import TscPow.Consensus.TxVerify
import TscPow.Pow.NextWork

/-!
# Block rules without context

`CheckBlock` (`validation.cpp`). The rules on coin stakes that the source inherited are commented out there, with the remark that there will be no more coin stakes; what is left on non-coinbase transactions is `CheckTransaction` and the order of contract spends.
-/

namespace TscPow

/-- What block validation depends on outside the data it checks: the hash functions, the script interpreter, the network's parameters and the version-bits state of the two soft forks after a given block. -/
structure Env where
  hashing : Hashing
  interpreter : Interpreter
  params : Params
  csvActive : Option BlockIndex → Bool
  segwitActive : Option BlockIndex → Bool

variable (env : Env)

def Block.header (block : Block) : BlockHeader := block.toBlockHeader

def blockMerkleRoot (vtx : List Tx) : Uint256 × Bool :=
  env.hashing.merkleRoot (vtx.map env.hashing.txHash)

def checkBlockHeader (block : BlockHeader) (fCheckPOW : Bool) : Validation Unit :=
  rule (fCheckPOW ∧ !block.isProofOfStake →
    checkProofOfWork (env.hashing.blockHash block) block.nBits env.params)
    ⟨50, REJECT_INVALID, "high-hash", false⟩

/-- The loop of `CheckBlock` over the transactions; the state is `lastWasContract`. -/
def checkBlockTx (limits : Limits) (lastWasContract : Bool) (tx : Tx) : Validation Bool := do
  checkTransaction env.interpreter limits tx true
  rule (tx.hasOpSpend → lastWasContract) ⟨100, REJECT_INVALID, "bad-opspend-tx", false⟩
  pure (tx.hasCreateOrCall || tx.hasOpSpend)

def checkBlock (limits : Limits) (block : Block) (fCheckPOW fCheckMerkleRoot : Bool) :
    Validation Unit := do
  checkBlockHeader env block.header fCheckPOW
  rule (fCheckMerkleRoot → block.hashMerkleRoot = (blockMerkleRoot env block.vtx).1)
    ⟨100, REJECT_INVALID, "bad-txnmrklroot", true⟩
  rule (fCheckMerkleRoot → !(blockMerkleRoot env block.vtx).2)
    ⟨100, REJECT_INVALID, "bad-txns-duplicate", true⟩
  rule (block.vtx ≠ [] ∧ block.vtx.length ≤ limits.dgpMaxBlockSize ∧
    block.strippedSize ≤ limits.dgpMaxBlockSize)
    ⟨100, REJECT_INVALID, "bad-blk-length", false⟩
  rule (∃ tx ∈ block.vtx.head?, tx.isCoinBase) ⟨100, REJECT_INVALID, "bad-cb-missing", false⟩
  rule (∀ tx ∈ block.vtx.tail, !tx.isCoinBase) ⟨100, REJECT_INVALID, "bad-cb-multiple", false⟩
  rule (∀ tx ∈ block.vtx.head?, !(tx.hasOpSpend || tx.hasCreateOrCall))
    ⟨100, REJECT_INVALID, "bad-cb-contract", false⟩
  let _ ← block.vtx.foldlM (checkBlockTx env limits) false
  -- the counters are `unsigned int`
  rule ((block.vtx.map getLegacySigOpCount).sum * WITNESS_SCALE_FACTOR % 2 ^ 32 ≤
    limits.dgpMaxBlockSigOps)
    ⟨100, REJECT_INVALID, "bad-blk-sigops", false⟩

/-! ### What `CheckBlock` establishes -/

theorem checkBlock_coinbase {limits : Limits} {block : Block} {fCheckPOW fCheckMerkleRoot : Bool}
    (h : checkBlock env limits block fCheckPOW fCheckMerkleRoot = .ok ()) :
    ∃ coinbase rest, block.vtx = coinbase :: rest ∧ coinbase.isCoinBase = true ∧ ∀ tx ∈ rest,
      tx.isCoinBase = false := by
  simp only [checkBlock, Except.bind_eq_ok_iff, rule_eq_ok_iff] at h
  obtain ⟨-, -, -, -, -, -, -, -, -, hfirst, -, hrest, -⟩ := h
  cases hvtx : block.vtx with
  | nil => simp [hvtx] at hfirst
  | cons coinbase rest =>
    refine ⟨coinbase, rest, rfl, ?_, ?_⟩
    · simpa [hvtx] using hfirst
    · intro tx htx
      simpa using hrest tx (by simpa [hvtx] using htx)

theorem vin_ne_nil_of_checkTransaction {interpreter : Interpreter} {limits : Limits} {tx : Tx}
    {fCheckDuplicateInputs : Bool}
    (h : checkTransaction interpreter limits tx fCheckDuplicateInputs = .ok ()) : tx.vin ≠ [] := by
  simp only [checkTransaction, Except.bind_eq_ok_iff, rule_eq_ok_iff] at h
  obtain ⟨-, hvin, -⟩ := h
  exact hvin

theorem checkTransaction_of_checkBlock {env : Env} {limits : Limits} {block : Block}
    {fCheckPOW fCheckMerkleRoot : Bool} {tx : Tx}
    (h : checkBlock env limits block fCheckPOW fCheckMerkleRoot = .ok ()) (htx : tx ∈ block.vtx) :
    checkTransaction env.interpreter limits tx true = .ok () := by
  simp only [checkBlock, Except.bind_eq_ok_iff] at h
  obtain ⟨-, -, -, -, -, -, -, -, -, -, -, -, -, -, last, hloop, -⟩ := h
  obtain ⟨i, hi⟩ := List.mem_iff_getElem?.mp htx
  obtain ⟨before, after, -, hstep, -⟩ := Except.foldlM_step hloop hi
  simp only [checkBlockTx, Except.bind_eq_ok_iff] at hstep
  obtain ⟨⟨⟩, hcheck, -⟩ := hstep
  exact hcheck

end TscPow
