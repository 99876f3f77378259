import TscPow.Chain.BlockIndex
import TscPow.Validation.CheckBlock

/-!
# The tree of accepted headers and blocks

`AcceptBlockHeader` and `AcceptBlock` (`validation.cpp`) with the checks they call. The tree maps hashes to index entries; a call leaves a new tree whether it succeeds or not, since rejections leave marks in it. Sequence numbers, chain transaction counts, the candidates for the next tip, disk positions and the best header are kept elsewhere and are not part of this state. Writing a block to disk is taken to succeed.
-/

namespace TscPow

/-! ### Index entries -/

def BLOCK_VALID_TREE : Nat := 2
def BLOCK_VALID_TRANSACTIONS : Nat := 3
def BLOCK_VALID_SCRIPTS : Nat := 5

/-- An entry of `mapBlockIndex` with the parts of `nStatus`: the validity level, `BLOCK_HAVE_DATA` and the two failure flags. -/
structure IndexEntry where
  index : BlockIndex
  validity : Nat
  haveData : Bool
  failedValid : Bool
  failedChild : Bool
  nTx : Nat

namespace IndexEntry

def failed (e : IndexEntry) : Bool := e.failedValid || e.failedChild

def isValid (e : IndexEntry) (nUpTo : Nat) : Bool := !e.failed && decide (nUpTo ≤ e.validity)

def raiseValidity (e : IndexEntry) (nUpTo : Nat) : IndexEntry :=
  if e.failed then e else { e with validity := max e.validity nUpTo }

end IndexEntry

/-- `mapBlockIndex` and `g_failed_blocks`. -/
structure BlockTree where
  mapBlockIndex : Uint256 → Option IndexEntry
  failedBlocks : List BlockIndex

namespace BlockTree

def insert (tree : BlockTree) (hash : Uint256) (e : IndexEntry) : BlockTree :=
  { tree with mapBlockIndex := Function.update tree.mapBlockIndex hash (some e) }

def modify (tree : BlockTree) (hash : Uint256) (f : IndexEntry → IndexEntry) : BlockTree :=
  { tree with mapBlockIndex := Function.update tree.mapBlockIndex hash ((tree.mapBlockIndex hash).map f) }

def genesis (hashing : Hashing) (header : BlockHeader) : BlockTree where
  mapBlockIndex := Function.update (fun _ => none) (hashing.blockHash header)
    (some ⟨⟨header, []⟩, BLOCK_VALID_TRANSACTIONS, true, false, false, 1⟩)
  failedBlocks := []

theorem map_insert (tree : BlockTree) (key hash : Uint256) (e : IndexEntry) :
    (tree.insert key e).mapBlockIndex hash = if hash = key then some e else tree.mapBlockIndex hash := by
  simp only [insert, Function.update_apply]

theorem map_genesis (hashing : Hashing) (header : BlockHeader) (hash : Uint256) :
    (BlockTree.genesis hashing header).mapBlockIndex hash =
      if hash = hashing.blockHash header then
        some ⟨⟨header, []⟩, BLOCK_VALID_TRANSACTIONS, true, false, false, 1⟩
      else none := by
  simp only [genesis, Function.update_apply]

/-- `BLOCK_HAVE_DATA` of the entry under a hash. -/
def hasData (tree : BlockTree) (hash : Uint256) : Bool :=
  (tree.mapBlockIndex hash).map IndexEntry.haveData == some true

def indexOf (tree : BlockTree) (hash : Uint256) : Option BlockIndex :=
  (tree.mapBlockIndex hash).map IndexEntry.index

end BlockTree

/-- The path of a new entry: on top of its parent, if the parent is known. -/
def BlockTree.newIndex (tree : BlockTree) (block : BlockHeader) : BlockIndex :=
  match tree.mapBlockIndex block.hashPrevBlock with
  | some prev => prev.index.child block
  | none => ⟨block, []⟩

/-- The path that the entry of a header has, or would get. -/
def BlockTree.pathOf (tree : BlockTree) (hashing : Hashing) (block : BlockHeader) : BlockIndex :=
  (tree.indexOf (hashing.blockHash block)).getD (tree.newIndex block)

def addToBlockIndex (hashing : Hashing) (tree : BlockTree) (block : BlockHeader) : BlockTree :=
  match tree.mapBlockIndex (hashing.blockHash block) with
  | some _ => tree
  | none => tree.insert (hashing.blockHash block) ⟨tree.newIndex block, BLOCK_VALID_TREE, false,
      false, false, 0⟩

/-- The entry and its ancestors, from the entry down. -/
def BlockIndex.lineage (i : BlockIndex) : List BlockIndex :=
  (i.header :: i.ancestors).tails.filterMap fun
    | [] => none
    | header :: ancestors => some ⟨header, ancestors⟩

def getBlockProof (nBits : BitVec 32) : Nat :=
  let decoded := BaseUint.setCompact nBits
  let bnTarget := decoded.target.toNat
  if decoded.fNegative || decoded.fOverflow || bnTarget == 0 then 0
  else (2 ^ 256 - 1 - bnTarget) / (bnTarget + 1) + 1

def BlockIndex.nChainWork (i : BlockIndex) : Nat :=
  ((i.header :: i.ancestors).map fun header => getBlockProof header.nBits).sum % 2 ^ 256

/-! ### Headers -/

/-- What the acceptance of a header or block reads besides the tree: the clock, the active tip, the checkpoints from the last one down (none if they are disabled), the minimum chain work, the limits, whether the block was asked for, and the hash that a witness commitment has to carry. -/
structure AcceptContext where
  nAdjustedTime : Int
  tip : BlockIndex
  checkpoints : List Uint256
  nMinimumChainWork : Nat
  limits : Limits
  fRequested : Bool
  witnessHash : Block → List Byte

/-- `FutureDrift`: the sum is made in 32 bits. -/
def futureDrift (nTime : Int) : Int := (nTime + 15) % 2 ^ 32

def versionHex (nVersion : Int) : String :=
  String.ofList
    ((List.range 8).map fun i => Nat.digitChar ((nVersion % 2 ^ 32).toNat / 16 ^ (7 - i) % 16))

variable (env : Env) (ctx : AcceptContext)

def getLastCheckpoint (tree : BlockTree) : Option BlockIndex :=
  ctx.checkpoints.findSome? fun hash => (tree.mapBlockIndex hash).map IndexEntry.index

/-- `ContextualCheckBlockHeader`. Both rules on the time stamp ask for a proof-of-stake block first. -/
def contextualCheckBlockHeader (tree : BlockTree) (block : BlockHeader) (pindexPrev : BlockIndex) :
    Validation Unit := do
  let nHeight : Int := pindexPrev.nHeight + 1
  let nBits ← orFault (getNextWorkRequired pindexPrev block env.params)
  rule (block.nBits = nBits) ⟨100, REJECT_INVALID, "bad-diffbits", false⟩
  rule (∀ pcheckpoint ∈ getLastCheckpoint ctx tree, ¬ nHeight < pcheckpoint.nHeight)
    ⟨100, REJECT_CHECKPOINT, "bad-fork-prior-to-checkpoint", false⟩
  rule (¬ (block.isProofOfStake ∧ block.getBlockTime ≤ pindexPrev.getMedianTimePast))
    ⟨0, REJECT_INVALID, "time-too-old", false⟩
  rule (¬ (block.isProofOfStake ∧ block.getBlockTime > futureDrift ctx.nAdjustedTime))
    ⟨0, REJECT_INVALID, "time-too-new", false⟩
  rule (¬ (block.nVersion < 2 ∧ nHeight ≥ env.params.BIP34Height ∨ block.nVersion < 3 ∧
    nHeight ≥ env.params.BIP66Height ∨
      block.nVersion < 4 ∧ nHeight ≥ env.params.BIP65Height))
    ⟨0, REJECT_OBSOLETE, "bad-version(0x" ++ versionHex block.nVersion ++ ")", false⟩

/-- The checks of `AcceptBlockHeader` on a header that is not known yet, up to the search for failed ancestors; the parent's entry is the result. -/
def checkNewHeader (tree : BlockTree) (block : BlockHeader) : Validation IndexEntry := do
  checkBlockHeader env block true
  let prev ←
    valueOr (tree.mapBlockIndex block.hashPrevBlock) (.invalid ⟨10, 0, "prev-blk-not-found", false⟩)
  rule (!prev.failed) ⟨100, REJECT_INVALID, "bad-prevblk", false⟩
  contextualCheckBlockHeader env ctx tree block prev.index
  return prev

def failedAncestor (tree : BlockTree) (prev : IndexEntry) : Option BlockIndex :=
  if prev.isValid BLOCK_VALID_SCRIPTS then none
  else tree.failedBlocks.find? fun failedit => prev.index.getAncestor failedit.nHeight == some failedit

/-- Marks the entries from the parent down to the failed block with `BLOCK_FAILED_CHILD`. -/
def markFailedChildren (tree : BlockTree) (prev failedit : BlockIndex) : BlockTree :=
  (prev.lineage.takeWhile (· ≠ failedit)).foldl
    (fun tree i => tree.modify (env.hashing.blockHash i.header) fun e =>
      { e with failedChild := true }) tree

/-- `AcceptBlockHeader`; the hash of the accepted header stands for the pointer to its entry. -/
def acceptBlockHeader (tree : BlockTree) (block : BlockHeader) : BlockTree × Validation Uint256 :=
  let hash := env.hashing.blockHash block
  if hash = env.params.hashGenesisBlock then (addToBlockIndex env.hashing tree block, .ok hash)
  else
    match tree.mapBlockIndex hash with
    | some e => (tree, if e.failed then .error (.invalid ⟨0, 0, "duplicate", false⟩) else .ok hash)
    | none =>
      match checkNewHeader env ctx tree block with
      | .error failure => (tree, .error failure)
      | .ok prev =>
        match failedAncestor tree prev with
        | none => (addToBlockIndex env.hashing tree block, .ok hash)
        | some failedit =>
          if ∀ e ∈ tree.mapBlockIndex (env.hashing.blockHash failedit.header), e.failedValid then
            (markFailedChildren env tree prev.index failedit,
              .error (.invalid ⟨100, REJECT_INVALID, "bad-prevblk", false⟩))
          else (tree, .error (.fault .assertion))

/-! ### Blocks -/

/-- `GetWitnessCommitmentIndex`: the last coinbase output with the header of a commitment. -/
def witnessCommitment (coinbase : Tx) : Option TxOut :=
  coinbase.vout.reverse.find? fun out =>
    decide (out.scriptPubKey.length ≥ 38) && out.scriptPubKey.take 6 ==
      [OP_RETURN, 0x24, 0xaa, 0x21, 0xa9, 0xed]

/-- `ContextualCheckBlock`. The coinbase and its first input are read without a check; `CheckBlock` has found them before. -/
def contextualCheckBlock (block : Block) (pindexPrev : Option BlockIndex) : Validation Unit := do
  let nHeight : Int := pindexPrev.elim 0 fun prev => prev.nHeight + 1
  let nLockTimeCutoff ←
    if env.csvActive pindexPrev then
      valueOr (pindexPrev.map BlockIndex.getMedianTimePast) (.fault .undefined)
    else .ok block.getBlockTime
  rule (∀ tx ∈ block.vtx, isFinalTx tx nHeight nLockTimeCutoff)
    ⟨10, REJECT_INVALID, "bad-txns-nonfinal", false⟩
  let coinbase ← valueOr block.vtx.head? (.fault .undefined)
  let input ← valueOr coinbase.vin.head? (.fault .undefined)
  rule (nHeight ≥ env.params.BIP34Height → Script.pushInt64 nHeight <+: input.scriptSig)
    ⟨100, REJECT_INVALID, "bad-cb-height", false⟩
  let commitment := if env.segwitActive pindexPrev then witnessCommitment coinbase else none
  rule (commitment.isSome → input.scriptWitness.map List.length = [32])
    ⟨100, REJECT_INVALID, "bad-witness-nonce-size", true⟩
  rule (∀ out ∈ commitment, (out.scriptPubKey.drop 6).take 32 = ctx.witnessHash block)
    ⟨100, REJECT_INVALID, "bad-witness-merkle-match", true⟩
  rule (commitment = none → ∀ tx ∈ block.vtx, !tx.hasWitness)
    ⟨100, REJECT_INVALID, "unexpected-witness", true⟩

def nCheckpointSpan : Nat := 500
def MIN_BLOCKS_TO_KEEP : Nat := 288

/-- `Checkpoints::CheckSync`, for the block that `AutoSelectSyncCheckpoint` finds below the active tip. -/
def checkSync (nHeight : Nat) : Bool :=
  nHeight == 0 || decide (nHeight > ctx.tip.nHeight - nCheckpointSpan)

/-- The checks of `AcceptBlock` on the block of a known header. A plain `return error(...)` leaves no reject code or reason. -/
def checkAcceptedBlock (tree : BlockTree) (block : Block) (pindex : BlockIndex) : Validation Unit := do
  let pindexPrev ←
    if pindex.nHeight > 0 then
      (valueOr (tree.mapBlockIndex block.hashPrevBlock) (.invalid ⟨10, 0, "", false⟩)).map
        fun prev => some prev.index
    else .ok none
  rule (checkSync ctx pindex.nHeight) ⟨0, 0, "", false⟩
  rule (∀ prev ∈ pindexPrev, ¬ (block.isProofOfStake ∧
      (block.getBlockTime ≤ prev.getBlockTime ∨
        futureDrift block.getBlockTime < prev.getBlockTime))) ⟨0, 0, "", false⟩
  rule (¬ (block.isProofOfStake ∧ block.getBlockTime > futureDrift ctx.nAdjustedTime)) ⟨0, 0, "", false⟩
  let coinbase ← valueOr block.vtx.head? (.fault .undefined)
  let input ← valueOr coinbase.vin.head? (.fault .undefined)
  rule (Script.pushInt64 pindex.nHeight <+: input.scriptSig) ⟨100, 0, "", false⟩

/-- The block is left alone: its data is there already, or it was not asked for and is not worth having. -/
def skipsBlock (e : IndexEntry) : Bool :=
  e.haveData || !ctx.fRequested &&
    (e.nTx != 0 || decide (e.index.nChainWork < ctx.tip.nChainWork) ||
      decide (e.index.nHeight > ctx.tip.nHeight + MIN_BLOCKS_TO_KEEP) ||
        decide (e.index.nChainWork < ctx.nMinimumChainWork))

/-- `ReceivedBlockTransactions`, for the entry of the block alone. -/
def receivedBlockTransactions (block : Block) (e : IndexEntry) : IndexEntry :=
  { e with nTx := block.vtx.length, haveData := true }.raiseValidity BLOCK_VALID_TRANSACTIONS

/-- The last checks of `AcceptBlock`, on a block whose data is new. -/
def checkNewBlock (block : Block) (pindex : BlockIndex) : Validation Unit := do
  checkBlock env ctx.limits block true true
  contextualCheckBlock env ctx block pindex.pprev

/-- `AcceptBlock`: the hash that stands for `ppindex`, and `fNewBlock`. -/
def acceptBlock (tree : BlockTree) (block : Block) : BlockTree × Validation (Uint256 × Bool) :=
  match acceptBlockHeader env ctx tree block.header with
  | (tree, .error failure) => (tree, .error failure)
  | (tree, .ok hash) =>
    match tree.mapBlockIndex hash with
    | none => (tree, .error (.fault .undefined))
    | some e =>
      match checkAcceptedBlock ctx tree block e.index with
      | .error failure => (tree, .error failure)
      | .ok () =>
        if skipsBlock ctx e then (tree, .ok (hash, false))
        else
          match checkNewBlock env ctx block e.index with
          | .ok () => (tree.modify hash (receivedBlockTransactions block), .ok (hash, true))
          | .error (.invalid reject) =>
            if reject.corruptionPossible then (tree, .error (.invalid reject))
            else (tree.modify hash fun e => { e with failedValid := true }, .error (.invalid reject))
          | .error (.fault fault) => (tree, .error (.fault fault))

theorem acceptBlock_of_new {env : Env} {ctx : AcceptContext} {tree : BlockTree} {block : Block}
    {prev : IndexEntry} (hgenesis : env.hashing.blockHash block.header ≠ env.params.hashGenesisBlock)
    (hnew : tree.mapBlockIndex (env.hashing.blockHash block.header) = none)
    (hfailed : tree.failedBlocks = []) (hheader : checkNewHeader env ctx tree block.header = .ok prev)
    (hwanted : skipsBlock ctx
      ⟨tree.newIndex block.header, BLOCK_VALID_TREE, false, false, false, 0⟩ = false)
    (haccepted : checkAcceptedBlock ctx (addToBlockIndex env.hashing tree block.header) block
      (tree.newIndex block.header) = .ok ())
    (hblock : checkNewBlock env ctx block (tree.newIndex block.header) = .ok ()) :
    acceptBlock env ctx tree block =
      ((addToBlockIndex env.hashing tree block.header).modify (env.hashing.blockHash block.header)
        (receivedBlockTransactions block),
        .ok (env.hashing.blockHash block.header, true)) := by
  have hancestor : failedAncestor tree prev = none := by
    rw [failedAncestor, hfailed, List.find?_nil, ite_self]
  have hindex : acceptBlockHeader env ctx tree block.header =
      (addToBlockIndex env.hashing tree block.header, .ok (env.hashing.blockHash block.header)) := by
    rw [acceptBlockHeader]
    simp only [hgenesis, if_false, hnew, hheader, hancestor]
  have hentry :
    (addToBlockIndex env.hashing tree block.header).mapBlockIndex
      (env.hashing.blockHash block.header) =
      some ⟨tree.newIndex block.header, BLOCK_VALID_TREE, false, false, false, 0⟩ := by
    rw [addToBlockIndex, hnew]
    exact Function.update_self _ _ _
  rw [acceptBlock, hindex]
  simp only [hentry, haccepted, hwanted, Bool.false_eq_true, if_false, hblock]

theorem acceptBlock_of_orphan {env : Env} {ctx : AcceptContext} {tree : BlockTree} {block : Block}
    (hgenesis : env.hashing.blockHash block.header ≠ env.params.hashGenesisBlock)
    (hnew : tree.mapBlockIndex (env.hashing.blockHash block.header) = none)
    (hheader : checkBlockHeader env block.header true = .ok ())
    (hprev : tree.mapBlockIndex block.header.hashPrevBlock = none) :
    acceptBlock env ctx tree block = (tree, .error (.invalid ⟨10, 0, "prev-blk-not-found", false⟩)) := by
  have hcheck : checkNewHeader env ctx tree block.header =
      .error (.invalid ⟨10, 0, "prev-blk-not-found", false⟩) := by
    rw [checkNewHeader, hheader, hprev]
    rfl
  have hindex : acceptBlockHeader env ctx tree block.header =
      (tree, .error (.invalid ⟨10, 0, "prev-blk-not-found", false⟩)) := by
    rw [acceptBlockHeader]
    simp only [hgenesis, if_false, hnew, hcheck]
  rw [acceptBlock, hindex]

/-! ### What a call can do to the tree -/

/-- The paths of the tree stay, or one is added under the hash of the header: for the genesis header, or for a header that passes the checks on top of a known parent. -/
inductive Accepted (tree : BlockTree) (block : BlockHeader) (tree' : BlockTree) : Prop where
  | unchanged (hindex : ∀ hash, tree'.indexOf hash = tree.indexOf hash)
  | added (hnew : tree.indexOf (env.hashing.blockHash block) = none)
      (hindex : ∀ hash, tree'.indexOf hash =
        if hash = env.hashing.blockHash block then some (tree.newIndex block) else tree.indexOf hash)
      (hchecked : env.hashing.blockHash block = env.params.hashGenesisBlock ∨
        ∃ prev, checkNewHeader env ctx tree block = .ok prev)

variable {env ctx} {tree tree' tree'' : BlockTree} {block : BlockHeader}

theorem BlockTree.map_modify {β : Type} {p : IndexEntry → β} {hash : Uint256}
    {f : IndexEntry → IndexEntry} (hf : ∀ e, p (f e) = p e) (hash' : Uint256) :
    ((tree.modify hash f).mapBlockIndex hash').map p = (tree.mapBlockIndex hash').map p := by
  rw [modify]
  by_cases h : hash' = hash
  · subst h
    simp [Option.map_map, Function.comp_def, hf]
  · simp only [Function.update_of_ne h]

theorem map_markFailedChildren {β : Type} {p : IndexEntry → β}
    (hp : ∀ e, p { e with failedChild := true } = p e) (prev failedit : BlockIndex) (hash : Uint256) :
    ((markFailedChildren env tree prev failedit).mapBlockIndex hash).map p =
    (tree.mapBlockIndex hash).map p := by
  rw [markFailedChildren]
  generalize prev.lineage.takeWhile (· ≠ failedit) = walk
  induction walk generalizing tree with
  | nil => rfl
  | cons i walk ih =>
    rw [List.foldl_cons, ih]
    exact BlockTree.map_modify hp hash

theorem accepted_addToBlockIndex (hchecked : env.hashing.blockHash block = env.params.hashGenesisBlock ∨
    ∃ prev, checkNewHeader env ctx tree block = .ok prev) :
    Accepted env ctx tree block (addToBlockIndex env.hashing tree block) := by
  rw [addToBlockIndex]
  cases hself : tree.mapBlockIndex (env.hashing.blockHash block) with
  | some e => exact .unchanged fun _ => rfl
  | none =>
    refine .added (by rw [BlockTree.indexOf, hself]; rfl) (fun hash => ?_) hchecked
    simp only [BlockTree.indexOf, BlockTree.insert, Function.update_apply]
    split <;> rfl

theorem accepted_acceptBlockHeader (env : Env) (ctx : AcceptContext) (tree : BlockTree)
    (block : BlockHeader) :
    Accepted env ctx tree block (acceptBlockHeader env ctx tree block).1 := by
  rw [acceptBlockHeader]
  split
  · rename_i hgenesis
    exact accepted_addToBlockIndex (.inl hgenesis)
  · split
    · exact .unchanged fun _ => rfl
    · split
      · exact .unchanged fun _ => rfl
      · rename_i prev hprev
        split
        · exact accepted_addToBlockIndex (.inr ⟨prev, hprev⟩)
        · split
          · exact .unchanged fun hash => map_markFailedChildren (fun _ => rfl) _ _ hash
          · exact .unchanged fun _ => rfl

theorem Accepted.of_indexOf_eq (haccepted : Accepted env ctx tree block tree')
    (hindex : ∀ hash, tree''.indexOf hash = tree'.indexOf hash) : Accepted env ctx tree block tree'' := by
  cases haccepted with
  | unchanged h => exact .unchanged fun hash => (hindex hash).trans (h hash)
  | added hnew h hchecked => exact .added hnew (fun hash => (hindex hash).trans (h hash)) hchecked

theorem index_receivedBlockTransactions {block : Block} (e : IndexEntry) :
    (receivedBlockTransactions block e).index = e.index := by
  rw [receivedBlockTransactions, IndexEntry.raiseValidity]
  split <;> rfl

theorem haveData_receivedBlockTransactions {block : Block} (e : IndexEntry) :
    (receivedBlockTransactions block e).haveData = true := by
  rw [receivedBlockTransactions, IndexEntry.raiseValidity]
  split <;> rfl

theorem accepted_acceptBlock (env : Env) (ctx : AcceptContext) (tree : BlockTree) (block : Block) :
    Accepted env ctx tree block.header (acceptBlock env ctx tree block).1 := by
  have hheader := accepted_acceptBlockHeader env ctx tree block.header
  rw [acceptBlock]
  cases hcall : acceptBlockHeader env ctx tree block.header with
  | mk tree' result =>
    rw [hcall] at hheader
    cases result with
    | error failure => exact hheader
    | ok hash =>
      dsimp only
      split
      · exact hheader
      · split
        · exact hheader
        · split
          · exact hheader
          · split
            · exact hheader.of_indexOf_eq (BlockTree.map_modify index_receivedBlockTransactions)
            · split
              · exact hheader
              · exact hheader.of_indexOf_eq (BlockTree.map_modify fun _ => rfl)
            · exact hheader

theorem Accepted.indexOf_of_some (haccepted : Accepted env ctx tree block tree') {hash : Uint256}
    {i : BlockIndex} (hi : tree.indexOf hash = some i) : tree'.indexOf hash = some i := by
  cases haccepted with
  | unchanged hindex => rw [hindex, hi]
  | added hnew hindex _ =>
    have hne : hash ≠ env.hashing.blockHash block := fun h => by
      rw [h, hnew] at hi
      cases hi
    rw [hindex, if_neg hne, hi]

theorem Accepted.eq_pathOf (haccepted : Accepted env ctx tree block tree') {i : BlockIndex}
    (hi : tree'.indexOf (env.hashing.blockHash block) = some i) : i = tree.pathOf env.hashing block := by
  rw [BlockTree.pathOf]
  cases haccepted with
  | unchanged hindex => rw [← hindex, hi, Option.getD_some]
  | added hnew hindex _ =>
    rw [hindex, if_pos rfl] at hi
    rw [hnew, Option.getD_none, Option.some.inj hi]

theorem newIndex_of_checkNewHeader {prev : IndexEntry}
    (hprev : checkNewHeader env ctx tree block = .ok prev) :
    tree.mapBlockIndex block.hashPrevBlock = some prev ∧
      tree.newIndex block = prev.index.child block := by
  simp only [checkNewHeader, Except.bind_eq_ok_iff, valueOr_eq_ok_iff, Except.pure_eq_ok_iff] at hprev
  obtain ⟨-, -, _, hfound, -, -, -, -, rfl⟩ := hprev
  exact ⟨hfound, by rw [BlockTree.newIndex, hfound]⟩

/-! ### Which blocks have their data -/

theorem BlockTree.exists_indexOf {hash : Uint256} (h : tree.hasData hash = true) :
    ∃ i, tree.indexOf hash = some i := by
  rw [hasData, beq_iff_eq, Option.map_eq_some_iff] at h
  obtain ⟨e, he, -⟩ := h
  exact ⟨e.index, by rw [indexOf, he, Option.map_some]⟩

theorem hasData_acceptBlockHeader (env : Env) (ctx : AcceptContext) (tree : BlockTree)
    (block : BlockHeader) (hash : Uint256) :
    (acceptBlockHeader env ctx tree block).1.hasData hash = tree.hasData hash := by
  have hadd : (addToBlockIndex env.hashing tree block).hasData hash = tree.hasData hash := by
    rw [addToBlockIndex]
    split
    · rfl
    · rename_i hnone
      simp only [BlockTree.hasData, BlockTree.insert, Function.update_apply]
      split
      · rename_i h
        rw [h, hnone]
        rfl
      · rfl
  rw [acceptBlockHeader]
  split
  · exact hadd
  · split
    · rfl
    · split
      · rfl
      · split
        · exact hadd
        · split
          · exact congrArg (· == some true) (map_markFailedChildren (fun _ => rfl) _ _ hash)
          · rfl

theorem eq_of_acceptBlockHeader (env : Env) (ctx : AcceptContext) (tree : BlockTree)
    (block : BlockHeader) (hash : Uint256)
    (h : (acceptBlockHeader env ctx tree block).2 = .ok hash) :
    hash = env.hashing.blockHash block := by
  rw [acceptBlockHeader] at h
  split at h
  · exact (Except.ok.inj h).symm
  · split at h
    · dsimp only at h
      split at h <;> cases h
      rfl
    · split at h
      · cases h
      · split at h
        · exact (Except.ok.inj h).symm
        · split at h <;> cases h

theorem hasData_acceptBlock (env : Env) (ctx : AcceptContext) (tree : BlockTree) (block : Block) :
    (∀ hash, (acceptBlock env ctx tree block).1.hasData hash = tree.hasData hash) ∧
        (∀ hash, (acceptBlock env ctx tree block).2 ≠ .ok (hash, true)) ∨
      (acceptBlock env ctx tree block).2 = .ok (env.hashing.blockHash block.header, true) ∧
        tree.hasData (env.hashing.blockHash block.header) = false ∧
          ∀ hash, (acceptBlock env ctx tree block).1.hasData hash =
            if hash = env.hashing.blockHash block.header then true else tree.hasData hash := by
  have hdata := hasData_acceptBlockHeader env ctx tree block.header
  have hhash := eq_of_acceptBlockHeader env ctx tree block.header
  rw [acceptBlock]
  generalize acceptBlockHeader env ctx tree block.header = call at hdata hhash ⊢
  obtain ⟨tree₁, failure | hash⟩ := call
  · exact .inl ⟨hdata, fun _ h => by cases h⟩
  · obtain rfl := hhash hash rfl
    dsimp only at hdata ⊢
    split
    · exact .inl ⟨hdata, fun _ h => by cases h⟩
    · rename_i e he
      split
      · exact .inl ⟨hdata, fun _ h => by cases h⟩
      · split
        · exact .inl ⟨hdata, fun _ h => by cases h⟩
        · rename_i hskip
          split
          · refine .inr ⟨rfl, ?_, fun hash => ?_⟩
            · have hfresh : e.haveData = false := by
                rw [skipsBlock, Bool.or_eq_true, not_or, Bool.not_eq_true] at hskip
                exact hskip.1
              rw [← hdata, BlockTree.hasData, he, Option.map_some, hfresh]
              rfl
            · rw [← hdata hash]
              simp only [BlockTree.hasData, BlockTree.modify, Function.update_apply]
              split
              · simp [he, haveData_receivedBlockTransactions]
              · rfl
          · split
            · exact .inl ⟨hdata, fun _ h => by cases h⟩
            · refine .inl ⟨fun hash => ?_, fun _ h => by cases h⟩
              rw [← hdata hash, BlockTree.hasData, BlockTree.map_modify (by simp)]
              rfl
          · exact .inl ⟨hdata, fun _ h => by cases h⟩

end TscPow
