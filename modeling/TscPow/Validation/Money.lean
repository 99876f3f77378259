import TscPow.Validation.ConnectBlock

/-!
# No transaction creates money, save coin stakes

Every transaction after the coinbase of a connected block passes `CheckTxInputs` against the view at its point of the block. That check compares outputs with inputs for every transaction but those of the shape of a coin stake, and since proof of stake was removed nothing else in `CheckBlock` or `ConnectBlock` bounds what such a transaction pays out.
-/

namespace TscPow

variable {World : Type} {env : Env} {contracts : Contracts World} {c : Connection}

theorem checkTxInputs_of_checkSpend {st st' : Connecting World} {tx : Tx}
    (h : checkSpend env c st tx = .ok st') :
    checkTxInputs tx st.view c.pindex.nHeight = .ok () := by
  simp only [checkSpend, Except.bind_eq_ok_iff] at h
  obtain ⟨nValueOut, -, passes, hinputs, -⟩ := h
  simp only [checkInputs, Except.bind_eq_ok_iff] at hinputs
  obtain ⟨⟨⟩, hcheck, -⟩ := hinputs
  split at hcheck <;> exact hcheck

theorem connectTx_eq_ok_iff {st st' : Connecting World} {tx : Tx} :
    connectTx env contracts c st tx = .ok st' ↔ ∃ cost spent tallied ran view undo,
      (if tx.isCoinBase then pure () else checkAvailable env c st.view tx) = .ok () ∧
      getTransactionSigOpCost env.interpreter tx st.view (getBlockScriptFlags env c.pindex) = .ok cost ∧
      st.nSigOpsCost + cost ≤ c.limits.dgpMaxBlockSigOps ∧
      (if tx.isCoinBase then pure { st with nSigOpsCost := st.nSigOpsCost + cost }
        else checkSpend env c { st with nSigOpsCost := st.nSigOpsCost + cost } tx) = .ok spent ∧
      tallyValues c spent tx = .ok tallied ∧
      (if tx.hasCreateOrCall && !tx.hasOpSpend then
          runContracts contracts c (if tx.hasOpSpend then tallied
            else { tallied with checkVtx := tallied.checkVtx ++ [tx] }) tx
        else pure (if tx.hasOpSpend then tallied
          else { tallied with checkVtx := tallied.checkVtx ++ [tx] })) = .ok ran ∧
      ran.view.updateCoins (env.hashing.txHash tx) tx c.pindex.nHeight = .ok (view, undo) ∧
      st' = { ran with view := view, vtxundo := ran.vtxundo ++ [undo] } := by
  rw [connectTx]
  by_cases hcoinbase : tx.isCoinBase
  · by_cases hrun : tx.hasCreateOrCall && !tx.hasOpSpend
    all_goals
      simp only [hcoinbase, hrun, if_true, if_false, Except.bind_eq_ok_iff, Except.pure_eq_ok_iff,
        orFault_eq_ok_iff, rule_eq_ok_iff, Bool.false_eq_true]
      constructor
      · rintro ⟨cost, hcost, -, hlimit, spent, hspent, tallied, htallied, ran, hran, ⟨view, undo⟩,
          hupdate, rfl⟩
        exact ⟨cost, spent, tallied, ran, view, undo, trivial, hcost, hlimit, hspent, htallied,
          hran, hupdate, rfl⟩
      · rintro ⟨cost, spent, tallied, ran, view, undo, -, hcost, hlimit, hspent, htallied, hran,
          hupdate, rfl⟩
        exact ⟨cost, hcost, (), hlimit, spent, hspent, tallied, htallied, ran, hran, (view, undo),
          hupdate, rfl⟩
  · by_cases hrun : tx.hasCreateOrCall && !tx.hasOpSpend
    all_goals
      simp only [hcoinbase, hrun, if_true, if_false, Except.bind_eq_ok_iff, Except.pure_eq_ok_iff,
        orFault_eq_ok_iff, rule_eq_ok_iff, Bool.false_eq_true]
      constructor
      · rintro ⟨⟨⟩, havailable, cost, hcost, -, hlimit, spent, hspent, tallied, htallied, ran, hran,
          ⟨view, undo⟩, hupdate, rfl⟩
        exact ⟨cost, spent, tallied, ran, view, undo, havailable, hcost, hlimit, hspent, htallied,
          hran, hupdate, rfl⟩
      · rintro ⟨cost, spent, tallied, ran, view, undo, havailable, hcost, hlimit, hspent, htallied,
          hran, hupdate, rfl⟩
        exact ⟨(), havailable, cost, hcost, (), hlimit, spent, hspent, tallied, htallied, ran, hran,
          (view, undo), hupdate, rfl⟩

theorem connectTx_steps {st st' : Connecting World} {tx : Tx}
    (h : connectTx env contracts c st tx = .ok st') :
    ∃ cost spent tallied ran view undo,
      (if tx.isCoinBase then pure { st with nSigOpsCost := st.nSigOpsCost + cost }
        else checkSpend env c { st with nSigOpsCost := st.nSigOpsCost + cost } tx) = .ok spent ∧
      tallyValues c spent tx = .ok tallied ∧
      (if tx.hasCreateOrCall && !tx.hasOpSpend then
          runContracts contracts c (if tx.hasOpSpend then tallied
            else { tallied with checkVtx := tallied.checkVtx ++ [tx] }) tx
        else pure (if tx.hasOpSpend then tallied
          else { tallied with checkVtx := tallied.checkVtx ++ [tx] })) = .ok ran ∧
      ran.view.updateCoins (env.hashing.txHash tx) tx c.pindex.nHeight = .ok (view, undo) ∧
      st' = { ran with view := view, vtxundo := ran.vtxundo ++ [undo] } := by
  obtain ⟨cost, spent, tallied, ran, view, undo, -, -, -, hsteps⟩ := connectTx_eq_ok_iff.mp h
  exact ⟨cost, spent, tallied, ran, view, undo, hsteps⟩

theorem checkTxInputs_of_connectTx {st st' : Connecting World} {tx : Tx}
    (h : connectTx env contracts c st tx = .ok st') (hcoinbase : tx.isCoinBase = false) :
    checkTxInputs tx st.view c.pindex.nHeight = .ok () := by
  obtain ⟨cost, spent, tallied, ran, view, undo, hspend, -⟩ := connectTx_steps h
  rw [hcoinbase, if_neg Bool.false_ne_true] at hspend
  have hcheck := checkTxInputs_of_checkSpend hspend
  exact hcheck

theorem checkReward_of_rewardFailure {x : Validation Unit} (h : rewardFailure x = .ok ()) :
    x = .ok () := by
  cases x with
  | error e => cases e <;> simp [rewardFailure, Except.mapError] at h
  | ok u => rfl

theorem exists_foldlM_takeRefund_iff {vouts vout : List TxOut} :
    (∃ left, vouts.foldlM takeRefund vout = .ok left) ↔ vouts.Subperm vout := by
  -- what is left of the outputs after the first refund is what the others are sought in
  induction vouts generalizing vout with
  | nil => exact ⟨fun _ => List.nil_subperm, fun _ => ⟨vout, rfl⟩⟩
  | cons refund vouts ih =>
    simp only [Except.foldlM_cons_eq_ok_iff, takeRefund]
    constructor
    · rintro ⟨left, rest, hstep, hrest⟩
      split at hstep
      · next hmem =>
        cases hstep
        have hsubperm := ih.mp ⟨left, hrest⟩
        exact ((List.subperm_cons refund).mpr hsubperm).trans (List.perm_cons_erase hmem).symm.subperm
      · cases hstep
    · intro h
      have hmem : refund ∈ vout := h.subset List.mem_cons_self
      have hrest := h.erase refund
      rw [List.erase_cons_head] at hrest
      obtain ⟨left, hleft⟩ := ih.mpr hrest
      exact ⟨left, _, if_pos hmem, hleft⟩

theorem connectBlock_steps {x : ConnectInput World} {out : ConnectOutput World}
    (h : connectBlock env contracts x = .ok out)
    (hgenesis : env.hashing.blockHash x.block.header ≠ env.params.hashGenesisBlock) :
    checkBlock env (x.limits contracts) x.block (!x.fJustCheck) (!x.fJustCheck) = .ok () ∧
      ∃ st, x.block.vtx.foldlM (connectTx env contracts (x.connection contracts)) x.start = .ok st ∧
        checkReward x.block x.pindex.nHeight st.nFees st.checkVouts = .ok () := by
  simp only [connectBlock, Except.bind_eq_ok_iff, if_neg hgenesis] at h
  obtain ⟨-, -, -, -, -, -, ⟨⟩, hblock, -, -, hconnect⟩ := h
  refine ⟨hblock, ?_⟩
  simp only [connectTransactions, Except.bind_eq_ok_iff] at hconnect
  obtain ⟨pprev, -, nBits, -, -, -, -, -, st, hloop, -, -, ⟨⟩, hreward, -⟩ := hconnect
  exact ⟨st, hloop, checkReward_of_rewardFailure hreward⟩

theorem connectTx_of_connectBlock {x : ConnectInput World} {out : ConnectOutput World} {i : Nat}
    {tx : Tx} {st : Connecting World} (h : connectBlock env contracts x = .ok out)
    (hgenesis : env.hashing.blockHash x.block.header ≠ env.params.hashGenesisBlock)
    (hi : x.block.vtx[i]? = some tx) (hst : x.connectPrefix env contracts i = .ok st) :
    ∃ st', connectTx env contracts (x.connection contracts) st tx = .ok st' := by
  obtain ⟨-, last, hloop, -⟩ := connectBlock_steps h hgenesis
  obtain ⟨s, s', hprefix, hstep, -⟩ := Except.foldlM_step hloop hi
  rw [ConnectInput.connectPrefix, hprefix] at hst
  cases hst
  exact ⟨s', hstep⟩

/-- A transaction of a connected block, other than a coinbase, does not pay out more than the coins it spends at its point of the block. -/
def Balanced (env : Env) (contracts : Contracts World) (x : ConnectInput World) (i : Nat)
    (tx : Tx) : Prop :=
  ∀ st, x.connectPrefix env contracts i = .ok st → tx.outputValue ≤ st.view.inputValue tx.vin

/-- In a connected block every transaction but the coinbase is balanced if none of them has the shape of a coin stake. In general it is exactly the transactions of that shape whose balance has to be established by other means. -/
theorem balanced_iff_coinStakes (env : Env) (contracts : Contracts World) (x : ConnectInput World)
    (h : (connectBlock env contracts x).isOk = true)
    (hgenesis : env.hashing.blockHash x.block.header ≠ env.params.hashGenesisBlock) :
    ((∀ tx ∈ x.block.vtx, tx.isCoinBase = false → tx.isCoinStake = false) →
      ∀ i tx, x.block.vtx[i]? = some tx → tx.isCoinBase = false → Balanced env contracts x i tx) ∧
    ((∀ i tx, x.block.vtx[i]? = some tx → tx.isCoinBase = false → Balanced env contracts x i tx) ↔
      ∀ i tx, x.block.vtx[i]? = some tx → tx.isCoinBase = false → tx.isCoinStake = true →
        Balanced env contracts x i tx) := by
  obtain ⟨out, hout⟩ := Except.exists_of_isOk h
  have hbalanced (i : Nat) (tx : Tx) (hi : x.block.vtx[i]? = some tx) (hcoinbase : tx.isCoinBase = false)
      (hstake : tx.isCoinStake = false) : Balanced env contracts x i tx := by
    intro st hst
    obtain ⟨st', hstep⟩ := connectTx_of_connectBlock hout hgenesis hi hst
    exact outputValue_le_of_checkTxInputs (checkTxInputs_of_connectTx hstep hcoinbase) hstake
  refine ⟨?_, ?_, ?_⟩
  · intro hshape i tx hi hcoinbase
    exact hbalanced i tx hi hcoinbase (hshape tx (List.mem_of_getElem? hi) hcoinbase)
  · intro hall i tx hi hcoinbase _
    exact hall i tx hi hcoinbase
  · intro hstakes i tx hi hcoinbase
    cases hstake : tx.isCoinStake with
    | false => exact hbalanced i tx hi hcoinbase hstake
    | true => exact hstakes i tx hi hcoinbase hstake

/-! ### A block with a minting coin stake

A network with the parameters of the main network, blocks that are hashed to their time stamp and transactions to their lock time, and scripts that succeed when they are `OP_TRUE`. There are no contracts. -/

namespace Sample

def hashing : Hashing where
  txHash tx := Uint256.ofNat tx.nLockTime.toNat
  blockHash header := Uint256.ofNat header.nTime.toNat
  merkleRoot leaves := (Uint256.ofNat leaves.length, false)

def opTrue : Script := [0x51]

def interpreter : Interpreter where
  solver _ := false
  verifyScript _ _ out _ := if out.scriptPubKey = opTrue then none
    else some "Script evaluated without error but finished with a false/empty top stack element"
  countWitnessSigOps _ _ _ := 0

def network : Env where
  hashing := hashing
  interpreter := interpreter
  params := mainParams
  csvActive _ := false
  segwitActive _ := false

def noContracts : Contracts Unit where
  dgp _ _ := ⟨2000000, 40, 40000000⟩
  extractionTscTransactions _ _ _ := none
  performByteCode _ _ _ _ := none
  rootHash _ := Uint256.ofNat 0
  rootHashUTXO _ := Uint256.ofNat 0

def header (nTime : Nat) : BlockHeader :=
  { (default : BlockHeader) with nVersion := 4, nTime := BitVec.ofNat 32 nTime, nBits := 0x1f00ffff }

def pindex : BlockIndex := ⟨header 4, [header 3, header 2, header 1]⟩

def coinbase (vout : List TxOut) : Tx where
  nVersion := 2
  vin := [⟨⟨Uint256.ofNat 0, 0xffffffff⟩, [0x53, 0x00], SEQUENCE_FINAL, []⟩]
  vout := vout
  nLockTime := 1

def spend (vout : List TxOut) : Tx where
  nVersion := 2
  vin := [⟨⟨Uint256.ofNat 7, 0⟩, [], SEQUENCE_FINAL, []⟩]
  vout := vout
  nLockTime := 2

def view : CoinsView where
  coin outpoint := if outpoint = ⟨Uint256.ofNat 7, 0⟩ then some ⟨⟨COIN, opTrue⟩, false, false, 1⟩
    else none
  cached := []
  bestBlock := Uint256.ofNat 3

def connect (vtx : List Tx) : ConnectInput Unit where
  block := { header 4 with
    hashMerkleRoot := Uint256.ofNat vtx.length, hashStateRoot := Uint256.ofNat 0,
      hashUTXORoot := Uint256.ofNat 0, vtx := vtx }
  pindex := pindex
  view := view
  world := ()
  dgpMaxBlockSize := 2000000
  nMoneySupply := 0
  fJustCheck := false
  fScriptChecks := true
  scriptCheckThreads := true
  phashBlock := true

end Sample

open Sample in
/-- A block whose second transaction moves the coin to a new output is connected, and the theorem applies to it. -/
theorem balanced_iff_coinStakes_spend :
    let x := connect [coinbase [⟨260000 * COIN, opTrue⟩], spend [⟨COIN, opTrue⟩]]
    ∀ i tx, x.block.vtx[i]? = some tx → tx.isCoinBase = false → Balanced network noContracts x i tx :=
  (balanced_iff_coinStakes network noContracts _ (by decide +kernel) (by decide +kernel)).1
    (by decide +kernel)

open Sample in
/-- A transaction with an empty first output spends a coin of one unit and pays out a thousand; the block is connected. -/
theorem coinStake_mints :
    let x := connect [coinbase [⟨260000 * COIN, opTrue⟩], spend [⟨0, []⟩, ⟨1000 * COIN, opTrue⟩]]
    (connectBlock network noContracts x).isOk = true ∧
      (x.block.vtx[1]?.map fun tx => (tx.isCoinBase, tx.outputValue)) = some (false, 1000 * COIN) ∧
      ((x.connectPrefix network noContracts 1).toOption.map fun st =>
        (x.block.vtx[1]?.map fun tx => st.view.inputValue tx.vin)) = some (some COIN) := by
  decide +kernel

end TscPow
