import TscPow.Contract.Converter
import TscPow.Contract.Failure
import TscPow.Miner.Assembler

/-!
# Contract transactions that are turned down

`AttemptToAddContractToBlock` works on copies of the counters, and puts the state roots back whenever it has executed a transaction that does not go into the block. It does not put back the addresses that the seal engine is to delete, of which every execution notes some. `performByteCode` empties them when it is through with all outputs; only at an output for another virtual machine does it stop before, and `AcceptToMemoryPool` lets no such output in. So the addresses to be deleted are none before and after every attempt.
-/

namespace TscPow

/-- `TscState` with the converter, the seal engine and the virtual machine; the sender of a transaction is looked up among the transactions of the block. -/
def tscEngine (ctx : ExecContext) (sealEngine : Engine) (crypto : Crypto) (uninitialized : Byte)
    (sender : Tx → List Tx → Address) (txHash : Tx → Uint256) (vm : TscTransaction → Behaviour) :
    ContractEngine TscState where
  extractionTscTransactions tx blockTxs :=
    (extractionTscTransactions crypto uninitialized (sender tx blockTxs) (txHash tx)
      tx).map Prod.fst
  performByteCode s block txs blockGasLimit :=
    performByteCode ctx (buildEVMEnvironment sealEngine ctx.height.toNat blockGasLimit block)
      .Committed (txs.map fun qtx => (vm qtx, qtx)) s
  -- both roots, and the caches are cleared
  setRoots old s :=
    { s with
      trie := old.trie, cache := fun _ => none, stateUTXO := old.stateUTXO, cacheUTXO := fun _ => none }

/-- The tests of `AcceptToMemoryPool` on the version of a contract output. -/
def VersionVM.accepted (v : VersionVM) : Bool :=
  v.format == 0 && v.rootVM == 1 && v.vmVersion == 0 && v.flagOptions == 0

theorem VersionVM.accepted_iff {v : VersionVM} : v.accepted = true ↔ v = .evmDefault := by
  obtain ⟨format, rootVM, vmVersion, flagOptions⟩ := v
  simp [accepted, evmDefault, and_assoc]

/-- The contract outputs of an entry were converted when it came into the pool, and passed these tests. -/
def CTxMemPoolEntry.Admitted (crypto : Crypto) (uninitialized : Byte) (e : CTxMemPoolEntry) : Prop :=
  ∃ sender hashWith txs etps, extractionTscTransactions crypto uninitialized sender hashWith e.tx =
    some (txs, etps) ∧
    ∀ qtx ∈ txs, qtx.version.accepted = true

theorem CTxMemPoolEntry.Admitted.version_eq {crypto : Crypto} {uninitialized : Byte} {e : CTxMemPoolEntry}
    (h : e.Admitted crypto uninitialized) {sender : Address}
    {hashWith : Uint256} {txs : List TscTransaction}
    (htxs : (extractionTscTransactions crypto uninitialized sender hashWith e.tx).map Prod.fst =
      some txs) :
    ∀ qtx ∈ txs, qtx.version = .evmDefault := by
  obtain ⟨sender', hashWith', txs', etps, hextract, hversions⟩ := h
  obtain ⟨extracted, hfrom, heq⟩ := Option.map_eq_some_iff.mp hextract
  cases heq
  rw [extractionTscTransactions, hfrom, Option.map_some, Option.map_some, Option.some.injEq] at htxs
  subst htxs
  rw [List.forall_mem_map] at hversions ⊢
  intro converted hconverted
  exact VersionVM.accepted_iff.mp (hversions converted hconverted)

theorem done_performTxs (ctx : ExecContext) (env : EvmEnv) (p : Permanence)
    {txs : List (Behaviour × TscTransaction)} (hversions : ∀ tx ∈ txs, tx.2.version = .evmDefault)
    (s : TscState) : (performTxs ctx env p txs s).2.2 = true := by
  induction txs generalizing s with
  | nil => rfl
  | cons tx rest ih =>
    obtain ⟨hfirst, hrest⟩ := List.forall_mem_cons.mp hversions
    rw [performTxs, if_neg (not_not.mpr hfirst)]
    split
    · exact ih hrest s
    · exact ih hrest _

theorem deleteAddresses_performByteCode (ctx : ExecContext) (env : EvmEnv) (p : Permanence)
    {txs : List (Behaviour × TscTransaction)} (hversions : ∀ tx ∈ txs, tx.2.version = .evmDefault)
    (s : TscState) : (performByteCode ctx env p txs s).1.deleteAddresses = [] := by
  rw [performByteCode]
  dsimp only
  rw [if_pos (done_performTxs ctx env p hversions s)]

/-- The block, the counters, the refunds, both state roots and the addresses to be deleted are the same. -/
structure Unchanged (s s' : BlockAssembler TscState) : Prop where
  block : s'.block = s.block
  vTxFees : s'.vTxFees = s.vTxFees
  vTxSigOpsCost : s'.vTxSigOpsCost = s.vTxSigOpsCost
  nBlockWeight : s'.nBlockWeight = s.nBlockWeight
  nBlockSigOpsCost : s'.nBlockSigOpsCost = s.nBlockSigOpsCost
  nBlockTx : s'.nBlockTx = s.nBlockTx
  nFees : s'.nFees = s.nFees
  inBlock : s'.inBlock = s.inBlock
  bceResult : s'.bceResult = s.bceResult
  trie : s'.world.trie = s.world.trie
  stateUTXO : s'.world.stateUTXO = s.world.stateUTXO
  deleteAddresses : s'.world.deleteAddresses = s.world.deleteAddresses

namespace BlockAssembler

/-- An attempt with an entry of the pool finds no address to be deleted if the one before has left none, and leaves none. If it does not add the entry, it leaves no trace. -/
theorem unchanged_of_rejected (ctx : ExecContext) (sealEngine : Engine) (crypto : Crypto)
    (uninitialized : Byte) (sender : Tx → List Tx → Address) (txHash : Tx → Uint256)
    (vm : TscTransaction → Behaviour) (p : AssemblerParams) (s s' : BlockAssembler TscState)
    (iter : Uint256) (e : CTxMemPoolEntry) (added : Bool)
    (hadmitted : e.Admitted crypto uninitialized) (hnone : s.world.deleteAddresses = [])
    (hattempt : s.attemptToAddContractToBlock
      (tscEngine ctx sealEngine crypto uninitialized sender txHash vm) p iter e = (s', added)) :
    s'.world.deleteAddresses = [] ∧ (added = false → Unchanged s s') := by
  rw [attemptToAddContractToBlock] at hattempt
  dsimp only at hattempt
  split at hattempt
  case h_1 =>
    cases hattempt
    exact ⟨hnone, fun _ => ⟨rfl, rfl, rfl, rfl, rfl, rfl, rfl, rfl, rfl, rfl, rfl, rfl⟩⟩
  case h_2 txs htxs =>
    have hversions : ∀ qtx ∈ txs, qtx.version = .evmDefault := by
      rw [executable] at htxs
      split at htxs
      · cases htxs
      · exact hadmitted.version_eq (Option.filter_eq_some_iff.mp htxs).1
    have hmapped : ∀ tx ∈ txs.map fun qtx => (vm qtx, qtx), tx.2.version = .evmDefault :=
      List.forall_mem_map.mpr hversions
    have hdeleted := deleteAddresses_performByteCode ctx
      (buildEVMEnvironment sealEngine ctx.height.toNat p.hardBlockGasLimit s.block) .Committed
        hmapped s.world
    have hreverted (world : TscState) (htrie : world.trie = s.world.trie)
      (hstate : world.stateUTXO = s.world.stateUTXO)
        (hworld : world.deleteAddresses = []) : Unchanged s { s.lookAtTime with world := world } :=
      ⟨rfl, rfl, rfl, rfl, rfl, rfl, rfl, rfl, rfl, htrie, hstate, hworld.trans hnone.symm⟩
    split at hattempt
    · cases hattempt
      exact ⟨hdeleted, fun _ => hreverted _ rfl rfl hdeleted⟩
    · split at hattempt
      · cases hattempt
        exact ⟨hdeleted, fun _ => hreverted _ rfl rfl hdeleted⟩
      · split at hattempt
        · cases hattempt
          exact ⟨hdeleted, fun _ => hreverted _ rfl rfl hdeleted⟩
        · cases hattempt
          exact ⟨hdeleted, nofun⟩

end BlockAssembler

namespace FullBlock

open BlockAssembler ContractScripts

def engine : ContractEngine TscState :=
  tscEngine FailedCall.ctx ⟨fun _ => 9, fun _ _ => 0x55, fun _ _ => 0x56, fun _ => false, 0⟩ crypto
    0 (fun _ _ => 7)
    (fun _ => Uint256.ofNat 3) fun _ => ⟨0, false, true, .stop [1], 0⟩

def params : AssemblerParams where
  nHeight := 6
  nLockTimeCutoff := 0
  fIncludeWitness := true
  nTimeLimit := 0
  getAdjustedTime _ := 0
  disableContractStaking := false
  minGasPrice := 40
  txGasLimit := 40000000
  softBlockGasLimit := 40000000
  hardBlockGasLimit := 40000000
  nBlockMaxWeight := 8000000
  limits := Limits.ofBlockSize 2000000
  blockMinFeeRate := 1000
  originalRewardTx :=
    ⟨2, [⟨⟨Uint256.ofNat 0, 0xffffffff⟩, [0x56, 0], SEQUENCE_FINAL, []⟩],
      [⟨182000 * COIN, payToPubkeyHash 9⟩], 0⟩

def start : BlockAssembler TscState where
  block := { (default : BlockHeader) with vtx := [params.originalRewardTx] }
  vTxFees := [-1]
  vTxSigOpsCost := [-1]
  nBlockWeight := 4000
  nBlockSigOpsCost := 400
  nBlockTx := 0
  nFees := 0
  inBlock := []
  bceResult := ⟨0, 0, [], []⟩
  world := TscState.empty
  readings := 0

def entry (scripts : List Script) : CTxMemPoolEntry :=
  .new (txOf scripts) 8000000 ⟨200, twoHundred_pos⟩ 0 false 0

def full : AssemblerParams := { params with limits := Limits.ofBlockSize 1000 }

end FullBlock

open FullBlock ContractScripts in
/-- A creation is executed and does not fit into the block. -/
theorem unchanged_of_rejected_full :
    ∃ s', start.attemptToAddContractToBlock engine full (Uint256.ofNat 3) (entry [create]) =
      (s', false) ∧ Unchanged start s' ∧
      (start.executable engine full (entry [create])).isSome = true := by
  have hrejected :
      (start.attemptToAddContractToBlock engine full (Uint256.ofNat 3) (entry [create])).2 =
        false := by decide +kernel
  have hattempt :
      start.attemptToAddContractToBlock engine full (Uint256.ofNat 3) (entry [create]) =
        (_, false) :=
    Prod.ext rfl hrejected
  have hadmitted : (entry [create]).Admitted crypto 0 := by
    obtain ⟨r, hr⟩ := Option.isSome_iff_exists.mp
      (show (extractionTscTransactions crypto 0 7 (Uint256.ofNat 3) (txOf [create])).isSome =
        true by decide +kernel)
    refine ⟨7, Uint256.ofNat 3, r.1, r.2, hr, ?_⟩
    have hall : (extractionTscTransactions crypto 0 7 (Uint256.ofNat 3) (txOf [create])).all
      (fun r => r.1.all fun qtx => qtx.version.accepted) = true := by decide +kernel
    rw [hr] at hall
    exact List.all_eq_true.mp hall
  exact ⟨_, hattempt,
    (BlockAssembler.unchanged_of_rejected _ _ crypto 0 _ _ _ full start _ _ _ false hadmitted rfl
      hattempt).2 rfl,
    by decide +kernel⟩

end TscPow
