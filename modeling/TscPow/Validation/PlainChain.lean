import TscPow.Validation.ActiveChain

/-!
# Chains of coinbases

On a network with an easy target that never changes, every chain of blocks with a coinbase alone is accepted up to the ticket valve, whatever scripts the coinbases pay to, as long as they claim no more than `CheckReward` allows. Nothing in `CheckBlock` or `ConnectBlock` looks at tickets on the way.
-/

namespace TscPow

namespace ValveRun

/-! ### The network -/

def network : Env where
  hashing :=
    ⟨fun tx => Uint256.ofNat tx.nLockTime.toNat, fun header => Uint256.ofNat header.nTime.toNat,
      fun _ => (Uint256.ofNat 0, false)⟩
  interpreter := ⟨fun _ => false, fun _ _ _ _ => none, fun _ _ _ => 0⟩
  params := { mainParams with hashGenesisBlock := Uint256.ofNat 0, fPowNoRetargeting := true }
  csvActive _ := false
  segwitActive _ := false

def header (n : Nat) : BlockHeader :=
  { (default : BlockHeader) with
    nVersion := 4, hashPrevBlock := Uint256.ofNat (n - 1), nTime := BitVec.ofNat 32 n,
      nBits := 0x1f00ffff }

def path (n : Nat) : BlockIndex := ⟨header n, (List.range n).reverse.map header⟩

variable {n h : Nat}

theorem nHeight_path (n : Nat) : (path n).nHeight = n := by
  rw [path, BlockIndex.nHeight, List.length_map, List.length_reverse, List.length_range]

theorem path_succ (n : Nat) : path (n + 1) = (path n).child (header (n + 1)) := by
  rw [path, path, BlockIndex.child, List.range_succ, List.reverse_concat, List.map_cons]

theorem blockHash_header (hn : n < 2 ^ 32) : network.hashing.blockHash (header n) = Uint256.ofNat n := by
  change Uint256.ofNat (BitVec.ofNat 32 n).toNat = _
  rw [BitVec.toNat_ofNat, Nat.mod_eq_of_lt hn]

theorem ofNat_inj {m : Nat} (hm : m < 2 ^ 32) (hn : n < 2 ^ 32) :
    Uint256.ofNat m = Uint256.ofNat n ↔ m = n := by
  refine ⟨fun h => ?_, congrArg _⟩
  have h := congrArg Uint256.toNat h
  rwa [Uint256.toNat_ofNat (hm.trans (by decide)), Uint256.toNat_ofNat (hn.trans (by decide))] at h

theorem checkProofOfWork_of_bits {b : BlockHeader} (hbits : b.nBits = 0x1f00ffff) :
    checkProofOfWork (network.hashing.blockHash b) b.nBits network.params = true := by
  have hrange : checkTargetRange 0x1f00ffff network.params = true := by decide +kernel
  have htarget : 2 ^ 32 ≤ (BaseUint.setCompact 0x1f00ffff).target.toNat := by decide +kernel
  have htime := b.nTime.isLt
  have hhash : (network.hashing.blockHash b).toNat = b.nTime.toNat :=
    Uint256.toNat_ofNat (htime.trans (by decide))
  rw [checkProofOfWork, hbits, hrange, Bool.true_and, Bool.not_eq_true', decide_eq_false_iff_not,
    BaseUint.lt_iff, toNat_uintToArith256, hhash]
  omega

theorem getNextWorkRequired_of_bits {i : BlockIndex} (hbits : i.header.nBits = 0x1f00ffff)
    (b : BlockHeader) :
    getNextWorkRequired i b network.params = .ok 0x1f00ffff := by
  have hinterval : network.params.difficultyAdjustmentInterval = 2016 := rfl
  simp only [getNextWorkRequired, hinterval, hbits,
    show network.params.fPowAllowMinDifficultyBlocks = false from rfl, Bool.false_eq_true, if_false]
  split
  · rfl
  · rename_i hretarget
    have hheight : 2015 ≤ i.nHeight := by
      rw [not_not] at hretarget
      have := Int.dvd_of_tmod_eq_zero hretarget
      omega
    obtain ⟨j, hj⟩ := i.exists_getAncestor (i.nHeight - (2016 - 1)) (by omega) (by omega)
    rw [hj]
    simp only [calculateNextWorkRequired, show network.params.fPowNoRetargeting = true from rfl,
      if_true, hbits]

end ValveRun

namespace PlainChain

open ValveRun

abbrev noContracts : Contracts Unit := Sample.noContracts

/-- What coinbase blocks do not depend on: the hash of transactions, which contract outputs are standard, and how they are converted and executed. -/
structure Setting where
  txHash : Tx → Uint256
  solver : Script → Bool
  extractionTscTransactions : Tx → CoinsView → List Tx → Option (List TscTransaction)
  performByteCode : Unit → Block → List TscTransaction → Nat → Option (Unit × List ResultExecute)

def plain : Setting :=
  ⟨ValveRun.network.hashing.txHash, ValveRun.network.interpreter.solver,
    noContracts.extractionTscTransactions, noContracts.performByteCode⟩

def network (e : Setting) : Env :=
  { ValveRun.network with
    hashing := { ValveRun.network.hashing with txHash := e.txHash }
    interpreter := { ValveRun.network.interpreter with solver := e.solver } }

def contracts (e : Setting) : Contracts Unit :=
  { noContracts with
    extractionTscTransactions := e.extractionTscTransactions, performByteCode := e.performByteCode }

abbrev limits : Limits := Limits.ofBlockSize 2000000

/-- A coinbase for a height with a few short outputs, none of them a contract, that claims no more than the subsidy below the valve and a ticket price for every output after the first. -/
structure Coinbase (n : Nat) (tx : Tx) : Prop where
  vin : tx.vin = [⟨⟨Uint256.ofNat 0, 0xffffffff⟩, Script.pushInt64 n ++ [0], SEQUENCE_FINAL, []⟩]
  vout : tx.vout ≠ []
  few : tx.vout.length ≤ 8
  short : ∀ o ∈ tx.vout, o.scriptPubKey.length ≤ 60
  amount : ∀ o ∈ tx.vout, 0 ≤ o.nValue
  total : tx.outputValue ≤ 260000 * COIN + (tx.vout.length - 1) * (30000 * COIN)
  noContract : ∀ o ∈ tx.vout, Script.hasOpCreate o.scriptPubKey = false ∧
    Script.hasOpCall o.scriptPubKey = false

def block (coinbase : Nat → Tx) (n : Nat) : Block := { header n with vtx := [coinbase n] }

def above (coinbase : Nat → Tx) (n : Nat) : List Block :=
  (List.range n).map fun k => block coinbase (k + 1)

/-! ### A coinbase passes the checks on transactions -/

section

variable {e : Setting} {coinbase : Nat → Tx} {n : Nat} {tx : Tx}

theorem isNull_null : (⟨Uint256.ofNat 0, 0xffffffff⟩ : OutPoint).isNull = true := by decide

namespace Coinbase

theorem isCoinBase (h : Coinbase n tx) : tx.isCoinBase = true := by
  have hlength := List.length_pos_iff.mpr h.vout
  rw [Tx.isCoinBase, h.vin]
  exact Bool.and_eq_true_iff.mpr ⟨isNull_null, decide_eq_true hlength⟩

theorem isCoinStake (h : Coinbase n tx) : tx.isCoinStake = false := by
  rw [Tx.isCoinStake, h.vin]
  split
  · rename_i heq _
    cases heq
    rw [isNull_null]
    rfl
  · rfl

theorem hasOpSpend (h : Coinbase n tx) : tx.hasOpSpend = false := by
  have hscript := Script.length_pushInt64 n
  have hne : Script.pushInt64 n ++ [0] ≠ [OP_SPEND] := by
    intro heq
    have heq := congrArg List.length heq
    rw [List.length_append, List.length_singleton, List.length_singleton] at heq
    omega
  simpa [Tx.hasOpSpend, Script.hasOpSpend, h.vin] using hne

theorem hasCreateOrCall (h : Coinbase n tx) : tx.hasCreateOrCall = false := by
  rw [Tx.hasCreateOrCall, List.any_eq_false]
  intro o ho
  simp [h.noContract o ho]

theorem hasWitness (h : Coinbase n tx) : tx.hasWitness = false := by
  simp [Tx.hasWitness, h.vin]

theorem strippedSize_le (h : Coinbase n tx) : tx.strippedSize ≤ 640 := by
  have hscript := Script.length_pushInt64 n
  have hin : sizeOfBytes (Script.pushInt64 n ++ [0]) ≤ 12 := by
    rw [sizeOfBytes, getSizeOfCompactSize,
      if_pos (by rw [List.length_append, List.length_singleton]; omega),
      List.length_append, List.length_singleton]
    omega
  have hout : (tx.vout.map fun o => 8 + sizeOfBytes o.scriptPubKey).sum ≤ tx.vout.length * 69 := by
    refine (List.sum_le_card_nsmul _ 69 ?_).trans (by rw [List.length_map, smul_eq_mul])
    intro size hsize
    obtain ⟨o, ho, rfl⟩ := List.mem_map.mp hsize
    have := h.short o ho
    rw [sizeOfBytes, getSizeOfCompactSize, if_pos (by omega)]
    omega
  have hfew := h.few
  have hcompact : getSizeOfCompactSize tx.vout.length = 1 := by
    rw [getSizeOfCompactSize, if_pos (by omega)]
  have hone : getSizeOfCompactSize 1 = 1 := rfl
  simp only [Tx.strippedSize, h.vin, List.map_singleton, List.sum_singleton, List.length_singleton,
    hone, hcompact]
  omega

theorem getLegacySigOpCount_le (h : Coinbase n tx) : getLegacySigOpCount tx ≤ 9820 := by
  have hscript := Script.length_pushInt64 n
  have hin := Script.getSigOpCount_le (Script.pushInt64 n ++ [0]) false
  have hout : (tx.vout.map fun o => Script.getSigOpCount o.scriptPubKey false).sum ≤
      tx.vout.length * 1200 := by
    refine (List.sum_le_card_nsmul _ 1200 ?_).trans (by rw [List.length_map, smul_eq_mul])
    intro count hcount
    obtain ⟨o, ho, rfl⟩ := List.mem_map.mp hcount
    have hle := Script.getSigOpCount_le o.scriptPubKey false
    have := h.short o ho
    rw [Script.MAX_PUBKEYS_PER_MULTISIG] at hle
    omega
  have hfew := h.few
  rw [List.length_append, List.length_singleton, Script.MAX_PUBKEYS_PER_MULTISIG] at hin
  simp only [getLegacySigOpCount, h.vin, List.map_singleton, List.sum_singleton]
  omega

theorem outputValue_le (h : Coinbase n tx) : tx.outputValue ≤ MAX_MONEY := by
  have hfew : (tx.vout.length : Amount) ≤ 8 := by exact_mod_cast h.few
  have hmax : 260000 * COIN + 7 * (30000 * COIN) ≤ MAX_MONEY := by decide
  have hprice : 0 ≤ 30000 * COIN := by decide
  have hrest : ((tx.vout.length : Amount) - 1) * (30000 * COIN) ≤ 7 * (30000 * COIN) :=
    mul_le_mul_of_nonneg_right (by linarith) hprice
  linarith [h.total]

end Coinbase

theorem sum_nValue_nonneg {vout : List TxOut} (hamount : ∀ o ∈ vout, 0 ≤ o.nValue) :
    0 ≤ (vout.map TxOut.nValue).sum := by
  refine List.sum_nonneg fun v hv => ?_
  obtain ⟨o, ho, rfl⟩ := List.mem_map.mp hv
  exact hamount o ho

theorem foldlM_addOutput_of_le {func : String} {vout : List TxOut} {start : Amount} (hstart : 0 ≤ start)
    (hamount : ∀ o ∈ vout, 0 ≤ o.nValue) (htotal : start + (vout.map TxOut.nValue).sum ≤ MAX_MONEY) :
    vout.foldlM (Tx.addOutput func) start = .ok (start + (vout.map TxOut.nValue).sum) := by
  induction vout generalizing start with
  | nil => simp [pure, Except.pure]
  | cons o vout ih =>
    rw [List.forall_mem_cons] at hamount
    have hrest := sum_nValue_nonneg hamount.2
    rw [List.map_cons, List.sum_cons] at htotal ⊢
    have ho : MoneyRange o.nValue := moneyRange_iff.mpr ⟨hamount.1, by linarith⟩
    have hnext : MoneyRange (start + o.nValue) := moneyRange_iff.mpr ⟨by linarith, by linarith⟩
    rw [Except.foldlM_cons_eq_ok_iff]
    refine ⟨start + o.nValue, by rw [Tx.addOutput, if_pos ⟨ho, hnext⟩], ?_⟩
    rw [← Int.add_assoc]
    exact ih (by linarith) hamount.2 (by linarith)

theorem foldlM_checkOutput_of_le {interpreter : Interpreter} {vout : List TxOut} {start : Amount}
    (hcoinbase : tx.isCoinBase = true) (hstart : 0 ≤ start) (hamount : ∀ o ∈ vout, 0 ≤ o.nValue)
    (htotal : start + (vout.map TxOut.nValue).sum ≤ MAX_MONEY)
    (hcontract : ∀ o ∈ vout, Script.hasOpCreate o.scriptPubKey = false ∧
      Script.hasOpCall o.scriptPubKey = false) :
    vout.foldlM (checkOutput interpreter tx) start = .ok (start + (vout.map TxOut.nValue).sum) := by
  induction vout generalizing start with
  | nil => simp [pure, Except.pure]
  | cons o vout ih =>
    rw [List.forall_mem_cons] at hamount hcontract
    have hrest := sum_nValue_nonneg hamount.2
    rw [List.map_cons, List.sum_cons] at htotal ⊢
    have hnext : MoneyRange (start + o.nValue) := moneyRange_iff.mpr ⟨by linarith, by linarith⟩
    have hstep : checkOutput interpreter tx start o = .ok (start + o.nValue) := by
      simp only [checkOutput, Except.bind_eq_ok_iff, rule_eq_ok_iff, Except.pure_eq_ok_iff]
      exact ⟨(), by simp [hcoinbase], (), hamount.1, (), by linarith, (), hnext, (),
        by simp [hcontract.1], trivial⟩
    rw [Except.foldlM_cons_eq_ok_iff]
    refine ⟨_, hstep, ?_⟩
    rw [← Int.add_assoc]
    exact ih (by linarith) hamount.2 (by linarith) hcontract.2

theorem Coinbase.getValueOut (h : Coinbase n tx) : tx.getValueOut = .ok tx.outputValue := by
  rw [Tx.getValueOut, foldlM_addOutput_of_le le_rfl h.amount
    (by rw [Int.zero_add]; exact h.outputValue_le), Int.zero_add,
    Tx.outputValue]

theorem Coinbase.exists_getCoinBaseRealOut (h : Coinbase n tx) :
    ∃ realOut, tx.getCoinBaseRealOut = .ok realOut := by
  have hrest := sum_nValue_nonneg fun o ho => h.amount o (List.mem_of_mem_drop (i := 6) ho)
  have hsplit : tx.outputValue =
      ((tx.vout.take 6).map TxOut.nValue).sum + ((tx.vout.drop 6).map TxOut.nValue).sum := by
    rw [← List.sum_append, ← List.map_append, List.take_append_drop, Tx.outputValue]
  have htotal := h.outputValue_le
  exact ⟨_, foldlM_addOutput_of_le le_rfl (fun o ho => h.amount o (List.mem_of_mem_take ho))
    (by linarith)⟩

theorem Coinbase.checkTransaction (h : Coinbase n tx) (interpreter : Interpreter) :
    checkTransaction interpreter limits tx true = .ok () := by
  have hsize := h.strippedSize_le
  have hscript := Script.length_pushInt64 n
  have houts : tx.vout.foldlM (checkOutput interpreter tx) 0 = .ok (0 + (tx.vout.map TxOut.nValue).sum) :=
    foldlM_checkOutput_of_le h.isCoinBase le_rfl h.amount
      (by rw [Int.zero_add]; exact h.outputValue_le) h.noContract
  have hweight : 4 * 640 ≤ limits.dgpMaxBlockWeight := by decide
  simp only [TscPow.checkTransaction, Except.bind_eq_ok_iff, rule_eq_ok_iff, h.isCoinBase, if_true]
  refine ⟨(), by simp [h.vin], (), h.vout, (), ⟨hsize.trans (by decide), ?_⟩, _, houts, (),
    by simp [h.vin], ?_⟩
  · rw [WITNESS_SCALE_FACTOR]
    omega
  · simp only [h.vin, List.mem_singleton, forall_eq, List.length_append, List.length_singleton]
    omega

/-! ### A block passes the checks on blocks -/

/-- A block at a height with a coinbase alone, and not too long signatures. -/
structure CoinbaseBlock (n : Nat) (b : Block) : Prop where
  nVersion : b.nVersion = 4
  nBits : b.nBits = 0x1f00ffff
  hashMerkleRoot : b.hashMerkleRoot = Uint256.ofNat 0
  headerSize : b.headerSize ≤ 300
  vtx : ∃ tx, b.vtx = [tx] ∧ Coinbase n tx

namespace CoinbaseBlock

variable {b : Block}

theorem strippedSize (hb : CoinbaseBlock n b) : b.strippedSize ≤ 1000 := by
  obtain ⟨tx, hvtx, hcoinbase⟩ := hb.vtx
  have hsize := hcoinbase.strippedSize_le
  have hheader := hb.headerSize
  have hone : getSizeOfCompactSize 1 = 1 := rfl
  rw [Block.strippedSize, hvtx, List.map_singleton, List.sum_singleton, List.length_singleton, hone]
  omega

theorem weight (hb : CoinbaseBlock n b) : b.weight ≤ 4000 := by
  have hsize := hb.strippedSize
  obtain ⟨tx, hvtx, hcoinbase⟩ := hb.vtx
  have htotal : b.totalSize = b.strippedSize := by
    have htx : tx.totalSize = tx.strippedSize := by rw [Tx.totalSize, hcoinbase.hasWitness]; rfl
    simp only [Block.totalSize, Block.strippedSize, hvtx, List.map_singleton, htx]
  rw [Block.weight, htotal]
  omega

theorem checkBlock (hb : CoinbaseBlock n b) : checkBlock (network e) limits b true true = .ok () := by
  have hsize := hb.strippedSize
  obtain ⟨tx, hvtx, hcoinbase⟩ := hb.vtx
  have hsigops := hcoinbase.getLegacySigOpCount_le
  have htx : checkBlockTx (network e) limits false tx = .ok false := by
    simp only [checkBlockTx, Except.bind_eq_ok_iff, rule_eq_ok_iff, Except.pure_eq_ok_iff,
      hcoinbase.hasOpSpend, hcoinbase.hasCreateOrCall]
    exact ⟨(), hcoinbase.checkTransaction _, (), by simp, rfl⟩
  simp only [TscPow.checkBlock, checkBlockHeader, Except.bind_eq_ok_iff, rule_eq_ok_iff, hvtx,
    Except.foldlM_cons_eq_ok_iff]
  refine ⟨(), fun _ => checkProofOfWork_of_bits hb.nBits, (), fun _ => hb.hashMerkleRoot, (),
    fun _ => rfl, (), ⟨by simp, ?_, ?_⟩,
    (), ⟨_, rfl, hcoinbase.isCoinBase⟩, (),
      by simp, (), by simp [hcoinbase.hasOpSpend, hcoinbase.hasCreateOrCall], false,
    ⟨false, htx, rfl⟩, ?_⟩
  · rw [List.length_singleton]
    decide
  · exact hsize.trans (by decide)
  · have hlimit : 4 * 9820 ≤ limits.dgpMaxBlockSigOps := by decide
    rw [List.map_singleton, List.sum_singleton, WITNESS_SCALE_FACTOR]
    omega

theorem checkNewBlock {prev : BlockIndex} {ctx : AcceptContext}
    (hb : CoinbaseBlock (prev.nHeight + 1) b) (hctx : ctx.limits = limits) :
    checkNewBlock (network e) ctx b (prev.child b.header) = .ok () := by
  obtain ⟨tx, hvtx, hcoinbase⟩ := hb.vtx
  have hparent : (prev.child b.header).pprev = some prev := BlockIndex.pprev_child _ _
  have hcsv : (network e).csvActive (some prev) = false := rfl
  have hsegwit : (network e).segwitActive (some prev) = false := rfl
  have hfinal : isFinalTx tx = fun _ _ => true := by
    funext nHeight nTime
    simp [isFinalTx, hcoinbase.vin]
  rw [TscPow.checkNewBlock, Except.bind_eq_ok_iff, hctx]
  refine ⟨(), hb.checkBlock, ?_⟩
  rw [contextualCheckBlock]
  simp only [hparent, hcsv, hsegwit, Bool.false_eq_true, if_false, Except.bind_eq_ok_iff,
    rule_eq_ok_iff, hvtx, valueOr_eq_ok_iff]
  refine ⟨_, rfl, (), ?_, tx, rfl, _, by rw [hcoinbase.vin]; rfl, (), ?_, (), ?_, (), ?_, ?_⟩
  · simp [hfinal]
  · intro _
    exact List.prefix_append _ _
  · rintro ⟨⟩
  · rintro out ⟨⟩
  · simp [hcoinbase.hasWitness]

end CoinbaseBlock

theorem coinbaseBlock_block (hcoinbase : Coinbase n (coinbase n)) : CoinbaseBlock n (block coinbase n) :=
  ⟨rfl, rfl, rfl, show 165 ≤ 300 by decide, _, rfl, hcoinbase⟩

def ctx : AcceptContext where
  nAdjustedTime := 0
  tip := default
  checkpoints := []
  nMinimumChainWork := 0
  limits := limits
  fRequested := true
  witnessHash _ := []

theorem checkNewBlock_block (hcoinbase : Coinbase (n + 1) (coinbase (n + 1))) :
    checkNewBlock (network e) ctx (block coinbase (n + 1)) (path (n + 1)) = .ok () := by
  have hblock : CoinbaseBlock ((path n).nHeight + 1) (block coinbase (n + 1)) := by
    rw [nHeight_path]
    exact coinbaseBlock_block hcoinbase
  rw [path_succ]
  exact hblock.checkNewBlock rfl

/-! ### A block is connected -/

/-- The view `v'` is `v` with the spendable outputs added under `txid`, from position `k` on. -/
structure Adds (v : CoinsView) (txid : Uint256) (coin : TxOut → Coin) (vout : List TxOut) (k : Nat)
    (v' : CoinsView) : Prop where
  bestBlock : v'.bestBlock = v.bestBlock
  other : ∀ o : OutPoint, o.hash ≠ txid ∨ o.n.toNat < k → v'.coin o = v.coin o
  added : ∀ i out, vout[i]? = some out → Script.isUnspendable out.scriptPubKey = false →
    v'.coin ⟨txid, BitVec.ofNat 32 (k + i)⟩ = some (coin out)

theorem exists_addCoin {coin : Coin} (v : CoinsView) (outpoint : OutPoint)
    (hvalue : 0 ≤ coin.out.nValue) :
    ∃ v', v.addCoin outpoint coin true = .ok v' ∧ v'.bestBlock = v.bestBlock ∧
      (∀ o, o ≠ outpoint → v'.coin o = v.coin o) ∧
      (Script.isUnspendable coin.out.scriptPubKey = false → v'.coin outpoint = some coin) := by
  rw [CoinsView.addCoin, if_neg (by linarith)]
  split
  case isTrue hspend => exact ⟨v, rfl, rfl, fun _ _ => rfl, fun h => by rw [hspend] at h; cases h⟩
  case isFalse =>
    rw [if_neg (by simp)]
    exact ⟨_, rfl, rfl, fun o ho => Function.update_of_ne ho _ _, fun _ => Function.update_self _ _ _⟩

theorem exists_adds (txid : Uint256) (coin : TxOut → Coin) (hout : ∀ out, (coin out).out = out)
    (vout : List TxOut) (k : Nat) (v : CoinsView) (hamount : ∀ o ∈ vout, 0 ≤ o.nValue)
    (hsize : k + vout.length ≤ 2 ^ 32) :
    ∃ v', (vout.zipIdx k).foldlM
      (fun v (p : TxOut × Nat) => v.addCoin ⟨txid, BitVec.ofNat 32 p.2⟩ (coin p.1) true) v =
        .ok v' ∧
      Adds v txid coin vout k v' := by
  induction vout generalizing k v with
  | nil => exact ⟨v, rfl, rfl, fun _ _ => rfl, by simp⟩
  | cons out vout ih =>
    rw [List.forall_mem_cons] at hamount
    rw [List.length_cons] at hsize
    obtain ⟨v₁, hadd, hbest₁, hother₁, hself₁⟩ :=
      exists_addCoin v ⟨txid, BitVec.ofNat 32 k⟩ (by rw [hout]; exact hamount.1)
    obtain ⟨v', hfold, hbest, hother, hadded⟩ := ih (k + 1) v₁ hamount.2 (by omega)
    have hk : (BitVec.ofNat 32 k).toNat = k := by rw [BitVec.toNat_ofNat, Nat.mod_eq_of_lt (by omega)]
    refine ⟨v', ?_, hbest.trans hbest₁, fun o ho => ?_, fun i out' hi hspend => ?_⟩
    · rw [List.zipIdx_cons, Except.foldlM_cons_eq_ok_iff]
      exact ⟨v₁, hadd, hfold⟩
    · have hne : o ≠ ⟨txid, BitVec.ofNat 32 k⟩ := by
        rintro rfl
        rcases ho with ho | ho
        · exact ho rfl
        · exact absurd (ho.trans_eq hk.symm) (lt_irrefl _)
      rw [hother o (ho.imp_right Nat.lt_succ_of_lt), hother₁ o hne]
    · cases i with
      | zero =>
        obtain rfl : out = out' := by simpa using hi
        rw [hother _ (.inr (by change (BitVec.ofNat 32 k).toNat < k + 1; omega))]
        exact hself₁ (by rw [hout]; exact hspend)
      | succ i =>
        rw [show k + (i + 1) = k + 1 + i by omega]
        exact hadded i out' (by simpa using hi) hspend

/-- The state of a chain of `n` coinbase blocks. -/
structure At (coinbase : Nat → Tx) (n : Nat) (s : ChainState Unit) : Prop where
  genesis : s.genesis = block coinbase 0
  above : s.above = above coinbase n
  bestBlock : s.view.bestBlock = Uint256.ofNat n

theorem At.tip_eq {s : ChainState Unit} (hs : At coinbase n s) : s.tip = path n := by
  have hpath : ∀ k,
      (PlainChain.above coinbase k).foldl (fun i b => i.child b.header) ⟨header 0, []⟩ =
        path k := by
    intro k
    induction k with
    | zero => rfl
    | succ k ih =>
      rw [PlainChain.above, List.range_succ, List.map_append, List.foldl_append, ← PlainChain.above,
        ih, path_succ]
      rfl
  rw [ChainState.tip, hs.genesis, hs.above]
  exact hpath n

theorem At.parent {s : ChainState Unit} (hs : At coinbase n s) (hn : n < 2 ^ 32) :
    (header (n + 1)).hashPrevBlock = (network e).hashing.blockHash s.tip.header := by
  rw [hs.tip_eq]
  exact (blockHash_header hn).symm

theorem At.fresh {s : ChainState Unit} (hs : At coinbase n s) (hn : n + 1 < 2 ^ 32) {b : Block}
    (hb : b.header = header (n + 1)) :
    ∀ b' ∈ s.chain, (network e).hashing.blockHash b.header ≠ (network e).hashing.blockHash b'.header := by
  intro b' hb'
  obtain ⟨k, hk, rfl⟩ : ∃ k ≤ n, block coinbase k = b' := by
    rw [ChainState.chain, hs.genesis, hs.above, List.mem_cons, PlainChain.above, List.mem_map] at hb'
    rcases hb' with rfl | ⟨k, hk, rfl⟩
    · exact ⟨0, Nat.zero_le _, rfl⟩
    · exact ⟨k + 1, List.mem_range.mp hk, rfl⟩
  have hself : (network e).hashing.blockHash (header (n + 1)) = Uint256.ofNat (n + 1) :=
    blockHash_header hn
  have hother : (network e).hashing.blockHash (block coinbase k).header = Uint256.ofNat k :=
    blockHash_header (by omega)
  rw [hb, hself, hother, Ne, ofNat_inj hn (by omega)]
  omega

def coins (n : Nat) (out : TxOut) : Coin := ⟨out, true, false, n % 2 ^ 30⟩

theorem exists_connectTx {c : Connection} {st : Connecting Unit} (hcoinbase : Coinbase n tx)
    (hlimits : c.limits = limits) (hheight : c.pindex.nHeight = n) (hsigops : st.nSigOpsCost = 0) :
    ∃ st', connectTx (network e) (contracts e) c st tx = .ok st' ∧ st'.nFees = st.nFees ∧
      st'.gasRefunds = st.gasRefunds ∧
      st'.checkVouts = st.checkVouts ∧ st'.queuedChecks = st.queuedChecks ∧ st'.world = st.world ∧
        Adds st.view (e.txHash tx) (coins n) tx.vout 0 st'.view ∧ st'.nSigOpsCost ≤ 4 * 9820 ∧
          st'.blockGasUsed = st.blockGasUsed := by
  obtain ⟨realOut, hreal⟩ := hcoinbase.exists_getCoinBaseRealOut
  have hlegacy := hcoinbase.getLegacySigOpCount_le
  have hlimit : 4 * 9820 ≤ limits.dgpMaxBlockSigOps := by decide
  have hsize : 0 + tx.vout.length ≤ 2 ^ 32 := by
    have := hcoinbase.few
    omega
  obtain ⟨v', hadd, hadds⟩ :=
    exists_adds (e.txHash tx) (coins n) (fun _ => rfl) tx.vout 0 st.view hcoinbase.amount hsize
  have hupdate : st.view.updateCoins (e.txHash tx) tx c.pindex.nHeight = .ok (v', []) := by
    simp only [CoinsView.updateCoins, CoinsView.addCoins, hcoinbase.isCoinBase,
      hcoinbase.isCoinStake, hheight, if_true]
    rw [Except.bind_eq_ok_iff]
    refine ⟨(st.view, []), rfl, ?_⟩
    rw [Except.bind_eq_ok_iff]
    exact ⟨v', hadd, rfl⟩
  have hcost :
    getTransactionSigOpCost (network e).interpreter tx st.view
      (getBlockScriptFlags (network e) c.pindex) =
      .ok (getLegacySigOpCount tx * WITNESS_SCALE_FACTOR) := by
    rw [getTransactionSigOpCost, if_pos hcoinbase.isCoinBase]
  simp only [connectTx, tallyValues, Except.bind_eq_ok_iff, Except.pure_eq_ok_iff, rule_eq_ok_iff,
    hcoinbase.isCoinBase, if_true, hcoinbase.hasOpSpend, hcoinbase.hasCreateOrCall,
      Bool.false_eq_true, if_false, Bool.false_and, hcost, hreal, orFault_ok,
    Except.ok.injEq, exists_eq_left', hsigops, hlimits]
  refine ⟨_, ⟨(), ?_, (v', []), orFault_eq_ok_iff.mpr hupdate, rfl⟩, rfl, rfl, rfl, rfl, trivial,
    hadds, ?_, rfl⟩
  · rw [WITNESS_SCALE_FACTOR]
    omega
  · change 0 + getLegacySigOpCount tx * WITNESS_SCALE_FACTOR ≤ _
    rw [WITNESS_SCALE_FACTOR]
    omega

theorem checkReward_block (hcoinbase : Coinbase n (coinbase n)) (hn : n ≤ TICKET_VALVE) :
    checkReward (block coinbase n) n 0 [] = .ok () := by
  have hlength : 1 ≤ (coinbase n).vout.length := List.length_pos_iff.mpr hcoinbase.vout
  have hfew := hcoinbase.few
  have hreward : blockReward n [coinbase n] 0 =
      .ok (260000 * COIN + ((coinbase n).vout.length - 1) * (30000 * COIN)) := by
    rw [blockReward_eq_ok_iff, rewardOutputs, List.find?_cons_of_pos hcoinbase.isCoinBase,
      getBlockSubsidy, if_pos hn, TICKET_PRICE]
    refine ⟨by ring, ?_⟩
    rw [show COIN = 100000000 from rfl]
    constructor <;> linarith
  have hvtx : (block coinbase n).vtx = [coinbase n] := rfl
  simp only [checkReward, hvtx, Except.bind_eq_ok_iff, orFault_eq_ok_iff, rule_eq_ok_iff, not_lt]
  exact ⟨_, rfl, _, hreward, _, hcoinbase.getValueOut, hcoinbase.total⟩

section

variable {s : ChainState Unit} (hs : At coinbase n s)
  (hcoinbase : Coinbase (n + 1) (coinbase (n + 1))) (hn : n < TICKET_VALVE)

include hs hcoinbase hn

theorem exists_connectTransactions (e : Setting) :
    ∃ out, connectTransactions (network e) (contracts e)
      (s.connectInput true true (block coinbase (n + 1))) = .ok out ∧
      Adds { s.view with bestBlock := Uint256.ofNat (n + 1) } (e.txHash (coinbase (n + 1)))
        (coins (n + 1)) (coinbase (n + 1)).vout 0 out.view := by
  have hlt : n + 1 < 2 ^ 32 := by
    rw [TICKET_VALVE] at hn
    omega
  set x := s.connectInput true true (block coinbase (n + 1)) with hx
  have hpindex : x.pindex = path (n + 1) := by rw [hx, ChainState.connectInput, hs.tip_eq, path_succ]; rfl
  have hheight : x.pindex.nHeight = n + 1 := by rw [hpindex, nHeight_path]
  have hprev : x.pindex.pprev = some (path n) := by rw [hpindex, path_succ, BlockIndex.pprev_child]
  obtain ⟨st, hconnect, hfees, hrefunds, hvouts, hqueued, -, hadds, -⟩ :
      ∃ st', connectTx (network e) (contracts e) (x.connection (contracts e)) x.start
        (coinbase (n + 1)) = .ok st' ∧ _ :=
    exists_connectTx hcoinbase rfl hheight rfl
  have hloop :
      x.block.vtx.foldlM (connectTx (network e) (contracts e) (x.connection (contracts e)))
        x.start = .ok st :=
    Except.foldlM_cons_eq_ok_iff.mpr ⟨st, hconnect, rfl⟩
  have hreward :
      rewardFailure (checkReward x.block x.pindex.nHeight st.nFees st.checkVouts) = .ok () := by
    rw [hfees, hvouts, hheight]
    change rewardFailure (checkReward (block coinbase (n + 1)) (n + 1) 0 []) = _
    rw [checkReward_block hcoinbase hn]
    rfl
  have hjust : x.fJustCheck = false := rfl
  simp only [connectTransactions, Except.bind_eq_ok_iff, valueOr_eq_ok_iff, orFault_eq_ok_iff,
    rule_eq_ok_iff, enforceBIP30, hjust, Bool.false_eq_true, if_false, Except.pure_eq_ok_iff]
  refine ⟨_,
    ⟨path n, hprev, _, getNextWorkRequired_of_bits rfl _, (), rfl, (), ?_, st, hloop, (), ?_, (),
      hreward, (), hqueued,
    (), .inl rfl, (), ?_, rfl⟩, ?_, hadds.other, hadds.added⟩
  · rintro ⟨⟨⟩, -⟩
  · rw [hfees, hrefunds]
    exact lt_irrefl _
  · rintro ⟨hlarge, -⟩
    rw [hheight] at hlarge
    rw [TICKET_VALVE] at hn
    omega
  · exact (congrArg (fun i => (network e).hashing.blockHash (BlockIndex.header i)) hpindex).trans
      (blockHash_header hlt)

theorem exists_connectBlock (e : Setting) :
    ∃ out, connectBlock (network e) (contracts e)
      (s.connectInput true true (block coinbase (n + 1))) = .ok out ∧
      Adds { s.view with bestBlock := Uint256.ofNat (n + 1) } (e.txHash (coinbase (n + 1)))
        (coins (n + 1)) (coinbase (n + 1)).vout 0 out.view := by
  have hlt : n + 1 < 2 ^ 32 := by
    rw [TICKET_VALVE] at hn
    omega
  set x := s.connectInput true true (block coinbase (n + 1)) with hx
  obtain ⟨out, hout, hadds⟩ := exists_connectTransactions hs hcoinbase hn e
  have hhash : (network e).hashing.blockHash (block coinbase (n + 1)).header =
      Uint256.ofNat (n + 1) := blockHash_header hlt
  have hgenesis : (network e).hashing.blockHash x.block.header ≠ (network e).params.hashGenesisBlock := by
    change (network e).hashing.blockHash (block coinbase (n + 1)).header ≠ Uint256.ofNat 0
    rw [hhash, Ne, ofNat_inj hlt (by decide)]
    omega
  have hprev : x.pindex.pprev = some (path n) := by
    rw [hx, ChainState.connectInput, hs.tip_eq, BlockIndex.pprev_child]
  have hlimit : x.limits (contracts e) = limits := rfl
  simp only [connectBlock, Except.bind_eq_ok_iff, asserts_eq_ok_iff, rule_eq_ok_iff,
    if_neg hgenesis, hlimit, hprev, Option.elim_some]
  refine ⟨out,
    ⟨(), fun _ => rfl, (), ⟨?_, ?_, ?_⟩, (), ?_, (), (coinbaseBlock_block hcoinbase).checkBlock, (),
      ?_, hout⟩, hadds⟩
  · exact List.cons_ne_nil _ _
  · exact show 1 ≤ 2000000 by decide
  · exact (coinbaseBlock_block hcoinbase).strippedSize.trans (by decide)
  · exact (coinbaseBlock_block hcoinbase).weight.trans (by decide)
  · exact (blockHash_header (by omega)).trans hs.bestBlock.symm

theorem exists_extends (e : Setting) :
    ∃ t, s.Extends (network e) (contracts e) (block coinbase (n + 1)) t ∧ At coinbase (n + 1) t ∧
    Adds { s.view with bestBlock := Uint256.ofNat (n + 1) } (e.txHash (coinbase (n + 1)))
      (coins (n + 1)) (coinbase (n + 1)).vout 0 t.view := by
  have hlt : n + 1 < 2 ^ 32 := by
    rw [TICKET_VALVE] at hn
    omega
  obtain ⟨out, hout, hadds⟩ := exists_connectBlock hs hcoinbase hn e
  have hcheck :
      checkNewBlock (network e) ctx (block coinbase (n + 1))
        (s.tip.child (block coinbase (n + 1)).header) = .ok () := by
    have hchild : s.tip.child (block coinbase (n + 1)).header = path (n + 1) := by
      rw [hs.tip_eq, path_succ]; rfl
    rw [hchild]
    exact checkNewBlock_block hcoinbase
  refine ⟨s.connected (contracts e) (s.connectInput true true (block coinbase (n + 1))) out,
    ⟨hs.parent (by omega), hs.fresh hlt rfl, ctx, true, true, ?_⟩,
      ⟨hs.genesis, ?_, hadds.bestBlock⟩, hadds⟩
  · simp only [ChainState.accept, Except.bind_eq_ok_iff, Except.pure_eq_ok_iff]
    exact ⟨(), hcheck, out, hout, rfl⟩
  · rw [ChainState.connected, hs.above, above, above, List.range_succ, List.map_append]
    rfl

end

def start (coinbase : Nat → Tx) : ChainState Unit where
  genesis := block coinbase 0
  above := []
  view := ⟨fun _ => none, [], Uint256.ofNat 0⟩
  world := ()
  dgpMaxBlockSize := 2000000
  nMoneySupply := 0

theorem start_start (e : Setting) (coinbase : Nat → Tx) : (start coinbase).Start (network e) :=
  ⟨blockHash_header (by decide), rfl, fun _ => rfl, rfl, rfl⟩

theorem exists_reachable (e : Setting) (hcoinbase : ∀ n, Coinbase n (coinbase n))
    (hn : n ≤ TICKET_VALVE) :
    ∃ s, s.Reachable (network e) (contracts e) ∧ At coinbase n s := by
  induction n with
  | zero => exact ⟨start coinbase, .start (start_start e coinbase), rfl, rfl, rfl⟩
  | succ n ih =>
    obtain ⟨s, hreach, hs⟩ := ih (by omega)
    obtain ⟨t, hext, ht, -⟩ := exists_extends hs (hcoinbase (n + 1)) hn e
    exact ⟨t, hreach.extend hext, ht⟩

end

end PlainChain

end TscPow
