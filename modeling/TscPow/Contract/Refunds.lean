import TscPow.Contract.Converter
import TscPow.Validation.Money

/-!
# Gas refunds

A contract transaction pays for all the gas it may use, as part of its fee; what its successful outputs leave over is paid back (`ByteCodeExec::processingResults`, `validation.cpp`). `ConnectBlock` keeps the sum of the gas costs below `INT64_MAX`, so the refunds are computed without overflow, and it compares the sum with the fee. The fee is converted to an unsigned number for this: a fee below zero passes every comparison.
-/

namespace TscPow

def gasCost (txs : List TscTransaction) : Nat := (txs.map fun qtx => qtx.gas * qtx.gasPrice).sum

def refundAmount (p : TscTransaction × ResultExecute) : Nat := if p.2.excepted then 0
    else (p.1.gas - p.2.gasUsed) * p.1.gasPrice

def refundTotal (pairs : List (TscTransaction × ResultExecute)) : Nat := (pairs.map refundAmount).sum

def refundPayments (pairs : List (TscTransaction × ResultExecute)) : List TxOut :=
  (pairs.filter fun p => decide (0 < refundAmount p)).map fun p =>
    ⟨refundAmount p, payToPubkeyHash p.1.sender⟩

/-- The converter lets only such outputs through. -/
structure TscTransaction.GasFits (qtx : TscTransaction) : Prop where
  gas : qtx.gas ≤ INT64_MAX
  gasPrice : qtx.gasPrice ≤ INT64_MAX
  cost : qtx.gas * qtx.gasPrice ≤ INT64_MAX

section

variable {c : Connection} {fee : Amount} {txs : List TscTransaction} {results : List ResultExecute}

theorem gasCost_of_checks {tally tally' : GasTally}
    (hcost : ∀ qtx ∈ txs, qtx.gas * qtx.gasPrice ≤ INT64_MAX)
    (hfold : txs.foldlM (checkTscTransaction c fee) tally = .ok tally')
    (htally : tally.1 ≤ INT64_MAX ∧ (tally.1 : Int) ≤ fee % 2 ^ 256) :
    tally.1 + gasCost txs ≤ INT64_MAX ∧ ((tally.1 + gasCost txs : Nat) : Int) ≤ fee % 2 ^ 256 := by
  induction txs generalizing tally with
  | nil => exact htally
  | cons qtx txs ih =>
    rw [List.forall_mem_cons] at hcost
    obtain ⟨next, hnext, hrest⟩ := Except.foldlM_cons_eq_ok_iff.mp hfold
    obtain ⟨sumGas, gasAllTxs, nonZeroVersion⟩ := tally
    simp only [checkTscTransaction, Except.bind_eq_ok_iff, rule_eq_ok_iff, Except.pure_eq_ok_iff] at hnext
    obtain ⟨-, hmax, -, hcovered, -, -, -, -, -, -, -, -, -, -, -, -, -, -, -, -, -, -, rfl⟩ := hnext
    have hsum : (sumGas + qtx.gas * qtx.gasPrice) % 2 ^ 256 = sumGas + qtx.gas * qtx.gasPrice :=
      Nat.mod_eq_of_lt ((Nat.add_le_add htally.1 hcost.1).trans_lt (by decide))
    rw [hsum] at hmax hcovered hrest
    have hle := ih hcost.2 hrest ⟨hmax, hcovered⟩
    rw [gasCost, List.map_cons, List.sum_cons, ← gasCost, ← Nat.add_assoc]
    exact hle

theorem refundAmount_le {p : TscTransaction × ResultExecute} :
    refundAmount p ≤ p.1.gas * p.1.gasPrice := by
  unfold refundAmount
  split
  · exact Nat.zero_le _
  · exact Nat.mul_le_mul_right _ (Nat.sub_le _ _)

theorem refundTotal_le_gasCost (txs : List TscTransaction) (results : List ResultExecute) :
    refundTotal (txs.zip results) ≤ gasCost txs := by
  induction txs generalizing results with
  | nil => exact Nat.zero_le _
  | cons qtx txs ih =>
    cases results with
    | nil => exact Nat.zero_le _
    | cons result results => exact Nat.add_le_add refundAmount_le (ih results)

theorem refund_bmod {qtx : TscTransaction} {result : ResultExecute} (hfits : qtx.GasFits)
    (hused : result.gasUsed ≤ qtx.gas) :
    Int.bmod (((qtx.gas : Int) - (result.gasUsed % 2 ^ 64 : Nat)) * qtx.gasPrice) (2 ^ 64) =
      ((qtx.gas - result.gasUsed) * qtx.gasPrice : Nat) := by
  have hgas := hfits.gas
  have hcost := hfits.cost
  have hle : (qtx.gas - result.gasUsed) * qtx.gasPrice ≤ qtx.gas * qtx.gasPrice :=
    Nat.mul_le_mul_right _ (Nat.sub_le _ _)
  unfold INT64_MAX at hgas hcost
  have hmod : result.gasUsed % 2 ^ 64 = result.gasUsed := Nat.mod_eq_of_lt (by omega)
  have hrefund : ((qtx.gas : Int) - result.gasUsed) * qtx.gasPrice =
      ((qtx.gas - result.gasUsed) * qtx.gasPrice : Nat) := by
    rw [Nat.cast_mul, Nat.cast_sub hused]
  rw [hmod, hrefund]
  exact Int.bmod_eq_of_le (by omega) (by omega)

theorem processResult_refunds {acc : ByteCodeExecResult} {qtx : TscTransaction}
    {result : ResultExecute} {paid : Nat} (hfits : qtx.GasFits) (hused : result.gasUsed ≤ qtx.gas)
    (hpaid : acc.refundSender = paid) (hroom : paid + refundAmount (qtx, result) ≤ INT64_MAX) :
    ∃ acc', processResult acc qtx result = some acc' ∧
      acc'.refundSender = ((paid + refundAmount (qtx, result) : Nat) : Int) ∧
      acc'.refundOutputs = acc.refundOutputs ++ refundPayments [(qtx, result)] := by
  have hgas := hfits.gas
  have hprice := hfits.gasPrice
  unfold INT64_MAX at hgas hprice hroom
  unfold processResult
  cases hexcepted : result.excepted with
  | true =>
    have hzero : refundAmount (qtx, result) = 0 := by rw [refundAmount, if_pos hexcepted]
    refine ⟨_, rfl, ?_, ?_⟩
    · rw [hzero]
      exact hpaid
    · simp [refundPayments, hzero]
  | false =>
    have hamount : refundAmount (qtx, result) = (qtx.gas - result.gasUsed) * qtx.gasPrice := by
      rw [refundAmount, hexcepted, if_neg Bool.false_ne_true]
    rw [hamount] at hroom ⊢
    simp only [refund_bmod hfits hused, Bool.false_eq_true, if_false]
    generalize (qtx.gas - result.gasUsed) * qtx.gasPrice = amount at hamount hroom ⊢
    rw [if_neg (by omega), if_neg (by omega)]
    by_cases hpos : 0 < amount
    · rw [if_pos (by omega)]
      refine ⟨_, rfl, ?_, ?_⟩
      · have hbmod : Int.bmod ((paid + amount : Nat) : Int) (2 ^ 64) = ((paid + amount : Nat) : Int) :=
          Int.bmod_eq_of_le (by omega) (by omega)
        change Int.bmod (acc.refundSender + _) (2 ^ 64) = _
        rw [hpaid, ← Nat.cast_add]
        exact hbmod
      · simp [refundPayments, hamount, hpos]
    · rw [if_neg (by omega)]
      refine ⟨_, rfl, ?_, ?_⟩
      · obtain rfl : amount = 0 := by omega
        exact hpaid
      · have hnot : ¬0 < refundAmount (qtx, result) := by
          rw [hamount]
          exact hpos
        simp [refundPayments, hnot]

theorem foldlM_processResult {pairs : List (TscTransaction × ResultExecute)}
    {acc : ByteCodeExecResult} {paid : Nat} (hfits : ∀ p ∈ pairs, p.1.GasFits)
    (hused : ∀ p ∈ pairs, p.2.gasUsed ≤ p.1.gas) (hpaid : acc.refundSender = paid)
    (hroom : paid + refundTotal pairs ≤ INT64_MAX) :
    ∃ bcer, pairs.foldlM (fun acc (p : TscTransaction × ResultExecute) => processResult acc p.1 p.2)
      acc = some bcer ∧
      bcer.refundSender = ((paid + refundTotal pairs : Nat) : Int) ∧
        bcer.refundOutputs = acc.refundOutputs ++ refundPayments pairs := by
  induction pairs generalizing acc paid with
  | nil => exact ⟨acc, rfl, hpaid, by simp [refundPayments]⟩
  | cons p pairs ih =>
    obtain ⟨qtx, result⟩ := p
    rw [List.forall_mem_cons] at hfits hused
    rw [refundTotal, List.map_cons, List.sum_cons, ← refundTotal, ← Nat.add_assoc] at hroom ⊢
    have hfirst : qtx.GasFits := hfits.1
    have hfirstUsed : result.gasUsed ≤ qtx.gas := hused.1
    obtain ⟨next, hnext, hsender, houtputs⟩ := processResult_refunds hfirst hfirstUsed hpaid (by omega)
    obtain ⟨bcer, hrest, hsender', houtputs'⟩ := ih hfits.2 hused.2 hsender hroom
    refine ⟨bcer, ?_, hsender', ?_⟩
    · rw [List.foldlM_cons, hnext]
      exact hrest
    · rw [houtputs', houtputs, List.append_assoc]
      congr 1
      unfold refundPayments
      rw [← List.map_append, ← List.filter_append]
      rfl

theorem processingResults_refunds (hfits : ∀ qtx ∈ txs, qtx.GasFits)
    (hused : ∀ p ∈ txs.zip results, p.2.gasUsed ≤ p.1.gas) (hcost : gasCost txs ≤ INT64_MAX) :
    ∃ bcer, processingResults txs results = some bcer ∧
      bcer.refundSender = (refundTotal (txs.zip results) : Int) ∧
      bcer.refundOutputs = refundPayments (txs.zip results) := by
  have hroom : 0 + refundTotal (txs.zip results) ≤ INT64_MAX := by
    rw [Nat.zero_add]
    exact (refundTotal_le_gasCost txs results).trans hcost
  have hstart : (⟨0, 0, [], []⟩ : ByteCodeExecResult).refundSender = ((0 : Nat) : Int) := rfl
  obtain ⟨bcer, hfold, hsender, houtputs⟩ :=
    foldlM_processResult (fun p hp => hfits p.1 (List.of_mem_zip hp).1) hused hstart hroom
  rw [Nat.zero_add] at hsender
  exact ⟨bcer, hfold, hsender, houtputs⟩

end

/-! ### Converted outputs -/

section

variable {crypto : Crypto} {uninitialized : Byte}

theorem gasFits_of_parseEthTXParams {opcode : Byte} {stack stack' : Stack} {params : EthTransactionParams}
    (h : parseEthTXParams opcode stack = some (params, stack')) :
    gasFits params.gasPrice params.gasLimit = true := by
  unfold parseEthTXParams at h
  dsimp only at h
  split at h
  · simp only [Option.bind_eq_bind, Option.bind_eq_some_iff, Option.guard_eq_some', exists_and_left,
      exists_const] at h
    obtain ⟨-, gasPrice, -, gasLimit, -, hfits, -, version, -, h⟩ := h
    cases h
    exact hfits
  · cases h

theorem gasFits_of_extractFrom {stack : Stack} {nOut : Nat} {vout : List TxOut}
    {extracted : List (Nat × Byte × EthTransactionParams)}
    (h : extractFrom crypto uninitialized stack nOut vout = some extracted) :
    ∀ e ∈ extracted, gasFits e.2.2.gasPrice e.2.2.gasLimit = true := by
  induction vout generalizing stack nOut extracted with
  | nil =>
    cases h
    simp
  | cons out vout ih =>
    rw [extractFrom] at h
    split at h
    · obtain ⟨⟨converted, stack'⟩, hconvert, h⟩ := Option.bind_eq_some_iff.mp h
      obtain ⟨rest, hextract, h⟩ := Option.bind_eq_some_iff.mp h
      obtain ⟨⟨opcode, received⟩, -, hconvert⟩ := Option.bind_eq_some_iff.mp hconvert
      obtain ⟨⟨params, left⟩, hparse, hconvert⟩ := Option.bind_eq_some_iff.mp hconvert
      cases h
      cases hconvert
      exact List.forall_mem_cons.mpr ⟨gasFits_of_parseEthTXParams hparse, ih hextract⟩
    · exact ih h

theorem gasFits_of_extraction {sender : Address} {hashWith : Uint256} {tx : Tx}
    {txs : List TscTransaction} {etps : List EthTransactionParams}
    (h : extractionTscTransactions crypto uninitialized sender hashWith tx = some (txs, etps)) :
    ∀ qtx ∈ txs, qtx.GasFits := by
  obtain ⟨extracted, hextract, heq⟩ := Option.map_eq_some_iff.mp h
  cases heq
  intro qtx hqtx
  obtain ⟨e, he, rfl⟩ := List.mem_map.mp hqtx
  have hfits := gasFits_of_extractFrom hextract e he
  have hbounds := hfits
  simp only [gasFits, Bool.and_eq_true, decide_eq_true_eq] at hbounds
  exact ⟨hbounds.1.2, hbounds.1.1, (gasFits_iff hbounds.1.1 hbounds.1.2).mp hfits⟩

end

/-! ### Refunds of a transaction -/

/-- The results are processed, every successful output is refunded exactly, to the sender, and all refunds together are covered by `available`. -/
def RefundsCovered (sender : Address) (txs : List TscTransaction) (results : List ResultExecute)
    (available : Amount) : Prop :=
  ∃ bcer, processingResults txs results = some bcer ∧
    bcer.refundSender = (refundTotal (txs.zip results) : Int) ∧
    bcer.refundOutputs = ((txs.zip results).filter fun p => decide (0 < refundAmount p)).map
      (fun p => ⟨refundAmount p, payToPubkeyHash sender⟩) ∧
    bcer.refundSender ≤ available

/-- The refunds of a transaction that passes the gas checks are exact, and they are covered by its fee exactly when it pays out no more than it takes in. -/
theorem refundsCovered_iff (crypto : Crypto) (uninitialized : Byte) {sender : Address}
    {hashWith : Uint256} {tx : Tx} {view : CoinsView} {c : Connection} {txs : List TscTransaction}
    {etps : List EthTransactionParams} {results : List ResultExecute} {nValueOut : Amount}
    {tally : GasTally}
    (hextract : extractionTscTransactions crypto uninitialized sender hashWith tx =
      some (txs, etps)) (hout : tx.getValueOut = .ok nValueOut)
    (hgas : txs.foldlM (checkTscTransaction c (view.getValueIn tx - nValueOut)) (0, 0, false) = .ok tally)
    (hused : ∀ p ∈ txs.zip results, p.2.gasUsed ≤ p.1.gas) :
    RefundsCovered sender txs results (view.getValueIn tx - tx.outputValue) ↔
      tx.outputValue ≤ view.getValueIn tx := by
  obtain rfl := getValueOut_eq_ok hout
  have hfits := gasFits_of_extraction hextract
  have hstart : ((0 : Nat) : Int) ≤ (view.getValueIn tx - tx.outputValue) % 2 ^ 256 :=
    Int.emod_nonneg _ (by decide)
  obtain ⟨hcost, hcovered⟩ :=
    gasCost_of_checks (fun qtx hqtx => (hfits qtx hqtx).cost) hgas ⟨Nat.zero_le _, hstart⟩
  rw [Nat.zero_add] at hcost hcovered
  obtain ⟨bcer, hresults, hsender, houtputs⟩ := processingResults_refunds hfits hused hcost
  have htotal : (refundTotal (txs.zip results) : Int) ≤ gasCost txs :=
    Int.ofNat_le.mpr (refundTotal_le_gasCost txs results)
  constructor
  · rintro ⟨bcer', hresults', hsender', -, hle⟩
    rw [hsender'] at hle
    have hnonneg : (0 : Int) ≤ refundTotal (txs.zip results) := Int.natCast_nonneg _
    exact Int.sub_nonneg.mp (hnonneg.trans hle)
  · intro hfee
    refine ⟨bcer, hresults, hsender, ?_, ?_⟩
    · rw [houtputs, refundPayments]
      apply List.map_congr_left
      intro p hp
      rw [sender_of_extraction hextract p.1 (List.of_mem_zip (List.mem_of_mem_filter hp)).1]
    · have hmod (fee : Int) (hfee : 0 ≤ fee) : fee % 2 ^ 256 ≤ fee := by omega
      rw [hsender]
      exact (htotal.trans hcovered).trans (hmod _ (Int.sub_nonneg.mpr hfee))

namespace RefundSample

open ContractScripts (crypto interpreter create)

def payer : Address := 5

def view : CoinsView where
  coin outpoint :=
    if outpoint = ⟨.ofNat 7, 0⟩ then some ⟨⟨COIN, payToPubkeyHash payer⟩, false, false, 1⟩ else none
  cached := []
  bestBlock := .ofNat 3

def spend (vout : List TxOut) : Tx := ⟨2, [⟨⟨.ofNat 7, 0⟩, [], SEQUENCE_FINAL, []⟩], vout, 0⟩

def creating : Tx := spend [⟨0, create⟩]

def minting : Tx := spend [⟨0, []⟩, ⟨10 * COIN, payToPubkeyHash payer⟩, ⟨0, create⟩]

def connection : Connection := (Sample.connect []).connection Sample.noContracts

def converted (nVout : BitVec 32) : TscTransaction :=
  ⟨payer, true, 0, 0, 100000, 40, .evmDefault, .ofNat 9, nVout⟩

def params : EthTransactionParams := ⟨.evmDefault, 100000, 40, [1], 0⟩

def executed : ResultExecute := ⟨false, 60000, none⟩

/-- The transaction is accepted as far as its scripts, its values and its gas go, and the result is one of this execution. -/
structure Passes (tx : Tx) (txs : List TscTransaction) (nValueOut : Amount)
    (results : List ResultExecute) : Prop where
  checked : checkTransaction { interpreter with solver := solvesContract } (.ofBlockSize 2000000) tx
    true = .ok ()
  inputs : checkTxInputs tx view 4 = .ok ()
  sender : checkSenderScript view tx = true
  extracted : extractionTscTransactions crypto 0 payer (.ofNat 9) tx = some (txs, [params])
  valueOut : tx.getValueOut = .ok nValueOut
  gas : txs.foldlM (checkTscTransaction connection (view.getValueIn tx - nValueOut)) (0, 0, false) =
    .ok (4000000, 100000, true)
  used : ∀ p ∈ txs.zip results, p.2.gasUsed ≤ p.1.gas

theorem passes_creating : Passes creating [converted 0] 0 [executed] where
  checked := by decide +kernel
  inputs := by decide +kernel
  sender := by decide +kernel
  extracted := by decide +kernel
  valueOut := by decide
  gas := by decide +kernel
  used := by decide

theorem passes_minting : Passes minting [converted 2] (10 * COIN) [executed] where
  checked := by decide +kernel
  inputs := by decide +kernel
  sender := by decide +kernel
  extracted := by decide +kernel
  valueOut := by decide
  gas := by decide +kernel
  used := by decide

theorem refundsCovered_creating : Passes creating [converted 0] 0 [executed] ∧
    RefundsCovered payer [converted 0] [executed] (view.getValueIn creating - creating.outputValue) := by
  have h := passes_creating
  exact ⟨h, (refundsCovered_iff crypto 0 h.extracted h.valueOut h.gas h.used).mpr (by decide +kernel)⟩

/-- The transaction with an empty first output pays out more than it takes in and gets a refund on top. -/
theorem not_refundsCovered_minting :
    Passes minting [converted 2] (10 * COIN) [executed] ∧ ¬RefundsCovered payer [converted 2]
      [executed] (view.getValueIn minting - minting.outputValue) := by
  refine ⟨passes_minting, ?_⟩
  rintro ⟨bcer, hresults, -, -, hle⟩
  have hbcer : processingResults [converted 2] [executed] =
      some ⟨60000, 1600000, [⟨1600000, payToPubkeyHash payer⟩], []⟩ := by decide
  rw [hbcer] at hresults
  cases hresults
  exact absurd hle (by decide +kernel)

end RefundSample

end TscPow
