import TscPow.Contract.Refunds
import TscPow.Miner.CreateNewBlock
import TscPow.Ticket.Purchases
import TscPow.Validation.Reward

/-!
# Can the miner's coinbase be paid?

While a block is assembled, fees and gas refunds are collected transaction by transaction, and `RebuildRefundTransaction` takes the refunds out of the miner's own output. Since every contract transaction pays for all the gas it may use, that output never becomes negative, and the refunds are all there. What the coinbase pays in total is fees, subsidy and the prices of the tickets it returns; `CheckReward` allows one `TICKET_PRICE` for every output after the first, so the coinbase passes exactly when the prices together stay below that.
-/

namespace TscPow

/-! ### Collecting transactions -/

/-- A transaction from the memory pool: its fee and, for a contract transaction, the converted outputs and their results. -/
structure PoolEntry where
  tx : Tx
  fee : Amount
  txs : List TscTransaction
  results : List ResultExecute

/-- `AddToBlock`, and `AttemptToAddContractToBlock` once the execution is accepted. -/
def Assembly.addToBlock (assembly : Assembly) (entry : PoolEntry) : Option Assembly :=
  (processingResults entry.txs entry.results).map fun bcer =>
    { assembly with
      selected := assembly.selected ++ entry.tx :: bcer.valueTransfers
      nFees := assembly.nFees + entry.fee
      refundSender := assembly.refundSender + (bcer.refundOutputs.map TxOut.nValue).sum
      refundOutputs := assembly.refundOutputs ++ bcer.refundOutputs }

/-- The entry pays for its gas as `ConnectBlock` demands. The converter refuses outputs whose gas costs more than an `int64_t` holds, and no execution uses more gas than it was given. -/
structure PoolEntry.PaysGas (entry : PoolEntry) : Prop where
  fee : 0 ≤ entry.fee ∧ entry.fee < 2 ^ 63
  stipend : ∃ (c : Connection) (tally : GasTally),
    entry.txs.foldlM (checkTscTransaction c entry.fee) (0, 0, false) = .ok tally
  converted : ∀ qtx ∈ entry.txs, qtx.gas * qtx.gasPrice < 2 ^ 63
  used : ∀ p ∈ entry.txs.zip entry.results, p.2.gasUsed ≤ p.1.gas

/-- An assembly that was collected from entries of the memory pool. The output of `GenerateCoinbaseCommitment` carries no value. -/
inductive Assembly.Collected (ok : PoolEntry → Prop) : Assembly → Prop
  | start {assembly : Assembly} (hselected : assembly.selected = []) (hfees : assembly.nFees = 0)
      (hsender : assembly.refundSender = 0)
      (houtputs : assembly.refundOutputs = [])
      (hcommitment : ∀ out ∈ assembly.commitment, out.nValue = 0) : Collected ok assembly
  | add {assembly assembly' : Assembly} {entry : PoolEntry} (h : Collected ok assembly) (hok : ok entry)
      (hadd : assembly.addToBlock entry = some assembly') : Collected ok assembly'

section

variable {c : Connection} {fee : Amount} {txs : List TscTransaction} {results : List ResultExecute}
  {entry : PoolEntry} {bcer : ByteCodeExecResult} {assembly : Assembly}

theorem gasCost_le_fee {tally tally' : GasTally} (hfee : 0 ≤ fee ∧ fee < 2 ^ 63)
    (hconverted : ∀ qtx ∈ txs, qtx.gas * qtx.gasPrice < 2 ^ 63)
    (hfold : txs.foldlM (checkTscTransaction c fee) tally = .ok tally')
    (htally : (tally.1 : Int) ≤ fee ∧ tally.1 < 2 ^ 63) :
    (tally.1 + gasCost txs : Nat) ≤ fee := by
  have hcost (qtx : TscTransaction) (hqtx : qtx ∈ txs) : qtx.gas * qtx.gasPrice ≤ INT64_MAX :=
    Nat.le_pred_of_lt (hconverted qtx hqtx)
  have hmod : fee % 2 ^ 256 = fee := Int.emod_eq_of_lt hfee.1 (hfee.2.trans (by decide))
  have hstart : tally.1 ≤ INT64_MAX ∧ (tally.1 : Int) ≤ fee % 2 ^ 256 :=
    ⟨Nat.le_pred_of_lt htally.2, hmod.symm ▸ htally.1⟩
  have hcovered := (gasCost_of_checks hcost hfold hstart).2
  rwa [hmod] at hcovered

theorem refund_le_of_processResult {acc acc' : ByteCodeExecResult} {qtx : TscTransaction}
    {result : ResultExecute} (hconverted : qtx.gas * qtx.gasPrice < 2 ^ 63)
    (hused : result.gasUsed ≤ qtx.gas) (h : processResult acc qtx result = some acc') :
    ∃ refunds, acc'.refundOutputs = acc.refundOutputs ++ refunds ∧ (∀ out ∈ refunds, 0 ≤ out.nValue) ∧
      (refunds.map TxOut.nValue).sum ≤ (qtx.gas * qtx.gasPrice : Nat) := by
  have hcost : (0 : Int) ≤ (qtx.gas * qtx.gasPrice : Nat) := Int.natCast_nonneg _
  rw [processResult] at h
  split at h
  · cases h
    exact ⟨[], by simp, by simp, hcost⟩
  · split at h
    · cases h
    · rename_i hsize
      push Not at hsize
      have hgas : result.gasUsed % 2 ^ 64 = result.gasUsed := Nat.mod_eq_of_lt hsize.2.1
      have hrefund : ((qtx.gas : Int) - result.gasUsed) * qtx.gasPrice =
          ((qtx.gas - result.gasUsed) * qtx.gasPrice : Nat) := by
        rw [Nat.cast_mul, Nat.cast_sub hused]
      have hle : (qtx.gas - result.gasUsed) * qtx.gasPrice ≤ qtx.gas * qtx.gasPrice :=
        Nat.mul_le_mul_right _ (Nat.sub_le _ _)
      have hamount : Int.bmod (((qtx.gas : Int) - result.gasUsed) * qtx.gasPrice) (2 ^ 64) =
          ((qtx.gas - result.gasUsed) * qtx.gasPrice : Nat) := by
        rw [hrefund]
        exact Int.bmod_eq_of_le (by omega) (by omega)
      simp only [hgas, hamount] at h
      split at h
      · cases h
      · split at h
        · cases h
          refine ⟨_, rfl, List.forall_mem_singleton.mpr (Int.natCast_nonneg _), ?_⟩
          rw [List.map_singleton, List.sum_singleton]
          exact Int.ofNat_le.mpr hle
        · cases h
          exact ⟨[], by simp, by simp, hcost⟩

theorem refunds_of_foldlM {pairs : List (TscTransaction × ResultExecute)} {acc : ByteCodeExecResult}
    (hconverted : ∀ p ∈ pairs, p.1.gas * p.1.gasPrice < 2 ^ 63)
    (hused : ∀ p ∈ pairs, p.2.gasUsed ≤ p.1.gas)
    (h : pairs.foldlM (fun acc (p : TscTransaction × ResultExecute) => processResult acc p.1 p.2)
      acc = some bcer) :
    ∃ refunds, bcer.refundOutputs = acc.refundOutputs ++ refunds ∧ (∀ out ∈ refunds, 0 ≤ out.nValue) ∧
      (refunds.map TxOut.nValue).sum ≤ (gasCost (pairs.map Prod.fst) : Nat) := by
  induction pairs generalizing acc with
  | nil =>
    cases h
    exact ⟨[], by simp, by simp, by simp [gasCost]⟩
  | cons p pairs ih =>
    rw [List.forall_mem_cons] at hconverted hused
    rw [List.foldlM_cons, Option.bind_eq_bind, Option.bind_eq_some_iff] at h
    obtain ⟨next, hnext, hrest⟩ := h
    obtain ⟨first, hfirst, hpos, hle⟩ := refund_le_of_processResult hconverted.1 hused.1 hnext
    obtain ⟨rest, hrefunds, hpos', hle'⟩ := ih hconverted.2 hused.2 hrest
    refine ⟨first ++ rest, by rw [hrefunds, hfirst, List.append_assoc],
      List.forall_mem_append.mpr ⟨hpos, hpos'⟩, ?_⟩
    rw [List.map_append, List.sum_append, List.map_cons, gasCost, List.map_cons,
      List.sum_cons, ← gasCost, Nat.cast_add]
    exact Int.add_le_add hle hle'

theorem gasCost_zip_le (txs : List TscTransaction) (results : List ResultExecute) :
    gasCost ((txs.zip results).map Prod.fst) ≤ gasCost txs := by
  induction txs generalizing results with
  | nil => simp [gasCost]
  | cons tx txs ih =>
    cases results with
    | nil => simp [gasCost]
    | cons result results => exact Nat.add_le_add_left (ih results) _

theorem PoolEntry.PaysGas.refunds (hpays : entry.PaysGas)
    (h : processingResults entry.txs entry.results = some bcer) :
    (∀ out ∈ bcer.refundOutputs, 0 ≤ out.nValue) ∧
    (bcer.refundOutputs.map TxOut.nValue).sum ≤ entry.fee := by
  obtain ⟨c, tally, hstipend⟩ := hpays.stipend
  have hcost : ((0 + gasCost entry.txs : Nat) : Int) ≤ entry.fee :=
    gasCost_le_fee hpays.fee hpays.converted hstipend ⟨hpays.fee.1, by decide⟩
  obtain ⟨refunds, hrefunds, hpos, hle⟩ :=
    refunds_of_foldlM (fun p hp => hpays.converted p.1 (List.of_mem_zip hp).1) hpays.used h
  rw [List.nil_append] at hrefunds
  rw [hrefunds]
  have hzip := Int.ofNat_le.mpr (gasCost_zip_le entry.txs entry.results)
  rw [Nat.zero_add] at hcost
  exact ⟨hpos, (hle.trans hzip).trans hcost⟩

namespace Assembly.Collected

variable {ok : PoolEntry → Prop}

theorem refundSender_eq (h : assembly.Collected ok) :
    assembly.refundSender = (assembly.refundOutputs.map TxOut.nValue).sum := by
  induction h with
  | start _ _ hsender houtputs => simp [hsender, houtputs]
  | add _ _ hadd ih =>
    obtain ⟨bcer, -, rfl⟩ := Option.map_eq_some_iff.mp hadd
    rw [List.map_append, List.sum_append, ← ih]

theorem commitment (h : assembly.Collected ok) : ∀ out ∈ assembly.commitment, out.nValue = 0 := by
  induction h with
  | start _ _ _ _ hcommitment => exact hcommitment
  | add _ _ hadd ih =>
    obtain ⟨bcer, -, rfl⟩ := Option.map_eq_some_iff.mp hadd
    exact ih

theorem refunds (h : assembly.Collected PoolEntry.PaysGas) :
    (∀ out ∈ assembly.refundOutputs, 0 ≤ out.nValue) ∧ assembly.refundSender ≤ assembly.nFees := by
  induction h with
  | start _ hfees hsender houtputs => simp [hfees, hsender, houtputs]
  | add _ hpays hadd ih =>
    obtain ⟨bcer, hbcer, rfl⟩ := Option.map_eq_some_iff.mp hadd
    obtain ⟨hpos, hle⟩ := ih
    obtain ⟨hpos', hle'⟩ := hpays.refunds hbcer
    exact ⟨List.forall_mem_append.mpr ⟨hpos, hpos'⟩, Int.add_le_add hle hle'⟩

end Assembly.Collected

/-! ### The coinbase -/

theorem foldlM_addOutput_range {func : String} {vout : List TxOut} {start total : Amount}
    (hstart : MoneyRange start) (h : vout.foldlM (Tx.addOutput func) start = .ok total) :
    (∀ out ∈ vout, 0 ≤ out.nValue) ∧ MoneyRange total := by
  induction vout generalizing start with
  | nil =>
    rw [List.foldlM_nil, Except.pure_eq_ok_iff] at h
    exact ⟨by simp, h ▸ hstart⟩
  | cons out vout ih =>
    obtain ⟨next, hnext, hrest⟩ := Except.foldlM_cons_eq_ok_iff.mp h
    rw [Tx.addOutput] at hnext
    split at hnext
    next hrange =>
      cases hnext
      obtain ⟨hpos, htotal⟩ := ih hrange.2 hrest
      exact ⟨List.forall_mem_cons.mpr ⟨(moneyRange_iff.mp hrange.1).1, hpos⟩, htotal⟩
    next => cases hnext

theorem getValueOut_eq_ok_iff {tx : Tx} {total : Amount} :
    tx.getValueOut = .ok total ↔ (∀ out ∈ tx.vout, 0 ≤ out.nValue) ∧ tx.outputValue ≤ MAX_MONEY ∧
      total = tx.outputValue := by
  constructor
  · intro h
    obtain ⟨hpos, hrange⟩ := foldlM_addOutput_range (by decide) h
    have htotal := getValueOut_eq_ok h
    exact ⟨hpos, htotal ▸ (moneyRange_iff.mp hrange).2, htotal⟩
  · rintro ⟨hpos, hle, rfl⟩
    rw [Tx.getValueOut,
      PlainChain.foldlM_addOutput_of_le le_rfl hpos (by rw [Int.zero_add]; exact hle), Int.zero_add,
      Tx.outputValue]

theorem subsidy_shares (nHeight : Nat) :
    (getBlockSubsidy nHeight).tdiv 10 * 7 + 5 * luckyShare nHeight = getBlockSubsidy nHeight := by
  rw [luckyShare, getBlockSubsidy]
  split <;> decide

theorem sum_map_add {α : Type} (l : List α) (a : Amount) (f : α → Amount) :
    (l.map fun x => a + f x).sum = l.length * a + (l.map f).sum := by
  induction l with
  | nil => simp
  | cons x l ih =>
    rw [List.map_cons, List.sum_cons, ih, List.map_cons, List.sum_cons, List.length_cons]
    push_cast
    ring

variable {env : TicketEnv} {s : TipState} {nNextChoice : BitVec 32} {block : Block} {drawn : List Ticket}

theorem length_eq_of_drawn (hdrawn : drawnTickets env s nNextChoice = .ok drawn)
    (hfive : TICKET_VALVE ≤ s.height → 5 ≤ drawn.length) :
    drawn.length = if TICKET_VALVE ≤ s.height then 5 else 0 := by
  split
  next hvalve => exact le_antisymm (length_drawn hdrawn) (hfive hvalve)
  next hvalve =>
    rw [drawnTickets, if_neg hvalve] at hdrawn
    cases hdrawn
    rfl

theorem shareOutputs_value (assembly : Assembly)
    (hlength : drawn.length = if TICKET_VALVE ≤ s.height then 5 else 0) :
    ((shareOutputs s assembly drawn).map TxOut.nValue).sum = 5 * luckyShare
    (s.height + 1) + totalPrice drawn ∧
      (shareOutputs s assembly drawn).length = 5 := by
  rw [shareOutputs]
  by_cases hvalve : TICKET_VALVE ≤ s.height
  · rw [if_pos hvalve] at hlength
    rw [if_pos hvalve, List.take_of_length_le hlength.le, List.map_map, List.length_map, hlength]
    have hsum := sum_map_add drawn (luckyShare (s.height + 1)) Ticket.ticketPrice
    rw [hlength] at hsum
    exact ⟨hsum, rfl⟩
  · rw [if_neg hvalve, List.length_eq_zero_iff] at hlength
    rw [if_neg hvalve, hlength]
    refine ⟨?_, List.length_replicate⟩
    rw [List.map_replicate, List.sum_replicate, nsmul_eq_mul, totalPrice, List.map_nil,
      List.sum_nil, Int.add_zero]
    rfl

theorem rewardTx_outputValue {ok : PoolEntry → Prop} (hcollected : assembly.Collected ok)
    (hlength : drawn.length = if TICKET_VALVE ≤ s.height then 5 else 0) :
    (rewardTx s assembly drawn).outputValue =
      assembly.nFees + getBlockSubsidy (s.height + 1) +
        totalPrice (drawn ++ refundedTickets s drawn) := by
  have hcommitment : (assembly.commitment.toList.map TxOut.nValue).sum = 0 := by
    cases hout : assembly.commitment with
    | none => rfl
    | some out => simp [hcollected.commitment out hout]
  have hexpired : ((refundedTickets s drawn).map refundOutput).map TxOut.nValue =
      (refundedTickets s drawn).map Ticket.ticketPrice := by
    rw [List.map_map]
    rfl
  have hsender := hcollected.refundSender_eq
  have hsubsidy := subsidy_shares (s.height + 1)
  rw [Tx.outputValue, rewardTx, coinbaseTx, List.map_cons, List.sum_cons, List.map_append,
    List.map_append, List.map_append, List.sum_append, List.sum_append, List.sum_append,
      (shareOutputs_value assembly hlength).1, hcommitment, ← hsender, hexpired, totalPrice,
    totalPrice, List.map_append, List.sum_append]
  linarith

theorem rewardTx_vout_length (assembly : Assembly)
    (hlength : drawn.length = if TICKET_VALVE ≤ s.height then 5 else 0) :
    ((rewardTx s assembly drawn).vout.length : Int) - 1 =
      5 + (refundedTickets s drawn).length + assembly.refundOutputs.length +
        assembly.commitment.toList.length := by
  rw [rewardTx, coinbaseTx, List.length_cons, List.length_append, List.length_append,
    List.length_append, List.length_map, (shareOutputs_value assembly hlength).2]
  push_cast
  ring

theorem luckyShare_nonneg (nHeight : Nat) : 0 ≤ luckyShare nHeight := by
  rw [luckyShare, getBlockSubsidy]
  split <;> decide

theorem minerShare_nonneg (nHeight : Nat) : 0 ≤ (getBlockSubsidy nHeight).tdiv 10 * 7 := by
  rw [getBlockSubsidy]
  split <;> decide

theorem rewardTx_nonneg_iff (hcollected : assembly.Collected PoolEntry.PaysGas)
    (hlength : drawn.length = if TICKET_VALVE ≤ s.height then 5 else 0) :
    (∀ out ∈ (rewardTx s assembly drawn).vout, 0 ≤ out.nValue) ↔
      (∀ t ∈ drawn, 0 ≤ luckyShare (s.height + 1) + t.ticketPrice) ∧ ∀ t ∈ refundedTickets s drawn,
        0 ≤ t.ticketPrice := by
  obtain ⟨hrefunds, hcovered⟩ := hcollected.refunds
  have hminer :
      0 ≤ assembly.nFees + (getBlockSubsidy (s.height + 1)).tdiv 10 *
        7 - assembly.refundSender := by
    linarith [minerShare_nonneg (s.height + 1)]
  have hcommitment : ∀ out ∈ assembly.commitment.toList, 0 ≤ out.nValue := fun out hout =>
    (hcollected.commitment out (Option.mem_toList.mp hout)).ge
  have hshares : (∀ out ∈ shareOutputs s assembly drawn, 0 ≤ out.nValue) ↔
      ∀ t ∈ drawn, 0 ≤ luckyShare (s.height + 1) + t.ticketPrice := by
    rw [shareOutputs]
    by_cases hvalve : TICKET_VALVE ≤ s.height
    · rw [if_pos hvalve] at hlength
      rw [if_pos hvalve, List.take_of_length_le hlength.le, List.forall_mem_map]
      rfl
    · rw [if_neg hvalve, List.length_eq_zero_iff] at hlength
      rw [if_neg hvalve, hlength]
      refine iff_of_true ?_ (by simp)
      intro out hout
      rw [List.eq_of_mem_replicate hout]
      exact luckyShare_nonneg _
  rw [rewardTx, coinbaseTx, List.forall_mem_cons, List.forall_mem_append, List.forall_mem_append,
    List.forall_mem_append, hshares, List.forall_mem_map]
  exact ⟨fun h => h.2.1.1, fun h => ⟨hminer, ⟨h, hrefunds⟩, hcommitment⟩⟩

theorem isCoinBase_rewardTx : (rewardTx s assembly drawn).isCoinBase := by
  have hnull : (⟨Uint256.ofNat 0, 0xffffffff⟩ : OutPoint).isNull = true := by decide
  have hvout : 1 ≤ (rewardTx s assembly drawn).vout.length := Nat.succ_pos _
  exact Bool.and_eq_true_iff.mpr ⟨hnull, decide_eq_true hvout⟩

theorem refundOutputs_subperm (s : TipState) (assembly : Assembly) (drawn : List Ticket) :
    assembly.refundOutputs.Subperm (rewardTx s assembly drawn).vout := by
  apply List.Sublist.subperm
  rw [rewardTx, coinbaseTx]
  exact ((List.sublist_append_right _ _).trans (List.sublist_append_left _ _)).trans
    (List.sublist_cons_self _ _)

end

/-- What the tickets of a new block have to satisfy: no price is negative beyond the share it is paid with, all prices stay below what `CheckReward` allows for the outputs, the whole coinbase is an amount of money, and the limit fits 64 bits. -/
structure PayableTickets (s : TipState) (assembly : Assembly) (drawn : List Ticket) : Prop where
  lucky : ∀ t ∈ drawn, 0 ≤ luckyShare (s.height + 1) + t.ticketPrice
  expired : ∀ t ∈ refundedTickets s drawn, 0 ≤ t.ticketPrice
  allowed : totalPrice (drawn ++ refundedTickets s drawn) ≤
    ticketAllowance
      (5 + (refundedTickets s drawn).length + assembly.refundOutputs.length +
        assembly.commitment.toList.length)
  money : assembly.nFees + getBlockSubsidy (s.height + 1) +
    totalPrice (drawn ++ refundedTickets s drawn) ≤ MAX_MONEY
  fits : assembly.nFees + getBlockSubsidy (s.height + 1) +
    ticketAllowance
      (5 + (refundedTickets s drawn).length + assembly.refundOutputs.length +
        assembly.commitment.toList.length) < 2 ^ 63

theorem payable_assembleBlock_iff (env : TicketEnv) {s : TipState} {assembly : Assembly}
    {drawn : List Ticket} (hcollected : assembly.Collected PoolEntry.PaysGas)
    (hlength : drawn.length = if TICKET_VALVE ≤ s.height then 5 else 0) (nNextChoice : BitVec 32) :
    ((∀ out ∈ (rewardTx s assembly drawn).vout, 0 ≤ out.nValue) ∧
      checkReward (assembleBlock env s assembly nNextChoice (rewardTx s assembly drawn))
        (s.height + 1) assembly.nFees
        assembly.refundOutputs = .ok ()) ↔ PayableTickets s assembly drawn := by
  have hvalue := rewardTx_outputValue hcollected hlength
  have houtputs := rewardTx_vout_length assembly hlength
  have hnonneg := rewardTx_nonneg_iff hcollected hlength
  have hlimit : rewardLimit (rewardTx s assembly drawn) (s.height + 1) assembly.nFees =
      assembly.nFees + getBlockSubsidy (s.height + 1) +
        ticketAllowance
          (5 + (refundedTickets s drawn).length + assembly.refundOutputs.length +
            assembly.commitment.toList.length) := by
    rw [← houtputs, ticketAllowance, Int.mul_assoc, rewardLimit]
  rw [checkReward_eq_ok_iff rfl isCoinBase_rewardTx, RewardMatches, hlimit]
  constructor
  · rintro ⟨-, ⟨-, total, htotal, hle⟩, hfits⟩
    obtain ⟨hpos, hmax, rfl⟩ := getValueOut_eq_ok_iff.mp htotal
    obtain ⟨hfirst, hexpired⟩ := hnonneg.mp hpos
    rw [hvalue] at hle hmax
    exact ⟨hfirst, hexpired, by linarith, hmax, hfits⟩
  · intro h
    have hpos := hnonneg.mpr ⟨h.lucky, h.expired⟩
    refine ⟨hpos, ⟨List.subperm_iff_count.mp (refundOutputs_subperm s assembly drawn), _,
      getValueOut_eq_ok_iff.mpr ⟨hpos, hvalue ▸ h.money, rfl⟩, ?_⟩, h.fits⟩
    rw [hvalue]
    linarith [h.allowed]

/-- The coinbase of a block collected from transactions that pay their gas has no negative output and passes `CheckReward` exactly when its tickets are payable. -/
theorem coinbase_payable_iff (env : TicketEnv) (s : TipState) (assembly : Assembly)
    (nNextChoice : BitVec 32) (block : Block) (hcollected : assembly.Collected PoolEntry.PaysGas)
    (hnew : createNewBlock env s assembly nNextChoice = .ok block) :
    ∃ drawn, drawnTickets env s nNextChoice = .ok drawn ∧
      (((∀ coinbase ∈ block.vtx.head?, ∀ out ∈ coinbase.vout, 0 ≤ out.nValue) ∧
          checkReward block (s.height + 1) assembly.nFees assembly.refundOutputs = .ok ()) ↔
            PayableTickets s assembly drawn) := by
  obtain ⟨drawn, hdrawn, hfive, rfl⟩ := createNewBlock_eq_ok.mp hnew
  refine ⟨drawn, hdrawn, ?_⟩
  rw [← payable_assembleBlock_iff env hcollected (length_eq_of_drawn hdrawn hfive) nNextChoice]
  have hhead : (assembleBlock env s assembly nNextChoice (rewardTx s assembly drawn)).vtx.head? =
      some (rewardTx s assembly drawn) := rfl
  rw [hhead]
  simp only [Option.mem_some_iff, forall_eq']

namespace FirstTicket

def assembly : Assembly where
  scriptPubKeyIn := [0x51]
  defaultPosMiner := .keyID 7
  nVersion := 4
  nTime := 0
  nBits := 0
  hashStateRoot := Uint256.ofNat 0
  hashUTXORoot := Uint256.ofNat 0
  selected := []
  nFees := 0
  refundSender := 0
  refundOutputs := []
  commitment := some ⟨0, [0x6a]⟩

theorem assembly_collected : assembly.Collected PoolEntry.PaysGas := .start rfl rfl rfl rfl (by decide)

theorem drawnTickets_expiring {s : TipState} (hheight : s.height = TICKET_POOL_MAX_SIZE)
    (nNextChoice : BitVec 32) :
    drawnTickets tickets s nNextChoice = .ok [] := by
  rw [drawnTickets, hheight]
  rfl

theorem refundedTickets_expiring {s : TipState} {t : Ticket} (hheight : s.height = TICKET_POOL_MAX_SIZE)
    (hpool : s.pool = pool t TICKET_POOL_MAX_SIZE) (hfirst : t.ticketHeight = 1) :
    refundedTickets s [] = [t] := by
  have hall : [t].filter (fun u => u.ticketHeight = 1) = [t] := by simp [hfirst]
  rw [refundedTickets, hheight, hpool, if_pos le_rfl]
  exact hall

theorem createNewBlock_expiring {s : TipState} (hheight : s.height = TICKET_POOL_MAX_SIZE)
    (nNextChoice : BitVec 32) :
    createNewBlock tickets s assembly nNextChoice =
      .ok (assembleBlock tickets s assembly nNextChoice (rewardTx s assembly [])) :=
  createNewBlock_eq_ok.mpr ⟨[], drawnTickets_expiring hheight nNextChoice,
    fun hvalve => absurd (hheight ▸ hvalve) (by decide), rfl⟩

theorem payableTickets_expiring {s : TipState} {t : Ticket} (hheight : s.height = TICKET_POOL_MAX_SIZE)
    (hpool : s.pool = pool t TICKET_POOL_MAX_SIZE) (hfirst : t.ticketHeight = 1) :
    PayableTickets s assembly [] ↔ 0 ≤ t.ticketPrice ∧ t.ticketPrice ≤ 7 * (TICKET_PRICE * COIN) := by
  have hrefunded := refundedTickets_expiring hheight hpool hfirst
  have hallowance : ticketAllowance 7 = 7 * (TICKET_PRICE * COIN) := by decide
  have htotal : totalPrice [t] = t.ticketPrice := Int.add_zero _
  constructor
  · intro h
    have hexpired := h.expired
    have hallowed := h.allowed
    rw [hrefunded] at hexpired hallowed
    rw [List.nil_append, htotal] at hallowed
    exact ⟨hexpired _ List.mem_cons_self, hallowed.trans hallowance.le⟩
  · rintro ⟨hnonneg, hle⟩
    have hmax : 0 + getBlockSubsidy (TICKET_POOL_MAX_SIZE + 1) + 7 * (TICKET_PRICE * COIN) ≤
        MAX_MONEY := by decide
    have hfits : 0 + getBlockSubsidy (TICKET_POOL_MAX_SIZE + 1) + ticketAllowance 7 < 2 ^ 63 := by decide
    refine ⟨by simp, ?_, ?_, ?_, ?_⟩
    · rw [hrefunded]
      exact List.forall_mem_singleton.mpr hnonneg
    · rw [hrefunded, List.nil_append, htotal]
      exact hle.trans hallowance.ge
    · rw [hrefunded, List.nil_append, htotal, hheight]
      exact (Int.add_le_add_left hle _).trans hmax
    · rw [hrefunded, hheight]
      exact hfits

theorem exists_expiring {nValue : Amount} (hnonneg : 0 ≤ nValue) (hle : nValue ≤ 260000 * COIN) :
    ∃ (c : ActiveChain ValveRun.network PlainChain.noContracts) (s : TipState),
      s.height = TICKET_POOL_MAX_SIZE ∧
      s.pool = pool (ticket nValue) TICKET_POOL_MAX_SIZE ∧ s = c.state.tipState s.pool ∧
        loadTicketpool tickets s.chain s.height = .ok s.pool := by
  obtain ⟨c, hheight, -, hload⟩ :=
    exists_ticket hnonneg hle (show _ ≤ TICKET_POOL_MAX_SIZE by decide) (by decide)
  have hs : (c.state.tipState (pool (ticket nValue) TICKET_POOL_MAX_SIZE)).height =
      TICKET_POOL_MAX_SIZE := hheight
  refine ⟨c, _, hs, rfl, rfl, ?_⟩
  rw [hs]
  exact hload

end FirstTicket

open FirstTicket in
theorem coinbase_payable_iff_firstTicket :
    ∃ (c : ActiveChain ValveRun.network PlainChain.noContracts) (s : TipState) (block : Block),
      s = c.state.tipState s.pool ∧
      loadTicketpool tickets s.chain s.height = .ok s.pool ∧ assembly.Collected PoolEntry.PaysGas ∧
        createNewBlock tickets s assembly 0 = .ok block ∧
        checkReward block (s.height + 1) assembly.nFees assembly.refundOutputs = .ok () := by
  obtain ⟨c, s, hheight, hpool, hs, hload⟩ :=
    exists_expiring (show 0 ≤ TICKET_PRICE * COIN by decide) (by decide)
  have hblock := createNewBlock_expiring hheight 0
  obtain ⟨drawn, hdrawn, hiff⟩ := coinbase_payable_iff tickets s assembly 0 _ assembly_collected hblock
  obtain rfl := Except.ok.inj ((drawnTickets_expiring hheight 0).symm.trans hdrawn)
  exact ⟨c, s, _, hs, hload, assembly_collected, hblock,
    (hiff.mpr ((payableTickets_expiring hheight hpool rfl).mpr (by decide))).2⟩

open FirstTicket in
/-- The coinbase of the first block pays 260000 coins for a ticket. It expires after 2048 blocks, its price is refunded in one output, and `CheckReward` refuses the template although no output is negative and it has no other transaction. -/
theorem expensive_ticket_refund_refused :
    ∃ (c : ActiveChain ValveRun.network PlainChain.noContracts) (s : TipState) (block : Block),
      s.height = TICKET_POOL_MAX_SIZE ∧
      s = c.state.tipState s.pool ∧ loadTicketpool tickets s.chain s.height = .ok s.pool ∧
        assembly.Collected PoolEntry.PaysGas ∧
        createNewBlock tickets s assembly 0 = .ok block ∧
          checkReward block (s.height + 1) assembly.nFees assembly.refundOutputs ≠ .ok () := by
  obtain ⟨c, s, hheight, hpool, hs, hload⟩ := exists_expiring (show 0 ≤ 260000 * COIN by decide) le_rfl
  refine ⟨c, s, _, hheight, hs, hload, assembly_collected, createNewBlock_expiring hheight 0, ?_⟩
  intro hreward
  have hlength := length_eq_of_drawn (drawnTickets_expiring hheight 0) fun hvalve =>
    absurd (hheight ▸ hvalve) (by decide)
  have hnonneg := (rewardTx_nonneg_iff assembly_collected hlength).mpr ⟨by simp, by
    rw [refundedTickets_expiring hheight hpool rfl]
    exact List.forall_mem_singleton.mpr (by decide)⟩
  have hpayable := (payable_assembleBlock_iff tickets assembly_collected hlength 0).mp ⟨hnonneg, hreward⟩
  exact absurd ((payableTickets_expiring hheight hpool rfl).mp hpayable).2 (by decide)

end TscPow
