import TscPow.Ticket.Signatures
import TscPow.Validation.Money

/-!
# What a coinbase may pay

A block returns the prices of the lucky tickets drawn for it and of the tickets that expire with it. `CheckReward` does not look at the ticket pool: it allows one `TICKET_PRICE` for every coinbase output after the first. The coinbase stays within fees, subsidy and returned prices when that allowance does, and a larger allowance is always exceeded by some coinbase that `CheckReward` accepts. The refunds that contracts leave have to be among the outputs with their repetitions; that, and the limit, are what `CheckReward` decides as long as the limit fits 64 bits, as it does for every coinbase that `CheckTransaction` lets through.
-/

namespace TscPow

/-- The tickets whose prices a block on top of `s` returns: the lucky ones, and those of the expiring height that are left. -/
def returnedTickets (env : TicketEnv) (s : TipState) (block : Block) : Except Fault (List Ticket) := do
  let lucky ← signingTickets env s block
  let temppool := lucky.foldl TicketSet.ticketDel s.pool.ticket_pool
  return lucky ++
    if s.height + 1 ≥ TICKET_POOL_MAX_SIZE then
      temppool.getTicketByHeight (s.height + 1 - TICKET_POOL_MAX_SIZE)
    else []

def totalPrice (tickets : List Ticket) : Amount := (tickets.map Ticket.ticketPrice).sum

def coinbaseValue (block : Block) : Amount :=
  match block.vtx with
  | [] => 0
  | coinbase :: _ => coinbase.outputValue

/-- What `CheckReward` adds for the outputs after the first. -/
def ticketAllowance (outputs : Int) : Amount := outputs * TICKET_PRICE * COIN

/-- The call of `ConnectBlock` is for a block on top of the chain of `s`, whose pool is loaded. -/
structure ConnectsOn {World : Type} (env : TicketEnv) (x : ConnectInput World) (s : TipState) : Prop where
  ancestors : x.pindex.ancestors = (s.chain.map Block.toBlockHeader).reverse
  loaded : loadTicketpool env s.chain s.height = .ok s.pool

section

variable {World : Type} {env : Env} {contracts : Contracts World} {tickets : TicketEnv}
  {x : ConnectInput World} {out : ConnectOutput World} {s : TipState} {st : Connecting World}
  {block : Block} {nHeight : Nat} {nFees : Amount}

theorem ConnectsOn.nHeight_eq (hon : ConnectsOn tickets x s) : x.pindex.nHeight = s.height + 1 := by
  rw [BlockIndex.nHeight, hon.ancestors, List.length_reverse, List.length_map]
  rfl

theorem coinbaseValue_le_of_checkReward {vouts : List TxOut}
    (h : checkReward block nHeight nFees vouts = .ok ()) :
    coinbaseValue block ≤
      nFees + getBlockSubsidy nHeight + ticketAllowance (rewardOutputs block.vtx) := by
  rw [checkReward] at h
  cases hvtx : block.vtx with
  | nil => simp [hvtx] at h
  | cons coinbase rest =>
    simp only [hvtx, Except.bind_eq_ok_iff, orFault_eq_ok_iff, rule_eq_ok_iff] at h
    obtain ⟨-, -, limit, hlimit, total, htotal, hle⟩ := h
    obtain ⟨rfl, -⟩ := blockReward_eq_ok_iff.mp hlimit
    have hvalue : coinbaseValue block = total := by rw [coinbaseValue, hvtx, getValueOut_eq_ok htotal]
    rw [hvalue]
    exact not_lt.mp hle

theorem foldlM_addOutput_zeros {func : String} {total : Amount} (hrange : MoneyRange total) (n : Nat) :
    (List.replicate n (⟨0, []⟩ : TxOut)).foldlM (Tx.addOutput func) total = .ok total := by
  induction n with
  | zero => rfl
  | succ n ih =>
    have hzero : MoneyRange 0 = true := by decide
    rw [List.replicate_succ, List.foldlM_cons, Tx.addOutput]
    simp only [hzero, Int.add_zero, hrange, and_self, if_true]
    exact ih

def coinbaseBlock (n : Nat) (total : Amount) : Block :=
  { (default : BlockHeader) with
    vtx := [⟨2, [⟨⟨Uint256.ofNat 0, 0xffffffff⟩, [], SEQUENCE_FINAL, []⟩],
      ⟨total, []⟩ :: List.replicate n ⟨0, []⟩, 0⟩] }

theorem isCoinBase_coinbaseBlock (n : Nat) (total : Amount) :
    ∀ tx ∈ (coinbaseBlock n total).vtx, tx.isCoinBase = true := by
  intro tx htx
  obtain rfl := List.mem_singleton.mp htx
  have hnull : (⟨Uint256.ofNat 0, 0xffffffff⟩ : OutPoint).isNull = true := by decide
  have hlength : 1 ≤ ((⟨total, []⟩ : TxOut) :: List.replicate n ⟨0, []⟩).length := by simp
  exact Bool.and_eq_true_iff.mpr ⟨hnull, decide_eq_true hlength⟩

theorem getValueOut_coinbaseBlock (n : Nat) {total : Amount} (hrange : MoneyRange total) :
    ∀ tx ∈ (coinbaseBlock n total).vtx, tx.getValueOut = .ok total := by
  intro tx htx
  obtain rfl := List.mem_singleton.mp htx
  rw [Tx.getValueOut, List.foldlM_cons, Tx.addOutput]
  simp only [Int.zero_add, hrange, and_self, if_true]
  exact foldlM_addOutput_zeros hrange n

theorem rewardOutputs_coinbaseBlock (n : Nat) (total : Amount) :
    rewardOutputs (coinbaseBlock n total).vtx = n := by
  have hcoinbase := isCoinBase_coinbaseBlock n total _ List.mem_cons_self
  rw [rewardOutputs, coinbaseBlock, List.find?_cons_of_pos hcoinbase]
  simp

theorem checkReward_coinbaseBlock {n : Nat} {total : Amount} (hrange : MoneyRange total)
    (hle : total ≤ nFees + getBlockSubsidy nHeight + ticketAllowance n)
    (hfits : nFees + getBlockSubsidy nHeight + ticketAllowance n < 2 ^ 63) :
    checkReward (coinbaseBlock n total) nHeight nFees [] = .ok () := by
  have hreward : blockReward nHeight (coinbaseBlock n total).vtx nFees =
      .ok (nFees + getBlockSubsidy nHeight + ticketAllowance n) := by
    rw [blockReward_eq_ok_iff, rewardOutputs_coinbaseBlock]
    exact ⟨rfl, by linarith [(moneyRange_iff.mp hrange).1], hfits⟩
  rw [checkReward]
  simp only [coinbaseBlock, Except.bind_eq_ok_iff, orFault_eq_ok_iff, rule_eq_ok_iff, not_lt]
  exact ⟨_, rfl, _, hreward, total, getValueOut_coinbaseBlock n hrange _ List.mem_cons_self, hle⟩

theorem coinbaseValue_coinbaseBlock (n : Nat) (total : Amount) :
    coinbaseValue (coinbaseBlock n total) = total := by
  simp [coinbaseValue, coinbaseBlock, Tx.outputValue]

end

/-- A connected block whose output allowance is covered by the tickets it returns pays at most fees, subsidy and their prices. For given height, fees and number of outputs with a limit that fits 64 bits, every coinbase that `CheckReward` accepts stays within fees, subsidy and a total of prices exactly when the allowance for the outputs is at most that total. -/
theorem coinbase_entitled_iff {World : Type} (env : Env) (contracts : Contracts World)
    (tickets : TicketEnv) :
    (∀ (x : ConnectInput World) (out : ConnectOutput World) (s : TipState) (st : Connecting World)
      (returned : List Ticket),
      connectBlock env contracts x = .ok out →
        env.hashing.blockHash x.block.header ≠ env.params.hashGenesisBlock →
        ConnectsOn tickets x s →
          x.block.vtx.foldlM (connectTx env contracts (x.connection contracts)) x.start = .ok st →
          returnedTickets tickets s x.block = .ok returned →
            ticketAllowance (rewardOutputs x.block.vtx) ≤ totalPrice returned →
              coinbaseValue x.block ≤ st.nFees + getBlockSubsidy (s.height + 1) + totalPrice returned) ∧
    ∀ (nHeight outputs : Nat) (nFees prices : Amount), 0 ≤ nFees + getBlockSubsidy nHeight + prices →
      nFees + getBlockSubsidy nHeight + prices < MAX_MONEY →
        nFees + getBlockSubsidy nHeight + ticketAllowance outputs < 2 ^ 63 →
        ((∀ block, rewardOutputs block.vtx = outputs → checkReward block nHeight nFees [] = .ok () →
            coinbaseValue block ≤ nFees + getBlockSubsidy nHeight + prices) ↔
              ticketAllowance outputs ≤ prices) := by
  refine ⟨?_, ?_⟩
  · intro x out s st returned hconnect hgenesis hon hst _ hcovered
    obtain ⟨-, st', hst', hreward⟩ := connectBlock_steps hconnect hgenesis
    obtain rfl : st = st' := Except.ok.inj (hst.symm.trans hst')
    have hle := coinbaseValue_le_of_checkReward hreward
    rw [hon.nHeight_eq] at hle
    exact hle.trans (Int.add_le_add_left hcovered _)
  · intro nHeight outputs nFees prices hnonneg hmax hfits
    constructor
    · intro hall
      by_contra hlarge
      -- one unit more than the entitlement still passes
      have hrange : MoneyRange (nFees + getBlockSubsidy nHeight + prices + 1) :=
        moneyRange_iff.mpr ⟨by linarith, Int.add_one_le_of_lt hmax⟩
      have hpasses : nFees + getBlockSubsidy nHeight + prices + 1 ≤
          nFees + getBlockSubsidy nHeight + ticketAllowance outputs := by
        have := Int.add_one_le_of_lt (not_le.mp hlarge)
        linarith
      have hle := hall (coinbaseBlock outputs _) (rewardOutputs_coinbaseBlock outputs _)
        (checkReward_coinbaseBlock hrange hpasses hfits)
      rw [coinbaseValue_coinbaseBlock] at hle
      exact absurd hle (not_le.mpr (lt_add_one _))
    · intro hcovered block houtputs hreward
      have hle := coinbaseValue_le_of_checkReward hreward
      rw [houtputs] at hle
      exact hle.trans (Int.add_le_add_left hcovered _)

/-! ### Refunds and the limit -/

section

variable {block : Block} {coinbase : Tx} {rest : List Tx} {nHeight : Nat} {nFees : Amount}
  {vouts : List TxOut}

/-- The limit of `CheckReward` as an integer: fees, subsidy and one ticket price for every output after the first. -/
def rewardLimit (coinbase : Tx) (nHeight : Nat) (nFees : Amount) : Int :=
  nFees + getBlockSubsidy nHeight + ((coinbase.vout.length : Int) - 1) * (TICKET_PRICE * COIN)

/-- What `CheckReward` is for, without bounds on the numbers: the coinbase has every refund as often as it is due, and its total is within the limit. -/
def RewardMatches (coinbase : Tx) (nHeight : Nat) (nFees : Amount) (vouts : List TxOut) : Prop :=
  (∀ refund, vouts.count refund ≤ coinbase.vout.count refund) ∧
    ∃ total, coinbase.getValueOut = .ok total ∧ total ≤ rewardLimit coinbase nHeight nFees

theorem rewardOutputs_eq (hvtx : block.vtx = coinbase :: rest) (hcoinbase : coinbase.isCoinBase) :
    rewardOutputs block.vtx = (coinbase.vout.length : Int) - 1 := by
  rw [rewardOutputs, hvtx, List.find?_cons_of_pos hcoinbase]

theorem getValueOut_nonneg {tx : Tx} {total : Amount} (h : tx.getValueOut = .ok total) : 0 ≤ total := by
  apply Except.foldlM_invariant (P := fun sum => 0 ≤ sum) h le_rfl
  intro sum sum' out _ _ hstep
  rw [Tx.addOutput] at hstep
  split at hstep
  · rename_i hrange
    cases hstep
    exact (moneyRange_iff.mp hrange.2).1
  · cases hstep

theorem checkReward_eq_ok_iff (hvtx : block.vtx = coinbase :: rest) (hcoinbase : coinbase.isCoinBase) :
    checkReward block nHeight nFees vouts = .ok () ↔
      RewardMatches coinbase nHeight nFees vouts ∧ rewardLimit coinbase nHeight nFees < 2 ^ 63 := by
  have hlimit : nFees + getBlockSubsidy nHeight + rewardOutputs block.vtx * TICKET_PRICE * COIN =
      rewardLimit coinbase nHeight nFees := by
    rw [rewardOutputs_eq hvtx hcoinbase, Int.mul_assoc, rewardLimit]
  rw [RewardMatches, ← List.subperm_iff_count, ← exists_foldlM_takeRefund_iff, checkReward, hvtx]
  simp only [Except.bind_eq_ok_iff, orFault_eq_ok_iff, rule_eq_ok_iff, not_lt, ← hvtx,
    blockReward_eq_ok_iff, hlimit]
  constructor
  · rintro ⟨left, hleft, _, ⟨rfl, -, hfits⟩, total, htotal, hle⟩
    exact ⟨⟨⟨left, hleft⟩, total, htotal, hle⟩, hfits⟩
  · rintro ⟨⟨⟨left, hleft⟩, total, htotal, hle⟩, hfits⟩
    have hnonneg := getValueOut_nonneg htotal
    exact ⟨left, hleft, _, ⟨rfl, by linarith, hfits⟩, total, htotal, hle⟩

theorem rewardLimit_lt (hsize : coinbase.strippedSize ≤ MAX_TRANSACTION_BASE_SIZE)
    (hfees : MoneyRange nFees) :
    rewardLimit coinbase nHeight nFees < 2 ^ 63 := by
  have hsubsidy : getBlockSubsidy nHeight ≤ 260000 * COIN := by
    rw [getBlockSubsidy]
    split <;> decide
  have hfees_le := (moneyRange_iff.mp hfees).2
  have houtputs : (coinbase.vout.length : Int) - 1 ≤ 1000000 := by
    have hlength := (length_vout_le_strippedSize coinbase).trans hsize
    rw [MAX_TRANSACTION_BASE_SIZE] at hlength
    omega
  have hprices := Int.mul_le_mul_of_nonneg_right houtputs (c := TICKET_PRICE * COIN) (by decide)
  calc rewardLimit coinbase nHeight nFees ≤ MAX_MONEY + 260000 * COIN + 1000000 * (TICKET_PRICE * COIN) :=
        Int.add_le_add (Int.add_le_add hfees_le hsubsidy) hprices
    _ < 2 ^ 63 := by decide

end

/-- For a block with a coinbase, `CheckReward` decides inclusion of the refunds and the limit exactly when the limit fits 64 bits or they do not hold. It fits for every coinbase that `CheckTransaction` lets through. -/
theorem checkReward_matches_iff (block : Block) (coinbase : Tx) (rest : List Tx)
    (hvtx : block.vtx = coinbase :: rest) (hcoinbase : coinbase.isCoinBase) (nHeight : Nat)
    (nFees : Amount) (vouts : List TxOut) :
    ((checkReward block nHeight nFees vouts = .ok () ↔ RewardMatches coinbase nHeight nFees vouts) ↔
      (RewardMatches coinbase nHeight nFees vouts → rewardLimit coinbase nHeight nFees < 2 ^ 63)) ∧
    (coinbase.strippedSize ≤ MAX_TRANSACTION_BASE_SIZE → MoneyRange nFees →
      (checkReward block nHeight nFees vouts = .ok () ↔ RewardMatches coinbase nHeight nFees vouts)) := by
  rw [checkReward_eq_ok_iff hvtx hcoinbase, and_iff_left_iff_imp]
  exact ⟨Iff.rfl, fun hsize hfees _ => rewardLimit_lt hsize hfees⟩

/-- The limit for a coinbase that pays nothing in more than three million outputs does not fit 64 bits. -/
theorem outputs_overflow : ∃ coinbase, (coinbaseBlock 3074457 0).vtx = [coinbase] ∧ coinbase.isCoinBase ∧
    RewardMatches coinbase 3 0 [] ∧ checkReward (coinbaseBlock 3074457 0) 3 0 [] ≠ .ok () := by
  have hcoinbase := isCoinBase_coinbaseBlock 3074457 0 _ List.mem_cons_self
  have htotal :=
    getValueOut_coinbaseBlock 3074457 (show MoneyRange 0 = true by decide) _ List.mem_cons_self
  have hlength : (((⟨0, []⟩ : TxOut) :: List.replicate 3074457 ⟨0, []⟩).length : Int) - 1 = 3074457 := by
    rw [List.length_cons, List.length_replicate]
    rfl
  refine ⟨_, rfl, hcoinbase, ⟨fun _ => Nat.zero_le _, 0, htotal, ?_⟩, ?_⟩
  · rw [rewardLimit, hlength]
    decide
  · intro h
    have hfits := ((checkReward_eq_ok_iff rfl hcoinbase).mp h).2
    rw [rewardLimit, hlength] at hfits
    revert hfits
    decide

namespace Sample

def tickets : TicketEnv where
  hashing := hashing
  extractDestination _ := .noDestination
  readBlockFromDisk _ := true

def parent : TipState where
  genesis := { header 1 with vtx := [] }
  above := [{ header 2 with vtx := [] }, { header 3 with vtx := [] }]
  pool := TicketPool.new

theorem connectsOn_parent (vtx : List Tx) : ConnectsOn tickets (connect vtx) parent :=
  ⟨rfl, by decide +kernel⟩

end Sample

open Sample in
theorem coinbase_entitled_iff_sample :
    let x := connect [coinbase [⟨260000 * COIN, opTrue⟩], spend [⟨COIN, opTrue⟩]]
    ∃ out st, connectBlock network noContracts x = .ok out ∧
      x.block.vtx.foldlM (connectTx network noContracts (x.connection noContracts)) x.start = .ok st ∧
        coinbaseValue x.block ≤ st.nFees + getBlockSubsidy (parent.height + 1) + totalPrice [] := by
  intro x
  obtain ⟨out, hout⟩ :=
    Except.exists_of_isOk (x := connectBlock network noContracts x) (by decide +kernel)
  have hgenesis : network.hashing.blockHash x.block.header ≠ network.params.hashGenesisBlock := by
    decide +kernel
  obtain ⟨-, st, hst, -⟩ := connectBlock_steps hout hgenesis
  exact ⟨out, st, hout, hst,
    (coinbase_entitled_iff network noContracts tickets).1 x out parent st [] hout hgenesis
    (connectsOn_parent _) hst (by decide +kernel) (by decide +kernel)⟩

/-- Two equal refunds are found among the outputs, a third one is not. -/
theorem Sample.checkReward_matches_repeated :
    let block : Block := { header 3 with vtx := [coinbase [⟨COIN, opTrue⟩, ⟨7, opTrue⟩, ⟨7, opTrue⟩]] }
    checkReward block 3 0 [⟨7, opTrue⟩, ⟨7, opTrue⟩] = .ok () ∧
      checkReward block 3 0 [⟨7, opTrue⟩, ⟨7, opTrue⟩, ⟨7, opTrue⟩] ≠ .ok () := by
  intro block
  have hmatches (vouts : List TxOut) :=
    (checkReward_matches_iff block _ [] rfl (by decide +kernel) 3 0 vouts).2 (by decide +kernel)
      (by decide)
  constructor
  · refine (hmatches _).mpr ⟨List.subperm_iff_count.mp (List.Sublist.subperm ?_), COIN + 14,
      by decide +kernel, by decide +kernel⟩
    exact List.sublist_cons_self _ _
  · intro h
    have hcount := ((hmatches _).mp h).1 ⟨7, opTrue⟩
    revert hcount
    decide +kernel

open Sample in
/-- At height three no ticket is returned, and a coinbase with two outputs is accepted that pays the subsidy and a ticket price. -/
theorem second_output_mints :
    let x := connect [coinbase [⟨260000 * COIN, opTrue⟩, ⟨30000 * COIN, opTrue⟩]]
    (connectBlock network noContracts x).isOk = true ∧ ConnectsOn tickets x parent ∧
      returnedTickets tickets parent x.block = .ok [] ∧
        ((x.block.vtx.foldlM (connectTx network noContracts (x.connection noContracts))
          x.start).toOption.map fun st =>
          (st.nFees,
            decide (coinbaseValue x.block ≤ st.nFees + getBlockSubsidy (parent.height + 1) +
              totalPrice []))) =
            some (0, false) :=
  ⟨by decide +kernel, connectsOn_parent _, by decide +kernel, by decide +kernel⟩

end TscPow
