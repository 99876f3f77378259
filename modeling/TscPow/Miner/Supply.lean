import TscPow.Miner.Expiry

/-!
# The recorded money supply

`ConnectBlock` adds to the supply what the first six outputs of the coinbase pay, takes off five ticket prices above the valve, and lets the fees out again through the inputs and outputs of the other transactions. For a block that `CreateNewBlock` has built from tickets of the fixed price that is the subsidy, less what is left unclaimed and less the gas refunds: these are taken out of the first output and paid by outputs that are not counted.
-/

namespace TscPow

/-- The memory pool takes no transaction of the shape of a coin stake, and contract execution makes none. -/
def PoolEntry.NoStake (entry : PoolEntry) : Prop :=
  entry.tx.isCoinStake = false ∧
    ∀ bcer, processingResults entry.txs entry.results = some bcer → ∀ tx ∈ bcer.valueTransfers,
      tx.isCoinStake = false

/-- What a coinbase leaves of the fees of its block and the subsidy, when the prices that it returns are set aside. -/
def leftUnclaimed (nHeight : Nat) (nFees : Amount) (block : Block) (returned : List Ticket) : Amount :=
  nFees + getBlockSubsidy nHeight - (coinbaseValue block - totalPrice returned)

def totalSubsidy (height : Nat) : Amount := ((List.range height).map fun i => getBlockSubsidy (i + 1)).sum

/-- The chains of accepted blocks that `CreateNewBlock` has built from tickets of the fixed price, with the ticket pool at the tip, what the coinbases have left unclaimed and the gas that was refunded. -/
inductive Built {World : Type} (env : Env) (contracts : Contracts World) (tickets : TicketEnv) :
    ChainState World → TicketPool → Amount → Amount → Prop
  | start {s : ChainState World} (h : s.Start env) : Built env contracts tickets s TicketPool.new 0 0
  | extend {s t : ChainState World} {pool pool' : TicketPool} {unclaimed refunds : Amount}
      {assembly : Assembly} {nNextChoice : BitVec 32}
      {template block : Block} {drawn : List Ticket} {ctx : AcceptContext}
      {fScriptChecks scriptCheckThreads : Bool} {st : Connecting World}
      (hbuilt : Built env contracts tickets s pool unclaimed refunds)
      (hprice : ∀ u ∈ pool.ticket_pool, u.ticketPrice = TICKET_PRICE * COIN)
      (hcollected : assembly.Collected PoolEntry.NoStake)
      (hnew : createNewBlock tickets (s.tipState pool) assembly nNextChoice = .ok template)
      (hdrawn : drawnTickets tickets (s.tipState pool) nNextChoice = .ok drawn)
      (hblock : block.Completes template) (hext : s.Extends env contracts block t)
      (haccept : s.accept env contracts ctx fScriptChecks scriptCheckThreads block = .ok t)
      (hst : block.vtx.foldlM
        (connectTx env contracts
          ((s.connectInput fScriptChecks scriptCheckThreads block).connection contracts))
        (s.connectInput fScriptChecks scriptCheckThreads block).start = .ok st)
      (hmove : (s.tipState pool).move tickets (.connect block) = .ok (t.tipState pool')) :
      Built env contracts tickets t pool'
        (unclaimed + leftUnclaimed (s.height + 1) st.nFees block
          (drawn ++ refundedTickets (s.tipState pool) drawn))
        (refunds + assembly.refundSender)

section

variable {World : Type} {env : Env} {contracts : Contracts World} {tickets : TicketEnv}
  {s t : ChainState World} {c : Connection} {st st' : Connecting World} {tx : Tx} {block : Block}
  {assembly : Assembly}

theorem Assembly.Collected.isCoinStake (h : assembly.Collected PoolEntry.NoStake) :
    ∀ tx ∈ assembly.selected, tx.isCoinStake = false := by
  induction h with
  | start hselected => simp [hselected]
  | add _ hok hadd ih =>
    obtain ⟨bcer, hbcer, rfl⟩ := Option.map_eq_some_iff.mp hadd
    exact List.forall_mem_append.mpr ⟨ih, List.forall_mem_cons.mpr ⟨hok.1, hok.2 bcer hbcer⟩⟩

/-! ### The totals of the transaction loop -/

/-- Value created so far, with the fees put back. -/
def Connecting.minted (st : Connecting World) : Int := st.nValueOut - st.nValueIn + st.nFees

theorem toNat_emod (a : Int) : (((a % 2 ^ 64).toNat : Nat) : Int) ≡ a [ZMOD 2 ^ 64] := by
  rw [Int.toNat_of_nonneg (Int.emod_nonneg _ (by decide))]
  exact Int.mod_modEq _ _

theorem minted_of_runContracts (h : runContracts contracts c st tx = .ok st') :
    st'.minted = st.minted := by
  simp only [runContracts, Except.bind_eq_ok_iff, Except.pure_eq_ok_iff] at h
  obtain ⟨-, -, txs, -, -, -, nValueOut, -, tally, -, -, -, executed, -, bcer, -, -, -, rfl⟩ := h
  rfl

theorem minted_of_run {tallied : Connecting World}
    (h : (if tx.hasCreateOrCall && !tx.hasOpSpend then
          runContracts contracts c (if tx.hasOpSpend then tallied
            else { tallied with checkVtx := tallied.checkVtx ++ [tx] }) tx
        else pure (if tx.hasOpSpend then tallied
          else { tallied with checkVtx := tallied.checkVtx ++ [tx] })) = .ok st) :
    st.minted = tallied.minted := by
  have hvtx :
      (if tx.hasOpSpend then tallied
        else { tallied with checkVtx := tallied.checkVtx ++ [tx] }).minted = tallied.minted := by
    split <;> rfl
  rw [← hvtx]
  split at h
  · exact minted_of_runContracts h
  · rw [Except.pure_eq_ok_iff] at h
    rw [← h]

theorem minted_of_connectTx (h : connectTx env contracts c st tx = .ok st')
    (hcoinbase : tx.isCoinBase = false) (hstake : tx.isCoinStake = false) :
    st'.minted ≡ st.minted [ZMOD 2 ^ 64] := by
  obtain ⟨cost, spent, tallied, ran, view, undo, hspent, htallied, hran, -, rfl⟩ := connectTx_steps h
  change ran.minted ≡ _ [ZMOD 2 ^ 64]
  rw [minted_of_run hran]
  simp only [hcoinbase, checkSpend, hstake, Bool.false_eq_true, if_false, Except.bind_eq_ok_iff,
    Except.pure_eq_ok_iff, orFault_eq_ok_iff] at hspent
  obtain ⟨valueOut, hvalueOut, passes, -, -, -, rfl⟩ := hspent
  simp only [tallyValues, hcoinbase, Bool.false_eq_true, if_false, Except.bind_eq_ok_iff,
    Except.pure_eq_ok_iff, orFault_eq_ok_iff, hvalueOut, Except.ok.injEq, exists_eq_left'] at htallied
  have hout := toNat_emod (st.nValueOut + valueOut)
  have hin := toNat_emod (st.nValueIn + st.view.getValueIn tx)
  have hsum := (hout.sub hin).add_right (st.nFees + (st.view.getValueIn tx - valueOut))
  rw [← htallied]
  refine hsum.trans (congrArg (· % 2 ^ 64) ?_)
  rw [Connecting.minted]
  ring

theorem minted_of_coinbase (h : connectTx env contracts c st tx = .ok st')
    (hcoinbase : tx.isCoinBase = true) :
    ∃ realOut, tx.getCoinBaseRealOut = .ok realOut ∧
      st'.minted ≡ st.minted + (if c.pindex.nHeight > TICKET_VALVE then
        realOut - TICKET_PRICE * 5 * COIN else realOut) [ZMOD 2 ^ 64] := by
  obtain ⟨cost, spent, tallied, ran, view, undo, hspent, htallied, hran, -, rfl⟩ := connectTx_steps h
  rw [if_pos hcoinbase, Except.pure_eq_ok_iff] at hspent
  simp only [tallyValues, hcoinbase, if_true, Except.bind_eq_ok_iff, Except.pure_eq_ok_iff,
    orFault_eq_ok_iff] at htallied
  obtain ⟨realOut, hrealOut, htallied⟩ := htallied
  refine ⟨realOut, hrealOut, ?_⟩
  change ran.minted ≡ _ [ZMOD 2 ^ 64]
  rw [minted_of_run hran, ← htallied, ← hspent]
  refine (((toNat_emod _).sub_right _).add_right _).trans (congrArg (· % 2 ^ 64) ?_)
  rw [Connecting.minted]
  ring

/-! ### One block -/

theorem nMoneySupply_of_accept {ctx : AcceptContext} {fScriptChecks scriptCheckThreads : Bool}
    (haccept : s.accept env contracts ctx fScriptChecks scriptCheckThreads block = .ok t)
    (hgenesis : env.hashing.blockHash block.header ≠ env.params.hashGenesisBlock)
    (hst : block.vtx.foldlM
      (connectTx env contracts
        ((s.connectInput fScriptChecks scriptCheckThreads block).connection contracts))
      (s.connectInput fScriptChecks scriptCheckThreads block).start = .ok st) :
    t.nMoneySupply = (((s.nMoneySupply : Int) + st.nValueOut - st.nValueIn) % 2 ^ 64).toNat := by
  have hjust : (s.connectInput fScriptChecks scriptCheckThreads block).fJustCheck = false := rfl
  have hblock : (s.connectInput fScriptChecks scriptCheckThreads block).block = block := rfl
  simp only [ChainState.accept, connectBlock, Except.bind_eq_ok_iff, Except.pure_eq_ok_iff] at haccept
  obtain ⟨-, -, out, ⟨-, -, -, -, -, -, -, -, -, -, hconnect⟩, rfl⟩ := haccept
  rw [hblock, if_neg hgenesis] at hconnect
  simp only [connectTransactions, hjust, Bool.false_eq_true, if_false, Except.bind_eq_ok_iff,
    Except.pure_eq_ok_iff] at hconnect
  obtain ⟨pprev, -, nBits, -, -, -, -, -, st', hst', -, -, -, -, -, -, -, -, -, -, rfl⟩ := hconnect
  obtain rfl : st = st' := Except.ok.inj (hst.symm.trans hst')
  rfl

theorem minted_of_block {coinbase : Tx} {rest : List Tx}
    (hst : (coinbase :: rest).foldlM (connectTx env contracts c) st = .ok st')
    (hcoinbase : coinbase.isCoinBase = true)
    (hrest : ∀ tx ∈ rest, tx.isCoinBase = false ∧ tx.isCoinStake = false) :
    ∃ realOut, coinbase.getCoinBaseRealOut = .ok realOut ∧
      st'.minted ≡ st.minted + (if c.pindex.nHeight > TICKET_VALVE then
        realOut - TICKET_PRICE * 5 * COIN else realOut) [ZMOD 2 ^ 64] := by
  obtain ⟨st₁, hfirst, hloop⟩ := Except.foldlM_cons_eq_ok_iff.mp hst
  obtain ⟨realOut, hrealOut, hminted⟩ := minted_of_coinbase hfirst hcoinbase
  refine ⟨realOut, hrealOut, ?_⟩
  refine Except.foldlM_invariant (P := fun st => st.minted ≡ _ [ZMOD 2 ^ 64]) hloop hminted ?_
  intro s tx s' htx hs hstep
  exact (minted_of_connectTx hstep (hrest tx htx).1 (hrest tx htx).2).trans hs

variable {ts : TipState} {drawn : List Ticket} {ok : PoolEntry → Prop}

theorem realOut_rewardTx {realOut : Amount}
    (hlength : drawn.length = if TICKET_VALVE ≤ ts.height then 5 else 0)
    (hrealOut : ((rewardTx ts assembly drawn).vout.take 6).foldlM
      (Tx.addOutput "GetCoinBaseRealOut") 0 = .ok realOut) :
    realOut = assembly.nFees + getBlockSubsidy (ts.height + 1) +
      totalPrice drawn - assembly.refundSender := by
  obtain ⟨hvalue, hshares⟩ := shareOutputs_value assembly hlength
  have hsix : (rewardTx ts assembly drawn).vout.take 6 =
      ⟨assembly.nFees + (getBlockSubsidy (ts.height + 1)).tdiv 10 * 7 - assembly.refundSender,
        assembly.scriptPubKeyIn⟩ ::
        shareOutputs ts assembly drawn := by
    rw [rewardTx, coinbaseTx, List.take_succ_cons, List.append_assoc, List.append_assoc,
      List.take_left' hshares]
  have hsubsidy := subsidy_shares (ts.height + 1)
  rw [foldlM_addOutput hrealOut, hsix, List.map_cons, List.sum_cons, hvalue]
  linarith

theorem totalPrice_drawn (hprice : ∀ u ∈ drawn, u.ticketPrice = TICKET_PRICE * COIN) :
    totalPrice drawn = drawn.length * (TICKET_PRICE * COIN) := by
  rw [totalPrice, List.map_congr_left hprice, List.map_const', List.sum_replicate, nsmul_eq_mul]

theorem minted_rewardTx {realOut : Amount}
    (hlength : drawn.length = if TICKET_VALVE ≤ ts.height then 5 else 0)
    (hprice : ∀ u ∈ drawn, u.ticketPrice = TICKET_PRICE * COIN)
    (hrealOut : ((rewardTx ts assembly drawn).vout.take 6).foldlM
      (Tx.addOutput "GetCoinBaseRealOut") 0 = .ok realOut) :
    (if ts.height + 1 > TICKET_VALVE then realOut - TICKET_PRICE * 5 * COIN else realOut) =
      assembly.nFees + getBlockSubsidy (ts.height + 1) - assembly.refundSender := by
  have hreal := realOut_rewardTx hlength hrealOut
  rw [totalPrice_drawn hprice, hlength] at hreal
  by_cases hvalve : TICKET_VALVE ≤ ts.height
  · rw [if_pos (Nat.lt_succ_of_le hvalve), hreal, if_pos hvalve]
    push_cast
    ring
  · rw [if_neg (by omega), hreal, if_neg hvalve]
    push_cast
    ring

theorem leftUnclaimed_rewardTx (nFees : Amount) {coinbase : Tx} {rest : List Tx}
    (hcollected : assembly.Collected ok)
    (hlength : drawn.length = if TICKET_VALVE ≤ ts.height then 5 else 0)
    (hvtx : block.vtx = coinbase :: rest) (hvout : coinbase.vout = (rewardTx ts assembly drawn).vout) :
    leftUnclaimed (ts.height + 1) nFees block (drawn ++ refundedTickets ts drawn) =
      nFees - assembly.nFees := by
  have hvalue := rewardTx_outputValue hcollected hlength
  rw [Tx.outputValue, ← hvout, ← Tx.outputValue] at hvalue
  have hcoinbase : coinbaseValue block = coinbase.outputValue := by rw [coinbaseValue, hvtx]
  rw [leftUnclaimed, hcoinbase, hvalue]
  ring

/-! ### Whole chains -/

variable {pool : TicketPool} {unclaimed refunds : Amount}

theorem Built.genesis (h : Built env contracts tickets s pool unclaimed refunds) :
    env.hashing.blockHash s.genesis.header = env.params.hashGenesisBlock := by
  induction h with
  | start h => exact h.genesis
  | extend _ _ _ _ _ _ hext _ _ _ ih =>
    rw [hext.above_eq.1]
    exact ih

theorem emod_sub_eq_iff (a b : Int) : (a - b) % 2 ^ 64 = a ↔ 2 ^ 64 ∣ b ∧ 0 ≤ a ∧ a < 2 ^ 64 := by
  omega

theorem totalSubsidy_succ (height : Nat) :
    totalSubsidy (height + 1) = totalSubsidy height + getBlockSubsidy (height + 1) := by
  rw [totalSubsidy, totalSubsidy, List.range_succ, List.map_append, List.sum_append,
    List.map_singleton, List.sum_singleton]

theorem minted_of_built {pool : TicketPool} {nNextChoice : BitVec 32}
    {fScriptChecks scriptCheckThreads : Bool}
    (hprice : ∀ u ∈ pool.ticket_pool, u.ticketPrice = TICKET_PRICE * COIN)
    (hcollected : assembly.Collected PoolEntry.NoStake)
    (hdrawn : drawnTickets tickets (s.tipState pool) nNextChoice = .ok drawn)
    (hfive : TICKET_VALVE ≤ (s.tipState pool).height → 5 ≤ drawn.length)
    (hblock : block.Completes
      (assembleBlock tickets (s.tipState pool) assembly nNextChoice
        (rewardTx (s.tipState pool) assembly drawn)))
    (hext : s.Extends env contracts block t)
    (hst : block.vtx.foldlM
      (connectTx env contracts
        ((s.connectInput fScriptChecks scriptCheckThreads block).connection contracts))
      (s.connectInput fScriptChecks scriptCheckThreads block).start = .ok st) :
    (st.nValueOut : Int) - st.nValueIn ≡ getBlockSubsidy (s.height + 1) -
      leftUnclaimed (s.height + 1) st.nFees block
        (drawn ++ refundedTickets (s.tipState pool) drawn) - assembly.refundSender
          [ZMOD 2 ^ 64] := by
  have hlength := length_eq_of_drawn hdrawn hfive
  obtain ⟨coinbase, rest, scriptSig, htemplate, hvtx⟩ := hblock.vtx
  obtain ⟨rfl, rfl⟩ := List.cons.inj htemplate
  -- `CheckBlock` has found exactly one coinbase
  obtain ⟨limits, hcheck⟩ := hext.checkBlock
  simp only [checkBlock, Except.bind_eq_ok_iff, rule_eq_ok_iff, hvtx] at hcheck
  obtain ⟨-, -, -, -, -, -, -, -, -, ⟨_, ⟨⟩, hcoinbase⟩, -, hothers, -⟩ := hcheck
  have hrest : ∀ tx ∈ assembly.selected, tx.isCoinBase = false ∧ tx.isCoinStake = false := fun tx htx =>
    ⟨by simpa using hothers tx htx, hcollected.isCoinStake tx htx⟩
  have hleft := leftUnclaimed_rewardTx st.nFees hcollected hlength hvtx rfl
  rw [hvtx] at hst
  obtain ⟨realOut, hrealOut, hminted⟩ := minted_of_block hst hcoinbase hrest
  have hnHeight :
      ((s.connectInput fScriptChecks scriptCheckThreads
        block).connection contracts).pindex.nHeight = s.height + 1 := by
    change (s.tip.child block.header).nHeight = _
    rw [BlockIndex.nHeight_child, s.nHeight_tip]
  have hsame := minted_rewardTx hlength (fun u hu => hprice u (mem_of_drawn hdrawn u hu)) hrealOut
  have hstart : (s.connectInput fScriptChecks scriptCheckThreads block).start.minted = 0 := rfl
  have hheight : (s.tipState pool).height = s.height := rfl
  rw [hheight] at hsame hleft
  rw [hnHeight, hsame, hstart, Connecting.minted] at hminted
  rw [hleft]
  refine ((congrArg (· % 2 ^ 64) ?_).trans (hminted.sub_right st.nFees)).trans
    (congrArg (· % 2 ^ 64) ?_) <;> ring

theorem Built.nMoneySupply_eq (h : Built env contracts tickets s pool unclaimed refunds) :
    (s.nMoneySupply : Int) = (totalSubsidy s.height - unclaimed - refunds) % 2 ^ 64 := by
  induction h with
  | start h =>
    rw [h.nMoneySupply, ChainState.height, h.above]
    decide
  | @extend s t pool pool' unclaimed refunds assembly nNextChoice template block drawn ctx
      fScriptChecks scriptCheckThreads st
      hbuilt hprice hcollected hnew hdrawn hblock hext haccept hst hmove ih =>
    obtain ⟨drawn', hdrawn', hfive, rfl⟩ := createNewBlock_eq_ok.mp hnew
    obtain rfl : drawn = drawn' := Except.ok.inj (hdrawn.symm.trans hdrawn')
    have hgenesis : env.hashing.blockHash block.header ≠ env.params.hashGenesisBlock := by
      rw [← hbuilt.genesis]
      exact hext.fresh _ List.mem_cons_self
    have hheight : t.height = s.height + 1 := by
      rw [ChainState.height, hext.above_eq.2, List.length_append]; rfl
    have hminted := minted_of_built hprice hcollected hdrawn hfive hblock hext hst
    have hbefore :
        (s.nMoneySupply : Int) ≡ totalSubsidy s.height - unclaimed - refunds [ZMOD 2 ^ 64] := by
      rw [ih]
      exact Int.mod_modEq _ _
    rw [nMoneySupply_of_accept haccept hgenesis hst,
      Int.toNat_of_nonneg (Int.emod_nonneg _ (by decide)), hheight, totalSubsidy_succ]
    refine ((congrArg (· % 2 ^ 64) ?_).trans (hbefore.add hminted)).trans
      (congrArg (· % 2 ^ 64) ?_) <;> ring

variable {pool' : TicketPool} {nNextChoice : BitVec 32} {template : Block}

theorem Built.exists_extend (hbuilt : Built env contracts tickets s pool unclaimed refunds)
    (hprice : ∀ u ∈ pool.ticket_pool, u.ticketPrice = TICKET_PRICE * COIN)
    (hcollected : assembly.Collected PoolEntry.NoStake)
    (hnew : createNewBlock tickets (s.tipState pool) assembly nNextChoice = .ok template)
    (hdrawn : drawnTickets tickets (s.tipState pool) nNextChoice = .ok drawn)
    (hblock : block.Completes template) (hext : s.Extends env contracts block t)
    (hmove : (s.tipState pool).move tickets (.connect block) = .ok (t.tipState pool')) :
    ∃ unclaimed', Built env contracts tickets t pool' unclaimed' (refunds + assembly.refundSender) := by
  obtain ⟨ctx, fScriptChecks, scriptCheckThreads, haccept⟩ := hext.accepted
  have hgenesis : env.hashing.blockHash block.header ≠ env.params.hashGenesisBlock := by
    rw [← hbuilt.genesis]
    exact hext.fresh _ List.mem_cons_self
  have hconnect := haccept
  simp only [ChainState.accept, Except.bind_eq_ok_iff, Except.pure_eq_ok_iff] at hconnect
  obtain ⟨-, -, out, hconnect, -⟩ := hconnect
  obtain ⟨-, st, hst, -⟩ := connectBlock_steps hconnect hgenesis
  exact ⟨_, hbuilt.extend hprice hcollected hnew hdrawn hblock hext haccept hst hmove⟩

end

/-- On every chain of accepted blocks built by `CreateNewBlock` from tickets of the fixed price, the recorded supply is the sum of the subsidies less what was left unclaimed and less the gas refunds, as a `uint64_t`. So it is the real one exactly when the gas refunds add up to nothing and the real one is a `uint64_t`. -/
theorem moneySupply_eq_iff {World : Type} {env : Env} {contracts : Contracts World}
    {tickets : TicketEnv} {s : ChainState World} {pool : TicketPool} {unclaimed refunds : Amount}
    (hbuilt : Built env contracts tickets s pool unclaimed refunds) :
    (s.nMoneySupply : Int) = (totalSubsidy s.height - unclaimed - refunds) % 2 ^ 64 ∧
      ((s.nMoneySupply : Int) = totalSubsidy s.height - unclaimed ↔
        2 ^ 64 ∣ refunds ∧ 0 ≤ totalSubsidy s.height - unclaimed ∧
          totalSubsidy s.height - unclaimed < 2 ^ 64) := by
  have hsupply := hbuilt.nMoneySupply_eq
  refine ⟨hsupply, ?_⟩
  rw [hsupply]
  exact emod_sub_eq_iff _ _

/-! ### A gas refund -/

namespace GasRefund

open PlainChain ValveRun

def payer : Script := payToPubkeyHash 1

def prevout : OutPoint := ⟨Uint256.ofNat 1, 0⟩

def paid : Coin := coins 1 ⟨182000 * COIN, payer⟩

def call : Tx where
  nVersion := 2
  vin := [⟨prevout, [], SEQUENCE_FINAL, []⟩]
  vout := [⟨181999 * COIN, [OP_CALL]⟩]
  nLockTime := 0

def converted : TscTransaction := ⟨1, false, 2, 0, 250000, 40, ⟨0, 1, 0, 0⟩, Uint256.ofNat 2, 0⟩

def executed : ResultExecute := ⟨false, 50000, none⟩

def refund : TxOut := ⟨8000000, payToPubkeyHash 1⟩

def setting : Setting where
  txHash tx := Uint256.ofNat (match tx.vout.head?.map TxOut.scriptPubKey with
    | some script => if script = payer then 1 else if script = [OP_CALL] then 2 else 0
    | none => 0)
  solver _ := true
  extractionTscTransactions _ _ _ := some [converted]
  performByteCode world _ _ _ := some (world, [executed])

def tickets : TicketEnv := ⟨(network setting).hashing, fun _ => .keyID 7, fun _ => true⟩

def entry : PoolEntry := ⟨call, COIN, [converted], [executed]⟩

def assembly : Assembly :=
  { MinedChain.template payer 501 with
    selected := [call], nFees := COIN, refundSender := 8000000, refundOutputs := [refund] }

theorem assembly_collected : assembly.Collected PoolEntry.NoStake := by
  have hnone : processingResults [converted] [executed] = some ⟨50000, 8000000, [refund], []⟩ := by decide
  have hadd : (MinedChain.template payer 501).addToBlock entry = some assembly := by
    rw [Assembly.addToBlock, entry, hnone]; rfl
  refine .add (MinedChain.template_collected PoolEntry.NoStake 501) ⟨by decide, ?_⟩ hadd
  intro bcer hbcer
  obtain rfl := Option.some.inj (hnone.symm.trans hbcer)
  simp

def coinbase : Tx :=
  coinbaseTx assembly 501 (List.replicate 5 ⟨luckyShare 501, (Destination.keyID 7).script⟩) []

def block : Block := { header 501 with vtx := [coinbase, call] }

theorem plain_coinbase : Coinbase 501 coinbase :=
  ⟨rfl, by decide, by decide, by decide, by decide, by decide, by decide⟩

theorem checkNewBlock_block : checkNewBlock (network setting) ctx block (path 501) = .ok () := by
  decide +kernel

theorem isCoinBase_call : call.isCoinBase = false := by decide

theorem vin_call : call.vin = [⟨prevout, [], SEQUENCE_FINAL, []⟩] := rfl

section

variable {v : CoinsView} (hcoin : v.coin prevout = some paid)

include hcoin

theorem accessCoin_prevout : v.accessCoin prevout = paid := by
  rw [CoinsView.accessCoin, hcoin, Option.getD_some]

theorem haveCoin_prevout : v.haveCoin prevout = true := by
  rw [CoinsView.haveCoin, hcoin, Option.isSome_some]

theorem getValueIn_call : v.getValueIn call = 182000 * COIN := by
  rw [CoinsView.getValueIn, isCoinBase_call, if_neg Bool.false_ne_true, CoinsView.inputValue,
    vin_call, List.map_singleton, List.sum_singleton, accessCoin_prevout hcoin]
  rfl

theorem checkAvailable_call {c : Connection} (hpindex : c.pindex = path 501) :
    checkAvailable (network setting) c v call = .ok () := by
  have hinputs : v.haveInputs call = true := by
    rw [CoinsView.haveInputs, vin_call, List.all_cons, haveCoin_prevout hcoin]
    rfl
  rw [checkAvailable, hinputs, hpindex, vin_call]
  simp only [List.map_singleton, accessCoin_prevout hcoin]
  decide +kernel

theorem getTransactionSigOpCost_call (flags : Nat) :
    getTransactionSigOpCost (network setting).interpreter call v flags = .ok 0 := by
  have hscript : Script.isPayToScriptHash paid.out.scriptPubKey = false := by decide
  have hlegacy : getLegacySigOpCount call = 0 := by decide
  have hcount : ∀ i script f, (network setting).interpreter.countWitnessSigOps i script f = 0 :=
    fun _ _ _ => rfl
  simp only [getTransactionSigOpCost, isCoinBase_call, hlegacy, vin_call, List.any_cons,
    List.any_nil, haveCoin_prevout hcoin, List.map_singleton, accessCoin_prevout hcoin, hscript,
      hcount, List.sum_singleton, Bool.false_eq_true, if_false, Bool.not_true, Bool.or_false]
  simp

theorem checkTxInputs_call : checkTxInputs call v 501 = .ok () := by
  have hinputs : v.haveInputs call = true := by
    rw [CoinsView.haveInputs, vin_call, List.all_cons, haveCoin_prevout hcoin]
    rfl
  rw [checkTxInputs, hinputs, vin_call]
  simp only [List.foldlM_cons, List.foldlM_nil, checkTxInput, accessCoin_prevout hcoin]
  decide +kernel

theorem checkSpend_call {c : Connection} (st : Connecting Unit) (hst : st.view = v)
    (hpindex : c.pindex = path 501) :
    ∃ st', checkSpend (network setting) c st call = .ok st' ∧ st'.nFees = st.nFees + COIN ∧
      st'.view = v ∧ st'.gasRefunds = st.gasRefunds ∧ st'.checkVouts = st.checkVouts ∧
      st'.queuedChecks = st.queuedChecks ∧ st'.blockGasUsed = st.blockGasUsed := by
  subst hst
  have hstake : call.isCoinStake = false := by decide
  have hvalue : call.getValueOut = .ok (181999 * COIN) := by decide
  have hcheck := checkTxInputs_call hcoin
  have hheight : (path 501).nHeight = 501 := nHeight_path 501
  have hcontract : (call.hasOpSpend || call.hasCreateOrCall) = true := by decide
  have hverify : ∀ tx i out flags, (network setting).interpreter.verifyScript tx i out flags =
      none := fun _ _ _ _ => rfl
  have hscripts :
      ∀ flags, call.vin.zipIdx.forM (checkInputScript (network setting) call st.view flags) =
        .ok () := fun _ => rfl
  have hpaid : Script.hasOpCreate paid.out.scriptPubKey = false ∧
      Script.hasOpCall paid.out.scriptPubKey = false := by decide
  simp only [checkSpend, checkInputs, hvalue, orFault_ok, hstake, Bool.false_eq_true, if_false,
    Except.bind_eq_ok_iff, Except.pure_eq_ok_iff, rule_eq_ok_iff, hpindex, hheight, hcontract,
      Bool.not_true, Bool.and_false, Except.ok.injEq, exists_eq_left']
  refine ⟨_, ⟨true, ⟨(), hcheck, ?_⟩, (), ?_, rfl⟩, ?_⟩
  · split
    · rw [hscripts]
      rfl
    · rfl
  · rw [vin_call]
    refine List.forall_mem_singleton.mpr fun _ => ?_
    rw [accessCoin_prevout hcoin, hpaid.1, hpaid.2]
    rfl
  · refine ⟨?_, rfl, rfl, rfl, Bool.and_true _, rfl⟩
    change st.nFees + (st.view.getValueIn call - 181999 * COIN) = _
    rw [getValueIn_call hcoin, ← sub_mul]
    norm_num

theorem exists_runContracts_call {c : Connection} (st : Connecting Unit) (hst : st.view = v)
    (hprice : c.minGasPrice = 40) (hlimit : c.blockGasLimit = 40000000) (hgas : st.blockGasUsed = 0) :
    ∃ st', runContracts (contracts setting) c st call = .ok st' ∧ st'.nFees = st.nFees ∧ st'.view = v ∧
      st'.gasRefunds = st.gasRefunds + 8000000 ∧ st'.checkVouts = st.checkVouts ++ [refund] ∧
        st'.queuedChecks = st.queuedChecks := by
  subst hst
  have hsender : checkSenderScript st.view call = true := by
    rw [checkSenderScript, vin_call]
    simp only [accessCoin_prevout hcoin]
    decide
  have hvalue : call.getValueOut = .ok (181999 * COIN) := by decide
  have hspend : call.hasOpSpend = false := by decide
  have hresults :
      processingResults [converted] [executed] = some ⟨50000, 8000000, [refund], []⟩ := by decide
  have htally : [converted].foldlM (checkTscTransaction c COIN) (0, 0, false) =
      .ok (10000000, 250000, true) := by
    simp only [List.foldlM_cons, List.foldlM_nil, checkTscTransaction, hprice, hlimit]
    decide +kernel
  have hfee : 182000 * COIN - 181999 * COIN = COIN := by decide
  have hextract :
      (contracts setting).extractionTscTransactions call st.view c.block.vtx = some [converted] :=
    rfl
  have hperform : (contracts setting).performByteCode st.world c.block [converted] c.blockGasLimit =
      some (st.world, [executed]) := rfl
  simp only [runContracts, hsender, hextract, hvalue, getValueIn_call hcoin, hfee, hprice, hlimit,
    hgas, orFault_ok, Except.bind_eq_ok_iff, rule_eq_ok_iff, Except.pure_eq_ok_iff, Except.ok.injEq,
      exists_eq_left']
  refine ⟨_,
    ⟨(), trivial, [converted], rfl, (), by decide, _, htally, (), by simp, (st.world, [executed]),
      rfl, _,
    by rw [hresults]; rfl, (), by decide, rfl⟩, rfl, rfl, ?_, rfl, rfl⟩
  simp [refund]

theorem exists_updateCoins_call (hfresh : v.coin ⟨Uint256.ofNat 2, 0⟩ = none) :
    ∃ v' undo, v.updateCoins ((network setting).hashing.txHash call) call 501 = .ok (v', undo) := by
  have hne : (⟨Uint256.ofNat 2, 0⟩ : OutPoint) ≠ prevout := by decide
  have hspent : v.spendInputs call.vin =
      .ok ({ v with coin := Function.update v.coin prevout none, cached := prevout :: v.cached },
        [paid]) := by
    rw [CoinsView.spendInputs, vin_call, Except.foldlM_cons_eq_ok_iff]
    refine ⟨_, ?_, rfl⟩
    simp only [CoinsView.spendCoin, haveCoin_prevout hcoin, if_true, accessCoin_prevout hcoin,
      List.nil_append]
  have hadd :
      ∃ v', CoinsView.addCoin
        { v with coin := Function.update v.coin prevout none, cached := prevout :: v.cached }
      ⟨Uint256.ofNat 2, 0⟩ ⟨⟨181999 * COIN, [OP_CALL]⟩, false, false, 501⟩ false = .ok v' := by
    have hnone :
        CoinsView.haveCoin
          { v with coin := Function.update v.coin prevout none, cached := prevout :: v.cached }
            ⟨Uint256.ofNat 2, 0⟩ = false := by
      simp only [CoinsView.haveCoin, Function.update_of_ne hne, hfresh, Option.isSome_none]
    rw [CoinsView.addCoin, if_neg (by decide), if_neg (by decide), hnone, if_neg (by simp)]
    exact ⟨_, rfl⟩
  obtain ⟨v', hv'⟩ := hadd
  refine ⟨v', [paid], ?_⟩
  rw [CoinsView.updateCoins, isCoinBase_call, if_neg Bool.false_ne_true, hspent]
  change (CoinsView.addCoins _ _ call 501 >>= _) = _
  rw [Except.bind_eq_ok_iff]
  refine ⟨v', ?_, rfl⟩
  exact Except.foldlM_cons_eq_ok_iff.mpr ⟨v', hv', rfl⟩

theorem exists_connectTx_call {c : Connection} {st : Connecting Unit} (hst : st.view = v)
    (hfresh : v.coin ⟨Uint256.ofNat 2, 0⟩ = none) (hpindex : c.pindex = path 501)
    (hlimits : c.limits = limits) (hprice : c.minGasPrice = 40)
    (hlimit : c.blockGasLimit = 40000000) (hgas : st.blockGasUsed = 0)
    (hsigops : st.nSigOpsCost ≤ 4 * 9820) :
    ∃ st', connectTx (network setting) (contracts setting) c st call = .ok st' ∧
      st'.nFees = st.nFees + COIN ∧
      st'.gasRefunds = st.gasRefunds + 8000000 ∧ st'.checkVouts = st.checkVouts ++ [refund] ∧
        st'.queuedChecks = st.queuedChecks := by
  subst hst
  have hspend : call.hasOpSpend = false := by decide
  have hcontract : call.hasCreateOrCall = true := by decide
  have hvalue : call.getValueOut = .ok (181999 * COIN) := by decide
  have hbound : 4 * 9820 ≤ limits.dgpMaxBlockSigOps := by decide
  obtain ⟨st₁, hst₁, hfees₁, hview₁, hrefunds₁, hvouts₁, hqueued₁, hgas₁⟩ :=
    checkSpend_call hcoin { st with nSigOpsCost := st.nSigOpsCost + 0 } rfl hpindex
  obtain ⟨v', undo, hupdate⟩ := exists_updateCoins_call hcoin hfresh
  have htally : ∃ st₂, tallyValues c st₁ call = .ok st₂ ∧ st₂.nFees = st₁.nFees ∧
    st₂.view = st₁.view ∧ st₂.gasRefunds = st₁.gasRefunds ∧
      st₂.checkVouts = st₁.checkVouts ∧ st₂.queuedChecks = st₁.queuedChecks ∧
        st₂.blockGasUsed = st₁.blockGasUsed := by
    rw [tallyValues, isCoinBase_call, if_neg Bool.false_ne_true, hvalue]
    exact ⟨_, rfl, rfl, rfl, rfl, rfl, rfl, rfl⟩
  obtain ⟨st₂, hst₂, hfees₂, hview₂, hrefunds₂, hvouts₂, hqueued₂, hgas₂⟩ := htally
  obtain ⟨st₃, hst₃, hfees₃, hview₃, hrefunds₃, hvouts₃, hqueued₃⟩ :=
    exists_runContracts_call hcoin { st₂ with checkVtx := st₂.checkVtx ++ [call] }
      (hview₂.trans hview₁) hprice hlimit
      (hgas₂.trans (hgas₁.trans hgas))
  have hheight : (path 501).nHeight = 501 := nHeight_path 501
  simp only [connectTx, isCoinBase_call, checkAvailable_call hcoin hpindex,
    getTransactionSigOpCost_call hcoin, hst₁, hst₂, hst₃, hspend, hcontract, hview₃, hpindex,
      hheight, hupdate, orFault_ok, Bool.false_eq_true, if_false, if_true, Bool.not_false,
      Bool.and_true,
    Except.bind_eq_ok_iff, rule_eq_ok_iff, Except.pure_eq_ok_iff, Except.ok.injEq, exists_eq_left',
      hlimits]
  refine ⟨_, ⟨(), trivial, (), by omega, rfl⟩, ?_, ?_, ?_, ?_⟩
  · exact hfees₃.trans (hfees₂.trans hfees₁)
  · exact hrefunds₃.trans (by rw [hrefunds₂, hrefunds₁])
  · exact hvouts₃.trans (by rw [hvouts₂, hvouts₁])
  · exact hqueued₃.trans (hqueued₂.trans hqueued₁)

end

/-- What the chain of 500 coinbases leaves for the call. -/
structure Ready (s : ChainState Unit) : Prop where
  at_ : At (MinedChain.coinbase payer) 500 s
  paid : s.view.coin prevout = some paid
  fresh : s.view.coin ⟨Uint256.ofNat 2, 0⟩ = none

theorem path_next : path 501 = (path 500).child block.header := path_succ 500

theorem exists_connectTransactions {s : ChainState Unit} (hs : Ready s) :
    ∃ out, connectTransactions (network setting) (contracts setting)
      (s.connectInput true true block) = .ok out := by
  set x := s.connectInput true true block with hx
  have hpindex : x.pindex = path 501 := by rw [hx, ChainState.connectInput, hs.at_.tip_eq, path_next]
  have hheight : x.pindex.nHeight = 501 := by rw [hpindex, nHeight_path]
  have hprev : x.pindex.pprev = some (path 500) := by rw [hpindex, path_next, BlockIndex.pprev_child]
  obtain ⟨st₁, hst₁, hfees₁, hrefunds₁, hvouts₁, hqueued₁, -, hadds, hsigops₁, hgas₁⟩ :
      ∃ st', connectTx (network setting) (contracts setting) (x.connection (contracts setting))
        x.start coinbase = .ok st' ∧ _ :=
    exists_connectTx plain_coinbase rfl hheight rfl
  have hhash : setting.txHash coinbase = Uint256.ofNat 0 := by decide
  have hcoin : st₁.view.coin prevout = some paid :=
    (hadds.other prevout (.inl (by rw [hhash]; decide))).trans hs.paid
  have hfresh : st₁.view.coin ⟨Uint256.ofNat 2, 0⟩ = none :=
    (hadds.other _ (.inl (by rw [hhash]; decide))).trans hs.fresh
  obtain ⟨st, hst, hfees, hrefunds, hvouts, hqueued⟩ :
      ∃ st', connectTx (network setting) (contracts setting) (x.connection (contracts setting)) st₁
        call = .ok st' ∧ _ :=
    exists_connectTx_call hcoin rfl hfresh hpindex rfl rfl rfl hgas₁ hsigops₁
  have hloop :
      x.block.vtx.foldlM
        (connectTx (network setting) (contracts setting) (x.connection (contracts setting)))
          x.start = .ok st :=
    Except.foldlM_cons_eq_ok_iff.mpr ⟨st₁, hst₁, Except.foldlM_cons_eq_ok_iff.mpr ⟨st, hst, rfl⟩⟩
  have hfees : st.nFees = COIN := by rw [hfees, hfees₁]; rfl
  have hrefunds : st.gasRefunds = 8000000 := by rw [hrefunds, hrefunds₁]; rfl
  have hvouts : st.checkVouts = [refund] := by rw [hvouts, hvouts₁]; rfl
  have hreward :
      rewardFailure (checkReward x.block x.pindex.nHeight st.nFees st.checkVouts) = .ok () := by
    rw [hfees, hvouts, hheight]
    change rewardFailure (checkReward block 501 COIN [refund]) = _
    decide +kernel
  have hjust : x.fJustCheck = false := rfl
  simp only [connectTransactions, Except.bind_eq_ok_iff, valueOr_eq_ok_iff, orFault_eq_ok_iff,
    rule_eq_ok_iff, enforceBIP30, hjust, Bool.false_eq_true, if_false, Except.pure_eq_ok_iff]
  refine ⟨_,
    ⟨path 500, hprev, _, getNextWorkRequired_of_bits rfl _, (), rfl, (), ?_, st, hloop, (), ?_, (),
      hreward, (), ?_,
    (), .inl rfl, (), ?_, rfl⟩⟩
  · rintro ⟨⟨⟩, -⟩
  · rw [hfees, hrefunds]
    decide
  · rw [hqueued, hqueued₁]
    rfl
  · rintro ⟨hlarge, -⟩
    rw [hheight] at hlarge
    omega

theorem exists_extends {s : ChainState Unit} (hs : Ready s) :
    ∃ t, s.Extends (network setting) (contracts setting) block t := by
  obtain ⟨out, hout⟩ := exists_connectTransactions hs
  set x := s.connectInput true true block with hx
  have hpindex : x.pindex = path 501 := by rw [hx, ChainState.connectInput, hs.at_.tip_eq, path_next]
  have hgenesis : (network setting).hashing.blockHash x.block.header ≠
      (network setting).params.hashGenesisBlock := by
    change (network setting).hashing.blockHash block.header ≠ _
    decide +kernel
  have hprev : x.pindex.pprev = some (path 500) := by rw [hpindex, path_next, BlockIndex.pprev_child]
  have hcheck :
      checkBlock (network setting) (x.limits (contracts setting)) x.block true true = .ok () := by
    change checkBlock (network setting) limits block true true = _
    decide +kernel
  have hconnect : connectBlock (network setting) (contracts setting) x = .ok out := by
    simp only [connectBlock, Except.bind_eq_ok_iff, asserts_eq_ok_iff, rule_eq_ok_iff,
      if_neg hgenesis, hprev, Option.elim_some]
    refine ⟨(), fun _ => rfl, (), ?_, (), ?_, (), hcheck, (), ?_, hout⟩
    · change block.vtx ≠ [] ∧ block.vtx.length ≤ limits.dgpMaxBlockSize ∧
        block.strippedSize ≤ limits.dgpMaxBlockSize
      decide +kernel
    · change block.weight ≤ limits.dgpMaxBlockWeight
      decide +kernel
    · exact (blockHash_header (by decide)).trans hs.at_.bestBlock.symm
  refine ⟨s.connected (contracts setting) x out, hs.at_.parent (by decide),
    hs.at_.fresh (by decide) rfl, ctx, true, true, ?_⟩
  simp only [ChainState.accept, Except.bind_eq_ok_iff, Except.pure_eq_ok_iff]
  refine ⟨(), ?_, out, hconnect, rfl⟩
  have hchild : s.tip.child block.header = path 501 := by rw [hs.at_.tip_eq, path_next]
  rw [hchild]
  exact checkNewBlock_block

def pool (n : Nat) : TicketPool := ⟨KeyedSet.empty, n - TICKETPOOL_HEIGHT_LATENCY⟩

theorem tipState_eq {n : Nat} {s : ChainState Unit} (hs : At (MinedChain.coinbase payer) n s) :
    s.tipState (pool n) = MinedChain.tip payer (pool n) n := by
  rw [ChainState.tipState, hs.genesis, hs.above]
  rfl

theorem txHash_coinbase (n : Nat) :
    setting.txHash (MinedChain.coinbase payer (n + 1)) = if n = 0 then Uint256.ofNat 1
      else Uint256.ofNat 0 := by
  have hhead : (MinedChain.coinbase payer (n + 1)).vout.head?.map TxOut.scriptPubKey =
      some (if n = 0 then payer else [0x51]) := by
    rw [MinedChain.vout_coinbase, MinedChain.template]
    simp
  simp only [setting, hhead]
  split <;> decide

theorem not_mem_pool (n : Nat) : ∀ u ∈ (pool n).ticket_pool, u.ticketPrice = TICKET_PRICE * COIN :=
  fun _ hu =>
  absurd hu KeyedSet.not_mem_empty

theorem move_pool {n : Nat} (hn : n < TICKET_VALVE) {s t : ChainState Unit} {b : Block}
    (hs : At (MinedChain.coinbase payer) n s)
    (hext : s.Extends (network setting) (contracts setting) b t) :
    (s.tipState (pool n)).move tickets (.connect b) = .ok (t.tipState (pool (n + 1))) := by
  have hfirst : Script.hasOpSStx payer = false := by decide
  have ht : t.tipState (pool (n + 1)) = { (s.tipState (pool n)).extend b with pool := pool (n + 1) } := by
    rw [ChainState.tipState, hext.above_eq.1, hext.above_eq.2]
    rfl
  rw [ht, tipState_eq hs]
  exact MinedChain.connect_quiet (fun _ => rfl) hfirst hn b

theorem exists_plain {n : Nat} (hn : n ≤ 500) :
    ∃ s unclaimed, Built (network setting) (contracts setting) tickets s (pool n) unclaimed 0 ∧
      At (MinedChain.coinbase payer) n s ∧
      (1 ≤ n → s.view.coin prevout = some paid) ∧ s.view.coin ⟨Uint256.ofNat 2, 0⟩ = none := by
  have hcoinbase := MinedChain.plain_coinbase payer (by decide) (by decide)
  induction n with
  | zero => exact ⟨start _, 0, .start (start_start setting _), ⟨rfl, rfl, rfl⟩, by simp, rfl⟩
  | succ n ih =>
    obtain ⟨s, unclaimed, hbuilt, hs, hpaid, hfresh⟩ := ih (by omega)
    have hvalve : n < TICKET_VALVE := lt_of_lt_of_le hn (by decide)
    obtain ⟨t, hext, ht, hadds⟩ := PlainChain.exists_extends hs (hcoinbase (n + 1)) hvalve setting
    obtain ⟨hdrawn, hnew⟩ :=
      MinedChain.createNewBlock_tip tickets payer (pool n) (MinedChain.template payer (n + 1))
      (n := n) (lt_of_lt_of_le hn (by decide))
    rw [← tipState_eq hs] at hdrawn hnew
    have hblock : (PlainChain.block (MinedChain.coinbase payer) (n + 1)).Completes
        (assembleBlock tickets (s.tipState (pool n)) (MinedChain.template payer (n + 1)) 0
          (MinedChain.coinbase payer (n + 1))) := by
      rw [tipState_eq hs]
      exact MinedChain.completes_tip rfl payer _ (lt_of_lt_of_le hn (by decide))
    obtain ⟨unclaimed', hbuilt'⟩ :=
      hbuilt.exists_extend (not_mem_pool n)
        (MinedChain.template_collected PoolEntry.NoStake (n + 1)) hnew hdrawn
      hblock hext (move_pool hvalve hs hext)
    have hhash := txHash_coinbase n
    refine ⟨t, unclaimed', hbuilt', ht, fun _ => ?_, ?_⟩
    · by_cases hzero : n = 0
      · rw [if_pos hzero] at hhash
        subst hzero
        have hadded := hadds.added 0 ⟨182000 * COIN, payer⟩ (by decide) (by decide)
        rw [hhash] at hadded
        exact hadded
      · rw [if_neg hzero] at hhash
        exact (hadds.other prevout (.inl (by rw [hhash]; decide))).trans (hpaid (by omega))
    · refine (hadds.other _ (.inl ?_)).trans hfresh
      rw [hhash]
      split <;> decide

theorem exists_refund :
    ∃ s unclaimed, Built (network setting) (contracts setting) tickets s (pool 501) unclaimed
      8000000 ∧ s.height = 501 := by
  obtain ⟨s, unclaimed, hbuilt, hs, hpaid, hfresh⟩ := exists_plain le_rfl
  obtain ⟨t, hext⟩ := exists_extends ⟨hs, hpaid (by decide), hfresh⟩
  obtain ⟨hdrawn, hnew⟩ :=
    MinedChain.createNewBlock_tip tickets payer (pool 500) assembly (n := 500) (by decide)
  rw [← tipState_eq hs] at hdrawn hnew
  have hblock : block.Completes (assembleBlock tickets (s.tipState (pool 500)) assembly 0 coinbase) := by
    rw [tipState_eq hs]
    exact MinedChain.completes_tip rfl payer _ (by decide)
  obtain ⟨unclaimed', hbuilt'⟩ :=
    hbuilt.exists_extend (not_mem_pool 500) assembly_collected hnew hdrawn hblock hext
    (move_pool (by decide) hs hext)
  refine ⟨t, unclaimed', hbuilt', ?_⟩
  rw [ChainState.height, hext.above_eq.2, List.length_append, hs.above, PlainChain.above,
    List.length_map, List.length_range]
  rfl

end GasRefund

open GasRefund in
theorem moneySupply_eq_iff_gasRefund :
    ∃ s unclaimed, Built (PlainChain.network setting) (PlainChain.contracts setting) tickets s
      (pool 501) unclaimed 8000000 ∧
      s.height = 501 ∧
        (s.nMoneySupply : Int) = (totalSubsidy s.height - unclaimed - 8000000) % 2 ^ 64 := by
  obtain ⟨s, unclaimed, hbuilt, hheight⟩ := exists_refund
  exact ⟨s, unclaimed, hbuilt, hheight, (moneySupply_eq_iff hbuilt).1⟩

open GasRefund in
/-- Five hundred blocks with a coinbase alone, and one with the call of a contract that uses a fifth of its gas. The refund is missing from the recorded supply. -/
theorem gas_refund_not_counted :
    ∃ s unclaimed, Built (PlainChain.network setting) (PlainChain.contracts setting) tickets s
      (pool 501) unclaimed 8000000 ∧ s.height = 501 ∧
      (s.nMoneySupply : Int) ≠ totalSubsidy s.height - unclaimed := by
  obtain ⟨s, unclaimed, hbuilt, hheight⟩ := exists_refund
  refine ⟨s, unclaimed, hbuilt, hheight, ?_⟩
  rw [hbuilt.nMoneySupply_eq, Ne, emod_sub_eq_iff]
  intro h
  exact absurd h.1 (by decide)

end TscPow
