import TscPow.Ticket.Signatures
import TscPow.Validation.ConnectBlock

/-!
# Building a block

`BlockAssembler::CreateNewBlock` (`miner.cpp`) with `RebuildRefundTransaction`: the coinbase pays the miner, the five lucky tickets drawn with the miner's seed, the tickets that expire, and the gas refunds. The selection of transactions from the memory pool enters as a parameter.
-/

namespace TscPow

/-- What `CreateNewBlock` takes from the rest of the node: the miner's script, the header fields, and what `addPackageTxs` and `GenerateCoinbaseCommitment` leave. -/
structure Assembly where
  scriptPubKeyIn : Script
  defaultPosMiner : Destination
  nVersion : Int
  nTime : BitVec 32
  nBits : BitVec 32
  hashStateRoot : Uint256
  hashUTXORoot : Uint256
  selected : List Tx
  nFees : Amount
  refundSender : Amount
  refundOutputs : List TxOut
  commitment : Option TxOut

/-- The share of the subsidy that each of the outputs one to five pays. -/
def luckyShare (nHeight : Nat) : Amount := (getBlockSubsidy nHeight).tdiv 50 * 3

/-- The output that returns the price of a lucky ticket with its share. -/
def luckyOutput (nHeight : Nat) (ticket : Ticket) : TxOut :=
  ⟨luckyShare nHeight + ticket.ticketPrice, ticket.ticketAddress.script⟩

def refundOutput (ticket : Ticket) : TxOut := ⟨ticket.ticketPrice, ticket.ticketAddress.script⟩

/-- Outputs one to five and the pool that is left after the draws. The source indexes the drawn tickets from zero to four without looking at their number. -/
def luckyOutputs (env : TicketEnv) (s : TipState) (assembly : Assembly) (nNextChoice : BitVec 32) :
    Except Fault (List TxOut × TicketSet) :=
  if s.height ≥ TICKET_VALVE then do
    let lucky ← luckyTickets env.hashing s.chain s.pool.ticket_pool s.height nNextChoice
    Except.require (5 ≤ lucky.length) .undefined
    return ((lucky.take 5).map (luckyOutput (s.height + 1)),
      lucky.foldl TicketSet.ticketDel s.pool.ticket_pool)
  else
    .ok (List.replicate 5 ⟨luckyShare (s.height + 1), assembly.defaultPosMiner.script⟩,
      s.pool.ticket_pool)

def expiredOutputs (s : TipState) (temppool : TicketSet) : List TxOut :=
  if s.height ≥ TICKET_POOL_MAX_SIZE then
    (temppool.getTicketByHeight (s.height - TICKET_POOL_MAX_SIZE + 1)).map refundOutput
  else []

def coinbaseTx (assembly : Assembly) (nHeight : Nat) (lucky expired : List TxOut) : Tx where
  nVersion := 2
  vin := [⟨⟨Uint256.ofNat 0, 0xffffffff⟩, Script.pushInt64 nHeight ++ [0], SEQUENCE_FINAL,
    if assembly.commitment.isSome then [List.replicate 32 0] else []⟩]
  vout := ⟨assembly.nFees + (getBlockSubsidy nHeight).tdiv 10 * 7 - assembly.refundSender,
    assembly.scriptPubKeyIn⟩ ::
    (lucky ++ expired ++ assembly.refundOutputs ++ assembly.commitment.toList)
  nLockTime := 0

/-- The header fields and transactions of the new block. The Merkle root and the signatures are filled in later. -/
def assembleBlock (env : TicketEnv) (s : TipState) (assembly : Assembly) (nNextChoice : BitVec 32)
    (coinbase : Tx) : Block where
  nVersion := assembly.nVersion
  hashPrevBlock := env.hashing.blockHash (s.above.getLastD s.genesis).toBlockHeader
  hashMerkleRoot := Uint256.ofNat 0
  nTime := assembly.nTime
  nBits := assembly.nBits
  hashStateRoot := assembly.hashStateRoot
  hashUTXORoot := assembly.hashUTXORoot
  seed := nNextChoice
  nNonce := 0
  nNonce_ex := 0
  sig1 := []
  sig2 := []
  sig3 := []
  sig4 := []
  sig5 := []
  vtx := coinbase :: assembly.selected

/-- `CreateNewBlock` on the active tip. -/
def createNewBlock (env : TicketEnv) (s : TipState) (assembly : Assembly)
    (nNextChoice : BitVec 32) : Except Fault Block := do
  let (lucky, temppool) ← luckyOutputs env s assembly nNextChoice
  return assembleBlock env s assembly nNextChoice
    (coinbaseTx assembly (s.height + 1) lucky (expiredOutputs s temppool))

/-! ### The tickets that a new block pays -/

/-- The tickets that `CreateNewBlock` draws. -/
def drawnTickets (env : TicketEnv) (s : TipState) (nNextChoice : BitVec 32) :
    Except Fault (List Ticket) :=
  if s.height ≥ TICKET_VALVE then
    luckyTickets env.hashing s.chain s.pool.ticket_pool s.height nNextChoice
  else .ok []

/-- The tickets whose prices it refunds as expired, after the draws. -/
def refundedTickets (s : TipState) (drawn : List Ticket) : List Ticket :=
  if s.height ≥ TICKET_POOL_MAX_SIZE then
    (drawn.foldl TicketSet.ticketDel s.pool.ticket_pool).getTicketByHeight
      (s.height - TICKET_POOL_MAX_SIZE + 1)
  else []

/-- Outputs one to five for the drawn tickets: below the valve they go to the default address. -/
def shareOutputs (s : TipState) (assembly : Assembly) (drawn : List Ticket) : List TxOut :=
  if s.height ≥ TICKET_VALVE then (drawn.take 5).map (luckyOutput (s.height + 1))
  else List.replicate 5 ⟨luckyShare (s.height + 1), assembly.defaultPosMiner.script⟩

def rewardTx (s : TipState) (assembly : Assembly) (drawn : List Ticket) : Tx :=
  coinbaseTx assembly (s.height + 1) (shareOutputs s assembly drawn)
    ((refundedTickets s drawn).map refundOutput)

theorem createNewBlock_eq_ok {env : TicketEnv} {s : TipState} {assembly : Assembly}
    {nNextChoice : BitVec 32} {block : Block} :
    createNewBlock env s assembly nNextChoice = .ok block ↔
      ∃ drawn, drawnTickets env s nNextChoice = .ok drawn ∧ (TICKET_VALVE ≤ s.height → 5 ≤ drawn.length) ∧
        block = assembleBlock env s assembly nNextChoice (rewardTx s assembly drawn) := by
  have hexpired :
    ∀ drawn : List Ticket, expiredOutputs s (drawn.foldl TicketSet.ticketDel s.pool.ticket_pool) =
      (refundedTickets s drawn).map refundOutput := by
    intro drawn
    rw [expiredOutputs, refundedTickets]
    split <;> rfl
  simp only [createNewBlock, luckyOutputs, drawnTickets, rewardTx, shareOutputs, ← hexpired]
  by_cases hvalve : s.height ≥ TICKET_VALVE
  · simp only [if_pos hvalve, Except.bind_eq_ok_iff, Except.require_eq_ok_iff, Except.pure_eq_ok_iff]
    constructor
    · rintro ⟨_, ⟨drawn, hdrawn, _, hfive, rfl⟩, rfl⟩
      exact ⟨drawn, hdrawn, fun _ => hfive, rfl⟩
    · rintro ⟨drawn, hdrawn, hfive, rfl⟩
      exact ⟨_, ⟨drawn, hdrawn, (), hfive hvalve, rfl⟩, rfl⟩
  · simp only [if_neg hvalve, Except.bind_eq_ok_iff, Except.pure_eq_ok_iff]
    constructor
    · rintro ⟨_, ⟨⟩, rfl⟩
      exact ⟨[], rfl, fun h => absurd h hvalve, rfl⟩
    · rintro ⟨_, ⟨⟩, -, rfl⟩
      exact ⟨_, rfl, rfl⟩

theorem length_drawn {env : TicketEnv} {s : TipState} {nNextChoice : BitVec 32} {drawn : List Ticket}
    (hdrawn : drawnTickets env s nNextChoice = .ok drawn) : drawn.length ≤ 5 := by
  rw [drawnTickets] at hdrawn
  split at hdrawn
  · rw [length_luckyTickets hdrawn]
    split <;> omega
  · cases hdrawn
    exact Nat.zero_le _

end TscPow
