import TscPow.Miner.LuckyTickets
import TscPow.Miner.Payable
import TscPow.Net.Relay
import TscPow.Node.Signed

/-!
# Five tickets for every block

From `TICKET_VALVE` on `CreateNewBlock`, `SIGNNEWBLOCKHEADER` and `ProcessNewBlock` each draw five lucky tickets. No rule keeps tickets in the pool, though, and with five or fewer `getLuckyIndex` returns no position at all: then the first two read addresses and prices that are not there, and the third has no signature to check.
-/

namespace TscPow

/-- With the given seed, all three functions obtain five tickets at the tip and find what they read. -/
structure DrawsFive (r : RelayEnv) (s : TipState) (assembly : Assembly) (seed : BitVec 32) : Prop where
  create : ∃ block tickets, createNewBlock r.tickets s assembly seed = .ok block ∧
    tickets.length = 5 ∧ PaysTickets block (s.height + 1) tickets
  sign : ∀ block : Block, block.seed = seed → ∃ tickets,
    signingTickets r.tickets s block = .ok tickets ∧ tickets.length = 5 ∧
    ∀ index < 5, ∃ address, Relay.signingAddress r s tickets index = .ok address
  process : ∀ block : Block, block.seed = seed → ∃ tickets verdict,
    signingTickets r.tickets s block = .ok tickets ∧
    tickets.length = 5 ∧ checkLuckySignatures r.tickets r.recover s block = .ok verdict

section

variable {r : RelayEnv} {s : TipState} {assembly : Assembly} {seed : BitVec 32} {tickets : List Ticket}

theorem exists_signingAddress (hfive : tickets.length = 5) {index : Nat} (hindex : index < 5) :
    ∃ address, Relay.signingAddress r s tickets index = .ok address := by
  rw [Relay.signingAddress]
  split
  · rw [List.getElem?_eq_getElem (hfive ▸ hindex)]
    exact ⟨_, rfl⟩
  · exact ⟨_, rfl⟩

theorem signingTickets_of_valve (hvalve : TICKET_VALVE ≤ s.height) (block : Block) :
    signingTickets r.tickets s block =
      luckyTickets r.tickets.hashing s.chain s.pool.ticket_pool s.height block.seed :=
  if_pos hvalve

theorem drawsFive_of_lucky (hvalve : TICKET_VALVE ≤ s.height) (hfive : tickets.length = 5)
    (hlucky : luckyTickets r.tickets.hashing s.chain s.pool.ticket_pool s.height seed =
      .ok tickets) : DrawsFive r s assembly seed where
  create := ⟨_, tickets, (createNewBlock_eq_ok_iff hvalve hlucky).mpr ⟨hfive.ge, rfl⟩, hfive,
    paysTickets_assembleBlock hfive⟩
  sign block hblock := by
    refine ⟨tickets, ?_, hfive, fun index hindex => exists_signingAddress hfive hindex⟩
    rw [signingTickets_of_valve hvalve, hblock, hlucky]
  process block hblock := by
    have hsigning : signingTickets r.tickets s block = .ok tickets := by
      rw [signingTickets_of_valve hvalve, hblock, hlucky]
    have hchecked : ∃ verdict, checkLuckySignatures r.tickets r.recover s block = .ok verdict := by
      rw [checkLuckySignatures, hsigning]
      exact ⟨_, rfl⟩
    obtain ⟨verdict, hverdict⟩ := hchecked
    exact ⟨tickets, verdict, hsigning, hfive, hverdict⟩

theorem exists_anchor (hvalve : TICKET_VALVE ≤ s.height) :
    ∃ block, chainAt s.chain (s.height - TICKETPOOL_HEIGHT_LATENCY) = some block := by
  have hlatency : TICKETPOOL_HEIGHT_LATENCY ≤ s.height := le_trans (by decide) hvalve
  rw [chainAt, if_neg (by omega)]
  exact ⟨_, List.getElem?_eq_getElem
    (show _ < s.above.length + 1 by rw [TipState.height] at hlatency ⊢; omega)⟩

theorem luckyTickets_of_few (hvalve : TICKET_VALVE ≤ s.height) (hfew : s.pool.ticket_pool.size ≤ 5)
    (hseed : SeedInRange seed) :
    luckyTickets r.tickets.hashing s.chain s.pool.ticket_pool s.height seed = .ok [] := by
  obtain ⟨tickets, hlucky⟩ :=
    (exists_luckyTickets_iff r.tickets.hashing s.pool.ticket_pool).mpr ⟨hseed, exists_anchor hvalve⟩
  have hlength := length_luckyTickets hlucky
  rw [if_neg (by omega), List.length_eq_zero_iff] at hlength
  rw [hlucky, hlength]

theorem drawsFive_iff_of_valve (hvalve : TICKET_VALVE ≤ s.height) :
    DrawsFive r s assembly seed ↔ 5 < s.pool.ticket_pool.size ∧ SeedInRange seed := by
  constructor
  · intro h
    obtain ⟨tickets, hsigning, hfive, -⟩ := h.sign { BlockHeader.null with seed, vtx := [] } rfl
    rw [signingTickets_of_valve hvalve] at hsigning
    refine ⟨?_, ((exists_luckyTickets_iff _ _).mp ⟨tickets, hsigning⟩).1⟩
    rw [length_luckyTickets hsigning] at hfive
    split at hfive
    · assumption
    · cases hfive
  · rintro ⟨hsize, hseed⟩
    obtain ⟨tickets, hlucky⟩ :=
      (exists_luckyTickets_iff r.tickets.hashing s.pool.ticket_pool).mpr
        ⟨hseed, exists_anchor hvalve⟩
    exact drawsFive_of_lucky hvalve (by rw [length_luckyTickets hlucky, if_pos hsize]) hlucky

end

/-- On every accepted chain from `TICKET_VALVE` on, with the pool loaded on it, five tickets are drawn by all three functions exactly when the pool has more than five tickets and the seed is in range. -/
theorem drawsFive_iff {World : Type} {r : RelayEnv} {contracts : Contracts World}
    (c : ActiveChain r.env contracts) (pool : TicketPool) (hvalve : TICKET_VALVE ≤ c.state.height)
    (_hload : loadTicketpool r.tickets c.state.chain c.state.height = .ok pool)
    (assembly : Assembly) (seed : BitVec 32) :
    DrawsFive r (c.state.tipState pool) assembly seed ↔ 5 < pool.ticket_pool.size ∧ SeedInRange seed :=
  drawsFive_iff_of_valve hvalve

/-! ### Chains with no ticket and with six -/

namespace TicketCount

open PlainChain

def relay : RelayEnv :=
  { ValveRun.node with
    wallet := ⟨fun _ _ => none, by simp, by simp⟩
    default_pos_miner := .noDestination
    hash_unsigned := fun _ => rfl }

def coinbase (bought n : Nat) : Tx where
  nVersion := 2
  vin := [⟨⟨Uint256.ofNat 0, 0xffffffff⟩, Script.pushInt64 n ++ [0], SEQUENCE_FINAL, []⟩]
  vout := if n ≤ bought then FirstTicket.ticketOutputs (TICKET_PRICE * COIN) else [⟨0, [0x51]⟩]
  nLockTime := BitVec.ofNat 32 n

theorem plain_coinbase (bought n : Nat) : Coinbase n (coinbase bought n) := by
  have houtputs : ∀ vout, vout = (coinbase bought n).vout →
      vout = FirstTicket.ticketOutputs (TICKET_PRICE * COIN) ∨ vout = [⟨0, [0x51]⟩] := by
    rintro _ rfl
    rw [coinbase]
    split
    · exact .inl rfl
    · exact .inr rfl
  generalize hvout : (coinbase bought n).vout = vout at houtputs
  refine ⟨rfl, ?_, ?_, ?_, ?_, ?_, ?_⟩
  all_goals
    simp only [Tx.outputValue, hvout]
    rcases houtputs vout rfl with rfl | rfl <;> decide

theorem noTicket_coinbase {bought n : Nat} (hn : bought < n) : (coinbase bought n).noTicket := by
  rw [coinbase, Tx.noTicket, if_neg (by omega)]
  rfl

theorem exists_chain (bought : Nat) :
    ∃ c : ActiveChain ValveRun.network noContracts, c.state.height = TICKET_VALVE ∧
      c.state.chain = block (coinbase bought) 0 :: above (coinbase bought) TICKET_VALVE := by
  obtain ⟨s, hreach, hs⟩ := exists_reachable plain (plain_coinbase bought) le_rfl
  refine ⟨⟨s, hreach⟩, ?_, ?_⟩
  · rw [ChainState.height, hs.above, above, List.length_map, List.length_range]
  · rw [ChainState.chain, hs.above, hs.genesis]

def six : TicketSet :=
  ((loadTicketpool relay.tickets (block (coinbase 6) 0 :: above (coinbase 6) 6)
    70).toOption.getD TicketPool.new).ticket_pool

theorem getElem?_chain (bought : Nat) {j n : Nat} (hj : j < n) :
    (block (coinbase bought) 0 :: above (coinbase bought) n)[j + 1]? = some
    (block (coinbase bought) (j + 1)) := by
  rw [List.getElem?_cons_succ, above, List.getElem?_map, List.getElem?_range hj, Option.map_some]

theorem load_six :
    loadTicketpool relay.tickets (block (coinbase 6) 0 :: above (coinbase 6) TICKET_VALVE)
      TICKET_VALVE =
    .ok ⟨six, TICKET_VALVE - TICKETPOOL_HEIGHT_LATENCY⟩ := by
  have hbase : loadTicketpool relay.tickets (block (coinbase 6) 0 :: above (coinbase 6) TICKET_VALVE) 70 =
      .ok ⟨six, 70 - TICKETPOOL_HEIGHT_LATENCY⟩ := by
    have hfew : loadTicketpool relay.tickets (block (coinbase 6) 0 :: above (coinbase 6) 6) 70 =
        .ok ⟨six, 70 - TICKETPOOL_HEIGHT_LATENCY⟩ := by decide +kernel
    rw [← hfew]
    refine loadTicketpool_congr fun j hj => ?_
    rcases j with _ | j
    · rw [List.getElem?_cons_zero, List.getElem?_cons_zero]
    · rw [TICKETPOOL_HEIGHT_LATENCY] at hj
      rw [getElem?_chain 6 (by rw [TICKET_VALVE]; omega), getElem?_chain 6 (by omega)]
  have hearly : ∀ t ∈ six, t.ticketHeight < TICKETPOOL_HEIGHT_LATENCY := by decide +kernel
  refine loadTicketpool_of_quiet (by decide) hbase hearly (by decide) le_rfl fun j hj hle => ?_
  obtain ⟨k, rfl⟩ : ∃ k, j = k + 1 := ⟨j - 1, by rw [TICKETPOOL_HEIGHT_LATENCY] at hj; omega⟩
  rw [TICKETPOOL_HEIGHT_LATENCY] at hj hle
  exact ⟨_, getElem?_chain 6 (by omega), rfl,
    List.forall_mem_singleton.mpr (noTicket_coinbase (by omega))⟩

def unsignedBlock : Block := { ValveRun.header (TICKET_VALVE + 1) with vtx := [] }

end TicketCount

open TicketCount in
theorem drawsFive_iff_six :
    ∃ c : ActiveChain relay.env PlainChain.noContracts, c.state.height = TICKET_VALVE ∧
      DrawsFive relay (c.state.tipState ⟨six, TICKET_VALVE - TICKETPOOL_HEIGHT_LATENCY⟩)
        FirstTicket.assembly 0 := by
  obtain ⟨c, hheight, hchain⟩ := exists_chain 6
  refine ⟨c, hheight,
    (drawsFive_iff (r := relay) c _ hheight.ge ?_ _ 0).mpr ⟨by decide +kernel, by decide⟩⟩
  rw [hheight, hchain]
  exact load_six

open TicketCount in
/-- A chain without tickets is accepted up to `TICKET_VALVE`. There the template cannot be built and a relayed block cannot be signed, and `ProcessNewBlock` holds the block against no ticket. -/
theorem no_tickets_to_draw :
    ∃ (c : ActiveChain relay.env PlainChain.noContracts) (pool : TicketPool),
      c.state.height = TICKET_VALVE ∧
      loadTicketpool relay.tickets c.state.chain c.state.height = .ok pool ∧
        createNewBlock relay.tickets (c.state.tipState pool) FirstTicket.assembly 0 = .error .undefined ∧
          signingTickets relay.tickets (c.state.tipState pool) unsignedBlock = .ok [] ∧
            ∀ ctx s, s.chain.active = c.state.tipState pool → s.nRelayingBlock = unsignedBlock →
              Relay.signNewBlockHeader relay ctx s = .error .undefined := by
  obtain ⟨c, hheight, hchain⟩ := exists_chain 0
  have hload : loadTicketpool relay.tickets c.state.chain c.state.height =
      .ok ⟨KeyedSet.empty, TICKET_VALVE - TICKETPOOL_HEIGHT_LATENCY⟩ := by
    rw [hheight, hchain]
    exact FirstTicket.load_quiet _ _ (fun _ => rfl) (fun k => noTicket_coinbase (Nat.succ_pos k))
      (Nat.le_add_right _ _) le_rfl
  have hvalve :
      TICKET_VALVE ≤
        (c.state.tipState ⟨KeyedSet.empty, TICKET_VALVE - TICKETPOOL_HEIGHT_LATENCY⟩).height :=
      hheight.ge
  have hlucky :=
    luckyTickets_of_few (r := relay) hvalve (show 0 ≤ 5 by omega) (show SeedInRange 0 by decide)
  have hsigning := (signingTickets_of_valve (r := relay) hvalve unsignedBlock).trans hlucky
  refine ⟨c, _, hheight, hload, ?_, hsigning, fun ctx s hactive hblock => ?_⟩
  · rw [createNewBlock, luckyOutputs, if_pos hvalve, hlucky]
    rfl
  · have haddress :
        Relay.signingAddress relay s.chain.active [] s.nRelayingBlock.index =
          .error .undefined := by
      rw [Relay.signingAddress, hactive, if_pos hvalve]
      rfl
    have hlt : s.nRelayingBlock.index < 5 := by
      rw [hblock]
      decide
    exact Relay.signNewBlockHeader_of_missing hlt (by rw [hactive, hblock, hsigning]) haddress

end TscPow
