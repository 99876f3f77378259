import TscPow.Miner.LuckyTickets
import TscPow.Miner.Payable

/-!
# Refunds and expiry

`CreateNewBlock` refunds the tickets of the height `TICKET_POOL_MAX_SIZE` below the new block as soon as the tip is that high, leaving out the tickets it draws with the new seed. `updateTicketpool` deletes tickets of the same height, but only when the block `TICKETPOOL_HEIGHT_LATENCY` below is that high, and leaves out the tickets drawn with the seed of that block. The two agree for a block exactly when every ticket of that height is deleted at all and is drawn by both or by none.
-/

namespace TscPow

/-- The fields that `CreateNewBlock` decides. The extra nonce in the coinbase input, the Merkle root, the nonces and the signatures are filled in later. -/
structure Block.Completes (block template : Block) : Prop where
  hashPrevBlock : block.hashPrevBlock = template.hashPrevBlock
  seed : block.seed = template.seed
  vtx : ∃ coinbase rest scriptSig, template.vtx = coinbase :: rest ∧
    block.vtx = { coinbase with vin := coinbase.vin.map fun i => { i with scriptSig } } :: rest

/-- The tips of chains whose blocks were all built by `CreateNewBlock` on the tip before. -/
inductive Mined (env : TicketEnv) : TipState → Prop
  | start (genesis : Block) : Mined env ⟨genesis, [], TicketPool.new⟩
  | connect {s t : TipState} {assembly : Assembly} {nNextChoice : BitVec 32}
      {template block : Block} (hmined : Mined env s)
      (hnew : createNewBlock env s assembly nNextChoice = .ok template)
      (hblock : block.Completes template) (hmove : s.move env (.connect block) = .ok t) : Mined env t

/-- The tickets that connecting a block on top of `s` deletes as expired, once the lucky ones are deleted. -/
def removedTickets (s : TipState) (departing : List Ticket) : List Ticket :=
  (departing.foldl TicketSet.ticketDel s.pool.ticket_pool).toList.filter
    (· ∉ (expireTickets (departing.foldl TicketSet.ticketDel s.pool.ticket_pool) (s.height + 1)).toList)

/-- The coinbase refunds the prices of these tickets, in the outputs after the first six. -/
def RefundsExpired (block : Block) (tickets : List Ticket) : Prop :=
  ∃ coinbase rest, block.vtx = coinbase :: rest ∧ (coinbase.vout.drop 6).take tickets.length =
    tickets.map refundOutput

section

variable {env : TicketEnv} {s t : TipState} {assembly : Assembly} {nNextChoice : BitVec 32}
  {template block : Block} {drawn departing : List Ticket} {u : Ticket}

/-! ### The pool of a mined chain -/

theorem Mined.loaded (hmined : Mined env s) : loadTicketpool env s.chain s.height = .ok s.pool := by
  induction hmined with
  | start genesis => rfl
  | connect _ _ _ hmove ih => exact TipState.loaded_connect ih hmove

/-! ### What is refunded and what is deleted -/

theorem mem_of_drawn (hdrawn : drawnTickets env s nNextChoice = .ok drawn) :
    ∀ u ∈ drawn, u ∈ s.pool.ticket_pool := by
  intro u hu
  rw [drawnTickets] at hdrawn
  split at hdrawn
  · exact mem_of_luckyTickets hdrawn hu
  · cases hdrawn
    cases hu

theorem mem_of_departing {chain : List Block} {old : Block} {i : Nat}
    (hdeparting : departingTickets env chain s.pool.ticket_pool old i = .ok departing) :
    ∀ u ∈ departing, u ∈ s.pool.ticket_pool := by
  intro u hu
  rw [departingTickets] at hdeparting
  split at hdeparting
  · exact mem_of_luckyTickets hdeparting hu
  · cases hdeparting
    cases hu

theorem mem_refundedTickets (hsub : ∀ u ∈ drawn, u ∈ s.pool.ticket_pool) :
    u ∈ refundedTickets s drawn ↔ TICKET_POOL_MAX_SIZE ≤ s.height ∧ u ∈ s.pool.ticket_pool ∧
      u.ticketHeight + TICKET_POOL_MAX_SIZE = s.height + 1 ∧ u ∉ drawn := by
  rw [refundedTickets]
  split
  next hheight =>
    have hlevel : u.ticketHeight = s.height - TICKET_POOL_MAX_SIZE + 1 ↔
        u.ticketHeight + TICKET_POOL_MAX_SIZE = s.height + 1 := by omega
    rw [TicketSet.getTicketByHeight, List.mem_filter, KeyedSet.mem_toList,
      mem_foldl_ticketDel_of_subset hsub, decide_eq_true_eq, hlevel]
    constructor
    · intro h
      obtain ⟨⟨hpool, hnot⟩, hlevel⟩ := h
      exact ⟨hheight, hpool, hlevel, hnot⟩
    · intro h
      obtain ⟨-, hpool, hlevel, hnot⟩ := h
      exact ⟨⟨hpool, hnot⟩, hlevel⟩
  next hheight => exact iff_of_false (by simp) fun h => hheight h.1

theorem mem_removedTickets (hsub : ∀ u ∈ departing, u ∈ s.pool.ticket_pool) :
    u ∈ removedTickets s departing ↔
      TICKET_POOL_MAX_SIZE + TICKETPOOL_HEIGHT_LATENCY ≤ s.height + 1 ∧ u ∈ s.pool.ticket_pool ∧
      u.ticketHeight + TICKET_POOL_MAX_SIZE = s.height + 1 ∧ u ∉ departing := by
  have hkept := mem_foldl_ticketDel_of_subset (u := u) hsub
  have hsize : 0 < TICKET_POOL_MAX_SIZE := by decide
  rw [removedTickets, List.mem_filter, KeyedSet.mem_toList, hkept, decide_eq_true_eq,
    KeyedSet.mem_toList, expireTickets]
  split
  next hlarge =>
    have hlevel : ¬ u.ticketHeight ≠ s.height + 1 - TICKET_POOL_MAX_SIZE ↔
        u.ticketHeight + TICKET_POOL_MAX_SIZE = s.height + 1 := by omega
    rw [TicketSet.ticketDelByHeight, KeyedSet.mem_filter, decide_eq_true_eq, hkept, not_and, hlevel]
    constructor
    · intro h
      obtain ⟨⟨hpool, hnot⟩, hlevel⟩ := h
      exact ⟨by omega, hpool, hlevel ⟨hpool, hnot⟩, hnot⟩
    · intro h
      obtain ⟨-, hpool, hlevel, hnot⟩ := h
      exact ⟨⟨hpool, hnot⟩, fun _ => hlevel⟩
  next hsmall => exact iff_of_false (fun h => h.2 (hkept.mpr h.1)) fun h => hsmall (by omega)

theorem refundsExpired_of_completes (hdrawn : drawnTickets env s nNextChoice = .ok drawn)
    (hfive : TICKET_VALVE ≤ s.height → 5 ≤ drawn.length)
    (hblock : block.Completes (assembleBlock env s assembly nNextChoice (rewardTx s assembly drawn))) :
    RefundsExpired block (refundedTickets s drawn) := by
  obtain ⟨coinbase, rest, scriptSig, htemplate, hvtx⟩ := hblock.vtx
  obtain ⟨rfl, rfl⟩ := List.cons.inj htemplate
  refine ⟨_, _, hvtx, ?_⟩
  have hshares := (shareOutputs_value assembly (length_eq_of_drawn hdrawn hfive)).2
  rw [rewardTx, coinbaseTx, List.drop_succ_cons, List.append_assoc, List.append_assoc,
    List.drop_left' hshares, List.take_left' (List.length_map _)]

theorem exists_departing (hload : loadTicketpool env s.chain s.height = .ok s.pool)
    (hreads : ∀ b ∈ s.chain, env.readBlockFromDisk b) (hmove : s.move env (.connect block) = .ok t) :
    ∃ old departing, s.chain[s.height + 1 - TICKETPOOL_HEIGHT_LATENCY]? = some old ∧
      departingTickets env (s.extend block).chain s.pool.ticket_pool old (s.height + 1) = .ok departing ∧
        (TICKETPOOL_HEIGHT_LATENCY ≤ s.height →
          old.vtx.foldlM (buyTicket env (s.height + 1 - TICKETPOOL_HEIGHT_LATENCY))
          (expireTickets (departing.foldl TicketSet.ticketDel s.pool.ticket_pool) (s.height + 1)) =
            .ok t.pool.ticket_pool) := by
  have hlatency : 0 < TICKETPOOL_HEIGHT_LATENCY := by decide
  have hlength : s.chain.length = s.height + 1 := List.length_cons
  have hold :=
    List.getElem?_eq_getElem (l := s.chain) (i := s.height + 1 - TICKETPOOL_HEIGHT_LATENCY)
      (by omega)
  generalize s.chain[s.height + 1 - TICKETPOOL_HEIGHT_LATENCY] = old at hold
  rcases Nat.lt_or_ge s.height TICKETPOOL_HEIGHT_LATENCY with hlow | hhigh
  · -- nothing is due, and no ticket is drawn yet
    have hvalve : ¬ s.height + 1 > TICKET_VALVE := by
      rw [TICKETPOOL_HEIGHT_LATENCY] at hlow
      rw [TICKET_VALVE]
      omega
    exact ⟨old, [], hold, if_neg hvalve, fun hhigh => absurd hlow (not_lt.mpr hhigh)⟩
  · rw [move_connect_eq_advance hreads hload hhigh hold, Except.bind_eq_ok_iff] at hmove
    obtain ⟨tickets, hadvance, ht⟩ := hmove
    obtain ⟨departing, hdeparting, hbuy⟩ := Except.bind_eq_ok_iff.mp hadvance
    cases ht
    exact ⟨old, departing, hold, hdeparting, fun _ => hbuy⟩

/-- When the tickets of the expiring height are refunded and deleted alike. -/
def ExpiryAgrees (s : TipState) (drawn departing : List Ticket) : Prop :=
  TICKET_POOL_MAX_SIZE ≤ s.height → ∀ u ∈ s.pool.ticket_pool,
    u.ticketHeight + TICKET_POOL_MAX_SIZE = s.height + 1 →
    TICKET_POOL_MAX_SIZE + TICKETPOOL_HEIGHT_LATENCY ≤ s.height + 1 ∧ (u ∈ drawn ↔ u ∈ departing)

theorem refunded_eq_removed_iff (hdrawn : ∀ u ∈ drawn, u ∈ s.pool.ticket_pool)
    (hdeparting : ∀ u ∈ departing, u ∈ s.pool.ticket_pool)
    (hearly : s.height < TICKET_VALVE → drawn = []) :
    (∀ u, u ∈ refundedTickets s drawn ↔ u ∈ removedTickets s departing) ↔
      ExpiryAgrees s drawn departing := by
  have hlatency : 1 ≤ TICKETPOOL_HEIGHT_LATENCY := by decide
  simp only [mem_refundedTickets hdrawn, mem_removedTickets hdeparting]
  constructor
  · intro hsame hheight u hu hlevel
    by_cases hlarge : TICKET_POOL_MAX_SIZE + TICKETPOOL_HEIGHT_LATENCY ≤ s.height + 1
    · refine ⟨hlarge, not_iff_not.mp ?_⟩
      exact ⟨fun hnot => ((hsame u).mp ⟨hheight, hu, hlevel, hnot⟩).2.2.2,
        fun hnot => ((hsame u).mpr ⟨hlarge, hu, hlevel, hnot⟩).2.2.2⟩
    · -- so far below the valve nothing is drawn, so the ticket is refunded
      have hnil : drawn = [] := by
        refine hearly ?_
        rw [TICKET_POOL_MAX_SIZE, TICKETPOOL_HEIGHT_LATENCY] at hlarge
        rw [TICKET_VALVE]
        omega
      exact absurd ((hsame u).mp ⟨hheight, hu, hlevel, by simp [hnil]⟩).1 hlarge
  · intro hagrees u
    constructor
    · rintro ⟨hheight, hu, hlevel, hnot⟩
      obtain ⟨hlarge, hiff⟩ := hagrees hheight u hu hlevel
      exact ⟨hlarge, hu, hlevel, fun hmem => hnot (hiff.mpr hmem)⟩
    · rintro ⟨hlarge, hu, hlevel, hnot⟩
      have hheight : TICKET_POOL_MAX_SIZE ≤ s.height := by omega
      exact ⟨hheight, hu, hlevel, fun hmem => hnot ((hagrees hheight u hu hlevel).2.mp hmem)⟩

end

/-- On every chain of mined blocks, connecting one more deletes as expired the tickets that its coinbase refunds as expired exactly when the tickets of the expiring height are old enough for `updateTicketpool` as well and are drawn with both seeds or with none. -/
theorem refunded_iff_removed {env : TicketEnv} {s t : TipState} {assembly : Assembly}
    {nNextChoice : BitVec 32} {template block : Block} (hmined : Mined env s)
    (hreads : ∀ b ∈ s.chain, env.readBlockFromDisk b)
    (hnew : createNewBlock env s assembly nNextChoice = .ok template)
    (hblock : block.Completes template) (hmove : s.move env (.connect block) = .ok t) :
    ∃ drawn old departing, drawnTickets env s nNextChoice = .ok drawn ∧
      RefundsExpired block (refundedTickets s drawn) ∧
      s.chain[s.height + 1 - TICKETPOOL_HEIGHT_LATENCY]? = some old ∧
        departingTickets env (s.extend block).chain s.pool.ticket_pool old (s.height + 1) =
          .ok departing ∧
          (TICKETPOOL_HEIGHT_LATENCY ≤ s.height →
            old.vtx.foldlM (buyTicket env (s.height + 1 - TICKETPOOL_HEIGHT_LATENCY))
            (expireTickets (departing.foldl TicketSet.ticketDel s.pool.ticket_pool)
              (s.height + 1)) = .ok t.pool.ticket_pool) ∧
            ((∀ u, u ∈ refundedTickets s drawn ↔ u ∈ removedTickets s departing) ↔
              ExpiryAgrees s drawn departing) := by
  obtain ⟨drawn, hdrawn, hfive, rfl⟩ := createNewBlock_eq_ok.mp hnew
  obtain ⟨old, departing, hold, hdeparting, hpool⟩ := exists_departing hmined.loaded hreads hmove
  refine ⟨drawn, old, departing, hdrawn, refundsExpired_of_completes hdrawn hfive hblock, hold,
    hdeparting, hpool, ?_⟩
  refine refunded_eq_removed_iff (mem_of_drawn hdrawn) (mem_of_departing hdeparting) ?_
  intro hlow
  rw [drawnTickets, if_neg (not_le.mpr hlow)] at hdrawn
  exact (Except.ok.inj hdrawn).symm

/-! ### Chains of templates without transactions -/

namespace MinedChain

open PlainChain

def template (first : Script) (n : Nat) : Assembly where
  scriptPubKeyIn := if n = 1 then first else [0x51]
  defaultPosMiner := .keyID 7
  nVersion := 4
  nTime := BitVec.ofNat 32 n
  nBits := 0x1f00ffff
  hashStateRoot := default
  hashUTXORoot := default
  selected := []
  nFees := 0
  refundSender := 0
  refundOutputs := []
  commitment := none

def coinbase (first : Script) (n : Nat) : Tx :=
  coinbaseTx (template first n) n (List.replicate 5 ⟨luckyShare n, (Destination.keyID 7).script⟩) []

variable {first : Script}

theorem template_collected (ok : PoolEntry → Prop) (n : Nat) : (template first n).Collected ok :=
  .start rfl rfl rfl rfl (by simp [template])

theorem vout_coinbase (first : Script) (n : Nat) : (coinbase first n).vout =
    ⟨(getBlockSubsidy n).tdiv 10 * 7, (template first n).scriptPubKeyIn⟩ ::
      List.replicate 5 ⟨luckyShare n, (Destination.keyID 7).script⟩ := by
  simp [coinbase, coinbaseTx, template]

theorem mem_coinbase {n : Nat} {out : TxOut} (hout : out ∈ (coinbase first n).vout) :
    0 ≤ out.nValue ∧ out.scriptPubKey ∈ [first, [0x51], (Destination.keyID 7).script] := by
  rw [vout_coinbase, List.mem_cons] at hout
  rcases hout with rfl | hout
  · refine ⟨minerShare_nonneg n, ?_⟩
    rw [template]
    split <;> simp
  · rw [List.eq_of_mem_replicate hout]
    exact ⟨luckyShare_nonneg n, by simp⟩

theorem outputValue_coinbase (first : Script) (n : Nat) :
    (coinbase first n).outputValue = getBlockSubsidy n := by
  rw [Tx.outputValue, vout_coinbase, List.map_cons, List.map_replicate, List.sum_cons,
    List.sum_replicate, nsmul_eq_mul]
  exact subsidy_shares n

theorem plain_coinbase (first : Script) (hshort : first.length ≤ 60)
    (hplain : Script.hasOpCreate first = false ∧ Script.hasOpCall first = false) (n : Nat) :
    Coinbase n (coinbase first n) where
  vin := rfl
  vout := List.cons_ne_nil _ _
  few := show 6 ≤ 8 by decide
  short := by
    have hrest : ∀ script ∈ [[0x51], (Destination.keyID 7).script], script.length ≤ 60 := by decide
    intro out hout
    rcases List.mem_cons.mp (mem_coinbase hout).2 with heq | hmem
    · rw [heq]
      exact hshort
    · exact hrest _ hmem
  amount := fun out hout => (mem_coinbase hout).1
  total := by
    have hsix : ((coinbase first n).vout.length : Amount) - 1 = 5 := by
      rw [vout_coinbase, List.length_cons, List.length_replicate]
      rfl
    rw [outputValue_coinbase, hsix, getBlockSubsidy]
    split <;> decide
  noContract := by
    have hrest : ∀ script ∈ [[0x51], (Destination.keyID 7).script],
        Script.hasOpCreate script = false ∧ Script.hasOpCall script = false := by
      decide
    intro out hout
    rcases List.mem_cons.mp (mem_coinbase hout).2 with heq | hmem
    · rw [heq]
      exact hplain
    · exact hrest _ hmem

theorem noTicket_coinbase (first : Script) (k : Nat) : (coinbase first (k + 2)).noTicket := by
  have hnone : Script.hasOpSStx [0x51] = false := by decide
  rw [Tx.noTicket, vout_coinbase, template, if_neg (by omega), List.head?_cons, Option.any_some,
    hnone, Bool.not_false]

def tip (first : Script) (pool : TicketPool) (n : Nat) : TipState :=
  ⟨block (coinbase first) 0, above (coinbase first) n, pool⟩

theorem height_tip (first : Script) (pool : TicketPool) (n : Nat) : (tip first pool n).height = n := by
  rw [TipState.height, tip, above, List.length_map, List.length_range]

theorem extend_tip (first : Script) (pool : TicketPool) (n : Nat) :
    (tip first pool n).extend (block (coinbase first) (n + 1)) = tip first pool (n + 1) := by
  rw [TipState.extend, tip, tip, above, above, List.range_succ, List.map_append]
  rfl

theorem createNewBlock_tip (env : TicketEnv) (first : Script) (pool : TicketPool)
    (assembly : Assembly) {n : Nat} (hn : n < TICKET_POOL_MAX_SIZE) :
    drawnTickets env (tip first pool n) 0 = .ok [] ∧
      createNewBlock env (tip first pool n) assembly 0 =
        .ok (assembleBlock env (tip first pool n) assembly 0
        (coinbaseTx assembly (n + 1)
          (List.replicate 5 ⟨luckyShare (n + 1), assembly.defaultPosMiner.script⟩) [])) := by
  have hvalve : ¬ (tip first pool n).height ≥ TICKET_VALVE := by
    rw [height_tip, TICKET_VALVE]
    rw [TICKET_POOL_MAX_SIZE] at hn
    omega
  have hsize : ¬ (tip first pool n).height ≥ TICKET_POOL_MAX_SIZE := by rwa [height_tip, not_le]
  refine ⟨if_neg hvalve, createNewBlock_eq_ok.mpr ⟨[], if_neg hvalve, fun h => absurd h hvalve, ?_⟩⟩
  rw [rewardTx, shareOutputs, refundedTickets, if_neg hvalve, if_neg hsize, height_tip]
  rfl

theorem last_tip (first : Script) (pool : TicketPool) (n : Nat) :
    (tip first pool n).above.getLastD (tip first pool n).genesis = block (coinbase first) n := by
  cases n with
  | zero => rfl
  | succ n => rw [tip, above, List.range_succ, List.map_append, List.map_singleton, List.getLastD_concat]

theorem completes_tip {env : TicketEnv}
    (hhash : env.hashing.blockHash = ValveRun.network.hashing.blockHash) (first : Script)
    (pool : TicketPool) {assembly : Assembly} {lucky expired : List TxOut} {n : Nat}
    (hn : n < 2 ^ 32) :
    Block.Completes { ValveRun.header (n + 1) with
      vtx := coinbaseTx assembly (n + 1) lucky expired :: assembly.selected }
      (assembleBlock env (tip first pool n) assembly 0 (coinbaseTx assembly (n + 1) lucky expired)) where
  hashPrevBlock := by
    rw [assembleBlock]
    simp only [last_tip, hhash]
    exact (ValveRun.blockHash_header hn).symm
  seed := rfl
  vtx := ⟨_, _, Script.pushInt64 (n + 1) ++ [0], rfl, rfl⟩

theorem connect_quiet {env : TicketEnv} (hreads : ∀ b, env.readBlockFromDisk b)
    (hfirst : Script.hasOpSStx first = false) {n : Nat} (hn : n < TICKET_VALVE) (b : Block) :
    (tip first ⟨KeyedSet.empty, n - TICKETPOOL_HEIGHT_LATENCY⟩ n).move env (.connect b) =
      .ok { (tip first ⟨KeyedSet.empty, n - TICKETPOOL_HEIGHT_LATENCY⟩ n).extend b with
        pool := ⟨KeyedSet.empty, n + 1 - TICKETPOOL_HEIGHT_LATENCY⟩ } := by
  have hquiet : ∀ k, (coinbase first (k + 1)).noTicket := by
    intro k
    cases k with
    | zero => rw [Tx.noTicket, vout_coinbase, template, List.head?_cons, Option.any_some,
        if_pos rfl, hfirst, Bool.not_false]
    | succ k => exact noTicket_coinbase first k
  have hload : ∀ m, m ≤ n + 1 →
    loadTicketpool env (tip first ⟨KeyedSet.empty, n - TICKETPOOL_HEIGHT_LATENCY⟩ n).chain m =
      .ok ⟨KeyedSet.empty, m - TICKETPOOL_HEIGHT_LATENCY⟩ := by
    intro m hm
    have hlatency : 1 ≤ TICKETPOOL_HEIGHT_LATENCY := by decide
    exact FirstTicket.load_quiet env _ hreads hquiet (by omega) (by omega)
  have hheight := height_tip first ⟨KeyedSet.empty, n - TICKETPOOL_HEIGHT_LATENCY⟩ n
  have hlatency : 1 ≤ TICKETPOOL_HEIGHT_LATENCY := by decide
  rw [TipState.move_connect_eq _ _ (by rw [hheight]; exact hload n (by omega)),
    TipState.loadTicketpool_extend _ _ (by omega), hheight, hload _ le_rfl]
  rfl

end MinedChain

/-! ### A refunded ticket that stays -/

namespace FirstTicket

abbrev buyer : Script := [OP_BUYTICKET]

def minedTicket : Ticket := ⟨1, Uint256.ofNat 0, 182000 * COIN, .keyID 7⟩

def minedPool (n : Nat) : TicketPool := if n ≤ TICKETPOOL_HEIGHT_LATENCY then TicketPool.new
    else pool minedTicket n

def minedTip (n : Nat) : TipState := MinedChain.tip buyer (minedPool n) n

theorem height_minedTip (n : Nat) : (minedTip n).height = n := MinedChain.height_tip _ _ n

theorem load_minedTip {m n : Nat} (hmn : m ≤ n + TICKETPOOL_HEIGHT_LATENCY) (hm : m ≤ TICKET_VALVE) :
    loadTicketpool tickets (minedTip n).chain m = .ok (minedPool m) := by
  rw [minedPool]
  split
  next hlow => exact TipState.loadTicketpool_below_latency loadTicketpool_zero (Nat.zero_le _) hlow
  next hhigh => exact load_first _ rfl rfl (MinedChain.noTicket_coinbase buyer) (by omega) hmn hm

theorem connect_minedTip {n : Nat} (hn : n < TICKET_VALVE) (b : Block) :
    (minedTip n).move tickets (.connect b) = .ok
    { (minedTip n).extend b with pool := minedPool (n + 1) } := by
  have hload : loadTicketpool tickets (minedTip n).chain (minedTip n).height = .ok (minedTip n).pool := by
    rw [height_minedTip]
    exact load_minedTip (Nat.le_add_right _ _) hn.le
  have hlatency : 1 ≤ TICKETPOOL_HEIGHT_LATENCY := by decide
  rw [TipState.move_connect_eq _ _ hload, TipState.loadTicketpool_extend _ _ (by omega),
    height_minedTip, load_minedTip (by omega) hn]
  rfl

theorem mined_minedTip {n : Nat} (hn : n ≤ TICKET_POOL_MAX_SIZE) : Mined tickets (minedTip n) := by
  induction n with
  | zero => exact .start _
  | succ n ih =>
    have hlt : n < 2 ^ 32 := lt_of_lt_of_le hn (by decide)
    have hblock : (PlainChain.block (MinedChain.coinbase buyer) (n + 1)).Completes
        (assembleBlock tickets (minedTip n) (MinedChain.template buyer (n + 1)) 0
          (MinedChain.coinbase buyer (n + 1))) :=
      MinedChain.completes_tip rfl buyer _ hlt
    refine .connect (ih (by omega))
      (MinedChain.createNewBlock_tip tickets buyer _ (MinedChain.template buyer (n + 1))
        hn).2 hblock ?_
    rw [connect_minedTip (lt_of_lt_of_le hn (by decide)), minedTip, MinedChain.extend_tip]
    rfl

theorem exists_minedChain {n : Nat} (hn : n ≤ TICKET_VALVE) :
    ∃ c : ActiveChain ValveRun.network PlainChain.noContracts,
      minedTip n = c.state.tipState (minedPool n) := by
  have hcoinbase := MinedChain.plain_coinbase buyer (by decide) (by decide)
  obtain ⟨s, hreach, hs⟩ := PlainChain.exists_reachable PlainChain.plain hcoinbase hn
  refine ⟨⟨s, hreach⟩, ?_⟩
  rw [ChainState.tipState, hs.genesis, hs.above]
  rfl

end FirstTicket

open FirstTicket in
/-- At the tip at which the first ticket expires, block 2049 refunds it. -/
theorem refunded_iff_removed_firstTicket :
    ∃ (s t : TipState) (block : Block) (departing : List Ticket), Mined tickets s ∧
      s.height = TICKET_POOL_MAX_SIZE ∧
      createNewBlock tickets s assembly 0 = .ok block ∧ s.move tickets (.connect block) = .ok t ∧
        RefundsExpired block [minedTicket] ∧
        ((∀ u, u ∈ [minedTicket] ↔ u ∈ removedTickets s departing) ↔ ExpiryAgrees s [] departing) := by
  have hheight := height_minedTip TICKET_POOL_MAX_SIZE
  have hpool : (minedTip TICKET_POOL_MAX_SIZE).pool = pool minedTicket TICKET_POOL_MAX_SIZE := rfl
  have hmined : Mined tickets (minedTip TICKET_POOL_MAX_SIZE) := mined_minedTip le_rfl
  have hnew := createNewBlock_expiring hheight 0
  have hmove := connect_minedTip (n := TICKET_POOL_MAX_SIZE) (by decide)
    (assembleBlock tickets (minedTip TICKET_POOL_MAX_SIZE) assembly 0
      (rewardTx (minedTip TICKET_POOL_MAX_SIZE) assembly []))
  obtain ⟨drawn, old, departing, hdrawn, hrefunds, -, -, -, hiff⟩ :=
    refunded_iff_removed hmined (fun _ _ => rfl) hnew
    ⟨rfl, rfl, _, _, _, rfl, rfl⟩ hmove
  obtain rfl := Except.ok.inj ((drawnTickets_expiring hheight 0).symm.trans hdrawn)
  rw [refundedTickets_expiring hheight hpool rfl] at hrefunds hiff
  exact ⟨_, _, _, departing, hmined, hheight, hnew, hmove, hrefunds, hiff⟩

open FirstTicket in
/-- The first miner is paid into a ticket. The chain is accepted, block 2049 refunds the ticket as expired and passes `CheckReward`, and the ticket stays in the pool when it is connected. -/
theorem refunded_ticket_stays :
    ∃ (c : ActiveChain ValveRun.network PlainChain.noContracts) (s t : TipState) (block : Block),
      Mined tickets s ∧
      s = c.state.tipState s.pool ∧ s.height = TICKET_POOL_MAX_SIZE ∧
        createNewBlock tickets s assembly 0 = .ok block ∧
        checkReward block (s.height + 1) assembly.nFees assembly.refundOutputs = .ok () ∧
          s.move tickets (.connect block) = .ok t ∧
          drawnTickets tickets s 0 = .ok [] ∧ ∃ u ∈ refundedTickets s [], u ∈ t.pool.ticket_pool := by
  obtain ⟨c, hc⟩ := exists_minedChain (n := TICKET_POOL_MAX_SIZE) (by decide)
  have hheight := height_minedTip TICKET_POOL_MAX_SIZE
  have hpool : (minedTip TICKET_POOL_MAX_SIZE).pool = pool minedTicket TICKET_POOL_MAX_SIZE := rfl
  have hdrawn := drawnTickets_expiring hheight 0
  have hlength := length_eq_of_drawn hdrawn fun hvalve => absurd (hheight ▸ hvalve) (by decide)
  have hpayable := (payable_assembleBlock_iff tickets assembly_collected hlength 0).mpr
    ((payableTickets_expiring hheight hpool rfl).mpr (by decide))
  refine ⟨c, minedTip TICKET_POOL_MAX_SIZE, _, _, mined_minedTip le_rfl, hc, hheight,
    createNewBlock_expiring hheight 0, hpayable.2,
    connect_minedTip (by decide) _, hdrawn, minedTicket, ?_, ?_⟩
  · rw [refundedTickets_expiring hheight hpool rfl]
    exact List.mem_cons_self
  · exact mem_pool.mpr rfl

end TscPow
