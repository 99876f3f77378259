import TscPow.Miner.CreateNewBlock

/-!
# Who is paid, who signs, who leaves the pool

For a block on top of the active tip, `CreateNewBlock` and `ProcessNewBlock` draw with the block's own seed, so the tickets paid are the tickets that sign. `updateTicketpool` draws from the same pool and the same hash, but with the seed of the block `TICKETPOOL_HEIGHT_LATENCY` below the new one. The tickets it deletes are the paid ones exactly when the two seeds select the same positions.
-/

namespace TscPow

def PaysTickets (block : Block) (nHeight : Nat) (tickets : List Ticket) : Prop :=
  ∃ coinbase rest, block.vtx = coinbase :: rest ∧
    (coinbase.vout.drop 1).take 5 = tickets.map (luckyOutput nHeight)

/-- The block built for the next height pays the tickets `paid`, `ProcessNewBlock` holds its signatures against them, and connecting it deletes the same set; `old` is the block whose seed `updateTicketpool` uses. -/
def SameLuckyTickets (env : TicketEnv) (s : TipState) (assembly : Assembly)
    (nNextChoice : BitVec 32) (old : Block) : Prop :=
  ∃ block paid deleted, createNewBlock env s assembly nNextChoice = .ok block ∧
    PaysTickets block (s.height + 1) paid ∧
    luckyTickets env.hashing s.chain s.pool.ticket_pool s.height nNextChoice = .ok paid ∧
      signingTickets env s block = .ok paid ∧
        departingTickets env (s.extend block).chain s.pool.ticket_pool old (s.height + 1) = .ok deleted ∧
          ∀ t, t ∈ deleted ↔ t ∈ paid

section

variable {env : TicketEnv} {s : TipState} {assembly : Assembly} {nNextChoice seed : BitVec 32}
  {block anchor old : Block} {tickets : List Ticket}

theorem paysTickets_assembleBlock {expired : List TxOut} (hlength : tickets.length = 5) :
    PaysTickets (assembleBlock env s assembly nNextChoice (coinbaseTx assembly (s.height + 1)
      ((tickets.take 5).map (luckyOutput (s.height + 1))) expired)) (s.height + 1) tickets := by
  refine ⟨_, assembly.selected, rfl, ?_⟩
  rw [coinbaseTx, List.drop_one, List.tail_cons, List.append_assoc, List.append_assoc,
    List.take_left' (by simp [hlength]),
    List.take_of_length_le hlength.le]

theorem createNewBlock_eq_ok_iff (hvalve : TICKET_VALVE ≤ s.height)
    (hlucky : luckyTickets env.hashing s.chain s.pool.ticket_pool s.height nNextChoice = .ok tickets) :
    createNewBlock env s assembly nNextChoice = .ok block ↔
      5 ≤ tickets.length ∧
        block = assembleBlock env s assembly nNextChoice (coinbaseTx assembly (s.height + 1)
        ((tickets.take 5).map (luckyOutput (s.height + 1)))
          (expiredOutputs s (tickets.foldl TicketSet.ticketDel s.pool.ticket_pool))) := by
  simp only [createNewBlock, luckyOutputs, if_pos hvalve, hlucky, Except.bind_eq_ok_iff,
    Except.require_eq_ok_iff, Except.pure_eq_ok_iff, Except.ok.injEq]
  constructor
  · rintro ⟨_, ⟨_, rfl, _, hfive, rfl⟩, rfl⟩
    exact ⟨hfive, rfl⟩
  · rintro ⟨hfive, rfl⟩
    exact ⟨_, ⟨tickets, rfl, (), hfive, rfl⟩, rfl⟩

theorem departingTickets_eq_ok_iff (hvalve : TICKET_VALVE ≤ s.height) :
    departingTickets env (s.extend block).chain s.pool.ticket_pool old (s.height + 1) = .ok tickets ↔
      luckyTickets env.hashing s.chain s.pool.ticket_pool s.height old.seed = .ok tickets := by
  rw [departingTickets, if_pos (Nat.lt_succ_of_le hvalve), Nat.add_sub_cancel,
    luckyTickets_congr fun j hj => s.getElem?_chain_extend block (by omega)]

theorem move_connect_eq_advance (hreads : ∀ b ∈ s.chain, env.readBlockFromDisk b)
    (hload : loadTicketpool env s.chain s.height = .ok s.pool)
    (hhigh : TICKETPOOL_HEIGHT_LATENCY ≤ s.height)
    (hold : s.chain[s.height + 1 - TICKETPOOL_HEIGHT_LATENCY]? = some old) :
    s.move env (.connect block) =
      advanceTickets env (s.extend block).chain s.pool.ticket_pool old (s.height + 1) >>= fun tickets =>
        pure { s.extend block with pool := ⟨tickets, s.height + 1 - TICKETPOOL_HEIGHT_LATENCY⟩ } := by
  have hle := load_height_le hload
  have hat : (s.extend block).chain[s.height + 1 - TICKETPOOL_HEIGHT_LATENCY]? = some old := by
    rw [s.getElem?_chain_extend block (by rw [TICKETPOOL_HEIGHT_LATENCY]; omega), hold]
  rw [TipState.move, TipState.updateTip_eq (by rw [TipState.pool_extend, TipState.height_extend]; omega),
    TipState.height_extend, TipState.pool_extend,
      updateTicketpool_of_due (by omega) hat (hreads old (List.mem_of_getElem? hold))]
  simp only [bind_assoc, pure_bind]

theorem sameLuckyTickets_iff_positions (hvalve : TICKET_VALVE ≤ s.height)
    (hanchor : s.chain[s.height - TICKETPOOL_HEIGHT_LATENCY]? = some anchor) :
    SameLuckyTickets env s assembly nNextChoice old ↔
      5 < s.pool.ticket_pool.size ∧ SeedInRange nNextChoice ∧ SeedInRange old.seed ∧
        Draw.SamePositions s.pool.ticket_pool.size
          (luckyIndices (env.hashing.blockHash anchor.toBlockHeader).getHex
            (seedResidue nNextChoice) s.pool.ticket_pool.size)
          (luckyIndices (env.hashing.blockHash anchor.toBlockHeader).getHex (seedResidue old.seed)
            s.pool.ticket_pool.size) := by
  have hat : chainAt s.chain (s.height - TICKETPOOL_HEIGHT_LATENCY) = some anchor := by
    have : TICKETPOOL_HEIGHT_LATENCY ≤ s.height := by
      rw [TICKETPOOL_HEIGHT_LATENCY]; rw [TICKET_VALVE] at hvalve; omega
    rw [chainAt, if_neg (by omega), ← hanchor]
    congr 1
    omega
  constructor
  · rintro ⟨block, paid, deleted, hcreate, -, hpaid, -, hdeleted, hsame⟩
    have hfive := ((createNewBlock_eq_ok_iff hvalve hpaid).mp hcreate).1
    rw [length_luckyTickets hpaid] at hfive
    rw [departingTickets_eq_ok_iff hvalve, luckyTickets_eq_ok_iff hat] at hdeleted
    rw [luckyTickets_eq_ok_iff hat] at hpaid
    have hsize : 5 < s.pool.ticket_pool.size := by
      split at hfive <;> omega
    refine ⟨hsize, hpaid.1, hdeleted.1, ?_⟩
    rw [← Draw.same_elements_iff (KeyedSet.nodup_byKey _) (KeyedSet.length_byKey _) hpaid.2 hdeleted.2]
    exact fun t => (hsame t).symm
  · rintro ⟨hsize, hseed, hold, hpositions⟩
    obtain ⟨paid, hpaid⟩ :=
      (exists_luckyTickets_iff env.hashing s.pool.ticket_pool).mpr ⟨hseed, anchor, hat⟩
    obtain ⟨deleted, hdeleted⟩ :=
      (exists_luckyTickets_iff env.hashing s.pool.ticket_pool).mpr ⟨hold, anchor, hat⟩
    have hfive : paid.length = 5 := by rw [length_luckyTickets hpaid, if_pos hsize]
    refine ⟨_, paid, deleted, (createNewBlock_eq_ok_iff hvalve hpaid).mpr ⟨hfive.ge, rfl⟩,
      paysTickets_assembleBlock hfive,
      hpaid, ?_, (departingTickets_eq_ok_iff hvalve).mpr hdeleted, ?_⟩
    · rw [signingTickets, if_pos hvalve]
      exact hpaid
    · intro t
      rw [luckyTickets_eq_ok_iff hat] at hpaid hdeleted
      exact ((Draw.same_elements_iff (KeyedSet.nodup_byKey _) (KeyedSet.length_byKey _) hpaid.2
        hdeleted.2).mpr hpositions t).symm

/-- The tickets paid and the tickets that sign are the same. They are the ones that leave the pool exactly when the pool has more than five tickets, both seeds are in range, and the two seeds select the same positions. -/
theorem sameLuckyTickets_iff (hvalve : TICKET_VALVE ≤ s.height)
    (hreads : ∀ b ∈ s.chain, env.readBlockFromDisk b)
    (hload : loadTicketpool env s.chain s.height = .ok s.pool)
    (hanchor : s.chain[s.height - TICKETPOOL_HEIGHT_LATENCY]? = some anchor)
    (hold : s.chain[s.height + 1 - TICKETPOOL_HEIGHT_LATENCY]? = some old) :
    (∀ block, s.move env (.connect block) =
        advanceTickets env (s.extend block).chain s.pool.ticket_pool old (s.height + 1) >>= fun tickets =>
          pure { s.extend block with pool := ⟨tickets, s.height + 1 - TICKETPOOL_HEIGHT_LATENCY⟩ }) ∧
      (SameLuckyTickets env s assembly nNextChoice old ↔
        5 < s.pool.ticket_pool.size ∧ SeedInRange nNextChoice ∧ SeedInRange old.seed ∧
          Draw.SamePositions s.pool.ticket_pool.size
            (luckyIndices (env.hashing.blockHash anchor.toBlockHeader).getHex
              (seedResidue nNextChoice) s.pool.ticket_pool.size)
            (luckyIndices (env.hashing.blockHash anchor.toBlockHeader).getHex (seedResidue old.seed)
              s.pool.ticket_pool.size)) := by
  refine ⟨fun block => ?_, sameLuckyTickets_iff_positions hvalve hanchor⟩
  refine move_connect_eq_advance hreads hload (le_trans ?_ hvalve) hold
  decide

end

/-! ### A chain at the valve -/

namespace ValveSample

def hashing : Hashing := { TicketSample.hashing with blockHash _ := Uint256.ofNat 0x1000100010001000100 }

def env : TicketEnv := { TicketSample.env with hashing }

def firstBlock : Block := TicketSample.block 1 0 ((List.range 7).map TicketSample.ticketTx)

def laterBlock : Block := TicketSample.block 2 1 []

def above (height : Nat) : List Block := firstBlock :: List.replicate (height - 1) laterBlock

def tickets : TicketSet :=
  ((loadTicketpool env (TicketSample.block 0 0 [] :: above 65)
    65).toOption.getD TicketPool.new).ticket_pool

def tip : TipState where
  genesis := TicketSample.block 0 0 []
  above := above TICKET_VALVE
  pool := ⟨tickets, TICKET_VALVE - TICKETPOOL_HEIGHT_LATENCY⟩

def assembly : Assembly where
  scriptPubKeyIn := []
  defaultPosMiner := .noDestination
  nVersion := 4
  nTime := 3
  nBits := 0
  hashStateRoot := Uint256.ofNat 0
  hashUTXORoot := Uint256.ofNat 0
  selected := []
  nFees := 0
  refundSender := 0
  refundOutputs := []
  commitment := none

theorem height_tip : tip.height = TICKET_VALVE := by
  rw [TipState.height, tip, above, List.length_cons, List.length_replicate]
  decide

theorem getElem?_chain_tip {j : Nat} (hj : 2 ≤ j) (hle : j ≤ TICKET_VALVE) :
    tip.chain[j]? = some laterBlock := by
  obtain ⟨j, rfl⟩ := Nat.exists_eq_add_of_le' hj
  rw [TipState.chain, tip, above, List.getElem?_cons_succ, List.getElem?_cons_succ,
    List.getElem?_replicate, if_pos (by omega)]

theorem load_tip : loadTicketpool env tip.chain tip.height = .ok tip.pool := by
  have hbase : loadTicketpool env tip.chain 65 = .ok ⟨tickets, 65 - TICKETPOOL_HEIGHT_LATENCY⟩ := by
    have hsame : ∀ j, j + TICKETPOOL_HEIGHT_LATENCY ≤ 65 →
        tip.chain[j]? = (TicketSample.block 0 0 [] :: above 65)[j]? := by
      intro j hj
      have hj : j < 2 := by
        rw [TICKETPOOL_HEIGHT_LATENCY] at hj
        omega
      interval_cases j <;> rfl
    rw [loadTicketpool_congr hsame]
    decide +kernel
  rw [height_tip]
  refine loadTicketpool_of_quiet (by decide) hbase (by decide +kernel) (by decide) le_rfl
    fun j hj hle => ?_
  rw [TICKETPOOL_HEIGHT_LATENCY] at hj hle
  exact ⟨laterBlock, getElem?_chain_tip (by omega) (by omega), rfl, by decide⟩

end ValveSample

open ValveSample in
theorem sameLuckyTickets_iff_valveSample :
    loadTicketpool env tip.chain tip.height = .ok tip.pool ∧
      SameLuckyTickets env tip assembly 1 laterBlock :=
  ⟨load_tip, ((sameLuckyTickets_iff height_tip.ge (fun _ _ => rfl) load_tip
    (getElem?_chain_tip (by rw [height_tip]; decide) (by rw [height_tip]; decide))
    (getElem?_chain_tip (by rw [height_tip]; decide) (by rw [height_tip]; decide))).2.mpr
      (by decide +kernel))⟩

open ValveSample in
/-- With the seed `0` for the new block and `1` for the block that `updateTicketpool` reads, the tickets paid are not the ones that leave. -/
theorem paid_tickets_stay :
    loadTicketpool env tip.chain tip.height = .ok tip.pool ∧
      tip.chain[tip.height + 1 - TICKETPOOL_HEIGHT_LATENCY]? = some laterBlock ∧
        ¬ SameLuckyTickets env tip assembly 0 laterBlock := by
  refine ⟨load_tip, getElem?_chain_tip (by rw [height_tip]; decide) (by rw [height_tip]; decide), ?_⟩
  rw [sameLuckyTickets_iff_positions height_tip.ge
    (getElem?_chain_tip (by rw [height_tip]; decide) (by rw [height_tip]; decide))]
  decide +kernel

end TscPow
