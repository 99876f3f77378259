import TscPow.Ticket.Update

/-!
# Lucky tickets are fixed in advance

The pool for a height and the tickets drawn from it depend only on blocks at least `TICKETPOOL_HEIGHT_LATENCY` below that height, so chains that agree so far draw the same tickets. Two reads of the source are unchecked: `getLuckyIndex` leaves the digits of the hash when the remainder of the seed is below `-2`, and the constructor of a ticket reads a second output. Loading returns exactly when no block up to `h - TICKETPOOL_HEIGHT_LATENCY` runs into either (`exists_loadTicketpool_iff`).
-/

namespace TscPow

/-- The outputs that `updateTicketpool` and the constructor of `Ticket` read are there. -/
def Tx.ticketOutputsPresent (tx : Tx) : Bool :=
  match tx.vout with
  | [] => false
  | [out] => !out.scriptPubKey.hasOpSStx
  | _ => true

/-- Adding the tickets of `block`, at `height`, and drawing with its seed stays inside what the block has. -/
def Loadable (block : Block) (height : Nat) : Prop :=
  (TICKET_VALVE < height + TICKETPOOL_HEIGHT_LATENCY → SeedInRange block.seed) ∧ ∀ tx ∈ block.vtx,
    tx.ticketOutputsPresent

instance (block : Block) (height : Nat) : Decidable (Loadable block height) :=
  inferInstanceAs (Decidable (_ ∧ _))

section

variable {env : TicketEnv} {chain chain' : List Block} {pool : TicketPool} {block : Block}
  {i h : Nat} {seed : BitVec 32}

theorem exists_buyTicket_iff (env : TicketEnv) (height : Nat) (pool : TicketSet) (tx : Tx) :
    (∃ pool', buyTicket env height pool tx = .ok pool') ↔ tx.ticketOutputsPresent := by
  rw [buyTicket, Tx.ticketOutputsPresent]
  rcases hvout : tx.vout with _ | ⟨out, _ | ⟨address, rest⟩⟩
  · simp
  · by_cases hbuy : out.scriptPubKey.hasOpSStx
    · simp [hbuy, Ticket.ofTx, hvout]
    · simp [hbuy, Except.pure_eq_ok_iff]
  · by_cases hbuy : out.scriptPubKey.hasOpSStx
    · simp [hbuy, Ticket.ofTx, hvout]
    · simp [hbuy, Except.pure_eq_ok_iff]

theorem exists_departingTickets_iff (env : TicketEnv) (tickets : TicketSet)
    (hi : TICKETPOOL_HEIGHT_LATENCY < i) (hlen : i ≤ chain.length) :
    (∃ lucky, departingTickets env chain tickets block i = .ok lucky) ↔
    (TICKET_VALVE < i → SeedInRange block.seed) := by
  rw [departingTickets]
  by_cases hvalve : i > TICKET_VALVE
  · have hat : ∃ b, chainAt chain ((i - 1 : Nat) - TICKETPOOL_HEIGHT_LATENCY) = some b := by
      rw [chainAt, if_neg (by omega)]
      exact ⟨_, List.getElem?_eq_getElem (by omega)⟩
    rw [if_pos hvalve, exists_luckyTickets_iff]
    exact ⟨fun h _ => h.1, fun h => ⟨h hvalve, hat⟩⟩
  · rw [if_neg hvalve]
    exact iff_of_true ⟨[], rfl⟩ fun h => absurd h hvalve

theorem exists_advanceTickets_iff (env : TicketEnv) (tickets : TicketSet)
    (hi : TICKETPOOL_HEIGHT_LATENCY < i) (hlen : i ≤ chain.length) :
    (∃ tickets', advanceTickets env chain tickets block i = .ok tickets') ↔
      Loadable block (i - TICKETPOOL_HEIGHT_LATENCY) := by
  have hback : i - TICKETPOOL_HEIGHT_LATENCY + TICKETPOOL_HEIGHT_LATENCY = i := by omega
  rw [Loadable, hback, ← exists_departingTickets_iff env tickets hi hlen]
  simp only [advanceTickets, Except.bind_eq_ok_iff]
  constructor
  · rintro ⟨tickets', lucky, hlucky, hbuy⟩
    exact ⟨⟨lucky, hlucky⟩, (Except.exists_foldlM_iff (exists_buyTicket_iff env _)).mp ⟨tickets', hbuy⟩⟩
  · rintro ⟨⟨lucky, hlucky⟩, hpresent⟩
    obtain ⟨tickets', hbuy⟩ := (Except.exists_foldlM_iff (exists_buyTicket_iff env _)).mpr hpresent
    exact ⟨tickets', lucky, hlucky, hbuy⟩

theorem updateTicketpool_of_due (hdue : pool.load_height < i - TICKETPOOL_HEIGHT_LATENCY)
    (hblock : chain[i - TICKETPOOL_HEIGHT_LATENCY]? = some block) (hread : env.readBlockFromDisk block) :
    updateTicketpool env chain pool i =
      advanceTickets env chain pool.ticket_pool block i >>= fun tickets =>
        pure ⟨tickets, i - TICKETPOOL_HEIGHT_LATENCY⟩ := by
  rw [updateTicketpool, updateBranches, if_neg (by omega), hblock]
  simp only [hread, if_true]

theorem load_height_eq (hreads : ∀ b ∈ chain, env.readBlockFromDisk b) (hlen : h < chain.length)
    (hload : loadTicketpool env chain h = .ok pool) :
    pool.load_height = h - TICKETPOOL_HEIGHT_LATENCY := by
  cases h with
  | zero =>
    cases hload
    rfl
  | succ h =>
    rw [loadTicketpool_succ, Except.bind_eq_ok_iff] at hload
    obtain ⟨before, hbefore, hupdate⟩ := hload
    have hle := load_height_le hbefore
    by_cases hdue : before.load_height < h + 1 - TICKETPOOL_HEIGHT_LATENCY
    · have hblock :=
        List.getElem?_eq_getElem (l := chain) (i := h + 1 - TICKETPOOL_HEIGHT_LATENCY) (by omega)
      rw [updateTicketpool_of_due hdue hblock (hreads _ (List.getElem_mem _)),
        Except.bind_eq_ok_iff] at hupdate
      obtain ⟨tickets, -, hpool⟩ := hupdate
      cases hpool
      rfl
    · rcases load_height_of_update hupdate with heq | ⟨hlt, -⟩ <;> omega

theorem expireTickets_of_early {tickets : TicketSet}
    (hearly : ∀ t ∈ tickets, t.ticketHeight < TICKETPOOL_HEIGHT_LATENCY) :
    expireTickets tickets i = tickets := by
  rw [expireTickets]
  split
  case isTrue hlarge =>
    have hall :
        tickets.toList.filter (fun t => decide (t.ticketHeight ≠ i - TICKET_POOL_MAX_SIZE)) =
          tickets.toList := by
      refine List.filter_eq_self.mpr fun t ht => decide_eq_true ?_
      have := hearly t ht
      simp only [TICKETPOOL_HEIGHT_LATENCY, TICKET_POOL_MAX_SIZE] at hlarge this ⊢
      omega
    simp only [TicketSet.ticketDelByHeight, KeyedSet.filter, hall]
  case isFalse => rfl

def Tx.noTicket (tx : Tx) : Bool := tx.vout.head?.any fun out => !out.scriptPubKey.hasOpSStx

theorem buyTicket_of_noTicket {tickets : TicketSet} {height : Nat} {tx : Tx} (htx : tx.noTicket) :
    buyTicket env height tickets tx = .ok tickets := by
  rw [buyTicket]
  rcases hvout : tx.vout with _ | ⟨out, rest⟩
  · simp [Tx.noTicket, hvout] at htx
  · simp only [Tx.noTicket, hvout, List.head?_cons, Option.any_some, Bool.not_eq_true'] at htx
    simp only [htx, Bool.false_eq_true, if_false]
    rfl

theorem updateTicketpool_of_quiet {tickets : TicketSet} (hi : TICKETPOOL_HEIGHT_LATENCY ≤ i)
    (hvalve : i < TICKET_VALVE) (hearly : ∀ t ∈ tickets, t.ticketHeight < TICKETPOOL_HEIGHT_LATENCY)
    (hblock : chain[i + 1 - TICKETPOOL_HEIGHT_LATENCY]? = some block)
    (hread : env.readBlockFromDisk block) (hquiet : ∀ tx ∈ block.vtx, tx.noTicket) :
    updateTicketpool env chain ⟨tickets, i - TICKETPOOL_HEIGHT_LATENCY⟩ (i + 1) =
      .ok ⟨tickets, i + 1 - TICKETPOOL_HEIGHT_LATENCY⟩ := by
  have hbuy : ∀ vtx : List Tx, (∀ tx ∈ vtx, tx.noTicket) →
      vtx.foldlM (buyTicket env (i + 1 - TICKETPOOL_HEIGHT_LATENCY)) tickets = .ok tickets := by
    intro vtx hvtx
    induction vtx with
    | nil => rfl
    | cons tx vtx ih =>
      rw [List.forall_mem_cons] at hvtx
      rw [Except.foldlM_cons_eq_ok_iff]
      exact ⟨tickets, buyTicket_of_noTicket hvtx.1, ih hvtx.2⟩
  have hadvance : advanceTickets env chain tickets block (i + 1) = .ok tickets := by
    rw [advanceTickets, departingTickets, if_neg (by omega)]
    change block.vtx.foldlM _ (expireTickets tickets (i + 1)) = _
    rw [expireTickets_of_early hearly, hbuy _ hquiet]
  rw [updateTicketpool_of_due (show i - TICKETPOOL_HEIGHT_LATENCY < _ by omega) hblock hread, hadvance]
  rfl

theorem loadTicketpool_of_quiet {tickets : TicketSet} (hi : TICKETPOOL_HEIGHT_LATENCY ≤ i)
    (hbase : loadTicketpool env chain i = .ok ⟨tickets, i - TICKETPOOL_HEIGHT_LATENCY⟩)
    (hearly : ∀ t ∈ tickets, t.ticketHeight < TICKETPOOL_HEIGHT_LATENCY) (hle : i ≤ h)
    (hvalve : h ≤ TICKET_VALVE)
    (hquiet : ∀ j, i < j + TICKETPOOL_HEIGHT_LATENCY → j + TICKETPOOL_HEIGHT_LATENCY ≤ h →
      ∃ b, chain[j]? = some b ∧ env.readBlockFromDisk b ∧ ∀ tx ∈ b.vtx, tx.noTicket) :
    loadTicketpool env chain h = .ok ⟨tickets, h - TICKETPOOL_HEIGHT_LATENCY⟩ := by
  induction h, hle using Nat.le_induction with
  | base => exact hbase
  | succ h hle ih =>
    have hload := ih (by omega) fun j hj hjh => hquiet j hj (by omega)
    obtain ⟨b, hb, hread, hvtx⟩ := hquiet (h + 1 - TICKETPOOL_HEIGHT_LATENCY) (by omega) (by omega)
    rw [loadTicketpool_succ, hload]
    exact updateTicketpool_of_quiet (hi.trans hle) (by omega) hearly hb hread hvtx

theorem exists_updateTicketpool_iff (hpool : loadTicketpool env chain h = .ok pool)
    (hdue : TICKETPOOL_HEIGHT_LATENCY < h + 1) (hlen : h + 1 ≤ chain.length)
    (hblock : chain[h + 1 - TICKETPOOL_HEIGHT_LATENCY]? = some block) :
    (∃ pool', updateTicketpool env chain pool (h + 1) = .ok pool') ↔
      (env.readBlockFromDisk block → Loadable block (h + 1 - TICKETPOOL_HEIGHT_LATENCY)) := by
  have hload : pool.load_height < h + 1 - TICKETPOOL_HEIGHT_LATENCY := by
    have := load_height_le hpool
    omega
  by_cases hread : env.readBlockFromDisk block
  · rw [updateTicketpool_of_due hload hblock hread, ←
      exists_advanceTickets_iff env pool.ticket_pool hdue hlen, forall_prop_of_true hread]
    simp only [Except.bind_eq_ok_iff, Except.pure_eq_ok_iff]
    exact ⟨fun ⟨_, tickets, ht, _⟩ => ⟨tickets, ht⟩, fun ⟨tickets, ht⟩ => ⟨_, tickets, ht, rfl⟩⟩
  · rw [updateTicketpool, updateBranches, if_neg (by omega), hblock]
    simp [hread]

theorem exists_loadTicketpool_iff (env : TicketEnv) (hlen : h < chain.length) :
    (∃ pool, loadTicketpool env chain h = .ok pool) ↔
      ∀ j b, 0 < j → j + TICKETPOOL_HEIGHT_LATENCY ≤ h → chain[j]? = some b →
        env.readBlockFromDisk b → Loadable b j := by
  induction h with
  | zero => exact iff_of_true ⟨_, rfl⟩ fun j b hj hle => by omega
  | succ h ih =>
    have ih := ih (by omega)
    by_cases hearly : h + 1 ≤ TICKETPOOL_HEIGHT_LATENCY
    · -- nothing is due yet
      have hnone : ∀ pool, loadTicketpool env chain h = .ok pool →
          updateTicketpool env chain pool (h + 1) = .ok pool :=
        fun pool hpool => updateTicketpool_of_le_latency hearly (by have := load_height_le hpool; omega)
      refine iff_of_true ?_ fun j b hj hle => by omega
      obtain ⟨pool, hpool⟩ := ih.mpr fun j b hj hle => by omega
      exact ⟨pool, by rw [loadTicketpool_succ, hpool]; exact hnone pool hpool⟩
    · obtain ⟨block, hblock⟩ : ∃ b, chain[h + 1 - TICKETPOOL_HEIGHT_LATENCY]? = some b :=
        ⟨_, List.getElem?_eq_getElem (by omega)⟩
      simp only [loadTicketpool_succ, Except.bind_eq_ok_iff]
      constructor
      · rintro ⟨pool', pool, hpool, hupdate⟩ j b hj hle hb
        rcases Nat.lt_or_ge (j + TICKETPOOL_HEIGHT_LATENCY) (h + 1) with hlt | hge
        · exact ih.mp ⟨pool, hpool⟩ j b hj (by omega) hb
        · obtain rfl : j = h + 1 - TICKETPOOL_HEIGHT_LATENCY := by omega
          obtain rfl : block = b := by simpa [hblock] using hb
          exact (exists_updateTicketpool_iff hpool (by omega) (by omega) hblock).mp ⟨pool', hupdate⟩
      · intro hall
        obtain ⟨pool, hpool⟩ := ih.mpr fun j b hj hle => hall j b hj (by omega)
        obtain ⟨pool', hupdate⟩ :=
          (exists_updateTicketpool_iff hpool (by omega) (by omega) hblock).mpr
            (hall _ block (by omega) (by omega) hblock)
        exact ⟨pool', pool, hpool, hupdate⟩

/-- On two chains with the same blocks up to `h - TICKETPOOL_HEIGHT_LATENCY`, loading the pool for `h` and drawing from it gives the same results, provided it gives a result at all: the seeds stay in range and the outputs read are there. -/
theorem replay_latency_iff (hlen : h < chain.length) (hreads : ∀ b ∈ chain, env.readBlockFromDisk b)
    (hsame : ∀ j, j + TICKETPOOL_HEIGHT_LATENCY ≤ h → chain[j]? = chain'[j]?) :
    (∃ pool lucky,
        loadTicketpool env chain h = .ok pool ∧ loadTicketpool env chain' h = .ok pool ∧
          luckyTickets env.hashing chain pool.ticket_pool h seed = .ok lucky ∧
            luckyTickets env.hashing chain' pool.ticket_pool h seed = .ok lucky) ↔
      TICKETPOOL_HEIGHT_LATENCY ≤ h ∧ SeedInRange seed ∧
        ∀ j b, 0 < j → j + TICKETPOOL_HEIGHT_LATENCY ≤ h → chain[j]? = some b → Loadable b j := by
  have hat : (∃ b, chainAt chain (h - TICKETPOOL_HEIGHT_LATENCY) = some b) ↔
      TICKETPOOL_HEIGHT_LATENCY ≤ h := by
    rw [chainAt]
    split
    · exact iff_of_false (by simp) (by omega)
    · exact iff_of_true ⟨_, List.getElem?_eq_getElem (by omega)⟩ (by omega)
  have hreplay := exists_loadTicketpool_iff env hlen
  have hloadable :
    (∀ j b, 0 < j → j + TICKETPOOL_HEIGHT_LATENCY ≤ h → chain[j]? = some b →
      env.readBlockFromDisk b → Loadable b j) ↔
      ∀ j b, 0 < j → j + TICKETPOOL_HEIGHT_LATENCY ≤ h → chain[j]? = some b → Loadable b j := by
    refine forall₅_congr fun j b _ _ hb => ?_
    exact forall_prop_of_true (hreads b (List.mem_of_getElem? hb))
  rw [hloadable] at hreplay
  rw [← hreplay, ← hat]
  constructor
  · rintro ⟨pool, lucky, hpool, -, hlucky, -⟩
    obtain ⟨hseed, hblock⟩ := (exists_luckyTickets_iff _ _).mp ⟨lucky, hlucky⟩
    exact ⟨hblock, hseed, pool, hpool⟩
  · rintro ⟨hblock, hseed, pool, hpool⟩
    obtain ⟨lucky, hlucky⟩ := (exists_luckyTickets_iff env.hashing pool.ticket_pool).mpr ⟨hseed, hblock⟩
    refine ⟨pool, lucky, hpool, ?_, hlucky, ?_⟩
    · rw [← loadTicketpool_congr hsame, hpool]
    · rw [← luckyTickets_congr hsame, hlucky]

end

/-! ### A chain with tickets -/

namespace TicketSample

def hashing : Hashing where
  txHash tx := Uint256.ofNat tx.nLockTime.toNat
  blockHash header := Uint256.ofNat (header.nTime.toNat * 0x123456789abcdef0123456789abcdef)
  merkleRoot hashes := (hashes.headD (Uint256.ofNat 0), false)

def env : TicketEnv where
  hashing
  extractDestination script := .keyID (BitVec.ofNat 160 script.length)
  readBlockFromDisk _ := true

def ticketTx (n : Nat) : Tx where
  nVersion := 2
  vin := []
  vout := [⟨TICKET_PRICE * COIN, [OP_BUYTICKET]⟩, ⟨0, List.replicate n 0⟩]
  nLockTime := BitVec.ofNat 32 n

def block (time : Nat) (seed : BitVec 32) (vtx : List Tx) : Block :=
  { (default : BlockHeader) with nTime := BitVec.ofNat 32 time, seed, vtx }

def chain (time height : Nat) : List Block :=
  [block 0 0 [], block 1 0 ((List.range 7).map ticketTx)] ++ (List.range (height - 1)).map fun n =>
    block (time + n) 0 []

theorem chain_agree (time time' : Nat) (j : Nat) (hj : j + TICKETPOOL_HEIGHT_LATENCY ≤ 65) :
    (chain time 65)[j]? = (chain time' 65)[j]? := by
  have hlt : j < 2 := by
    rw [TICKETPOOL_HEIGHT_LATENCY] at hj
    omega
  rw [chain, chain, List.getElem?_append_left hlt, List.getElem?_append_left hlt]

end TicketSample

open TicketSample in
theorem replay_latency_iff_ticketSample :
    (∀ j, j + TICKETPOOL_HEIGHT_LATENCY ≤ 65 → (chain 2 65)[j]? = (chain 1000 65)[j]?) ∧
      ∃ pool lucky,
        loadTicketpool env (chain 2 65) 65 = .ok pool ∧ loadTicketpool env (chain 1000 65) 65 = .ok pool ∧
          luckyTickets env.hashing (chain 2 65) pool.ticket_pool 65 5 = .ok lucky ∧
            luckyTickets env.hashing (chain 1000 65) pool.ticket_pool 65 5 = .ok lucky := by
  refine ⟨chain_agree 2 1000,
    (replay_latency_iff (by decide) (fun _ _ => rfl) (chain_agree 2 1000)).mpr
      ⟨by decide, by decide, ?_⟩⟩
  intro j b hj hle hb
  obtain rfl : j = 1 := by rw [TICKETPOOL_HEIGHT_LATENCY] at hle; omega
  cases hb
  decide

open TicketSample in
/-- A seed whose remainder is `-8`: `getLuckyIndex` reads the four characters from position 67 of a string of 64, and no draw is defined. -/
theorem luckyTickets_outside_hash :
    (∀ j, j + TICKETPOOL_HEIGHT_LATENCY ≤ 65 → (chain 2 65)[j]? = (chain 1000 65)[j]?) ∧
      (loadTicketpool env (chain 2 65) 65).map (·.ticket_pool.size) = .ok 7 ∧
        ¬ ∃ pool lucky,
          loadTicketpool env (chain 2 65) 65 = .ok pool ∧
            loadTicketpool env (chain 1000 65) 65 = .ok pool ∧
            luckyTickets env.hashing (chain 2 65) pool.ticket_pool 65 0x80000000 = .ok lucky ∧
              luckyTickets env.hashing (chain 1000 65) pool.ticket_pool 65 0x80000000 = .ok lucky := by
  refine ⟨chain_agree 2 1000, by decide +kernel, ?_⟩
  rintro ⟨pool, lucky, -, -, hlucky, -⟩
  exact absurd ((exists_luckyTickets_iff _ _).mp ⟨lucky, hlucky⟩).1 (by decide)

end TscPow
