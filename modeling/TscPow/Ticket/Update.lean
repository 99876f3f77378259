import TscPow.Ticket.Pool

/-!
# Keeping the pool up to date

`updateTicketpool` and `LoadTicketpool` (`validation.cpp`). The pool for a height is made from the blocks at least `TICKETPOOL_HEIGHT_LATENCY` below it: connecting height `i` removes the tickets drawn with the seed of block `i - 64` and the expired ones, and adds the tickets bought in block `i - 64`.
-/

namespace TscPow

/-- `ticketPool`: the tickets, and the height of the last block whose tickets were added. -/
structure TicketPool where
  ticket_pool : TicketSet
  load_height : Nat
deriving DecidableEq

def TicketPool.new : TicketPool := ⟨KeyedSet.empty, 0⟩

/-- The first output is read without a size check. -/
def buyTicket (env : TicketEnv) (ticket_height : Nat) (pool : TicketSet) (tx : Tx) :
    Except Fault TicketSet :=
  match tx.vout with
  | [] => .error .undefined
  | out :: _ =>
    if out.scriptPubKey.hasOpSStx then do
      let ticket ← Ticket.ofTx env tx ticket_height
      return pool.ticketPush ticket
    else return pool

/-- The tickets that leave the pool as lucky ones when a block becomes the tip at `block_height`; `block` is the block `TICKETPOOL_HEIGHT_LATENCY` below it. -/
def departingTickets (env : TicketEnv) (chain : List Block) (pool : TicketSet) (block : Block)
    (block_height : Nat) :
    Except Fault (List Ticket) :=
  if block_height > TICKET_VALVE then
    luckyTickets env.hashing chain pool (block_height - 1) block.seed
  else .ok []

def expireTickets (pool : TicketSet) (block_height : Nat) : TicketSet :=
  if block_height - TICKETPOOL_HEIGHT_LATENCY ≥ TICKET_POOL_MAX_SIZE then
    pool.ticketDelByHeight (block_height - TICKET_POOL_MAX_SIZE)
  else pool

/-- `updateTicketpool` once it has read the block. -/
def advanceTickets (env : TicketEnv) (chain : List Block) (pool : TicketSet) (block : Block)
    (block_height : Nat) :
    Except Fault TicketSet := do
  let lucky ← departingTickets env chain pool block block_height
  block.vtx.foldlM (buyTicket env (block_height - TICKETPOOL_HEIGHT_LATENCY))
    (expireTickets (lucky.foldl TicketSet.ticketDel pool) block_height)

/-- The branches of `updateTicketpool`: the tickets of the block that is due were added before, or the block is read from disk, or this fails. -/
def updateBranches {α : Type} (env : TicketEnv) (chain : List Block) (pool : TicketPool)
    (block_height : Nat) (done : Except Fault α) (add : Block → Except Fault α)
    (unread : Except Fault α) : Except Fault α :=
  let ticket_height := block_height - TICKETPOOL_HEIGHT_LATENCY
  if ticket_height ≤ pool.load_height then done
  else
    match chain[ticket_height]? with
    | none => .error .undefined
    | some block => if env.readBlockFromDisk block then add block else unread

def updateTicketpool (env : TicketEnv) (chain : List Block) (pool : TicketPool)
    (block_height : Nat) : Except Fault TicketPool :=
  updateBranches env chain pool block_height
    -- the tip went back; the tickets that its update had removed are not restored
    (if block_height ≤ pool.load_height then
      .ok { pool with ticket_pool := pool.ticket_pool.ticketDelByHeight block_height }
      else .ok pool)
    (fun block => do
      let tickets ← advanceTickets env chain pool.ticket_pool block block_height
      return ⟨tickets, block_height - TICKETPOOL_HEIGHT_LATENCY⟩)
    (.ok pool)

/-- `LoadTicketpool`: the updates of heights `1` to `times` on an empty pool. -/
def loadTicketpool (env : TicketEnv) (chain : List Block) (times : Nat) : Except Fault TicketPool :=
  (List.range times).foldlM (fun pool i => updateTicketpool env chain pool (i + 1)) TicketPool.new

section

variable {env : TicketEnv} {chain chain' : List Block} {pool : TicketPool} {block : Block} {i h : Nat}

@[simp] theorem loadTicketpool_zero : loadTicketpool env chain 0 = .ok TicketPool.new := rfl

theorem loadTicketpool_succ (env : TicketEnv) (chain : List Block) (h : Nat) :
    loadTicketpool env chain (h + 1) =
      loadTicketpool env chain h >>= fun pool => updateTicketpool env chain pool (h + 1) := by
  simp [loadTicketpool, List.range_succ]

/-! ### Which blocks an update reads -/

theorem getLuckyIndex_congr {hashing : Hashing} {size height : Nat} {seed : BitVec 32}
    (hsame : ∀ j, j + TICKETPOOL_HEIGHT_LATENCY ≤ height → chain[j]? = chain'[j]?) :
    getLuckyIndex hashing chain size height seed = getLuckyIndex hashing chain' size height seed := by
  have hat : chainAt chain (height - TICKETPOOL_HEIGHT_LATENCY) =
      chainAt chain' (height - TICKETPOOL_HEIGHT_LATENCY) := by
    rw [chainAt, chainAt]
    split
    · rfl
    · exact hsame _ (by omega)
  rw [getLuckyIndex, getLuckyIndex, hat]

theorem luckyTickets_congr {hashing : Hashing} {pool : TicketSet} {height : Nat} {seed : BitVec 32}
    (hsame : ∀ j, j + TICKETPOOL_HEIGHT_LATENCY ≤ height → chain[j]? = chain'[j]?) :
    luckyTickets hashing chain pool height seed = luckyTickets hashing chain' pool height seed := by
  rw [luckyTickets, luckyTickets, getLuckyIndex_congr hsame]

theorem updateTicketpool_congr (hsame : ∀ j, j + TICKETPOOL_HEIGHT_LATENCY ≤ i → chain[j]? = chain'[j]?) :
    updateTicketpool env chain pool i = updateTicketpool env chain' pool i := by
  have hadvance (tickets : TicketSet) (block : Block) :
      advanceTickets env chain tickets block i = advanceTickets env chain' tickets block i := by
    have hlucky :
        departingTickets env chain tickets block i =
          departingTickets env chain' tickets block i := by
      rw [departingTickets, departingTickets, luckyTickets_congr fun j hj => hsame j (by omega)]
    rw [advanceTickets, advanceTickets, hlucky]
  rw [updateTicketpool, updateTicketpool, updateBranches, updateBranches]
  by_cases hguard : i - TICKETPOOL_HEIGHT_LATENCY ≤ pool.load_height
  · rw [if_pos hguard, if_pos hguard]
  · rw [if_neg hguard, if_neg hguard, hsame (i - TICKETPOOL_HEIGHT_LATENCY) (by omega)]
    simp only [hadvance]

theorem loadTicketpool_congr (hsame : ∀ j, j + TICKETPOOL_HEIGHT_LATENCY ≤ h → chain[j]? = chain'[j]?) :
    loadTicketpool env chain h = loadTicketpool env chain' h := by
  induction h with
  | zero => rfl
  | succ h ih =>
    rw [loadTicketpool_succ, loadTicketpool_succ, ih fun j hj => hsame j (by omega)]
    simp only [updateTicketpool_congr hsame]

/-! ### The loaded height -/

theorem load_height_of_update {pool' : TicketPool}
    (hupdate : updateTicketpool env chain pool i = .ok pool') :
    pool'.load_height = pool.load_height ∨
      pool.load_height < i - TICKETPOOL_HEIGHT_LATENCY ∧
        pool'.load_height = i - TICKETPOOL_HEIGHT_LATENCY := by
  rw [updateTicketpool, updateBranches] at hupdate
  split at hupdate
  · split at hupdate <;> (cases hupdate; exact .inl rfl)
  · split at hupdate
    · cases hupdate
    · split at hupdate
      · obtain ⟨tickets, -, hpool⟩ := Except.bind_eq_ok_iff.mp hupdate
        cases hpool
        exact .inr ⟨by omega, rfl⟩
      · cases hupdate
        exact .inl rfl

theorem load_height_le (hload : loadTicketpool env chain h = .ok pool) :
    pool.load_height ≤ h - TICKETPOOL_HEIGHT_LATENCY := by
  induction h generalizing pool with
  | zero =>
    cases hload
    exact Nat.zero_le _
  | succ h ih =>
    rw [loadTicketpool_succ, Except.bind_eq_ok_iff] at hload
    obtain ⟨before, hbefore, hupdate⟩ := hload
    have := ih hbefore
    rcases load_height_of_update hupdate with heq | ⟨-, heq⟩ <;> omega

theorem updateTicketpool_of_le_latency (hi : i ≤ TICKETPOOL_HEIGHT_LATENCY)
    (hload : pool.load_height < i) :
    updateTicketpool env chain pool i = .ok pool := by
  rw [updateTicketpool, updateBranches, if_pos (by omega), if_neg (by omega)]

end

end TscPow
