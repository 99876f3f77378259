import TscPow.Ticket.Incremental
import TscPow.Validation.PlainChain

/-!
# Buying a ticket

A ticket is made of any transaction of a block whose first output starts with `OP_BUYTICKET`. The price and the second output are looked at when the transaction enters the memory pool, but no rule for blocks mentions them: a block is accepted whatever its transactions pay for their tickets, whether or not they name an owner, and whether or not their first output has a script at all. `updateTicketpool` takes all three for granted.
-/

namespace TscPow

/-! ### The reads of an update -/

/-- What `updateTicketpool` and the constructor of `Ticket` read of a transaction: the first byte of the first output's script and, if it is `OP_BUYTICKET`, the script of the second output. -/
def Tx.ticketReads (tx : Tx) : Except Fault Unit :=
  match tx.vout with
  | [] => .error .undefined
  | out :: rest =>
    match out.scriptPubKey with
    | [] => .error .undefined
    | opcode :: _ => if opcode = OP_BUYTICKET ∧ rest = [] then .error .undefined else .ok ()

/-- The reads of `updateTicketpool` in the transactions of the block that it adds tickets of. -/
def updateReads (env : TicketEnv) (chain : List Block) (pool : TicketPool) (block_height : Nat) :
    Except Fault Unit :=
  updateBranches env chain pool block_height (.ok ()) (fun block => block.vtx.forM Tx.ticketReads)
    (.ok ())

/-- The first output has a script, and a transaction that buys a ticket has a second output. -/
def Tx.TicketReadable (tx : Tx) : Prop :=
  (∀ out ∈ tx.vout.head?, out.scriptPubKey ≠ []) ∧
    ∀ out ∈ tx.vout.head?, out.scriptPubKey.head? = some OP_BUYTICKET → 2 ≤ tx.vout.length

/-! ### Good tickets -/

def Ticket.Good (t : Ticket) : Prop := TICKET_PRICE * COIN ≤ t.ticketPrice ∧ ∃ id,
    t.ticketAddress = .keyID id

/-- A transaction that buys a ticket pays the full price in its first output and a key in its second. -/
def Tx.PaysTicket (env : TicketEnv) (tx : Tx) : Prop :=
  ∀ price address rest, tx.vout = price :: address :: rest → price.scriptPubKey.hasOpSStx = true →
    TICKET_PRICE * COIN ≤ price.nValue ∧ ∃ id, env.extractDestination address.scriptPubKey = .keyID id

def Tx.Buys (env : TicketEnv) (tx : Tx) (height : Nat) (t : Ticket) : Prop :=
  (∃ out ∈ tx.vout.head?, out.scriptPubKey.hasOpSStx = true) ∧ Ticket.ofTx env tx height = .ok t

section

variable {env : TicketEnv} {chain : List Block} {pool pool' : TicketPool}
  {tickets tickets' : TicketSet} {block : Block} {tx : Tx} {t : Ticket} {h i height : Nat}

theorem buyTicket_eq_ok_iff :
    buyTicket env height tickets tx = .ok tickets' ↔
      (∃ t, tx.Buys env height t ∧ tickets.ticketPush t = tickets') ∨ tx.noTicket ∧
        tickets = tickets' := by
  rw [buyTicket]
  cases hvout : tx.vout with
  | nil => simp [Tx.Buys, Tx.noTicket, hvout]
  | cons out rest =>
    by_cases hbuy : out.scriptPubKey.hasOpSStx
    · simp only [hbuy, if_true, Except.bind_eq_ok_iff, Except.pure_eq_ok_iff]
      simp [Tx.Buys, Tx.noTicket, hvout, hbuy]
    · simp [Tx.Buys, Tx.noTicket, hvout, hbuy, Except.pure_eq_ok_iff]

theorem Tx.Buys.good_iff (hbuys : tx.Buys env height t) : t.Good ↔ tx.PaysTicket env := by
  obtain ⟨⟨out, hout, hsstx⟩, hticket⟩ := hbuys
  rw [Ticket.ofTx] at hticket
  split at hticket
  · rename_i price address rest hvout
    obtain rfl : price = out := by simpa [hvout] using hout
    cases hticket
    rw [Ticket.Good, Tx.PaysTicket, hvout]
    constructor
    · rintro hgood _ _ _ ⟨⟩ -
      exact hgood
    · intro hpays
      exact hpays _ _ _ rfl hsstx
  · cases hticket

theorem mem_buyTicket (hbuy : buyTicket env height tickets tx = .ok tickets') (ht : t ∈ tickets') :
    t ∈ tickets ∨ tx.Buys env height t := by
  rcases buyTicket_eq_ok_iff.mp hbuy with ⟨u, hu, rfl⟩ | ⟨-, rfl⟩
  · rcases KeyedSet.mem_insert.mp ht with ht | ⟨rfl, -⟩
    · exact .inl ht
    · exact .inr hu
  · exact .inl ht

theorem mem_foldlM_buyTicket {vtx : List Tx}
    (hbuy : vtx.foldlM (buyTicket env height) tickets = .ok tickets') (ht : t ∈ tickets') :
    t ∈ tickets ∨ ∃ tx ∈ vtx, tx.Buys env height t := by
  induction vtx generalizing tickets with
  | nil =>
    cases hbuy
    exact .inl ht
  | cons tx vtx ih =>
    obtain ⟨next, hnext, hrest⟩ := Except.foldlM_cons_eq_ok_iff.mp hbuy
    rcases ih hrest with hmem | ⟨tx', htx', hbuys⟩
    · rcases mem_buyTicket hnext hmem with hmem | hbuys
      · exact .inl hmem
      · exact .inr ⟨tx, List.mem_cons_self, hbuys⟩
    · exact .inr ⟨tx', List.mem_cons_of_mem _ htx', hbuys⟩

theorem mem_expireTickets (ht : t ∈ expireTickets tickets i) : t ∈ tickets := by
  rw [expireTickets] at ht
  split at ht
  · exact (KeyedSet.mem_filter.mp ht).1
  · exact ht

theorem mem_updateTicketpool (hupdate : updateTicketpool env chain pool i = .ok pool')
    (ht : t ∈ pool'.ticket_pool) :
    t ∈ pool.ticket_pool ∨ pool.load_height < i - TICKETPOOL_HEIGHT_LATENCY ∧
      ∃ block, chain[i - TICKETPOOL_HEIGHT_LATENCY]? = some block ∧ ∃ tx ∈ block.vtx,
        tx.Buys env (i - TICKETPOOL_HEIGHT_LATENCY) t := by
  rw [updateTicketpool, updateBranches] at hupdate
  split at hupdate
  · split at hupdate
    · cases hupdate
      exact .inl (KeyedSet.mem_filter.mp ht).1
    · cases hupdate
      exact .inl ht
  · rename_i hdue
    split at hupdate
    · cases hupdate
    · rename_i block hblock
      split at hupdate
      · obtain ⟨tickets, hadvance, hpool⟩ := Except.bind_eq_ok_iff.mp hupdate
        cases hpool
        obtain ⟨lucky, -, hbuy⟩ := Except.bind_eq_ok_iff.mp hadvance
        rcases mem_foldlM_buyTicket hbuy ht with hmem | hbuys
        · exact .inl (mem_foldl_ticketDel.mp (mem_expireTickets hmem)).1
        · exact .inr ⟨not_le.mp hdue, block, hblock, hbuys⟩
      · cases hupdate
        exact .inl ht

theorem mem_loadTicketpool (hload : loadTicketpool env chain h = .ok pool) (ht : t ∈ pool.ticket_pool) :
    ∃ j block, 0 < j ∧ j + TICKETPOOL_HEIGHT_LATENCY ≤ h ∧ chain[j]? = some block ∧
      ∃ tx ∈ block.vtx, tx.Buys env j t := by
  induction h generalizing pool with
  | zero =>
    cases hload
    exact absurd ht KeyedSet.not_mem_empty
  | succ h ih =>
    rw [loadTicketpool_succ, Except.bind_eq_ok_iff] at hload
    obtain ⟨before, hbefore, hupdate⟩ := hload
    rcases mem_updateTicketpool hupdate ht with hmem | ⟨hdue, block, hblock, hbuys⟩
    · obtain ⟨j, block, hj, hle, hblock, hbuys⟩ := ih hbefore hmem
      exact ⟨j, block, hj, by omega, hblock, hbuys⟩
    · exact ⟨_, block, by omega, by omega, hblock, hbuys⟩

/-! ### What is bought is in the pool -/

theorem Tx.Buys.ticketTxHash (hbuys : tx.Buys env height t) : t.ticketTxHash = env.hashing.txHash tx := by
  obtain ⟨-, hticket⟩ := hbuys
  rw [Ticket.ofTx] at hticket
  split at hticket
  · cases hticket
    rfl
  · cases hticket

theorem mem_of_mem_buyTicket (hbuy : buyTicket env height tickets tx = .ok tickets')
    (ht : t ∈ tickets) : t ∈ tickets' := by
  rcases buyTicket_eq_ok_iff.mp hbuy with ⟨u, -, rfl⟩ | ⟨-, rfl⟩
  · exact KeyedSet.mem_insert.mpr (.inl ht)
  · exact ht

theorem exists_mem_of_buys {vtx : List Tx}
    (hbuy : vtx.foldlM (buyTicket env height) tickets = .ok tickets') (htx : tx ∈ vtx)
    (hbuys : tx.Buys env height t) : ∃ u ∈ tickets', u.ticketTxHash = env.hashing.txHash tx := by
  have hkeep : ∀ (vtx : List Tx) (tickets : TicketSet),
    vtx.foldlM (buyTicket env height) tickets = .ok tickets' →
      ∀ u ∈ tickets, u ∈ tickets' := by
    intro vtx tickets hfold u hu
    exact Except.foldlM_invariant (P := (u ∈ ·)) hfold hu fun s tx s' _ hs hstep =>
      mem_of_mem_buyTicket hstep hs
  induction vtx generalizing tickets with
  | nil => cases htx
  | cons tx' vtx ih =>
    obtain ⟨next, hnext, hrest⟩ := Except.foldlM_cons_eq_ok_iff.mp hbuy
    rcases List.mem_cons.mp htx with rfl | htx
    · rcases buyTicket_eq_ok_iff.mp hnext with ⟨u, hu, rfl⟩ | ⟨hno, -⟩
      · -- the ticket itself is pushed, unless its hash is taken
        by_cases hfree : ∀ c ∈ tickets, c.ticketTxHash ≠ u.ticketTxHash
        · exact ⟨u, hkeep _ _ hrest u (KeyedSet.mem_insert.mpr (.inr ⟨rfl, hfree⟩)), hu.ticketTxHash⟩
        · push Not at hfree
          obtain ⟨c, hc, hhash⟩ := hfree
          exact ⟨c, hkeep _ _ hrest c (KeyedSet.mem_insert.mpr (.inl hc)), hhash.trans hu.ticketTxHash⟩
      · obtain ⟨⟨out, hout, hsstx⟩, -⟩ := hbuys
        rw [Tx.noTicket, Option.mem_def.mp hout] at hno
        simp [hsstx] at hno
    · exact ih hrest htx

theorem exists_load_of_le (hload : loadTicketpool env chain h = .ok pool) (hi : i ≤ h) :
    ∃ before, loadTicketpool env chain i = .ok before := by
  induction h generalizing pool with
  | zero =>
    obtain rfl : i = 0 := by omega
    exact ⟨pool, hload⟩
  | succ h ih =>
    rcases Nat.lt_or_ge h i with hlt | hge
    · obtain rfl : i = h + 1 := by omega
      exact ⟨pool, hload⟩
    · rw [loadTicketpool_succ, Except.bind_eq_ok_iff] at hload
      obtain ⟨before, hbefore, -⟩ := hload
      exact ih hbefore hge

theorem exists_mem_loadTicketpool
    (hload : loadTicketpool env chain (i + TICKETPOOL_HEIGHT_LATENCY) = .ok pool) (hi : 0 < i)
    (hblock : chain[i]? = some block) (hread : env.readBlockFromDisk block) (htx : tx ∈ block.vtx)
    (hbuys : tx.Buys env i t) :
    ∃ u ∈ pool.ticket_pool, u.ticketTxHash = env.hashing.txHash tx := by
  have hsucc : i + TICKETPOOL_HEIGHT_LATENCY = i - 1 + TICKETPOOL_HEIGHT_LATENCY + 1 := by omega
  rw [hsucc, loadTicketpool_succ, Except.bind_eq_ok_iff] at hload
  obtain ⟨before, hbefore, hupdate⟩ := hload
  have hle := load_height_le hbefore
  have hat : i - 1 + TICKETPOOL_HEIGHT_LATENCY + 1 - TICKETPOOL_HEIGHT_LATENCY = i := by omega
  rw [updateTicketpool_of_due (by omega) (by rw [hat]; exact hblock) hread,
    Except.bind_eq_ok_iff] at hupdate
  obtain ⟨tickets, hadvance, hpool⟩ := hupdate
  cases hpool
  obtain ⟨lucky, -, hbuy⟩ := Except.bind_eq_ok_iff.mp hadvance
  rw [hat] at hbuy
  exact exists_mem_of_buys hbuy htx hbuys

/-! ### Reads -/

theorem ticketReads_eq_ok_iff (hvout : tx.vout ≠ []) : tx.ticketReads = .ok () ↔ tx.TicketReadable := by
  rw [Tx.ticketReads, Tx.TicketReadable]
  cases hout : tx.vout with
  | nil => exact absurd hout hvout
  | cons out rest =>
    cases hscript : out.scriptPubKey with
    | nil => simp [hscript]
    | cons opcode script =>
      cases rest with
      | nil => by_cases hop : opcode = OP_BUYTICKET <;> simp [hscript, hop]
      | cons address rest => simp [hscript]

theorem forM_ticketReads_iff {vtx : List Tx} (hvout : ∀ tx ∈ vtx, tx.vout ≠ []) :
    vtx.forM Tx.ticketReads = .ok () ↔ ∀ tx ∈ vtx, tx.TicketReadable := by
  rw [Except.forM_eq_ok_iff]
  exact forall₂_congr fun tx htx => ticketReads_eq_ok_iff (hvout tx htx)

theorem loadTicketpool_first (hblock : chain[1]? = some block) (hread : env.readBlockFromDisk block) :
    loadTicketpool env chain (TICKETPOOL_HEIGHT_LATENCY + 1) =
      block.vtx.foldlM (buyTicket env 1) KeyedSet.empty >>= fun tickets => pure ⟨tickets, 1⟩ := by
  rw [loadTicketpool_succ,
    TipState.loadTicketpool_below_latency loadTicketpool_zero (Nat.zero_le _) le_rfl]
  have hdue : TicketPool.new.load_height <
      TICKETPOOL_HEIGHT_LATENCY + 1 - TICKETPOOL_HEIGHT_LATENCY := by decide
  exact updateTicketpool_of_due hdue hblock hread

end

/-- An accepted chain with a ticket pool for it. -/
def ChainState.tipState {World : Type} (s : ChainState World) (pool : TicketPool) : TipState :=
  ⟨s.genesis, s.above, pool⟩

section

variable {World : Type} {env : Env} {contracts : Contracts World}

/-- On an accepted chain an update stays inside the transactions it reads exactly when each of them has a script in its first output and, if it buys a ticket, a second output. -/
theorem updateReads_iff (c : ActiveChain env contracts) (tickets : TicketEnv) (pool : TicketPool)
    {i : Nat} (hi : i ≤ c.state.height) :
    updateReads tickets c.state.chain pool i = .ok () ↔
      ∀ block, pool.load_height < i - TICKETPOOL_HEIGHT_LATENCY →
        c.state.chain[i - TICKETPOOL_HEIGHT_LATENCY]? = some block →
        tickets.readBlockFromDisk block → ∀ tx ∈ block.vtx, tx.TicketReadable := by
  rw [updateReads, updateBranches]
  by_cases hdone : i - TICKETPOOL_HEIGHT_LATENCY ≤ pool.load_height
  · rw [if_pos hdone]
    exact iff_of_true rfl fun block hdue => absurd hdue (not_lt.mpr hdone)
  · rw [if_neg hdone]
    have hlength : c.state.chain.length = c.state.height + 1 := List.length_cons
    have hat :=
      List.getElem?_eq_getElem (l := c.state.chain) (i := i - TICKETPOOL_HEIGHT_LATENCY) (by omega)
    generalize c.state.chain[i - TICKETPOOL_HEIGHT_LATENCY] = block at hat
    have habove : block ∈ c.state.above := by
      obtain ⟨k, hk⟩ : ∃ k, i - TICKETPOOL_HEIGHT_LATENCY = k + 1 :=
        ⟨i - TICKETPOOL_HEIGHT_LATENCY - 1, by omega⟩
      rw [hk, ChainState.chain, List.getElem?_cons_succ] at hat
      exact List.mem_of_getElem? hat
    have hvout : ∀ tx ∈ block.vtx, tx.vout ≠ [] := fun tx htx => c.reachable.vout_ne_nil habove htx
    simp only [hat]
    by_cases hread : tickets.readBlockFromDisk block
    · rw [if_pos hread, forM_ticketReads_iff hvout]
      constructor
      · rintro hall _ - ⟨⟩ -
        exact hall
      · intro hall
        exact hall block (not_le.mp hdone) rfl hread
    · rw [if_neg hread]
      refine iff_of_true rfl ?_
      rintro _ - ⟨⟩ hread'
      exact absurd hread' hread

/-- If every ticket transaction of an accepted chain pays the full price and names a key, every ticket of every pool replayed on it is good. Nothing less will do: on a chain that is loaded up to a height, without two transactions of one hash, the pools are good exactly when the transactions that they were made from are. -/
theorem tickets_good_iff (c : ActiveChain env contracts) (tickets : TicketEnv) :
    ((∀ block ∈ c.state.above, ∀ tx ∈ block.vtx, tx.PaysTicket tickets) → ∀ h pool, h ≤ c.state.height →
      loadTicketpool tickets c.state.chain h = .ok pool → ∀ t ∈ pool.ticket_pool, t.Good) ∧
    ∀ h pool, loadTicketpool tickets c.state.chain h = .ok pool →
      (∀ block ∈ c.state.chain, tickets.readBlockFromDisk block) →
      (∀ b ∈ c.state.chain, ∀ b' ∈ c.state.chain, ∀ tx ∈ b.vtx, ∀ tx' ∈ b'.vtx,
        tickets.hashing.txHash tx = tickets.hashing.txHash tx' → tx = tx') →
        ((∀ i pool, i ≤ h → loadTicketpool tickets c.state.chain i = .ok pool →
          ∀ t ∈ pool.ticket_pool, t.Good) ↔
          ∀ j block, 0 < j → j + TICKETPOOL_HEIGHT_LATENCY ≤ h → c.state.chain[j]? = some block →
            ∀ tx ∈ block.vtx, (∃ t, tx.Buys tickets j t) → tx.PaysTicket tickets) := by
  have hgood : ∀ h pool, loadTicketpool tickets c.state.chain h = .ok pool →
      (∀ j block, 0 < j → j + TICKETPOOL_HEIGHT_LATENCY ≤ h → c.state.chain[j]? = some block →
        ∀ tx ∈ block.vtx, (∃ t, tx.Buys tickets j t) → tx.PaysTicket tickets) →
          ∀ t ∈ pool.ticket_pool, t.Good := by
    intro h pool hload hpays t ht
    obtain ⟨j, block, hj, hle, hblock, tx, htx, hbuys⟩ := mem_loadTicketpool hload ht
    exact hbuys.good_iff.mpr (hpays j block hj hle hblock tx htx ⟨t, hbuys⟩)
  refine ⟨?_, ?_⟩
  · intro hpays h pool _ hload
    refine hgood h pool hload ?_
    intro j block hj _ hblock tx htx _
    obtain ⟨k, rfl⟩ := Nat.exists_eq_succ_of_ne_zero hj.ne'
    exact hpays block (List.mem_of_getElem? hblock) tx htx
  · intro h pool hload hreads hdistinct
    constructor
    · rintro hall j block hj hle hblock tx htx ⟨t, hbuys⟩
      obtain ⟨before, hbefore⟩ := exists_load_of_le hload hle
      have hmem := List.mem_of_getElem? hblock
      obtain ⟨u, hu, hhash⟩ := exists_mem_loadTicketpool hbefore hj hblock (hreads block hmem) htx hbuys
      -- the ticket under the hash may come from an earlier block, but only from the same transaction
      obtain ⟨j', block', -, -, hblock', tx', htx', hbuys'⟩ := mem_loadTicketpool hbefore hu
      obtain rfl : tx' = tx := hdistinct block' (List.mem_of_getElem? hblock') block hmem tx' htx' tx htx
        (hbuys'.ticketTxHash.symm.trans hhash)
      exact hbuys'.good_iff.mp (hall _ before hle hbefore u hu)
    · intro hpays i pool hi hload t ht
      exact hgood i pool hload (fun j block hj hle => hpays j block hj (hle.trans hi)) t ht

end

/-! ### A coinbase that buys a ticket -/

namespace FirstTicket

open PlainChain

def coinbase (vout : List TxOut) (n : Nat) : Tx where
  nVersion := 2
  vin := [⟨⟨Uint256.ofNat 0, 0xffffffff⟩, Script.pushInt64 n ++ [0], SEQUENCE_FINAL, []⟩]
  vout := if n = 1 then vout else [⟨0, [0x51]⟩]
  nLockTime := BitVec.ofNat 32 n

def tickets : TicketEnv where
  hashing := ValveRun.network.hashing
  extractDestination _ := .keyID 7
  readBlockFromDisk _ := true

theorem plain_coinbase {vout : List TxOut} (hfirst : Coinbase 1 (coinbase vout 1)) (n : Nat) :
    Coinbase n (coinbase vout n) := by
  by_cases hn : n = 1
  · rw [hn]
    exact hfirst
  · have hvout : (coinbase vout n).vout = [⟨0, [0x51]⟩] := if_neg hn
    refine ⟨rfl, ?_, ?_, ?_, ?_, ?_, ?_⟩
    · simp [hvout]
    · simp [hvout]
    · simp [hvout]
    · simp [hvout]
    · simp [Tx.outputValue, hvout, COIN]
    · rw [hvout]
      intro o ho
      obtain rfl := List.mem_singleton.mp ho
      decide

theorem exists_chain {vout : List TxOut} (hfirst : Coinbase 1 (coinbase vout 1)) (n : Nat)
    (hn : n ≤ TICKET_VALVE) :
    ∃ c : ActiveChain ValveRun.network noContracts, c.state.height = n ∧
      c.state.above = above (coinbase vout) n := by
  obtain ⟨s, hreach, hs⟩ := exists_reachable plain (plain_coinbase hfirst) hn
  refine ⟨⟨s, hreach⟩, ?_, hs.above⟩
  rw [ChainState.height, hs.above, above, List.length_map, List.length_range]

def oneOutput : List TxOut := [⟨0, [OP_BUYTICKET]⟩]

def ticketOutputs (nValue : Amount) : List TxOut := [⟨nValue, [OP_BUYTICKET]⟩, ⟨0, [0x51]⟩]

theorem coinbase_oneOutput : Coinbase 1 (coinbase oneOutput 1) :=
  ⟨rfl, by decide, by decide, by decide, by decide, by decide, by decide⟩

theorem coinbase_ticketOutputs {nValue : Amount} (hnonneg : 0 ≤ nValue) (hle : nValue ≤ 260000 * COIN) :
    Coinbase 1 (coinbase (ticketOutputs nValue) 1) where
  vin := rfl
  vout := List.cons_ne_nil _ _
  few := show 2 ≤ 8 by decide
  short := by simp [coinbase, ticketOutputs]
  amount := by simp [coinbase, ticketOutputs, hnonneg]
  total := by
    have hprice : 0 ≤ 30000 * COIN := by decide
    simp only [Tx.outputValue, coinbase, ticketOutputs, if_true, List.map_cons, List.map_nil,
      List.sum_cons, List.sum_nil, List.length_cons, List.length_nil]
    push_cast
    linarith
  noContract := by
    have hticket : Script.hasOpCreate [OP_BUYTICKET] = false ∧
        Script.hasOpCall [OP_BUYTICKET] = false := by decide
    have haddress : Script.hasOpCreate [0x51] = false ∧ Script.hasOpCall [0x51] = false := by decide
    rw [coinbase, ticketOutputs]
    simpa [hticket] using haddress

def ticket (nValue : Amount) : Ticket := ⟨1, Uint256.ofNat 1, nValue, .keyID 7⟩

def pool (t : Ticket) (n : Nat) : TicketPool := ⟨KeyedSet.empty.insert t, n - TICKETPOOL_HEIGHT_LATENCY⟩

theorem mem_pool {t u : Ticket} {n : Nat} : u ∈ (pool t n).ticket_pool ↔ u = t := by
  rw [pool, KeyedSet.mem_insert]
  constructor
  · rintro (hempty | ⟨rfl, -⟩)
    · exact absurd hempty (by simp)
    · rfl
  · rintro rfl
    exact .inr ⟨rfl, by simp⟩

theorem load_quiet {coinbase : Nat → Tx} (env : TicketEnv) (genesis : Block) {m n : Nat}
    (hreads : ∀ b, env.readBlockFromDisk b) (hquiet : ∀ k, (coinbase (k + 1)).noTicket)
    (hmn : m ≤ n + TICKETPOOL_HEIGHT_LATENCY) (hvalve : m ≤ TICKET_VALVE) :
    loadTicketpool env (genesis :: above coinbase n) m =
      .ok ⟨KeyedSet.empty, m - TICKETPOOL_HEIGHT_LATENCY⟩ := by
  have hlow : ∀ k, k ≤ TICKETPOOL_HEIGHT_LATENCY →
      loadTicketpool env (genesis :: above coinbase n) k = .ok TicketPool.new := fun k hk =>
    TipState.loadTicketpool_below_latency loadTicketpool_zero (Nat.zero_le _) hk
  rcases Nat.le_total m TICKETPOOL_HEIGHT_LATENCY with hle | hge
  · rw [hlow m hle, Nat.sub_eq_zero_of_le hle]
    rfl
  · refine loadTicketpool_of_quiet le_rfl (hlow _ le_rfl) (by simp) hge hvalve fun j hj hjm => ?_
    obtain ⟨k, rfl⟩ : ∃ k, j = k + 1 := ⟨j - 1, by omega⟩
    refine ⟨block coinbase (k + 1), ?_, hreads _, List.forall_mem_singleton.mpr (hquiet k)⟩
    rw [List.getElem?_cons_succ, above, List.getElem?_map, List.getElem?_range (by omega),
      Option.map_some]

theorem load_first {coinbase : Nat → Tx} {t : Ticket} (genesis : Block) {m n : Nat}
    (hbuy : buyTicket tickets 1 KeyedSet.empty (coinbase 1) = .ok (KeyedSet.empty.insert t))
    (hearly : t.ticketHeight = 1) (hquiet : ∀ k, (coinbase (k + 2)).noTicket)
    (hm : TICKETPOOL_HEIGHT_LATENCY + 1 ≤ m) (hmn : m ≤ n + TICKETPOOL_HEIGHT_LATENCY)
    (hvalve : m ≤ TICKET_VALVE) :
    loadTicketpool tickets (genesis :: above coinbase n) m = .ok (pool t m) := by
  have hblock : ∀ j, j < n → (genesis :: above coinbase n)[j + 1]? = some (block coinbase (j + 1)) := by
    intro j hj
    rw [List.getElem?_cons_succ, above, List.getElem?_map, List.getElem?_range hj, Option.map_some]
  have hbase : loadTicketpool tickets (genesis :: above coinbase n) (TICKETPOOL_HEIGHT_LATENCY + 1) =
      .ok ⟨(pool t m).ticket_pool, TICKETPOOL_HEIGHT_LATENCY + 1 - TICKETPOOL_HEIGHT_LATENCY⟩ := by
    rw [loadTicketpool_first (hblock 0 (by omega)) rfl]
    simp only [block, List.foldlM_cons, List.foldlM_nil, hbuy]
    rfl
  refine loadTicketpool_of_quiet (Nat.le_succ _) hbase ?_ hm hvalve fun j hj hjm => ?_
  · intro u hu
    rw [(mem_pool (n := m)).mp hu, hearly]
    decide
  · obtain ⟨k, rfl⟩ : ∃ k, j = k + 1 + 1 := ⟨j - 2, by omega⟩
    exact ⟨_, hblock (k + 1) (by omega), rfl, List.forall_mem_singleton.mpr (hquiet k)⟩

theorem noTicket_coinbase (vout : List TxOut) (k : Nat) : (coinbase vout (k + 2)).noTicket := by
  have hnone :
      (some (⟨0, [0x51]⟩ : TxOut)).any (fun out => !out.scriptPubKey.hasOpSStx) = true := by decide
  rw [coinbase, Tx.noTicket, if_neg (by omega)]
  exact hnone

theorem exists_ticket {nValue : Amount} (hnonneg : 0 ≤ nValue) (hle : nValue ≤ 260000 * COIN) {n : Nat}
    (hn : TICKETPOOL_HEIGHT_LATENCY + 1 ≤ n) (hvalve : n ≤ TICKET_VALVE) :
    ∃ c : ActiveChain ValveRun.network noContracts, c.state.height = n ∧
      c.state.above = above (coinbase (ticketOutputs nValue)) n ∧
      loadTicketpool tickets c.state.chain n = .ok (pool (ticket nValue) n) := by
  obtain ⟨c, hheight, habove⟩ := exists_chain (coinbase_ticketOutputs hnonneg hle) n hvalve
  refine ⟨c, hheight, habove, ?_⟩
  rw [ChainState.chain, habove]
  exact load_first c.state.genesis rfl rfl (noTicket_coinbase _) hn (Nat.le_add_right _ _) hvalve

end FirstTicket

open FirstTicket in
theorem updateReads_iff_firstTicket :
    ∃ c : ActiveChain ValveRun.network PlainChain.noContracts,
      TICKETPOOL_HEIGHT_LATENCY + 1 ≤ c.state.height ∧
      updateReads tickets c.state.chain TicketPool.new (TICKETPOOL_HEIGHT_LATENCY + 1) = .ok () := by
  obtain ⟨c, hheight, habove, -⟩ :=
    exists_ticket le_rfl (show (0 : Amount) ≤ 260000 * COIN by decide) le_rfl (by decide)
  refine ⟨c, hheight.ge, (updateReads_iff c tickets TicketPool.new hheight.ge).mpr ?_⟩
  intro block _ hblock _
  rw [ChainState.chain, habove] at hblock
  obtain rfl := Option.some.inj hblock
  simp [PlainChain.block, coinbase, ticketOutputs, Tx.TicketReadable]

open FirstTicket in
/-- The coinbase of the first block buys a ticket with its only output. The chain is accepted, and the update for height 65 reads a second output that is not there. -/
theorem second_output_missing :
    ∃ c : ActiveChain ValveRun.network PlainChain.noContracts,
      c.state.height = TICKETPOOL_HEIGHT_LATENCY + 1 ∧
      loadTicketpool tickets c.state.chain TICKETPOOL_HEIGHT_LATENCY = .ok TicketPool.new ∧
        updateReads tickets c.state.chain TicketPool.new (TICKETPOOL_HEIGHT_LATENCY + 1) =
          .error .undefined := by
  obtain ⟨c, hheight, habove⟩ :=
    exists_chain coinbase_oneOutput (TICKETPOOL_HEIGHT_LATENCY + 1) (by decide)
  refine ⟨c, hheight,
    TipState.loadTicketpool_below_latency loadTicketpool_zero (Nat.zero_le _) le_rfl, ?_⟩
  rw [updateReads, updateBranches, ChainState.chain, habove]
  rfl

open FirstTicket in
theorem tickets_good_iff_firstTicket :
    ∃ (c : ActiveChain ValveRun.network PlainChain.noContracts) (pool : TicketPool),
      loadTicketpool tickets c.state.chain (TICKETPOOL_HEIGHT_LATENCY + 1) = .ok pool ∧
        ticket (TICKET_PRICE * COIN) ∈ pool.ticket_pool ∧ ∀ t ∈ pool.ticket_pool, t.Good := by
  obtain ⟨c, hheight, habove, hload⟩ :=
    exists_ticket (show 0 ≤ TICKET_PRICE * COIN by decide)
      (show TICKET_PRICE * COIN ≤ 260000 * COIN by decide) le_rfl (by decide)
  refine ⟨c, _, hload, mem_pool.mpr rfl, (tickets_good_iff c tickets).1 ?_ _ _ hheight.ge hload⟩
  intro block hblock tx htx
  rw [habove, PlainChain.above, List.mem_map] at hblock
  obtain ⟨k, -, rfl⟩ := hblock
  obtain rfl := List.mem_singleton.mp htx
  rintro price address rest hvout -
  by_cases hk : k + 1 = 1
  · rw [coinbase, hk] at hvout
    cases hvout
    exact ⟨le_rfl, 7, rfl⟩
  · rw [coinbase, if_neg hk] at hvout
    cases hvout

open FirstTicket in
/-- The coinbase of the first block buys a ticket for nothing. The chain is accepted, and the ticket is in the pool for height 65. -/
theorem ticket_for_nothing :
    ∃ (c : ActiveChain ValveRun.network PlainChain.noContracts) (pool : TicketPool),
      c.state.height = TICKETPOOL_HEIGHT_LATENCY + 1 ∧
      loadTicketpool tickets c.state.chain (TICKETPOOL_HEIGHT_LATENCY + 1) = .ok pool ∧
        ∃ t ∈ pool.ticket_pool, t.ticketPrice = 0 ∧ ¬ t.Good := by
  obtain ⟨c, hheight, -, hload⟩ :=
    exists_ticket le_rfl (show (0 : Amount) ≤ 260000 * COIN by decide) le_rfl (by decide)
  exact ⟨c, _, hheight, hload, ticket 0, mem_pool.mpr rfl, rfl, fun hgood => absurd hgood.1 (by decide)⟩

end TscPow
