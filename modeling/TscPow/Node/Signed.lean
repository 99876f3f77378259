import TscPow.Node.ProcessNewBlock
import TscPow.Validation.PlainChain

/-!
# Who signed the blocks of the active chain

A block above `TICKET_VALVE` is meant to be signed by the five lucky tickets of its own parent chain. `ProcessNewBlock` draws from the active tip and the pool of the moment instead, and with five tickets or fewer it draws none and checks nothing. If every block above the valve arrives while its parent is the active tip, the pool is the one loaded for that tip and it has more than five tickets, then in every state of the run each block that arrived and became active is signed by its own lucky tickets.
-/

namespace TscPow

namespace Node

variable (n : NodeEnv)

/-- The five signatures of the block verify against the addresses of five different lucky tickets, drawn with its seed from the pool loaded on its parent chain. -/
def SignedBy (block : Block) (parents : List Block) : Prop :=
  ∃ pool tickets, loadTicketpool n.tickets parents (parents.length - 1) = .ok pool ∧
    luckyTickets n.env.hashing parents pool.ticket_pool (parents.length - 1) block.seed = .ok tickets ∧
      tickets.length = 5 ∧ tickets.Nodup ∧
        ∀ p ∈ tickets.zipIdx 1,
          checkSigwithAddress n.env.hashing n.recover block.header p.1.ticketAddress p.2 = true

/-- Every block of the active chain above the valve that came through `ProcessNewBlock` is signed. -/
def ActiveSigned (s : Node) : Prop :=
  ∀ k block, s.active.above[k]? = some block → TICKET_VALVE < k + 1 → s.delivered (n.hash block) = true →
    SignedBy n block (s.active.genesis :: s.active.above.take k)

/-- A block above the valve arrives as a child of the active tip, with the pool loaded for that tip and more than five tickets in it. -/
def Allowed (s : Node) : Event → Prop
  | .process _ block =>
    TICKET_VALVE < (s.tree.pathOf n.env.hashing block.header).nHeight →
      n.parentHashes (s.tree.pathOf n.env.hashing block.header) = s.activeHashes n ∧
        loadTicketpool n.tickets s.active.chain s.active.height = .ok s.active.pool ∧
          5 < s.active.pool.ticket_pool.size
  | _ => True

def Step (s t : Node) : Prop := ∃ e, s.Allowed n e ∧ s.step n e = .ok t

/-- A node at the start of a run: it has the data of its active chain, and nothing has arrived yet. -/
structure Started (s : Node) : Prop where
  key : ∀ hash block, s.data hash = some block → hash = n.hash block
  hasData : ∀ hash block, s.data hash = some block → s.tree.hasData hash = true
  active : ∀ block ∈ s.active.above, s.data (n.hash block) = some block
  delivered : ∀ hash, s.delivered hash = false

/-- The blocks that arrived above the valve are signed over a parent chain whose data the node has. -/
structure Inv (s : Node) : Prop where
  key : ∀ hash block, s.data hash = some block → hash = n.hash block
  hasData : ∀ hash block, s.data hash = some block → s.tree.hasData hash = true
  active : ∀ block ∈ s.active.above, s.data (n.hash block) = some block
  stored : ∀ hash block i, s.delivered hash = true → s.data hash = some block →
    s.tree.indexOf hash = some i →
    TICKET_VALVE < i.nHeight → ∃ above, ((s.active.genesis :: above).map n.hash).reverse =
      n.parentHashes i ∧
      (∀ b ∈ above, s.data (n.hash b) = some b) ∧ SignedBy n block (s.active.genesis :: above)
  signed : s.ActiveSigned n

section

variable {n} {s t : Node} {block : Block} {ctx : AcceptContext}

theorem Started.inv (hstarted : s.Started n) : s.Inv n where
  key := hstarted.key
  hasData := hstarted.hasData
  active := hstarted.active
  stored hash _ _ hdelivered := by rw [hstarted.delivered] at hdelivered; cases hdelivered
  signed _ block _ _ hdelivered := by rw [hstarted.delivered] at hdelivered; cases hdelivered

theorem eq_of_hashes {data : Uint256 → Option Block} {above above' : List Block}
    (hhash : above.map n.hash = above'.map n.hash) (hdata : ∀ b ∈ above, data (n.hash b) = some b)
    (hdata' : ∀ b ∈ above', data (n.hash b) = some b) : above = above' := by
  induction above generalizing above' with
  | nil => rw [List.map_nil, eq_comm, List.map_eq_nil_iff] at hhash; exact hhash.symm
  | cons b above ih =>
    obtain _ | ⟨b', above'⟩ := above'
    · cases hhash
    · rw [List.map_cons, List.map_cons, List.cons.injEq] at hhash
      have hb : b = b' := by
        have h := hdata b List.mem_cons_self
        rw [hhash.1, hdata' b' List.mem_cons_self] at h
        exact (Option.some.inj h).symm
      rw [hb, ih hhash.2 (fun b h => hdata b (List.mem_cons_of_mem _ h)) fun b h =>
        hdata' b (List.mem_cons_of_mem _ h)]

theorem signedBy_active (hvalve : TICKET_VALVE ≤ s.active.height)
    (hload : loadTicketpool n.tickets s.active.chain s.active.height = .ok s.active.pool)
    (hsize : 5 < s.active.pool.ticket_pool.size)
    (hsigned : checkLuckySignatures n.tickets n.recover s.active block = .ok true) :
    SignedBy n block s.active.chain := by
  rw [checkLuckySignatures, signingTickets, if_pos hvalve, Except.bind_eq_ok_iff] at hsigned
  obtain ⟨tickets, hlucky, hall⟩ := hsigned
  rw [Except.pure_eq_ok_iff, List.all_eq_true] at hall
  refine ⟨s.active.pool, tickets, hload, hlucky, ?_, nodup_luckyTickets hlucky, hall⟩
  rw [length_luckyTickets hlucky, if_pos hsize]

theorem Inv.of_tree {tree : BlockTree} (hinv : s.Inv n)
    (hindex : ∀ hash i, s.tree.indexOf hash = some i → tree.indexOf hash = some i)
    (hdata : ∀ hash, s.tree.hasData hash = true → tree.hasData hash = true) :
    Inv n { s with tree } where
  key := hinv.key
  hasData hash block h := hdata hash (hinv.hasData hash block h)
  active := hinv.active
  stored hash block i hdelivered hblock hi hvalve := by
    refine hinv.stored hash block i hdelivered hblock ?_ hvalve
    obtain ⟨j, hj⟩ := BlockTree.exists_indexOf (hinv.hasData hash block hblock)
    rw [hj, ← hindex hash j hj]
    exact hi
  signed := hinv.signed

theorem length_activeHashes (s : Node) : (s.activeHashes n).length = s.active.height + 1 := by
  rw [activeHashes, List.length_reverse, List.length_map]
  rfl

/-- A stored block is signed by the lucky tickets of the active chain it was stored on. -/
theorem Inv.store {tree : BlockTree} (hinv : s.Inv n) (hnone : s.tree.hasData (n.hash block) = false)
    (hindex : ∀ hash i, s.tree.indexOf hash = some i → tree.indexOf hash = some i)
    (hdata : ∀ hash, tree.hasData hash = if hash = n.hash block then true else s.tree.hasData hash)
    (hsigned : ∀ i, tree.indexOf (n.hash block) = some i → TICKET_VALVE < i.nHeight →
      n.parentHashes i = s.activeHashes n ∧ SignedBy n block s.active.chain) :
    Inv n { s with
      tree
      data := Function.update s.data (n.hash block) (some block)
      delivered := Function.update s.delivered (n.hash block) true } := by
  -- the data of other blocks stays, and there was none under the hash of this one
  have hfresh : ∀ hash b, s.data hash = some b → hash ≠ n.hash block := by
    rintro hash b hb rfl
    rw [hinv.hasData _ b hb] at hnone
    cases hnone
  have hkeep : ∀ b, s.data (n.hash b) = some b →
      Function.update s.data (n.hash block) (some block) (n.hash b) = some b :=
    fun b hb => by rw [Function.update_of_ne (hfresh _ b hb), hb]
  refine ⟨fun hash b hb => ?_, fun hash b hb => ?_, fun b hb => hkeep b (hinv.active b hb), ?_, ?_⟩
  · change Function.update s.data _ _ hash = some b at hb
    rw [Function.update_apply] at hb
    split at hb
    · cases hb
      assumption
    · exact hinv.key hash b hb
  · change Function.update s.data _ _ hash = some b at hb
    rw [hdata]
    split
    · rfl
    · rename_i hne
      exact hinv.hasData hash b (by rwa [Function.update_of_ne hne] at hb)
  · intro hash b i hdelivered hb hi hvalve
    by_cases hself : hash = n.hash block
    · subst hself
      obtain rfl : block = b := by simpa using hb
      obtain ⟨hparents, hsigned⟩ := hsigned i hi hvalve
      exact ⟨s.active.above, hparents.symm, fun b hb => hkeep b (hinv.active b hb), hsigned⟩
    · simp only [Function.update_of_ne hself] at hdelivered hb
      obtain ⟨j, hj⟩ := BlockTree.exists_indexOf (hinv.hasData hash b hb)
      obtain rfl : j = i := Option.some.inj ((hindex hash j hj).symm.trans hi)
      obtain ⟨above, hhashes, habove, hsigned⟩ := hinv.stored hash b j hdelivered hb hj hvalve
      exact ⟨above, hhashes, fun b hb => hkeep b (habove b hb), hsigned⟩
  · intro k b hb hvalve hdelivered
    have hdata := hinv.active b (List.mem_of_getElem? hb)
    change Function.update s.delivered _ _ (n.hash b) = true at hdelivered
    rw [Function.update_of_ne (hfresh _ b hdata)] at hdelivered
    exact hinv.signed k b hb hvalve hdelivered

theorem Inv.process {verdict : Bool} (hinv : s.Inv n) (hallowed : s.Allowed n (.process ctx block))
    (h : s.processNewBlock n ctx block = .ok (t, verdict)) : t.Inv n := by
  have haccepted := accepted_acceptBlock n.env ctx s.tree block
  have hindex : ∀ hash i, s.tree.indexOf hash = some i →
      (acceptBlock n.env ctx s.tree block).1.indexOf hash = some i :=
    fun _ _ hi => haccepted.indexOf_of_some hi
  rcases processNewBlock_cases h with (rfl | ⟨rfl, hdata⟩) | ⟨hsigned, hnone, rfl, hdata⟩
  · exact hinv
  · exact hinv.of_tree hindex fun hash hhas => (hdata hash).trans hhas
  · refine hinv.store hnone hindex hdata fun i hi hvalve => ?_
    obtain rfl := haccepted.eq_pathOf hi
    obtain ⟨hparents, hload, hsize⟩ := hallowed hvalve
    refine ⟨hparents, signedBy_active ?_ hload hsize hsigned⟩
    -- the block sits directly on the tip, so the tip has reached the valve
    have hlength := congrArg List.length hparents
    rw [length_activeHashes, NodeEnv.parentHashes, List.length_map] at hlength
    rw [BlockIndex.nHeight] at hvalve
    omega

theorem Inv.connect {hash : Uint256} (hinv : s.Inv n) (h : s.connectTip n hash = .ok t) : t.Inv n := by
  rcases connectTip_cases h with rfl | ⟨i, b, active, hi, hb, hparents, rfl, hgenesis, habove⟩
  · exact hinv
  obtain rfl := hinv.key hash b hb
  refine ⟨hinv.key, hinv.hasData, ?_, ?_, ?_⟩
  · intro b' hb'
    rw [habove, List.mem_append, List.mem_singleton] at hb'
    rcases hb' with hb' | rfl
    · exact hinv.active b' hb'
    · exact hb
  · rw [hgenesis]
    exact hinv.stored
  · intro k b' hk hvalve hdelivered
    rw [hgenesis, habove]
    rw [habove] at hk
    rcases Nat.lt_or_ge k s.active.above.length with hlt | hge
    · rw [List.getElem?_append_left hlt] at hk
      rw [List.take_append_of_le_length hlt.le]
      exact hinv.signed k b' hk hvalve hdelivered
    · -- the connected block: its parents are the active chain
      have hlast : k = s.active.above.length := by
        have := (List.getElem?_eq_some_iff.mp hk).1
        rw [List.length_append, List.length_singleton] at this
        omega
      subst hlast
      obtain rfl : b = b' := by simpa using hk
      have hheight : TICKET_VALVE < i.nHeight := by
        have hlength := congrArg List.length hparents
        rw [length_activeHashes, NodeEnv.parentHashes, List.length_map] at hlength
        rw [BlockIndex.nHeight, hlength]
        exact hvalve
      obtain ⟨above, hhashes, hdata, hsigned⟩ := hinv.stored _ b i hdelivered hb hi hheight
      have hsame : above = s.active.above := by
        refine eq_of_hashes ?_ hdata hinv.active
        rw [hparents, activeHashes, List.reverse_inj, TipState.chain, List.map_cons, List.map_cons,
          List.cons.injEq] at hhashes
        exact hhashes.2
      rw [List.take_left, ← hsame]
      exact hsigned

theorem Inv.disconnect (hinv : s.Inv n) (h : s.step n .disconnect = .ok t) : t.Inv n := by
  obtain ⟨active, rfl, hgenesis, habove⟩ := disconnect_cases h
  refine ⟨hinv.key, hinv.hasData, ?_, ?_, ?_⟩
  · intro b hb
    rw [habove] at hb
    exact hinv.active b (List.mem_of_mem_dropLast hb)
  · rw [hgenesis]
    exact hinv.stored
  · intro k b hk hvalve hdelivered
    rw [habove, List.getElem?_dropLast] at hk
    split at hk
    case isTrue hlt =>
      have htake : s.active.above.dropLast.take k = s.active.above.take k := by
        rw [List.dropLast_eq_take, List.take_take, Nat.min_eq_left (by omega)]
      rw [hgenesis, habove, htake]
      exact hinv.signed k b hk hvalve hdelivered
    case isFalse => cases hk

theorem Inv.step (hinv : s.Inv n) (hstep : s.Step n t) : t.Inv n := by
  obtain ⟨e, hallowed, h⟩ := hstep
  cases e with
  | process ctx block =>
    rw [Node.step, Except.bind_eq_ok_iff] at h
    obtain ⟨⟨t', verdict⟩, hprocess, ht⟩ := h
    cases ht
    exact hinv.process hallowed hprocess
  | header ctx block =>
    cases h
    exact hinv.of_tree
      (fun _ _ hi => (accepted_acceptBlockHeader n.env ctx s.tree block).indexOf_of_some hi)
      fun hash hhas => (hasData_acceptBlockHeader n.env ctx s.tree block hash).trans hhas
  | connect hash => exact hinv.connect h
  | disconnect => exact hinv.disconnect h

/-- In every run in which each block above the valve arrives on top of the active tip, while the pool is the one loaded for that tip and has more than five tickets, every block that arrived and is active carries the five signatures of its own lucky tickets. -/
theorem activeSigned_of_steps {s₀ : Node} (hstarted : s₀.Started n)
    (hrun : Relation.ReflTransGen (Node.Step n) s₀ s) :
    s.ActiveSigned n := by
  have hinv : s.Inv n := by
    induction hrun with
    | refl => exact hstarted.inv
    | tail _ hstep ih => exact ih.step hstep
  exact hinv.signed

end

end Node

/-! ### A chain that reaches the valve -/

namespace ValveRun

def node : NodeEnv where
  env := network
  extractDestination _ := .keyID 7
  readBlockFromDisk _ := true
  recover _ _ := some 7
  connectable _ _ := true

def coinbase (n : Nat) : Tx where
  nVersion := 2
  vin := [⟨⟨Uint256.ofNat 0, 0xffffffff⟩, Script.pushInt64 n ++ [0], SEQUENCE_FINAL, []⟩]
  vout := [⟨0, [0x51]⟩]
  nLockTime := 0

def block (first : List Tx) (n : Nat) : Block :=
  { header n with vtx := coinbase n :: if n = 1 then first else [] }

def ctx (h : Nat) : AcceptContext where
  nAdjustedTime := 0
  tip := path h
  checkpoints := []
  nMinimumChainWork := 0
  limits := Limits.ofBlockSize 2000000
  fRequested := true
  witnessHash _ := []

variable {first : List Tx} {n h : Nat}

theorem mem_vtx {tx : Tx} : tx ∈ (block first n).vtx ↔ tx = coinbase n ∨ n = 1 ∧ tx ∈ first := by
  by_cases hone : n = 1 <;> simp [block, hone]

theorem plain_coinbase (n : Nat) : PlainChain.Coinbase n (coinbase n) where
  vin := rfl
  vout := List.cons_ne_nil _ _
  few := show 1 ≤ 8 by decide
  short := by simp [coinbase]
  amount := by simp [coinbase]
  total := show 0 ≤ 260000 * COIN + (1 - 1) * (30000 * COIN) by decide
  noContract := by
    intro o ho
    obtain rfl := List.mem_singleton.mp ho
    decide

theorem checkBlock_coinbaseOnly (hne : n ≠ 1) :
    checkBlock network (Limits.ofBlockSize 2000000) (block first n) true true = .ok () := by
  have hblock : block first n = PlainChain.block coinbase n := by rw [block, if_neg hne, PlainChain.block]
  rw [hblock]
  exact (PlainChain.coinbaseBlock_block (plain_coinbase n)).checkBlock (e := PlainChain.plain)

/-- What the transactions at height one have to meet, and the tickets they buy. -/
structure Setup (first : List Tx) (tickets : TicketSet) : Prop where
  checked : checkBlock network (Limits.ofBlockSize 2000000) (block first 1) true true = .ok ()
  final : ∀ tx ∈ first, isFinalTx tx 1 1 = true ∧ tx.hasWitness = false
  bought : (block first 1).vtx.foldlM (buyTicket node.tickets 1) KeyedSet.empty = .ok tickets
  owned : ∀ t ∈ tickets, t.ticketHeight = 1 ∧ t.ticketAddress = .keyID 7

def pool (tickets : TicketSet) (h : Nat) : TicketPool :=
  ⟨if h ≤ TICKETPOOL_HEIGHT_LATENCY then KeyedSet.empty else tickets, h - TICKETPOOL_HEIGHT_LATENCY⟩

def above (first : List Tx) (h : Nat) : List Block := (List.range h).map fun k => block first (k + 1)

def start (first : List Tx) : Node where
  tree := BlockTree.genesis network.hashing (header 0)
  data := Function.update (fun _ => none) (Uint256.ofNat 0) (some (block first 0))
  active := ⟨block first 0, [], TicketPool.new⟩
  delivered _ := false

/-- The node with the blocks up to `top`, those up to `h` in the active chain. -/
structure Grown (first : List Tx) (tickets : TicketSet) (top h : Nat) (s : Node) : Prop where
  failedBlocks : s.tree.failedBlocks = []
  known : ∀ k ≤ top, ∃ e, s.tree.mapBlockIndex (Uint256.ofNat k) = some e ∧ e.index = path k ∧
    e.failed = false
  fresh : ∀ k, top < k → k < 2 ^ 32 → s.tree.mapBlockIndex (Uint256.ofNat k) = none
  active : s.active = ⟨block first 0, above first h, pool tickets h⟩

variable {tickets : TicketSet} {s : Node} {tree : BlockTree} {e : IndexEntry}

theorem grown_start (first : List Tx) (tickets : TicketSet) : Grown first tickets 0 0 (start first) where
  failedBlocks := rfl
  known k hk := by
    obtain rfl : k = 0 := by omega
    refine ⟨⟨⟨header 0, []⟩, BLOCK_VALID_TRANSACTIONS, true, false, false, 1⟩,
      (BlockTree.map_genesis _ _ _).trans ?_, rfl, rfl⟩
    rw [ blockHash_header (by decide), if_pos rfl]
  fresh k hk hlt := by
    have hne : Uint256.ofNat k ≠ Uint256.ofNat 0 := fun h => hk.ne' ((ofNat_inj hlt (by decide)).mp h)
    refine (BlockTree.map_genesis _ _ _).trans ?_
    rw [blockHash_header (by decide), if_neg hne]
  active := rfl

theorem checkBlock_block (hsetup : Setup first tickets) (n : Nat) :
    checkBlock network (Limits.ofBlockSize 2000000) (block first n) true true = .ok () := by
  by_cases hone : n = 1
  · rw [hone]
    exact hsetup.checked
  · exact checkBlock_coinbaseOnly hone

theorem checkNewHeader_header (hprev : tree.mapBlockIndex (Uint256.ofNat h) = some e)
    (hpath : e.index = path h) (hfailed : e.failed = false) :
    checkNewHeader network (ctx h) tree (header (h + 1)) = .ok e := by
  have hwork := checkProofOfWork_of_bits (b := header (h + 1)) rfl
  simp only [checkNewHeader, checkBlockHeader, contextualCheckBlockHeader, Except.bind_eq_ok_iff,
    rule_eq_ok_iff, valueOr_eq_ok_iff, Except.pure_eq_ok_iff, orFault_eq_ok_iff]
  refine ⟨(), fun _ => hwork, e, hprev, (), by rw [hfailed]; rfl, (),
    ⟨_, (congrArg (getNextWorkRequired · _ _) hpath).trans (getNextWorkRequired_of_bits rfl _), (),
      rfl, (), ?_, (), ?_, (), ?_, ?_⟩, rfl⟩
  · rintro pcheckpoint ⟨⟩
  · rintro ⟨⟨⟩, -⟩
  · rintro ⟨⟨⟩, -⟩
  · have hversion : (header (h + 1)).nVersion = 4 := rfl
    omega

theorem checkAcceptedBlock_block (first : List Tx)
    (hprev : tree.mapBlockIndex (Uint256.ofNat h) = some e) :
    checkAcceptedBlock (ctx h) tree (block first (h + 1)) (path (h + 1)) = .ok () := by
  have hheight : (path (h + 1)).nHeight > 0 := by rw [nHeight_path]; omega
  simp only [checkAcceptedBlock, hheight, if_true, Except.bind_eq_ok_iff, rule_eq_ok_iff]
  refine ⟨some e.index, ?_, (), ?_, (), ?_, (), ?_, coinbase (h + 1), rfl, _, rfl, ?_⟩
  · rw [show (block first (h + 1)).hashPrevBlock = Uint256.ofNat h from rfl, hprev]
    rfl
  · rw [checkSync, show (ctx h).tip = path h from rfl, nHeight_path, nHeight_path, Bool.or_eq_true,
      decide_eq_true_iff]
    omega
  · rintro prev - ⟨⟨⟩, -⟩
  · rintro ⟨⟨⟩, -⟩
  · rw [nHeight_path]
    exact List.prefix_append _ _

theorem checkNewBlock_block (hsetup : Setup first tickets) (h : Nat) :
    checkNewBlock network (ctx h) (block first (h + 1)) (path (h + 1)) = .ok () := by
  have hparent : (path (h + 1)).pprev = some (path h) := by rw [path_succ, BlockIndex.pprev_child]
  have hcsv : network.csvActive (path (h + 1)).pprev = false := rfl
  have hsegwit : network.segwitActive (path (h + 1)).pprev = false := rfl
  rw [checkNewBlock, Except.bind_eq_ok_iff]
  refine ⟨(), checkBlock_block hsetup _, ?_⟩
  rw [contextualCheckBlock]
  simp only [hcsv, hsegwit, Bool.false_eq_true, if_false, Except.bind_eq_ok_iff, rule_eq_ok_iff]
  refine ⟨_, rfl, (), ?_, coinbase (h + 1), rfl, _, rfl, (), ?_, (), ?_, (), ?_, ?_⟩
  · intro tx htx
    rcases mem_vtx.mp htx with rfl | ⟨hone, hfirst⟩
    · rfl
    · obtain rfl : h = 0 := by omega
      exact (hsetup.final tx hfirst).1
  · intro _
    rw [hparent, Option.elim_some, nHeight_path, ← Nat.cast_succ]
    exact List.prefix_append _ _
  · rintro ⟨⟩
  · rintro out ⟨⟩
  · intro _ tx htx
    rcases mem_vtx.mp htx with rfl | ⟨-, htx⟩
    · rfl
    · rw [(hsetup.final tx htx).2]
      rfl

/-! ### The pool -/

def chain (first : List Tx) (h : Nat) : List Block := (List.range (h + 1)).map (block first)

theorem cons_above (first : List Tx) (h : Nat) : block first 0 :: above first h = chain first h := by
  rw [chain, List.range_succ_eq_map, List.map_cons, List.map_map]
  rfl

theorem getElem?_chain {k : Nat} (hk : k ≤ h) : (chain first h)[k]? = some (block first k) := by
  rw [chain, List.getElem?_map, List.getElem?_range (by omega), Option.map_some]

theorem noTicket_block (hone : n ≠ 1) : ∀ tx ∈ (block first n).vtx, tx.noTicket := by
  intro tx htx
  rcases mem_vtx.mp htx with rfl | ⟨h, -⟩
  · rfl
  · exact absurd h hone

theorem updateTicketpool_pool (hsetup : Setup first tickets) (hvalve : n < TICKET_VALVE)
    (hn : n + 1 ≤ h) :
    updateTicketpool node.tickets (chain first h) (pool tickets n) (n + 1) =
      .ok (pool tickets (n + 1)) := by
  have hearly : ∀ t ∈ tickets, t.ticketHeight < TICKETPOOL_HEIGHT_LATENCY := by
    intro t ht
    rw [(hsetup.owned t ht).1]
    decide
  rcases Nat.lt_trichotomy n TICKETPOOL_HEIGHT_LATENCY with hlt | rfl | hgt
  · have hpool : pool tickets (n + 1) = pool tickets n := by
      rw [pool, pool, if_pos (by omega), if_pos (by omega), Nat.sub_eq_zero_of_le hlt,
        Nat.sub_eq_zero_of_le hlt.le]
    rw [hpool]
    refine updateTicketpool_of_le_latency hlt ?_
    change n - TICKETPOOL_HEIGHT_LATENCY < n + 1
    omega
  · have hblock : (chain first h)[TICKETPOOL_HEIGHT_LATENCY + 1 - TICKETPOOL_HEIGHT_LATENCY]? =
        some (block first 1) :=
      getElem?_chain (by omega)
    rw [updateTicketpool_of_due (Nat.zero_lt_one) hblock rfl, Except.bind_eq_ok_iff]
    exact ⟨tickets, hsetup.bought, rfl⟩
  · have hpool : pool tickets n = ⟨tickets, n - TICKETPOOL_HEIGHT_LATENCY⟩ := by
      rw [pool, if_neg (by omega)]
    have hpool' : pool tickets (n + 1) = ⟨tickets, n + 1 - TICKETPOOL_HEIGHT_LATENCY⟩ := by
      rw [pool, if_neg (by omega)]
    rw [hpool, hpool']
    exact updateTicketpool_of_quiet hgt.le hvalve hearly (getElem?_chain (by omega)) rfl
      (noTicket_block (by omega))

theorem loadTicketpool_chain (hsetup : Setup first tickets) (hvalve : n ≤ TICKET_VALVE) (hn : n ≤ h) :
    loadTicketpool node.tickets (chain first h) n = .ok (pool tickets n) := by
  induction n with
  | zero => rfl
  | succ n ih =>
    rw [loadTicketpool_succ, ih (by omega) (by omega)]
    exact updateTicketpool_pool hsetup hvalve hn

/-! ### A block arrives -/

theorem luckyTickets_chain (first : List Tx) (tickets : TicketSet) (n : Nat) :
    ∃ lucky, luckyTickets network.hashing (chain first TICKET_VALVE) tickets TICKET_VALVE
      (block first n).seed = .ok lucky := by
  have hseed : SeedInRange 0 := by decide
  refine (exists_luckyTickets_iff _ _).mpr
    ⟨hseed, block first (TICKET_VALVE - TICKETPOOL_HEIGHT_LATENCY), ?_⟩
  exact getElem?_chain (by decide)

theorem checkSigwithAddress_header {n k : Nat} (hk : 1 ≤ k) (hk' : k ≤ 5) :
    checkSigwithAddress network.hashing node.recover (header n) (.keyID 7) k = true := by
  interval_cases k <;> rfl

theorem checkLuckySignatures_block (hsetup : Setup first tickets)
    (hgrown : Grown first tickets h h s) (hh : h ≤ TICKET_VALVE) :
    checkLuckySignatures node.tickets node.recover s.active (block first (h + 1)) = .ok true := by
  have hheight : s.active.height = h := by
    rw [hgrown.active, TipState.height, above, List.length_map, List.length_range]
  rw [checkLuckySignatures, signingTickets, hheight]
  rcases Nat.lt_or_ge h TICKET_VALVE with hlt | hge
  · rw [if_neg (by omega)]
    rfl
  · obtain rfl : h = TICKET_VALVE := by omega
    have hpool : s.active.pool.ticket_pool = tickets := by
      rw [hgrown.active]
      rfl
    have hchain : s.active.chain = chain first TICKET_VALVE := by
      rw [hgrown.active, TipState.chain, cons_above]
    obtain ⟨lucky, hlucky⟩ := luckyTickets_chain first tickets (TICKET_VALVE + 1)
    rw [if_pos le_rfl, hpool, hchain, Except.bind_eq_ok_iff]
    refine ⟨lucky, hlucky, congrArg Except.ok (List.all_eq_true.mpr ?_)⟩
    rintro ⟨t, k⟩ ht
    obtain ⟨hfrom, hto, hmem⟩ := List.mem_zipIdx ht
    have hlength : lucky.length ≤ 5 := by
      rw [length_luckyTickets hlucky]
      split <;> omega
    have ht : t ∈ lucky := by
      rw [hmem]
      exact List.getElem_mem _
    change checkSigwithAddress network.hashing node.recover (header _) t.ticketAddress k = true
    rw [(hsetup.owned t (mem_of_luckyTickets hlucky ht)).2]
    exact checkSigwithAddress_header hfrom (by omega)

theorem exists_acceptBlock (hsetup : Setup first tickets) (hgrown : Grown first tickets h h s)
    (hn : h + 1 < 2 ^ 32) :
    ∃ tree e, acceptBlock network (ctx h) s.tree (block first (h + 1)) =
      (tree, .ok (Uint256.ofNat (h + 1), true)) ∧
      tree.failedBlocks = [] ∧ e.index = path (h + 1) ∧ e.failed = false ∧
        ∀ hash, tree.mapBlockIndex hash = if hash = Uint256.ofNat (h + 1) then some e
          else s.tree.mapBlockIndex hash := by
  have hhash : network.hashing.blockHash (block first (h + 1)).header = Uint256.ofNat (h + 1) :=
    blockHash_header hn
  have hgenesis : network.params.hashGenesisBlock = Uint256.ofNat 0 := rfl
  have hne : ∀ k < h + 1, Uint256.ofNat k ≠ Uint256.ofNat (h + 1) :=
    fun k hk heq => hk.ne ((ofNat_inj (hk.trans hn) hn).mp heq)
  obtain ⟨e, he, hpath, hfailed⟩ := hgrown.known h le_rfl
  have hnew : s.tree.mapBlockIndex (Uint256.ofNat (h + 1)) = none := hgrown.fresh _ (by omega) hn
  have hindex : s.tree.newIndex (block first (h + 1)).header = path (h + 1) := by
    rw [BlockTree.newIndex, show (block first (h + 1)).header.hashPrevBlock =
      Uint256.ofNat h from rfl, he, path_succ, ← hpath]
    rfl
  have hadd : addToBlockIndex network.hashing s.tree (block first (h + 1)).header =
      s.tree.insert (Uint256.ofNat (h + 1)) ⟨path (h + 1), BLOCK_VALID_TREE, false, false, false, 0⟩ := by
    rw [addToBlockIndex, hhash, hnew, hindex]
  have hprev : (addToBlockIndex network.hashing s.tree (block first (h + 1)).header).mapBlockIndex
      (Uint256.ofNat h) = some e := by
    rw [hadd, BlockTree.map_insert, if_neg (hne h (by omega)), he]
  have hblockheader : (block first (h + 1)).header = header (h + 1) := rfl
  have hheader : checkNewHeader network (ctx h) s.tree (block first (h + 1)).header = .ok e := by
    rw [hblockheader]
    exact checkNewHeader_header he hpath hfailed
  have haccepted := checkAcceptedBlock_block first hprev
  have hblock := checkNewBlock_block hsetup h
  rw [← hindex] at haccepted hblock
  have haccept :=
    acceptBlock_of_new (by rw [hhash, hgenesis]; exact (hne 0 (by omega)).symm)
      (by rw [hhash]; exact hnew)
    hgrown.failedBlocks hheader rfl haccepted hblock
  rw [hhash, hadd] at haccept
  refine ⟨_, receivedBlockTransactions (block first (h + 1))
    ⟨path (h + 1), BLOCK_VALID_TREE, false, false, false, 0⟩, haccept,
    hgrown.failedBlocks, rfl, rfl, fun hash => ?_⟩
  simp only [BlockTree.modify, BlockTree.map_insert, Function.update_apply, if_true, Option.map_some]
  split <;> rfl

theorem exists_process (hsetup : Setup first tickets) (hgrown : Grown first tickets h h s)
    (hh : h ≤ TICKET_VALVE) :
    ∃ t, s.step node (.process (ctx h) (block first (h + 1))) = .ok t ∧ Grown first tickets (h + 1) h t ∧
      t.data (Uint256.ofNat (h + 1)) = some (block first (h + 1)) ∧
        t.delivered (Uint256.ofNat (h + 1)) = true := by
  have hn : h + 1 < 2 ^ 32 := by
    rw [TICKET_VALVE] at hh
    omega
  obtain ⟨tree, e, haccept, hfailed, hpath, he, hmap⟩ := exists_acceptBlock hsetup hgrown hn
  have hprocess : s.processNewBlock node (ctx h) (block first (h + 1)) =
      s.store (block first (h + 1)) (acceptBlock network (ctx h) s.tree (block first (h + 1))) := by
    exact Node.processNewBlock_of_checked _ (checkLuckySignatures_block hsetup hgrown hh)
      (checkBlock_block hsetup _)
  rw [haccept] at hprocess
  refine ⟨{ s with
      tree
      data := Function.update s.data (Uint256.ofNat (h + 1)) (some (block first (h + 1)))
      delivered := Function.update s.delivered (Uint256.ofNat (h + 1)) true },
        by rw [Node.step, hprocess]; rfl,
    ⟨hfailed, fun k hk => ?_, fun k hk hlt => ?_, hgrown.active⟩, Function.update_self _ _ _,
      Function.update_self _ _ _⟩
  · change ∃ e, tree.mapBlockIndex (Uint256.ofNat k) = some e ∧ _
    rw [hmap]
    by_cases htop : k = h + 1
    · rw [htop, if_pos rfl]
      exact ⟨e, rfl, hpath, he⟩
    · rw [if_neg fun heq => htop ((ofNat_inj (by omega) hn).mp heq)]
      exact hgrown.known k (by omega)
  · change tree.mapBlockIndex (Uint256.ofNat k) = none
    rw [hmap, if_neg fun heq => hk.ne' ((ofNat_inj hlt hn).mp heq)]
    exact hgrown.fresh k (by omega) hlt

/-! ### A block is connected -/

theorem parentHashes_path (hgrown : Grown first tickets n h s) :
    node.parentHashes (path (h + 1)) = s.activeHashes node := by
  rw [Node.activeHashes, hgrown.active, TipState.chain, cons_above, chain,
    List.map_map, ← List.map_reverse, NodeEnv.parentHashes, path, List.map_map]
  rfl

theorem connectTip_block (hgrown : Grown first tickets (h + 1) h s)
    (hdata : s.data (Uint256.ofNat (h + 1)) = some (block first (h + 1))) :
    s.connectTip node (Uint256.ofNat (h + 1)) =
      ((⟨block first 0, above first (h + 1), pool tickets h⟩ : TipState).updateTip node.tickets >>=
        fun active => pure { s with active }) := by
  obtain ⟨e, he, hpath, -⟩ := hgrown.known (h + 1) le_rfl
  have hindex : s.tree.indexOf (Uint256.ofNat (h + 1)) = some (path (h + 1)) := by
    rw [BlockTree.indexOf, he, Option.map_some, hpath]
  have hextend : s.active.extend (block first (h + 1)) =
      ⟨block first 0, above first (h + 1), pool tickets h⟩ := by
    rw [TipState.extend, hgrown.active, above, above, List.range_succ, List.map_append,
      List.map_singleton]
  rw [Node.connectTip, hindex, hdata]
  simp only [parentHashes_path hgrown, show node.connectable = fun _ _ => true from rfl, true_and,
    if_true, TipState.move, hextend]

theorem step_connect {after : TicketPool} (hgrown : Grown first tickets (h + 1) h s)
    (hlatency : TICKETPOOL_HEIGHT_LATENCY < h + 1)
    (hdata : s.data (Uint256.ofNat (h + 1)) = some (block first (h + 1)))
    (hupdate : updateTicketpool node.tickets (chain first (h + 1)) (pool tickets h) (h + 1) =
      .ok after) :
    s.step node (.connect (Uint256.ofNat (h + 1))) =
      .ok { s with active := ⟨block first 0, above first (h + 1), after⟩ } := by
  have hheight : (above first (h + 1)).length = h + 1 := by rw [above, List.length_map, List.length_range]
  rw [Node.step, connectTip_block hgrown hdata, TipState.updateTip, TipState.height, hheight,
    if_pos hlatency, TipState.chain, cons_above, hupdate]
  rfl

theorem step_connect_early (hgrown : Grown first tickets (h + 1) h s)
    (hlatency : h + 1 ≤ TICKETPOOL_HEIGHT_LATENCY)
    (hdata : s.data (Uint256.ofNat (h + 1)) = some (block first (h + 1))) :
    s.step node (.connect (Uint256.ofNat (h + 1))) =
      .ok { s with active := ⟨block first 0, above first (h + 1), pool tickets h⟩ } := by
  have hheight : (above first (h + 1)).length = h + 1 := by rw [above, List.length_map, List.length_range]
  rw [Node.step, connectTip_block hgrown hdata, TipState.updateTip, TipState.height, hheight,
    if_neg (by omega)]
  rfl

theorem exists_connect (hsetup : Setup first tickets) (hgrown : Grown first tickets (h + 1) h s)
    (hh : h < TICKET_VALVE) (hdata : s.data (Uint256.ofNat (h + 1)) = some (block first (h + 1))) :
    ∃ t, s.step node (.connect (Uint256.ofNat (h + 1))) = .ok t ∧
      Grown first tickets (h + 1) (h + 1) t := by
  rcases Nat.lt_or_ge TICKETPOOL_HEIGHT_LATENCY (h + 1) with hlt | hge
  · exact ⟨_, step_connect hgrown hlt hdata (updateTicketpool_pool hsetup hh le_rfl),
      ⟨hgrown.failedBlocks, hgrown.known, hgrown.fresh, rfl⟩⟩
  · refine ⟨_, step_connect_early hgrown hge hdata, ⟨hgrown.failedBlocks, hgrown.known, hgrown.fresh, ?_⟩⟩
    rw [pool, pool, if_pos (by omega), if_pos hge, Nat.sub_eq_zero_of_le hge,
      Nat.sub_eq_zero_of_le (by omega)]

theorem exists_update_last (first : List Tx) (tickets : TicketSet) :
    ∃ after, updateTicketpool node.tickets (chain first (TICKET_VALVE + 1))
      (pool tickets TICKET_VALVE) (TICKET_VALVE + 1) = .ok after := by
  have hblock : (chain first (TICKET_VALVE + 1))[TICKET_VALVE + 1 - TICKETPOOL_HEIGHT_LATENCY]? =
      some (block first (TICKET_VALVE + 1 - TICKETPOOL_HEIGHT_LATENCY)) := getElem?_chain (by decide)
  have hloadable :
      Loadable (block first (TICKET_VALVE + 1 - TICKETPOOL_HEIGHT_LATENCY))
        (TICKET_VALVE + 1 - TICKETPOOL_HEIGHT_LATENCY) := by
    refine ⟨fun _ => (by decide : SeedInRange 0), fun tx htx => ?_⟩
    rcases mem_vtx.mp htx with rfl | ⟨hone, -⟩
    · rfl
    · exact absurd hone (by decide)
  have hlength : TICKET_VALVE + 1 ≤ (chain first (TICKET_VALVE + 1)).length := by
    rw [chain, List.length_map, List.length_range]
    omega
  have hdue : (pool tickets TICKET_VALVE).load_height < TICKET_VALVE + 1 - TICKETPOOL_HEIGHT_LATENCY :=
    show TICKET_VALVE - TICKETPOOL_HEIGHT_LATENCY < TICKET_VALVE + 1 - TICKETPOOL_HEIGHT_LATENCY by decide
  obtain ⟨after, hafter⟩ :=
    (exists_advanceTickets_iff node.tickets (pool tickets TICKET_VALVE).ticket_pool (by decide)
      hlength).mpr hloadable
  rw [updateTicketpool_of_due hdue hblock rfl, hafter]
  exact ⟨_, rfl⟩

/-! ### The whole run -/

theorem data_start (hash : Uint256) : (start first).data hash = if hash = Uint256.ofNat 0 then
    some (block first 0) else none := by
  simp only [start, Function.update_apply]

theorem started (first : List Tx) : (start first).Started node where
  key hash b hb := by
    rw [data_start, Option.ite_none_right_eq_some] at hb
    rw [hb.1, ← Option.some.inj hb.2]
    exact (blockHash_header (by decide)).symm
  hasData hash b hb := by
    rw [data_start, Option.ite_none_right_eq_some] at hb
    rw [hb.1, BlockTree.hasData]
    exact congrArg (fun e => Option.map IndexEntry.haveData e == some true)
      ((BlockTree.map_genesis _ _ _).trans (if_pos (blockHash_header (by decide)).symm))
  active b hb := absurd hb List.not_mem_nil
  delivered _ := rfl

theorem pathOf_header (hgrown : Grown first tickets h h s) (hn : h + 1 < 2 ^ 32) :
    s.tree.pathOf network.hashing (header (h + 1)) = path (h + 1) := by
  obtain ⟨e, he, hpath, -⟩ := hgrown.known h le_rfl
  rw [BlockTree.pathOf, blockHash_header hn, BlockTree.indexOf, hgrown.fresh _ (by omega) hn,
    Option.map_none, Option.getD_none, BlockTree.newIndex,
      show (header (h + 1)).hashPrevBlock = Uint256.ofNat h from rfl, he, path_succ, ← hpath]

theorem exists_run (hsetup : Setup first tickets) (hh : h ≤ TICKET_VALVE) :
    ∃ s, Relation.ReflTransGen (Node.Step node) (start first) s ∧ Grown first tickets h h s := by
  induction h with
  | zero => exact ⟨_, .refl, grown_start first tickets⟩
  | succ h ih =>
    obtain ⟨s, hrun, hgrown⟩ := ih (by omega)
    obtain ⟨t, hprocess, ht, hdata, -⟩ := exists_process hsetup hgrown (by omega)
    obtain ⟨u, hconnect, hu⟩ := exists_connect hsetup ht hh hdata
    have hallowed : s.Allowed node (.process (ctx h) (block first (h + 1))) := by
      intro hvalve
      have hpath : s.tree.pathOf network.hashing (header (h + 1)) = path (h + 1) :=
        pathOf_header hgrown (by rw [TICKET_VALVE] at hh; omega)
      change TICKET_VALVE < (s.tree.pathOf network.hashing (header (h + 1))).nHeight at hvalve
      rw [hpath, nHeight_path] at hvalve
      omega
    exact ⟨u, (hrun.tail ⟨_, hallowed, hprocess⟩).tail ⟨.connect _, trivial, hconnect⟩, hu⟩

theorem exists_last (hsetup : Setup first tickets)
    (hgrown : Grown first tickets TICKET_VALVE TICKET_VALVE s) :
    ∃ t u, s.step node (.process (ctx TICKET_VALVE) (block first (TICKET_VALVE + 1))) = .ok t ∧
      t.step node (.connect (Uint256.ofNat (TICKET_VALVE + 1))) = .ok u ∧
        u.delivered (Uint256.ofNat (TICKET_VALVE + 1)) = true ∧
        ∃ pool, u.active = ⟨block first 0, above first (TICKET_VALVE + 1), pool⟩ := by
  obtain ⟨t, hprocess, ht, hdata, hdelivered⟩ := exists_process hsetup hgrown le_rfl
  obtain ⟨after, hafter⟩ := exists_update_last first tickets
  exact ⟨t, _, hprocess, step_connect ht (by decide) hdata hafter, hdelivered, after, rfl⟩

theorem getElem?_above (first : List Tx) :
    (above first (TICKET_VALVE + 1))[TICKET_VALVE]? = some (block first (TICKET_VALVE + 1)) := by
  rw [above, List.getElem?_map, List.getElem?_range (by omega), Option.map_some]

theorem take_above (first : List Tx) :
    block first 0 :: (above first (TICKET_VALVE + 1)).take TICKET_VALVE =
      chain first TICKET_VALVE := by
  rw [above, ← List.map_take, List.take_range, Nat.min_eq_left (by omega)]
  exact cons_above first TICKET_VALVE

theorem setup_nil : Setup [] KeyedSet.empty :=
  ⟨by decide +kernel, by simp, rfl, by simp⟩

def ticketTx (n : Nat) : Tx where
  nVersion := 2
  vin := [⟨⟨Uint256.ofNat 1, BitVec.ofNat 32 n⟩, [], SEQUENCE_FINAL, []⟩]
  vout := [⟨TICKET_PRICE * COIN, [OP_BUYTICKET]⟩, ⟨0, [0x51]⟩]
  nLockTime := BitVec.ofNat 32 n

def soldTickets : List Tx := (List.range 7).map ticketTx

def heldTickets : TicketSet :=
  match (block soldTickets 1).vtx.foldlM (buyTicket node.tickets 1) KeyedSet.empty with
  | .ok tickets => tickets
  | .error _ => KeyedSet.empty

theorem setup_soldTickets : Setup soldTickets heldTickets :=
  ⟨by decide +kernel, by decide +kernel, by decide +kernel, by decide +kernel⟩

end ValveRun

open ValveRun in
theorem activeSigned_of_steps_valveRun :
    ∃ s, Relation.ReflTransGen (Node.Step node) (start soldTickets) s ∧
      s.active.above[TICKET_VALVE]? = some (block soldTickets (TICKET_VALVE + 1)) ∧
        s.delivered (node.hash (block soldTickets (TICKET_VALVE + 1))) = true ∧ s.ActiveSigned node := by
  obtain ⟨s, hrun, hgrown⟩ := exists_run setup_soldTickets le_rfl
  obtain ⟨t, u, hprocess, hconnect, hdelivered, pool, hactive⟩ := exists_last setup_soldTickets hgrown
  have hallowed :
      s.Allowed node (.process (ctx TICKET_VALVE) (block soldTickets (TICKET_VALVE + 1))) := by
    intro _
    have hpath : s.tree.pathOf network.hashing (block soldTickets (TICKET_VALVE + 1)).header =
        path (TICKET_VALVE + 1) :=
      pathOf_header hgrown (by decide)
    have hheight : s.active.height = TICKET_VALVE := by
      rw [hgrown.active, TipState.height, above, List.length_map, List.length_range]
    refine ⟨by rw [show node.env = network from rfl, hpath]; exact parentHashes_path hgrown, ?_, ?_⟩
    · rw [hheight, hgrown.active, TipState.chain, cons_above]
      exact loadTicketpool_chain setup_soldTickets le_rfl le_rfl
    · rw [hgrown.active]
      decide +kernel
  have hall := (hrun.tail ⟨_, hallowed, hprocess⟩).tail ⟨.connect _, trivial, hconnect⟩
  refine ⟨u, hall, by rw [hactive, getElem?_above], ?_, Node.activeSigned_of_steps (started _) hall⟩
  exact (congrArg u.delivered (blockHash_header (by decide))).trans hdelivered

open ValveRun in
/-- No ticket is ever bought: block 5001 arrives without a signature, is stored and connected. -/
theorem unsigned_block_active :
    ∃ s, Relation.ReflTransGen (fun s t => ∃ e, s.step node e = .ok t) (start []) s ∧
      s.active.above[TICKET_VALVE]? = some (block [] (TICKET_VALVE + 1)) ∧
        (block [] (TICKET_VALVE + 1)).sig1 = [] ∧ ¬ s.ActiveSigned node := by
  obtain ⟨s, hrun, hgrown⟩ := exists_run setup_nil le_rfl
  obtain ⟨t, u, hprocess, hconnect, hdelivered, pool, hactive⟩ := exists_last setup_nil hgrown
  have hrun := Relation.ReflTransGen.mono (p := fun s t => ∃ e, s.step node e = .ok t)
    (fun _ _ ⟨e, _, h⟩ => ⟨e, h⟩) _ _ hrun
  refine ⟨u, (hrun.tail ⟨_, hprocess⟩).tail ⟨_, hconnect⟩, by rw [hactive, getElem?_above], rfl,
    fun hsigned => ?_⟩
  have hlast :=
    hsigned TICKET_VALVE (block [] (TICKET_VALVE + 1)) (by rw [hactive, getElem?_above]) (by omega)
    ((congrArg u.delivered (blockHash_header (by decide))).trans hdelivered)
  simp only [hactive, take_above] at hlast
  obtain ⟨pool, tickets, hload, hlucky, hfive, -⟩ := hlast
  have hlength : (chain [] TICKET_VALVE).length - 1 = TICKET_VALVE := by
    rw [chain, List.length_map, List.length_range, Nat.add_sub_cancel]
  rw [hlength, loadTicketpool_chain setup_nil le_rfl le_rfl] at hload
  obtain rfl := Except.ok.inj hload
  rw [length_luckyTickets hlucky] at hfive
  exact absurd hfive (by decide +kernel)

end TscPow
