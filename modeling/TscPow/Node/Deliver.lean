import TscPow.Node.Activate

/-!
# The delivery of a block

A node has the blocks of a tree of valid branches and gets one more. Besides the rules of the tree, `ProcessNewBlock` makes decisions that look at the active tip of the moment: the lucky tickets whose signatures are checked, the distance of `CheckSync`, whether a block that nobody asked for is worth having, and checkpoints. If all of them are in the block's favour, the node stores the block and afterwards follows the branch with the most work again (`Known.step`).
-/

namespace TscPow

open KeyedTree

/-! ### Trees of valid blocks -/

/-- A branch of blocks above the genesis block; blocks name their parents by hash. -/
abbrev IsBranch (n : NodeEnv) (genesis : Block) (blocks : List Block) (above : List Block) : Prop :=
  Branch n.hash (fun b : Block => b.hashPrevBlock) genesis blocks above

def workOf (genesis : Block) (above : List Block) : Nat := (chainIndex genesis above).nChainWork

/-- The rules for a block on top of a chain that do not depend on the node: the header's, those of `CheckBlock` and `ContextualCheckBlock` under the given limits, the height in the coinbase, `ConnectBlock` and what the ticket pool reads. It adds to the chain's work. -/
structure ValidOn (n : NodeEnv) (limits : Limits) (witnessHash : Block → List Byte)
    (genesis : Block) (above : List Block) (b : Block) : Prop where
  header : checkBlockHeader n.env b.header true = .ok ()
  contextual : ∀ ctx tree, ctx.checkpoints = [] →
    contextualCheckBlockHeader n.env ctx tree b.header (chainIndex genesis above) = .ok ()
  coinbase : ∃ coinbase input, b.vtx.head? = some coinbase ∧ coinbase.vin.head? = some input ∧
    Script.pushInt64 (above.length + 1 : Nat) <+: input.scriptSig
  block : ∀ ctx : AcceptContext, ctx.limits = limits → ctx.witnessHash = witnessHash →
    checkNewBlock n.env ctx b ((chainIndex genesis above).child b.header) = .ok ()
  connectable : n.connectable (genesis :: above) b = true
  loadable : Loadable b (above.length + 1)
  work : workOf genesis above < workOf genesis (above ++ [b])

/-- A finite set of blocks on top of the genesis block that form a tree of valid branches. -/
structure ValidTree (n : NodeEnv) (limits : Limits) (witnessHash : Block → List Byte)
    (genesis : Block) (blocks : List Block) : Prop where
  genesisHash : n.hash genesis = n.env.params.hashGenesisBlock
  distinct : ((genesis :: blocks).map n.hash).Nodup
  rooted : ∀ b ∈ blocks, ∃ above, IsBranch n genesis blocks (above ++ [b])
  valid : ∀ above b, IsBranch n genesis blocks (above ++ [b]) →
    ValidOn n limits witnessHash genesis above b

/-- The branch with the most work, and the only one. -/
structure MostWork (n : NodeEnv) (genesis : Block) (blocks : List Block) (top : List Block) : Prop where
  branch : IsBranch n genesis blocks top
  unique : ∀ above, IsBranch n genesis blocks above → above ≠ top →
    workOf genesis above < workOf genesis top

/-! ### Deliveries -/

namespace ChainNode

variable (n : NodeEnv)

def start (genesis : Block) : ChainNode where
  tree := BlockTree.genesis n.env.hashing genesis.header
  data := Function.update (fun _ => none) (n.hash genesis) (some genesis)
  active := ⟨genesis, [], TicketPool.new⟩
  delivered _ := false
  sequence := [n.hash genesis]
  setBlockIndexCandidates := [n.hash genesis]
  mapBlocksUnlinked := []

def deliver (s : ChainNode) (deliveries : List (AcceptContext × Block)) : Except Fault ChainNode :=
  deliveries.foldlM (fun s d => s.processNewBlock n d.1 d.2 >>= fun result => pure result.1) s

/-- The decisions that depend on the node are in the block's favour when it arrives: its signatures verify for the lucky tickets of the active tip, it is within reach of the tip, it was asked for or is worth having, no known checkpoint lies above it, and the limits are those of the tree. -/
structure Timely (limits : Limits) (witnessHash : Block → List Byte) (s : ChainNode)
    (ctx : AcceptContext) (b : Block) : Prop where
  limits : ctx.limits = limits
  witnessHash : ctx.witnessHash = witnessHash
  signatures : checkLuckySignatures n.tickets n.recover s.active b = .ok true
  sync : checkSync { ctx with tip := s.active.index } (s.tree.newIndex b.header).nHeight = true
  wanted : skipsBlock { ctx with tip := s.active.index }
    ⟨s.tree.newIndex b.header, BLOCK_VALID_TREE, false, false, false, 0⟩ = false
  checkpoint : ∀ pcheckpoint ∈ getLastCheckpoint ctx s.tree,
    ¬ ((s.tree.newIndex b.header).nHeight : Int) < pcheckpoint.nHeight

def ParentsFirst (genesis : Block) (deliveries : List (AcceptContext × Block)) : Prop :=
  ∀ before d after, deliveries = before ++ d :: after →
    d.2.hashPrevBlock ∈ (genesis :: before.map Prod.snd).map n.hash

structure Complete (genesis : Block) (blocks : List Block)
    (deliveries : List (AcceptContext × Block)) : Prop where
  perm : (deliveries.map Prod.snd).Perm blocks
  parentsFirst : ParentsFirst n genesis deliveries

def AllTimely (limits : Limits) (witnessHash : Block → List Byte) (s : ChainNode)
    (deliveries : List (AcceptContext × Block)) : Prop :=
  ∀ before d after t, deliveries = before ++ d :: after → s.deliver n before = .ok t →
    t.Timely n limits witnessHash d.1 d.2

end ChainNode

/-! ### Index entries of branches -/

section

variable {n : NodeEnv} {genesis b : Block} {above blocks : List Block}

theorem chainIndex_snoc (genesis b : Block) (above : List Block) :
    chainIndex genesis (above ++ [b]) = (chainIndex genesis above).child b.header := by
  rw [chainIndex, List.foldl_append, List.foldl_cons, List.foldl_nil, ← chainIndex]

theorem headers_chainIndex (genesis : Block) (above : List Block) :
    (chainIndex genesis above).header :: (chainIndex genesis above).ancestors =
    ((genesis :: above).map Block.header).reverse := by
  induction above using List.reverseRecOn with
  | nil => rfl
  | append_singleton above b ih =>
    rw [chainIndex_snoc, BlockIndex.child, ih, ← List.cons_append, List.map_append, List.reverse_append]
    rfl

theorem header_chainIndex (genesis : Block) (above : List Block) :
    (chainIndex genesis above).header = (chainTip genesis above).header := by
  rcases List.eq_nil_or_concat above with rfl | ⟨above, b, rfl⟩
  · rfl
  · rw [List.concat_eq_append, chainIndex_snoc, chainTip, last_snoc]
    rfl

theorem nHeight_chainIndex (genesis : Block) (above : List Block) :
    (chainIndex genesis above).nHeight = above.length := by
  have hlength := congrArg List.length (headers_chainIndex genesis above)
  rw [List.length_cons, List.length_reverse, List.length_map, List.length_cons] at hlength
  exact Nat.succ.inj hlength

theorem workOf_of_bits {nBits : BitVec 32} (hbits : ∀ b ∈ genesis :: above, b.nBits = nBits) :
    workOf genesis above = (above.length + 1) * getBlockProof nBits % 2 ^ 256 := by
  have hproofs :
    (((genesis :: above).map Block.header).reverse.map fun header => getBlockProof header.nBits) =
      List.replicate (above.length + 1) (getBlockProof nBits) := by
    rw [List.eq_replicate_iff]
    refine ⟨by simp, fun proof hproof => ?_⟩
    simp only [List.mem_map, List.mem_reverse, exists_exists_and_eq_and] at hproof
    obtain ⟨b, hb, rfl⟩ := hproof
    rw [show b.header.nBits = nBits from hbits b hb]
  rw [workOf, BlockIndex.nChainWork, headers_chainIndex, hproofs, List.sum_replicate, smul_eq_mul]

theorem hashes_chainIndex (n : NodeEnv) (genesis : Block) (above : List Block) :
    ((chainIndex genesis above).header ::
      (chainIndex genesis above).ancestors).map n.env.hashing.blockHash =
      ((genesis :: above).map n.hash).reverse := by
  rw [headers_chainIndex, List.map_reverse, List.map_map]
  rfl

end

/-! ### A block arrives -/

namespace ChainNode

/-- What a node looks like when the blocks `D` have arrived in this order: it has stored and numbered all of them, and its active chain is one of their branches. -/
structure Linked (n : NodeEnv) (genesis : Block) (D : List Block) (s : ChainNode) : Prop where
  rooted : ∀ b ∈ D, ∃ above, IsBranch n genesis D (above ++ [b])
  failedBlocks : s.tree.failedBlocks = []
  entry : ∀ above, IsBranch n genesis D above →
    ∃ e, s.tree.mapBlockIndex (n.hash (chainTip genesis above)) = some e ∧
    e.index = chainIndex genesis above ∧ e.failed = false ∧ e.haveData = true
  fresh : ∀ hash, hash ∉ (genesis :: D).map n.hash → s.tree.mapBlockIndex hash = none
  data : ∀ b ∈ genesis :: D, s.data (n.hash b) = some b
  sequence : s.sequence = (genesis :: D).map n.hash
  unlinked : s.mapBlocksUnlinked = []
  root : s.active.genesis = genesis
  active : IsBranch n genesis D s.active.above

/-- The same, after `ActivateBestChain`: no branch has more work than the active one, and its tip is the only candidate. -/
structure Known (n : NodeEnv) (genesis : Block) (D : List Block) (s : ChainNode) :
    Prop extends Linked n genesis D s where
  best : ∀ above, IsBranch n genesis D above → workOf genesis above ≤ workOf genesis s.active.above
  candidates : s.setBlockIndexCandidates = [s.tipHash n]

variable {n : NodeEnv} {limits : Limits} {witnessHash : Block → List Byte} {genesis b : Block}
  {D blocks above : List Block} {s : ChainNode} {ctx : AcceptContext}

theorem known_start (n : NodeEnv) (genesis : Block) : Known n genesis [] (start n genesis) := by
  have hnil : ∀ above, IsBranch n genesis [] above → above = [] :=
    fun above h => List.subset_nil.mp h.subset
  have hmap := BlockTree.map_genesis n.env.hashing genesis.header
  refine ⟨⟨by simp, rfl, ?_, ?_, ?_, rfl, rfl, rfl, .nil⟩, ?_, rfl⟩
  · intro above h
    obtain rfl := hnil above h
    exact ⟨_, (hmap _).trans (if_pos rfl), rfl, rfl, rfl⟩
  · intro hash hhash
    exact (hmap _).trans (if_neg fun h => hhash (List.mem_singleton.mpr h))
  · intro b hb
    obtain rfl := List.mem_singleton.mp hb
    exact Function.update_self (n.hash b) (some b) fun _ => none
  · intro above h
    rw [hnil above h]
    exact le_rfl

/-- The block on top of a branch that the node has. -/
structure Arrives (n : NodeEnv) (limits : Limits) (witnessHash : Block → List Byte)
    (genesis : Block) (D : List Block) (above : List Block) (b : Block) : Prop where
  genesisHash : n.hash genesis = n.env.params.hashGenesisBlock
  distinct : ((genesis :: (D ++ [b])).map n.hash).Nodup
  below : IsBranch n genesis D above
  parent : b.hashPrevBlock = n.hash (chainTip genesis above)
  valid : ∀ above' b', IsBranch n genesis (D ++ [b]) (above' ++ [b']) →
    ValidOn n limits witnessHash genesis above' b'

theorem Arrives.branch (h : Arrives n limits witnessHash genesis D above b) :
    IsBranch n genesis (D ++ [b]) (above ++ [b]) :=
  (h.below.mono (List.subset_append_left _ _)).snoc (by simp) h.parent

theorem Arrives.validOn (h : Arrives n limits witnessHash genesis D above b) :
    ValidOn n limits witnessHash genesis above b :=
  h.valid _ _ h.branch

theorem Arrives.new (h : Arrives n limits witnessHash genesis D above b) :
    n.hash b ∉ (genesis :: D).map n.hash := by
  have hdistinct := h.distinct
  rw [← List.cons_append, List.map_append, List.nodup_append] at hdistinct
  exact fun hmem => hdistinct.2.2 _ hmem _ (by simp) rfl

theorem Arrives.distinct_left (h : Arrives n limits witnessHash genesis D above b) :
    ((genesis :: D).map n.hash).Nodup := by
  have hdistinct := h.distinct
  rw [← List.cons_append, List.map_append, List.nodup_append] at hdistinct
  exact hdistinct.1

theorem Arrives.hash_ne (h : Arrives n limits witnessHash genesis D above b) {c : Block}
    (hc : c ∈ genesis :: D) : n.hash c ≠ n.hash b :=
  fun heq => h.new (heq ▸ List.mem_map_of_mem hc)

theorem Arrives.branches (h : Arrives n limits witnessHash genesis D above b)
    (hrooted : ∀ b ∈ D, ∃ above, IsBranch n genesis D (above ++ [b])) {above' : List Block}
    (hbranch : IsBranch n genesis (D ++ [b]) above') :
    IsBranch n genesis D above' ∨ above' = above ++ [b] := by
  have hparent : b.hashPrevBlock ∈ (genesis :: D).map n.hash :=
    h.parent ▸ List.mem_map_of_mem h.below.last_mem_nodes
  rcases Branch.of_new h.distinct hrooted hparent hbranch with hbranch | ⟨below, hbelow, hnamed, rfl⟩
  · exact .inl hbranch
  · right
    rw [Branch.eq_of_last h.distinct_left hbelow h.below (Branch.eq_of_key h.distinct_left
      hbelow.last_mem_nodes h.below.last_mem_nodes (hnamed.symm.trans h.parent))]

theorem Known.newIndex (hknown : s.Known n genesis D)
    (harrives : Arrives n limits witnessHash genesis D above b) :
    s.tree.newIndex b.header = chainIndex genesis (above ++ [b]) := by
  obtain ⟨e, he, hindex, -⟩ := hknown.entry above harrives.below
  rw [BlockTree.newIndex, show b.header.hashPrevBlock = _ from harrives.parent, he,
    chainIndex_snoc, ← hindex]

theorem Known.checkNewHeader (hknown : s.Known n genesis D)
    (harrives : Arrives n limits witnessHash genesis D above b)
    (htimely : s.Timely n limits witnessHash ctx b) :
    ∃ prev, checkNewHeader n.env { ctx with tip := s.active.index } s.tree b.header = .ok prev := by
  obtain ⟨e, he, hindex, hfailed, -⟩ := hknown.entry above harrives.below
  have hcontextual :=
    harrives.validOn.contextual { ctx with tip := s.active.index, checkpoints := [] } s.tree rfl
  have hcheckpoint := htimely.checkpoint
  rw [hknown.newIndex harrives, chainIndex_snoc, BlockIndex.nHeight_child] at hcheckpoint
  refine ⟨e, ?_⟩
  simp only [TscPow.checkNewHeader, contextualCheckBlockHeader, Except.bind_eq_ok_iff,
    rule_eq_ok_iff, valueOr_eq_ok_iff, Except.pure_eq_ok_iff, orFault_eq_ok_iff] at hcontextual ⊢
  obtain ⟨nBits, hwork, ⟨⟩, hbits, ⟨⟩, -, hrest⟩ := hcontextual
  refine ⟨(), harrives.validOn.header, e, ?_, (), by rw [hfailed]; rfl, (),
    ⟨nBits, by rw [hindex]; exact hwork, (), hbits, (), ?_, ?_⟩, rfl⟩
  · rw [show b.header.hashPrevBlock = _ from harrives.parent, he]
  · rw [hindex]
    exact hcheckpoint
  · rw [hindex]
    exact hrest

theorem Known.checkAcceptedBlock (hknown : s.Known n genesis D)
    (harrives : Arrives n limits witnessHash genesis D above b)
    (htimely : s.Timely n limits witnessHash ctx b) {tree : BlockTree} {e : IndexEntry}
    (hprev : tree.mapBlockIndex (n.hash (chainTip genesis above)) = some e) :
    checkAcceptedBlock { ctx with tip := s.active.index } tree b
      (chainIndex genesis (above ++ [b])) = .ok () := by
  have hheight : (chainIndex genesis (above ++ [b])).nHeight = above.length + 1 := by
    rw [nHeight_chainIndex]; simp
  obtain ⟨coinbase, input, hcoinbase, hinput, hscript⟩ := harrives.validOn.coinbase
  have hsync := htimely.sync
  rw [hknown.newIndex harrives] at hsync
  simp only [TscPow.checkAcceptedBlock, hheight, Nat.succ_pos, if_true, Except.bind_eq_ok_iff,
    rule_eq_ok_iff]
  refine ⟨some e.index, ?_, (), ?_, (), ?_, (), ?_, coinbase, ?_, input, ?_, hscript⟩
  · rw [show b.hashPrevBlock = _ from harrives.parent, hprev]
    rfl
  · rwa [hheight] at hsync
  · rintro prev - ⟨⟨⟩, -⟩
  · rintro ⟨⟨⟩, -⟩
  · rw [hcoinbase]
    rfl
  · rw [hinput]
    rfl

/-- A block that arrives in time is stored, with an entry on top of its parent's. -/
structure Stored (n : NodeEnv) (b : Block) (index : BlockIndex) (s : Node) (e : IndexEntry)
    (t : Node) : Prop where
  failedBlocks : t.tree.failedBlocks = s.tree.failedBlocks
  index : e.index = index
  failed : e.failed = false
  haveData : e.haveData = true
  map : ∀ hash, t.tree.mapBlockIndex hash = if hash = n.hash b then some e else s.tree.mapBlockIndex hash
  data : t.data = Function.update s.data (n.hash b) (some b)
  active : t.active = s.active

theorem Known.exists_stored (hknown : s.Known n genesis D)
    (harrives : Arrives n limits witnessHash genesis D above b)
    (htimely : s.Timely n limits witnessHash ctx b) :
    ∃ t e, s.toNode.processNewBlock n { ctx with tip := s.active.index } b = .ok (t, true) ∧
      Stored n b (chainIndex genesis (above ++ [b])) s.toNode e t := by
  have hgenesis : n.env.hashing.blockHash b.header ≠ n.env.params.hashGenesisBlock := by
    intro heq
    have hsame : n.hash b = n.hash genesis := heq.trans harrives.genesisHash.symm
    exact harrives.new (hsame ▸ List.mem_cons_self)
  have hnew := hknown.fresh _ harrives.new
  have hindex := hknown.newIndex harrives
  obtain ⟨prev, hheader⟩ := hknown.checkNewHeader harrives htimely
  have hadd : addToBlockIndex n.env.hashing s.tree b.header =
      s.tree.insert (n.hash b)
        ⟨chainIndex genesis (above ++ [b]), BLOCK_VALID_TREE, false, false, false, 0⟩ := by
    rw [addToBlockIndex, show s.tree.mapBlockIndex (n.env.hashing.blockHash b.header) =
      none from hnew, hindex]
    rfl
  obtain ⟨parent, hparent, -⟩ := hknown.entry above harrives.below
  have hne := harrives.hash_ne harrives.below.last_mem_nodes
  have hprev :
      (addToBlockIndex n.env.hashing s.tree b.header).mapBlockIndex
        (n.hash (chainTip genesis above)) = some parent := by
    rw [hadd, BlockTree.map_insert, if_neg hne, hparent]
  have haccepted := hknown.checkAcceptedBlock harrives htimely hprev
  have hblock :=
    harrives.validOn.block { ctx with tip := s.active.index } htimely.limits htimely.witnessHash
  rw [← chainIndex_snoc] at hblock
  have haccept := acceptBlock_of_new hgenesis hnew hknown.failedBlocks hheader htimely.wanted
    (by rw [hindex]; exact haccepted) (by rw [hindex]; exact hblock)
  have hcheck : checkBlock n.env ctx.limits b true true = .ok () := by
    rw [TscPow.checkNewBlock, Except.bind_eq_ok_iff] at hblock
    obtain ⟨⟨⟩, hcheck, -⟩ := hblock
    exact hcheck
  refine ⟨{ s.toNode with
      tree := (addToBlockIndex n.env.hashing s.tree b.header).modify (n.hash b)
        (receivedBlockTransactions b)
      data := Function.update s.data (n.hash b) (some b)
      delivered := Function.update s.delivered (n.hash b) true },
    receivedBlockTransactions b
      ⟨chainIndex genesis (above ++ [b]), BLOCK_VALID_TREE, false, false, false, 0⟩, ?_, ?_⟩
  · rw [Node.processNewBlock_of_checked { ctx with tip := s.active.index } htimely.signatures
      hcheck, haccept]
    rfl
  · refine ⟨?_, rfl, rfl, rfl, fun hash => ?_, rfl, rfl⟩
    · rw [hadd]
      rfl
    · rw [hadd]
      simp only [BlockTree.modify, BlockTree.map_insert, Function.update_apply, if_true, Option.map_some]
      split <;> rfl

/-! ### The block is numbered -/

theorem Linked.tipHash_eq (hlinked : s.Linked n genesis D) :
    s.tipHash n = n.hash (chainTip genesis s.active.above) := by
  rw [tipHash, TipState.tip, hlinked.root]

theorem Linked.chainWork_tip (hlinked : s.Linked n genesis D) (habove : IsBranch n genesis D above) :
    s.chainWork (n.hash (chainTip genesis above)) = workOf genesis above := by
  obtain ⟨e, he, hindex, -⟩ := hlinked.entry above habove
  rw [chainWork, BlockTree.indexOf, he, Option.map_some, Option.elim_some, hindex, workOf]

theorem receivedBlock_of_parent {prev : BlockIndex} {hash : Uint256}
    (hindex : (s.tree.indexOf hash).bind BlockIndex.pprev = some prev)
    (hprev : n.env.hashing.blockHash prev.header ∈ s.sequence)
    (hunlinked : s.mapBlocksUnlinked = []) :
    s.receivedBlock n hash = s.link n hash := by
  have hnone : s.waitingFor hash = [] := by rw [waitingFor, hunlinked]; rfl
  rw [receivedBlock, hindex]
  simp only [hprev, if_true]
  rw [linkQueue, hnone, List.append_nil, linkQueue]

theorem Linked.of_stored {t : Node} {e : IndexEntry} (hlinked : s.Linked n genesis D)
    (harrives : Arrives n limits witnessHash genesis D above b)
    (hstored : Stored n b (chainIndex genesis (above ++ [b])) s.toNode e t) :
    Linked n genesis (D ++ [b]) (({ s with toNode := t } : ChainNode).link n (n.hash b)) := by
  refine ⟨?_, ?_, ?_, ?_, ?_, ?_, ?_, ?_, ?_⟩
  · intro c hc
    rw [List.mem_append, List.mem_singleton] at hc
    rcases hc with hc | rfl
    · obtain ⟨below, hbelow⟩ := hlinked.rooted c hc
      exact ⟨below, hbelow.mono (List.subset_append_left _ _)⟩
    · exact ⟨above, harrives.branch⟩
  · exact hstored.failedBlocks.trans hlinked.failedBlocks
  · intro above' h
    change ∃ e, t.tree.mapBlockIndex _ = some e ∧ _
    rcases harrives.branches hlinked.rooted h with h | rfl
    · rw [hstored.map, if_neg (harrives.hash_ne h.last_mem_nodes)]
      exact hlinked.entry above' h
    · rw [hstored.map, chainTip, last_snoc, if_pos rfl]
      exact ⟨e, rfl, hstored.index, hstored.failed, hstored.haveData⟩
  · intro hash hhash
    rw [← List.cons_append, List.map_append, List.mem_append, not_or] at hhash
    change t.tree.mapBlockIndex hash = none
    rw [hstored.map, if_neg (by simpa using hhash.2)]
    exact hlinked.fresh hash hhash.1
  · intro c hc
    change t.data (n.hash c) = some c
    rw [hstored.data]
    rw [← List.cons_append, List.mem_append, List.mem_singleton] at hc
    rcases hc with hc | rfl
    · rw [Function.update_of_ne (harrives.hash_ne hc)]
      exact hlinked.data c hc
    · exact Function.update_self _ _ _
  · change s.sequence ++ [n.hash b] = _
    rw [hlinked.sequence, ← List.cons_append, List.map_append]
    rfl
  · change s.mapBlocksUnlinked.filter _ = []
    rw [hlinked.unlinked]
    rfl
  · change t.active.genesis = genesis
    rw [hstored.active]
    exact hlinked.root
  · change IsBranch n genesis (D ++ [b]) t.active.above
    rw [hstored.active]
    exact hlinked.active.mono (List.subset_append_left _ _)

theorem Linked.worse_iff (hlinked : s.Linked n genesis D) {above' : List Block}
    (habove : IsBranch n genesis D above) (habove' : IsBranch n genesis D above') :
    s.worse (n.hash (chainTip genesis above)) (n.hash (chainTip genesis above')) = true ↔
      workOf genesis above < workOf genesis above' ∨ workOf genesis above = workOf genesis above' ∧
        s.sequence.idxOf (n.hash (chainTip genesis above')) <
          s.sequence.idxOf (n.hash (chainTip genesis above)) := by
  rw [worse, hlinked.chainWork_tip habove, hlinked.chainWork_tip habove', Bool.or_eq_true,
    Bool.and_eq_true, decide_eq_true_iff, decide_eq_true_iff, beq_iff_eq]

theorem Linked.worse_new_iff (hlinked : s.Linked n genesis (D ++ [b]))
    (harrives : Arrives n limits witnessHash genesis D above b)
    (hactive : IsBranch n genesis D s.active.above) :
    s.worse (n.hash b) (s.tipHash n) = true ↔
      workOf genesis (above ++ [b]) ≤ workOf genesis s.active.above := by
  have hb := hlinked.worse_iff harrives.branch (hactive.mono (List.subset_append_left _ _))
  have htip : n.hash (chainTip genesis s.active.above) ∈ (genesis :: D).map n.hash :=
    List.mem_map_of_mem hactive.last_mem_nodes
  have hearlier :
      s.sequence.idxOf (n.hash (chainTip genesis s.active.above)) <
        s.sequence.idxOf (n.hash b) := by
    rw [hlinked.sequence, ← List.cons_append, List.map_append, List.idxOf_append_of_mem htip,
      List.idxOf_append_of_notMem harrives.new]
    exact Nat.lt_add_right _ (List.idxOf_lt_length_iff.mpr htip)
  rw [chainTip, last_snoc] at hb
  rw [hlinked.tipHash_eq, hb, le_iff_lt_or_eq]
  exact or_congr Iff.rfl (and_iff_left hearlier)

/-! ### The best candidate -/

theorem findMostWorkChain_of_usable {best : Uint256} (hbest : s.bestCandidate = some best)
    (husable : ∀ hash ∈ s.branch n best, s.unusable hash = false) :
    s.findMostWorkChain n = (s, some best) := by
  have hfind : (s.branch n best).find? s.unusable = none :=
    List.find?_eq_none.mpr fun hash hhash => by rw [husable hash hhash]; simp
  rw [findMostWorkChain]
  split
  · rename_i hnone
    rw [hnone] at hbest
    cases hbest
  · rename_i best' hbest'
    obtain rfl : best' = best := Option.some.inj (hbest'.symm.trans hbest)
    rw [hfind]

theorem Linked.usable (hlinked : s.Linked n genesis D) {c : Block} (hc : c ∈ D) :
    s.unusable (n.hash c) = false := by
  obtain ⟨below, hbelow⟩ := hlinked.rooted c hc
  obtain ⟨e, he, -, hfailed, hdata⟩ := hlinked.entry _ hbelow
  rw [chainTip, last_snoc] at he
  rw [unusable, failedChain, BlockTree.hasData, he]
  simp [hfailed, hdata]

theorem Linked.exists_fork (hlinked : s.Linked n genesis D)
    (hdistinct : ((genesis :: D).map n.hash).Nodup) (habove : IsBranch n genesis D above) :
    ∃ common rest rest', s.active.above = common ++ rest ∧ above = common ++ rest' ∧
      (∀ c ∈ rest', c ∉ genesis :: s.active.above) ∧
      s.branch n (n.hash (chainTip genesis above)) = (rest'.map n.hash).reverse ∧
        s.aboveFork n (n.hash (chainTip genesis above)) = rest.length := by
  obtain ⟨common, rest, rest', hactive, rfl, hrest⟩ := Branch.split hdistinct hlinked.active habove
  obtain ⟨e, he, hindex, -⟩ := hlinked.entry _ habove
  have hhashes : s.activeHashes n = ((genesis :: s.active.above).map n.hash).reverse := by
    rw [Node.activeHashes, TipState.chain, hlinked.root]
  have hindexOf : s.tree.indexOf (n.hash (chainTip genesis (common ++ rest'))) =
      some (chainIndex genesis (common ++ rest')) := by
    rw [BlockTree.indexOf, he, Option.map_some, hindex]
  have hbranch :
      s.branch n (n.hash (chainTip genesis (common ++ rest'))) = (rest'.map n.hash).reverse := by
    rw [branch, hindexOf, Option.elim_some, hashes_chainIndex, ← List.cons_append, List.map_append,
      List.reverse_append, List.takeWhile_append_of_pos]
    · -- the block at the fork is active
      have hfork : n.hash (chainTip genesis common) ∈ s.activeHashes n := by
        rw [hhashes, List.mem_reverse, hactive]
        exact List.mem_map_of_mem
          (List.cons_subset_cons _ (List.subset_append_left _ _) (last_mem genesis common))
      have hhead : ∃ below,
          ((genesis :: common).map n.hash).reverse = n.hash (chainTip genesis common) :: below := by
        rcases List.eq_nil_or_concat common with rfl | ⟨below, c, rfl⟩
        · exact ⟨[], rfl⟩
        · rw [List.concat_eq_append, chainTip, last_snoc, ← List.cons_append, List.map_append,
            List.reverse_append]
          exact ⟨_, rfl⟩
      obtain ⟨below, hbelow⟩ := hhead
      rw [hbelow, List.takeWhile_cons_of_neg (by simpa using hfork), List.append_nil]
    · intro hash hhash
      obtain ⟨c, hc, rfl⟩ := List.mem_map.mp (List.mem_reverse.mp hhash)
      rw [decide_eq_true_iff, hhashes, List.mem_reverse]
      intro hmem
      obtain ⟨d, hd, hkey⟩ := List.mem_map.mp hmem
      have hcD : c ∈ genesis :: D := List.mem_cons_of_mem _ (habove.subset (List.mem_append_right _ hc))
      have hdD : d ∈ genesis :: D := List.cons_subset_cons _ hlinked.active.subset hd
      exact hrest c hc (Branch.eq_of_key hdistinct hcD hdD hkey.symm ▸ hd)
  refine ⟨common, rest, rest', hactive, rfl, hrest, hbranch, ?_⟩
  rw [aboveFork, hbranch, hindexOf, Option.elim_some, nHeight_chainIndex, TipState.height, hactive]
  simp only [List.length_append, List.length_reverse, List.length_map]
  omega

theorem Linked.activate_tip (hlinked : s.Linked n genesis D)
    (hcandidates : s.setBlockIndexCandidates = [s.tipHash n]) (rounds : Nat) :
    s.activateBestChain n (rounds + 1) = .ok (s, true) := by
  have hempty : s.branch n (s.tipHash n) = [] := by
    obtain ⟨e, he, hindex, -⟩ := hlinked.entry _ hlinked.active
    have hactive :
      ((chainIndex genesis s.active.above).header ::
        (chainIndex genesis s.active.above).ancestors).map
        n.env.hashing.blockHash = s.activeHashes n := by
      rw [hashes_chainIndex, Node.activeHashes, TipState.chain, hlinked.root]
    rw [hlinked.tipHash_eq, branch, BlockTree.indexOf, he, Option.map_some, Option.elim_some,
      hindex, hactive, List.takeWhile_eq_nil_iff]
    intro hpos
    simp
  have hbest : s.bestCandidate = some (s.tipHash n) := by
    rw [bestCandidate, hcandidates]
    rfl
  rw [activateBestChain, findMostWorkChain_of_usable hbest (by rw [hempty]; simp)]
  simp only [if_true]

/-! ### Moving the tip -/

theorem exists_updateTip (env : TicketEnv) {a : TipState}
    (hloadable : ∀ j c, a.above[j]? = some c → Loadable c (j + 1)) :
    ∃ a', a.updateTip env = .ok a' ∧ a'.genesis = a.genesis ∧ a'.above = a.above := by
  rw [TipState.updateTip]
  split
  · rename_i hlatency
    have hupdate : ∃ pool, updateTicketpool env a.chain a.pool a.height = .ok pool := by
      rw [updateTicketpool, updateBranches]
      split
      · split <;> exact ⟨_, rfl⟩
      · obtain ⟨j, hj⟩ : ∃ j, a.height - TICKETPOOL_HEIGHT_LATENCY = j + 1 :=
          ⟨_, (Nat.succ_pred_eq_of_pos (by omega)).symm⟩
        have hlt : j < a.above.length := by rw [TipState.height] at hj; omega
        have hblock : a.chain[a.height - TICKETPOOL_HEIGHT_LATENCY]? = some a.above[j] := by
          rw [hj, TipState.chain, List.getElem?_cons_succ, List.getElem?_eq_getElem hlt]
        have hload := hloadable j _ (List.getElem?_eq_getElem hlt)
        rw [← hj] at hload
        have hlen : a.height ≤ a.chain.length := Nat.le_succ a.above.length
        obtain ⟨tickets, htickets⟩ :=
          (exists_advanceTickets_iff env a.pool.ticket_pool hlatency hlen).mpr hload
        rw [hblock]
        simp only []
        split
        · rw [show advanceTickets env a.chain a.pool.ticket_pool a.above[j] a.height =
            .ok tickets from htickets]
          exact ⟨_, rfl⟩
        · exact ⟨_, rfl⟩
    obtain ⟨pool, hpool⟩ := hupdate
    rw [hpool]
    exact ⟨_, rfl, rfl, rfl⟩
  · exact ⟨a, rfl, rfl, rfl⟩

theorem loadable_of_branch
    (hvalid : ∀ above b, IsBranch n genesis D (above ++ [b]) →
      ValidOn n limits witnessHash genesis above b)
    (habove : IsBranch n genesis D above) {j : Nat} {c : Block} (hj : above[j]? = some c) :
    Loadable c (j + 1) := by
  obtain ⟨hlt, rfl⟩ := List.getElem?_eq_some_iff.mp hj
  have hbranch : IsBranch n genesis D (above.take j ++ [above[j]]) := by
    rw [List.take_append_getElem]
    rw [← List.take_append_drop (j + 1) above] at habove
    exact habove.of_append
  have hload := (hvalid _ _ hbranch).loadable
  rwa [List.length_take, Nat.min_eq_left hlt.le] at hload

/-- Nothing but the active chain and the candidates differs. -/
structure SameBlocks (s t : ChainNode) : Prop where
  tree : t.tree = s.tree
  data : t.data = s.data
  sequence : t.sequence = s.sequence
  unlinked : t.mapBlocksUnlinked = s.mapBlocksUnlinked
  root : t.active.genesis = s.active.genesis

theorem SameBlocks.refl (s : ChainNode) : SameBlocks s s := ⟨rfl, rfl, rfl, rfl, rfl⟩

theorem SameBlocks.trans {t u : ChainNode} (h : SameBlocks s t) (h' : SameBlocks t u) : SameBlocks s u :=
  ⟨h'.tree.trans h.tree, h'.data.trans h.data, h'.sequence.trans h.sequence,
    h'.unlinked.trans h.unlinked, h'.root.trans h.root⟩

theorem Linked.of_same {t : ChainNode} (hlinked : s.Linked n genesis D) (hsame : SameBlocks s t)
    (hactive : IsBranch n genesis D t.active.above) :
    t.Linked n genesis D where
  rooted := hlinked.rooted
  failedBlocks := by rw [hsame.tree, hlinked.failedBlocks]
  entry := hsame.tree ▸ hlinked.entry
  fresh := hsame.tree ▸ hlinked.fresh
  data := hsame.data ▸ hlinked.data
  sequence := by rw [hsame.sequence, hlinked.sequence]
  unlinked := by rw [hsame.unlinked, hlinked.unlinked]
  root := by rw [hsame.root, hlinked.root]
  active := hactive

theorem SameBlocks.worse_eq {t : ChainNode} (h : SameBlocks s t) (x y : Uint256) :
    t.worse x y = s.worse x y := by
  rw [worse, worse, chainWork, chainWork, chainWork, chainWork, h.tree, h.sequence]

section

variable (hvalid : ∀ above b, IsBranch n genesis D (above ++ [b]) →
  ValidOn n limits witnessHash genesis above b)
include hvalid

theorem Linked.exists_disconnectTips {common rest : List Block} (hlinked : s.Linked n genesis D)
    (hactive : s.active.above = common ++ rest) :
    ∃ t, s.disconnectTips n rest.length = .ok t ∧ SameBlocks s t ∧ t.active.above = common ∧
      t.setBlockIndexCandidates = s.setBlockIndexCandidates := by
  induction rest using List.reverseRecOn generalizing s with
  | nil => exact ⟨s, rfl, .refl s, by rw [hactive, List.append_nil], rfl⟩
  | append_singleton rest c ih =>
    have hretract : s.active.retract.above = common ++ rest := by
      rw [TipState.retract, hactive, ← List.append_assoc, List.dropLast_concat]
    have hbranch : IsBranch n genesis D (common ++ rest) := by
      have := hlinked.active
      rw [hactive, ← List.append_assoc] at this
      exact this.of_append
    obtain ⟨a, hmove, hroot, habove⟩ := exists_updateTip n.tickets (a := s.active.retract) fun j c hj =>
      loadable_of_branch hvalid hbranch (hretract ▸ hj)
    have hsame : SameBlocks s { s with active := a } := ⟨rfl, rfl, rfl, rfl, hroot⟩
    obtain ⟨t, hrest, ht, habove', hcandidates⟩ :=
      ih (hlinked.of_same hsame
        (by change IsBranch n genesis D a.above; rw [habove, hretract]; exact hbranch))
      (habove.trans hretract)
    refine ⟨t, ?_, hsame.trans ht, habove', hcandidates⟩
    rw [List.length_append, List.length_singleton, disconnectTips, TipState.move,
      if_neg (by rw [hactive]; simp), hmove, Except.ok_bind]
    exact hrest

theorem Linked.exists_connectTip {c : Block} (hlinked : s.Linked n genesis D)
    (hbranch : IsBranch n genesis D (s.active.above ++ [c])) :
    ∃ t, s.connectTip n (n.hash c) = .ok (t, .connected) ∧ SameBlocks s t ∧
      t.active.above = s.active.above ++ [c] ∧
      s.active.move n.tickets (.connect c) = .ok t.active ∧ t.setBlockIndexCandidates =
        s.setBlockIndexCandidates.filter fun h => !s.worse h (n.hash c) := by
  have hc : c ∈ genesis :: D := List.mem_cons_of_mem _ (Branch.snoc_iff.mp hbranch).2.1
  obtain ⟨a, hmove, hroot, habove⟩ := exists_updateTip n.tickets (a := s.active.extend c)
    fun j c hj => loadable_of_branch hvalid hbranch hj
  have hsame : SameBlocks s { s with active := a } := ⟨rfl, rfl, rfl, rfl, hroot⟩
  have htip : ({ s with active := a } : ChainNode).tipHash n = n.hash c := by
    change n.hash (chainTip a.genesis a.above) = _
    rw [habove, TipState.extend, chainTip, last_snoc]
  refine ⟨({ s with active := a } : ChainNode).pruneBlockIndexCandidates n, ?_,
    ⟨rfl, rfl, rfl, rfl, hroot⟩, habove, hmove, ?_⟩
  · rw [connectTip, hlinked.data c hc]
    simp only []
    rw [TipState.chain, hlinked.root, if_pos (hvalid _ _ hbranch).connectable, TipState.move, hmove]
    rfl
  · change s.setBlockIndexCandidates.filter _ = _
    rw [htip]
    exact List.filter_congr fun h _ => by rw [hsame.worse_eq]

theorem Linked.exists_connectBranch {rest : List Block} (hlinked : s.Linked n genesis D)
    (hbranch : IsBranch n genesis D (s.active.above ++ rest)) :
    ∃ t, s.connectBranch n (rest.map n.hash) = .ok (t, .connected) ∧ SameBlocks s t ∧
      t.active.above = s.active.above ++ rest ∧
      rest.foldlM (fun a c => a.move n.tickets (.connect c)) s.active = .ok t.active ∧
        t.setBlockIndexCandidates = s.setBlockIndexCandidates.filter fun h => rest.all fun c =>
          !s.worse h (n.hash c) := by
  induction rest generalizing s with
  | nil => exact ⟨s, rfl, .refl s, by rw [List.append_nil], rfl, by simp⟩
  | cons c rest ih =>
    have hsplit : s.active.above ++ c :: rest = s.active.above ++ [c] ++ rest := by simp
    rw [hsplit] at hbranch
    obtain ⟨t, hconnect, hsame, habove, hmove, hcandidates⟩ :=
      hlinked.exists_connectTip hvalid hbranch.of_append
    obtain ⟨u, hrest, hsame', habove', hmoves, hcandidates'⟩ :=
      ih (hlinked.of_same hsame (by rw [habove]; exact hbranch.of_append))
      (by rw [habove]; exact hbranch)
    refine ⟨u, ?_, hsame.trans hsame', by rw [habove', habove, hsplit],
      Except.foldlM_cons_eq_ok_iff.mpr ⟨_, hmove, hmoves⟩, ?_⟩
    · rw [List.map_cons, connectBranch, hconnect, Except.ok_bind]
      exact hrest
    · rw [hcandidates', hcandidates, List.filter_filter]
      refine List.filter_congr fun h _ => ?_
      simp only [hsame.worse_eq, List.all_cons, Bool.and_comm]

theorem workOf_le_append {above' : List Block} (hbranch : IsBranch n genesis D (above ++ above')) :
    workOf genesis above ≤ workOf genesis (above ++ above') ∧
      (above' ≠ [] → workOf genesis above < workOf genesis (above ++ above')) := by
  induction above' using List.reverseRecOn with
  | nil => simp
  | append_singleton above' c ih =>
    rw [← List.append_assoc] at hbranch ⊢
    have hlt : workOf genesis above < workOf genesis (above ++ above' ++ [c]) :=
      (ih hbranch.of_append).1.trans_lt (hvalid _ _ hbranch).work
    exact ⟨hlt.le, fun _ => hlt⟩

theorem Linked.not_worse_last {common rest : List Block} (hlinked : s.Linked n genesis D)
    (hbranch : IsBranch n genesis D (common ++ rest)) {c : Block} (hc : c ∈ rest) :
    s.worse (n.hash (chainTip genesis (common ++ rest))) (n.hash c) = false := by
  obtain ⟨below, later, rfl⟩ := List.append_of_mem hc
  have hsplit : common ++ (below ++ c :: later) = common ++ below ++ [c] ++ later := by simp
  rw [hsplit] at hbranch ⊢
  have hworse := hlinked.worse_iff hbranch hbranch.of_append
  rw [show chainTip genesis (common ++ below ++ [c]) = c from last_snoc _ _ _] at hworse
  rw [← Bool.not_eq_true, hworse]
  have hwork := workOf_le_append hvalid hbranch
  rcases later with _ | ⟨d, later⟩
  · rw [List.append_nil, show chainTip genesis (common ++ below ++ [c]) = c from last_snoc _ _ _]
    simp
  · have := hwork.2 (List.cons_ne_nil _ _)
    omega

theorem Linked.exists_activate_new (hlinked : s.Linked n genesis D)
    (hdistinct : ((genesis :: D).map n.hash).Nodup) (habove : IsBranch n genesis D (above ++ [b]))
    (hmore : workOf genesis s.active.above < workOf genesis (above ++ [b]))
    (hcandidates : s.setBlockIndexCandidates = [s.tipHash n, n.hash b]) (rounds : Nat) :
    ∃ t, s.activateBestChain n (rounds + 1) = .ok (t, true) ∧ SameBlocks s t ∧
      t.active.above = above ++ [b] ∧
      t.setBlockIndexCandidates = [n.hash b] ∧
        (above = s.active.above → s.active.move n.tickets (.connect b) = .ok t.active) := by
  have hb : chainTip genesis (above ++ [b]) = b := last_snoc _ _ _
  have hworse : s.worse (s.tipHash n) (n.hash b) = true := by
    rw [hlinked.tipHash_eq, ← hb]
    exact (hlinked.worse_iff hlinked.active habove).mpr (.inl hmore)
  have hbest : s.bestCandidate = some (n.hash b) := by
    rw [bestCandidate, hcandidates]
    simp [better, hworse]
  obtain ⟨common, rest, rest', hactive, hsplit, hrest, hbranch, hfork⟩ :=
    hlinked.exists_fork hdistinct habove
  rw [hb] at hbranch hfork
  have husable : ∀ hash ∈ s.branch n (n.hash b), s.unusable hash = false := by
    intro hash hhash
    rw [hbranch, List.mem_reverse] at hhash
    obtain ⟨c, hc, rfl⟩ := List.mem_map.mp hhash
    exact hlinked.usable (habove.subset (hsplit ▸ List.mem_append_right _ hc))
  have hne : n.hash b ≠ s.tipHash n := by
    intro heq
    rw [heq, hlinked.tipHash_eq, ← Bool.not_eq_false, Bool.not_eq_false] at hworse
    have := (hlinked.worse_iff hlinked.active hlinked.active).mp hworse
    omega
  obtain ⟨t, hdisconnect, hsame, habove', hcandidates'⟩ := hlinked.exists_disconnectTips hvalid hactive
  have hsplit' : IsBranch n genesis D (common ++ rest') := hsplit ▸ habove
  have hcommon : IsBranch n genesis D common := hsplit'.of_append
  obtain ⟨u, hconnect, hsame', habove'', hmoves, hcandidates''⟩ :=
    (hlinked.of_same hsame (habove' ▸ hcommon)).exists_connectBranch hvalid
    (habove'.symm ▸ hsplit')
  refine ⟨u, ?_, hsame.trans hsame', by rw [habove'', habove', hsplit], ?_, ?_⟩
  · rw [activateBestChain, findMostWorkChain_of_usable hbest husable]
    simp only [hne, if_false, hfork, hdisconnect, Except.ok_bind, hbranch, List.reverse_reverse, hconnect]
    rfl
  · have hmem : b ∈ rest' := by
      rcases List.eq_nil_or_concat rest' with rfl | ⟨init, c, rfl⟩
      · rw [List.append_nil] at hsplit
        have hle := (workOf_le_append hvalid (hactive ▸ hlinked.active)).1
        rw [← hactive, ← hsplit] at hle
        omega
      · rw [List.concat_eq_append, ← List.append_assoc] at hsplit
        obtain ⟨-, hlast⟩ := List.append_inj' hsplit rfl
        cases hlast
        simp
    have hkept : (rest'.all fun c => !t.worse (n.hash b) (n.hash c)) = true := by
      rw [List.all_eq_true]
      intro c hc
      have := hlinked.not_worse_last hvalid (hsplit ▸ habove) hc
      rw [← hsplit, hb] at this
      rw [hsame.worse_eq, this, Bool.not_false]
    have hdropped : (rest'.all fun c => !t.worse (s.tipHash n) (n.hash c)) = false := by
      rw [List.all_eq_false]
      exact ⟨b, hmem, by rw [hsame.worse_eq, hworse]; simp⟩
    rw [hcandidates'', hcandidates', hcandidates]
    simp only [List.filter_cons, List.filter_nil, hdropped, hkept, Bool.false_eq_true, if_false, if_true]
  · rintro rfl
    -- the block extends the active chain: nothing lies above the fork
    rw [hactive, List.append_assoc, List.append_cancel_left_eq] at hsplit
    subst hsplit
    obtain rfl : rest = [] := by
      rw [List.eq_nil_iff_forall_not_mem]
      intro c hc
      exact hrest c (List.mem_append_left _ hc)
        (List.mem_cons_of_mem _ (hactive ▸ List.mem_append_right _ hc))
    obtain rfl : s = t := Except.ok.inj hdisconnect
    obtain ⟨a, hmove, ha⟩ := Except.foldlM_cons_eq_ok_iff.mp hmoves
    obtain rfl : a = u.active := Except.ok.inj ha
    exact hmove

end

/-! ### One delivery -/

theorem Known.exists_linked (hknown : s.Known n genesis D)
    (harrives : Arrives n limits witnessHash genesis D above b)
    (htimely : s.Timely n limits witnessHash ctx b) :
    ∃ l : ChainNode, l.Linked n genesis (D ++ [b]) ∧ l.active = s.active ∧
      l.setBlockIndexCandidates =
        (if l.worse (n.hash b) (l.tipHash n) then [l.tipHash n] else [l.tipHash n, n.hash b]) ∧
        s.processNewBlock n ctx b = l.activateBestChain n (l.setBlockIndexCandidates.length + 1) := by
  obtain ⟨node, e, hprocess, hstored⟩ := hknown.exists_stored harrives htimely
  have hreceived : ({ s with toNode := node } : ChainNode).receivedBlock n (n.hash b) =
      ({ s with toNode := node } : ChainNode).link n (n.hash b) := by
    have hprev :
        (node.tree.indexOf (n.hash b)).bind BlockIndex.pprev = some (chainIndex genesis above) := by
      rw [BlockTree.indexOf, hstored.map, if_pos rfl, Option.map_some, Option.bind_some,
        hstored.index, chainIndex_snoc, BlockIndex.pprev_child]
    refine receivedBlock_of_parent hprev ?_ hknown.unlinked
    change _ ∈ s.sequence
    rw [hknown.sequence, header_chainIndex]
    exact List.mem_map_of_mem harrives.below.last_mem_nodes
  have hfresh : s.tree.hasData (n.hash b) = false := by
    rw [BlockTree.hasData, hknown.fresh _ harrives.new]
    rfl
  have hdata : node.tree.hasData (n.hash b) = true := by
    rw [BlockTree.hasData, hstored.map, if_pos rfl, Option.map_some, hstored.haveData]
    rfl
  have htip : (({ s with toNode := node } : ChainNode).link n (n.hash b)).tipHash n = s.tipHash n := by
    change n.hash node.active.tip = _
    rw [hstored.active]
    rfl
  refine ⟨_, hknown.toLinked.of_stored harrives hstored, hstored.active, ?_, ?_⟩
  · rw [htip]
    change (if _ then s.setBlockIndexCandidates else s.setBlockIndexCandidates ++ [n.hash b]) = _
    rw [hknown.candidates, ← htip]
    rfl
  · rw [processNewBlock, hprocess, Except.ok_bind]
    simp only [if_true, hfresh, hdata, Bool.not_false, Bool.and_self, hreceived]

/-- A block that arrives in time on top of a branch the node has is accepted, and the node follows the branch with the most work again. -/
theorem Known.step (hknown : s.Known n genesis D)
    (harrives : Arrives n limits witnessHash genesis D above b)
    (htimely : s.Timely n limits witnessHash ctx b) :
    ∃ t, s.processNewBlock n ctx b = .ok (t, true) ∧ t.Known n genesis (D ++ [b]) ∧
      (above = s.active.above → s.active.move n.tickets (.connect b) = .ok t.active) := by
  obtain ⟨l, hlinked, hactive, hcandidates, hprocess⟩ := hknown.exists_linked harrives htimely
  have hold : IsBranch n genesis D l.active.above := hactive ▸ hknown.active
  rw [hprocess]
  by_cases hless : workOf genesis (above ++ [b]) ≤ workOf genesis l.active.above
  · rw [if_pos ((hlinked.worse_new_iff harrives hold).mpr hless)] at hcandidates
    refine ⟨l, hlinked.activate_tip hcandidates _, ⟨hlinked, fun above' h => ?_, hcandidates⟩, ?_⟩
    · rcases harrives.branches hknown.rooted h with h | rfl
      · rw [hactive]
        exact hknown.best above' h
      · exact hless
    · rintro rfl
      rw [hactive] at hless
      exact absurd harrives.validOn.work (not_lt.mpr hless)
  · rw [if_neg (by rw [hlinked.worse_new_iff harrives hold]; exact hless)] at hcandidates
    obtain ⟨t, hactivate, hsame, habove, ht, hmove⟩ :=
      hlinked.exists_activate_new harrives.valid harrives.distinct harrives.branch
      (not_le.mp hless) hcandidates _
    have hknown' := hlinked.of_same hsame (habove ▸ harrives.branch)
    refine ⟨t, hactivate, ⟨hknown', fun above' h => ?_, ?_⟩, hactive ▸ hmove⟩
    · rw [habove]
      rcases harrives.branches hknown.rooted h with h | rfl
      · rw [hactive] at hless
        exact (hknown.best above' h).trans (not_le.mp hless).le
      · exact le_rfl
    · rw [ht, hknown'.tipHash_eq, habove, chainTip, last_snoc]

end ChainNode

end TscPow
