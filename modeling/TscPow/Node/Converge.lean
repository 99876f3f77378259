import TscPow.Node.Deliver
import TscPow.Node.Signed

/-!
# Nodes that receive the same blocks

Two nodes that get the blocks of a tree of valid branches, in any two orders with parents first, should end with the same active tip if the branch with the most work is unique. They do if every block is in time, that is if the decisions that look at the active tip of the moment never go against it. The signatures of the lucky tickets break this: they are drawn for the active tip and not for the block's parent.
-/

namespace TscPow

open KeyedTree

namespace ChainNode

variable {n : NodeEnv} {limits : Limits} {witnessHash : Block → List Byte} {genesis b : Block}
  {D blocks above : List Block} {s : ChainNode} {deliveries : List (AcceptContext × Block)}
  {d : AcceptContext × Block}

theorem deliver_snoc (s : ChainNode) (deliveries : List (AcceptContext × Block))
    (d : AcceptContext × Block) :
    s.deliver n (deliveries ++ [d]) =
      s.deliver n deliveries >>= fun t => t.processNewBlock n d.1 d.2 >>= fun result =>
        pure result.1 := by
  simp only [deliver, List.foldlM_append, List.foldlM_cons, List.foldlM_nil, bind_pure]

theorem processNewBlock_of_unsigned {ctx : AcceptContext}
    (hsignatures : checkLuckySignatures n.tickets n.recover s.active b = .ok false) :
    s.processNewBlock n ctx b = .ok (s, false) := by
  rw [processNewBlock, Node.processNewBlock, hsignatures]
  rfl

theorem processNewBlock_of_orphan (ctx : AcceptContext)
    (hsignatures : checkLuckySignatures n.tickets n.recover s.active b = .ok true)
    (hblock : checkBlock n.env ctx.limits b true true = .ok ())
    (hgenesis : n.hash b ≠ n.env.params.hashGenesisBlock)
    (hnew : s.tree.mapBlockIndex (n.hash b) = none)
    (hparent : s.tree.mapBlockIndex b.hashPrevBlock = none) :
    ∃ t, s.processNewBlock n ctx b = .ok (t, false) ∧ t.active = s.active := by
  have hheader : checkBlockHeader n.env b.header true = .ok () := by
    rw [checkBlock, Except.bind_eq_ok_iff] at hblock
    obtain ⟨⟨⟩, hheader, -⟩ := hblock
    exact hheader
  refine ⟨s, ?_, rfl⟩
  have hchecked := Node.processNewBlock_of_checked { ctx with tip := s.active.index } hsignatures hblock
  rw [processNewBlock, hchecked, acceptBlock_of_orphan hgenesis hnew hheader hparent]
  rfl

theorem delivery_cases {before after : List (AcceptContext × Block)} {e : AcceptContext × Block}
    (h : deliveries ++ [d] = before ++ e :: after) :
    before = deliveries ∧ e = d ∨ ∃ rest, deliveries = before ++ e :: rest := by
  rcases List.eq_nil_or_concat after with rfl | ⟨rest, last, rfl⟩
  · obtain ⟨rfl, hlast⟩ := List.append_inj' h rfl
    cases hlast
    exact .inl ⟨rfl, rfl⟩
  · right
    have happend : before ++ e :: rest.concat last = (before ++ e :: rest) ++ [last] := by simp
    obtain ⟨hrest, -⟩ := List.append_inj' (h.trans happend) rfl
    exact ⟨rest, hrest⟩

theorem ParentsFirst.snoc (h : ParentsFirst n genesis deliveries)
    (hparent : d.2.hashPrevBlock ∈ (genesis :: deliveries.map Prod.snd).map n.hash) :
    ParentsFirst n genesis (deliveries ++ [d]) := by
  intro before e after heq
  rcases delivery_cases heq with ⟨rfl, rfl⟩ | ⟨rest, hrest⟩
  · exact hparent
  · exact h before e rest hrest

theorem AllTimely.snoc (h : s.AllTimely n limits witnessHash deliveries)
    (htimely : ∀ t, s.deliver n deliveries = .ok t → t.Timely n limits witnessHash d.1 d.2) :
    s.AllTimely n limits witnessHash (deliveries ++ [d]) := by
  intro before e after t heq ht
  rcases delivery_cases heq with ⟨rfl, rfl⟩ | ⟨rest, hrest⟩
  · exact htimely t ht
  · exact h before e rest t hrest ht

theorem ParentsFirst.of_append {rest : List (AcceptContext × Block)}
    (h : ParentsFirst n genesis (deliveries ++ rest)) :
    ParentsFirst n genesis deliveries := fun before d after heq =>
  h before d (after ++ rest) (by rw [heq]; simp)

theorem AllTimely.of_append {rest : List (AcceptContext × Block)}
    (h : s.AllTimely n limits witnessHash (deliveries ++ rest)) :
    s.AllTimely n limits witnessHash deliveries := fun before d after t heq =>
  h before d (after ++ rest) t (by rw [heq]; simp)

theorem arrives_of_tree (htree : ValidTree n limits witnessHash genesis blocks) (hsub : D ++ [b] ⊆ blocks)
    (hdistinct : ((genesis :: (D ++ [b])).map n.hash).Nodup) (hbelow : IsBranch n genesis D above)
    (hparent : b.hashPrevBlock = n.hash (chainTip genesis above)) :
    Arrives n limits witnessHash genesis D above b :=
  ⟨htree.genesisHash, hdistinct, hbelow, hparent, fun _ _ h => htree.valid _ _ (h.mono hsub)⟩

theorem Known.exists_arrives (hknown : s.Known n genesis D)
    (htree : ValidTree n limits witnessHash genesis blocks) (hsub : D ++ [b] ⊆ blocks)
    (hdistinct : ((genesis :: (D ++ [b])).map n.hash).Nodup)
    (hparent : b.hashPrevBlock ∈ (genesis :: D).map n.hash) :
    ∃ above, Arrives n limits witnessHash genesis D above b := by
  obtain ⟨c, hc, hhash⟩ := List.mem_map.mp hparent
  rw [List.mem_cons] at hc
  rcases hc with rfl | hc
  · exact ⟨[], arrives_of_tree htree hsub hdistinct .nil hhash.symm⟩
  · obtain ⟨above, habove⟩ := hknown.rooted c hc
    exact ⟨above ++ [c], arrives_of_tree htree hsub hdistinct habove (by rw [chainTip, last_snoc, hhash])⟩

theorem Known.step_tip {ctx : AcceptContext} (hknown : s.Known n genesis D)
    (hload : loadTicketpool n.tickets s.active.chain s.active.height = .ok s.active.pool)
    (harrives : Arrives n limits witnessHash genesis D s.active.above b)
    (htimely : s.Timely n limits witnessHash ctx b) :
    ∃ t, s.processNewBlock n ctx b = .ok (t, true) ∧ t.Known n genesis (D ++ [b]) ∧
      t.active.above = s.active.above ++ [b] ∧
      loadTicketpool n.tickets t.active.chain t.active.height = .ok t.active.pool := by
  obtain ⟨t, ht, hknown', hmove⟩ := hknown.step harrives htimely
  exact ⟨t, ht, hknown', (Node.active_of_updateTip (hmove rfl)).2,
    TipState.loaded_connect hload (hmove rfl)⟩

theorem exists_deliver (htree : ValidTree n limits witnessHash genesis blocks)
    (hsub : deliveries.map Prod.snd ⊆ blocks)
    (hdistinct : ((genesis :: deliveries.map Prod.snd).map n.hash).Nodup)
    (hparents : ParentsFirst n genesis deliveries)
    (htimely : (start n genesis).AllTimely n limits witnessHash deliveries) :
    ∃ s, (start n genesis).deliver n deliveries = .ok s ∧
      s.Known n genesis (deliveries.map Prod.snd) := by
  induction deliveries using List.reverseRecOn with
  | nil => exact ⟨_, rfl, known_start n genesis⟩
  | append_singleton deliveries d ih =>
    rw [List.map_append, List.map_singleton] at hsub hdistinct ⊢
    have hprefix : ((genesis :: deliveries.map Prod.snd).map n.hash).Nodup := by
      rw [← List.cons_append, List.map_append, List.nodup_append] at hdistinct
      exact hdistinct.1
    obtain ⟨s, hs, hknown⟩ :=
      ih (List.append_subset.mp hsub).1 hprefix hparents.of_append htimely.of_append
    obtain ⟨above, harrives⟩ := hknown.exists_arrives htree hsub hdistinct (hparents deliveries d [] rfl)
    obtain ⟨t, ht, hknown', -⟩ := hknown.step harrives (htimely deliveries d [] s rfl hs)
    refine ⟨t, ?_, hknown'⟩
    rw [deliver_snoc, hs, Except.ok_bind, ht]
    rfl

theorem Complete.allTimely (htree : ValidTree n limits witnessHash genesis blocks)
    (hcomplete : Complete n genesis blocks deliveries)
    (htimely : ∀ (t : ChainNode) D, t.Known n genesis D → D ⊆ blocks → ∀ d ∈ deliveries,
      t.Timely n limits witnessHash d.1 d.2) :
    (start n genesis).AllTimely n limits witnessHash deliveries := by
  suffices ∀ before rest, deliveries = before ++ rest →
    (start n genesis).AllTimely n limits witnessHash before from
    this deliveries [] (List.append_nil _).symm
  intro before
  induction before using List.reverseRecOn with
  | nil =>
    intro _ _ before d after t heq
    simp at heq
  | append_singleton before d ih =>
    intro rest heq
    have hbefore := ih ([d] ++ rest) (by rw [heq, List.append_assoc])
    refine hbefore.snoc fun t ht => ?_
    have hparts : deliveries = before ++ d :: rest := by rw [heq, List.append_assoc]; rfl
    have hblocks : before.map Prod.snd ⊆ blocks :=
      List.Subset.trans (by rw [hparts]; simp) hcomplete.perm.subset
    have hdistinct : ((genesis :: deliveries.map Prod.snd).map n.hash).Nodup :=
      ((hcomplete.perm.cons genesis).map n.hash).nodup_iff.mpr htree.distinct
    have hsublist :
        ((genesis :: before.map Prod.snd).map n.hash).Sublist
          ((genesis :: deliveries.map Prod.snd).map n.hash) := by
      rw [hparts]
      simp
    have hfirst : ParentsFirst n genesis (before ++ d :: rest) := hparts ▸ hcomplete.parentsFirst
    obtain ⟨s, hs, hknown⟩ :=
      exists_deliver htree hblocks (hdistinct.sublist hsublist) hfirst.of_append hbefore
    obtain rfl : s = t := Except.ok.inj (hs.symm.trans ht)
    exact htimely s _ hknown hblocks d (by rw [hparts]; simp)

end ChainNode

open ChainNode in
/-- Two nodes that receive all blocks of a tree of valid branches, each in an order with parents first in which every block is in time, end with the branch that has the most work as their active chain. -/
theorem tips_agree {n : NodeEnv} {limits : Limits} {witnessHash : Block → List Byte}
    {genesis : Block} {blocks top : List Block} {first second : List (AcceptContext × Block)}
    (htree : ValidTree n limits witnessHash genesis blocks) (hbest : MostWork n genesis blocks top)
    (hfirst : Complete n genesis blocks first) (hsecond : Complete n genesis blocks second)
    (htimely : (start n genesis).AllTimely n limits witnessHash first)
    (htimely' : (start n genesis).AllTimely n limits witnessHash second) :
    ∃ s t, (start n genesis).deliver n first = .ok s ∧ (start n genesis).deliver n second = .ok t ∧
      s.active.chain = t.active.chain ∧ s.active.chain = genesis :: top := by
  have hend : ∀ deliveries, Complete n genesis blocks deliveries →
    (start n genesis).AllTimely n limits witnessHash deliveries →
      ∃ s, (start n genesis).deliver n deliveries = .ok s ∧ s.active.chain = genesis :: top := by
    intro deliveries hcomplete htimely
    have hdistinct : ((genesis :: deliveries.map Prod.snd).map n.hash).Nodup :=
      ((hcomplete.perm.cons genesis).map n.hash).nodup_iff.mpr htree.distinct
    obtain ⟨s, hs, hknown⟩ :=
      exists_deliver htree hcomplete.perm.subset hdistinct hcomplete.parentsFirst htimely
    refine ⟨s, hs, ?_⟩
    have hle := hknown.best top (hbest.branch.mono hcomplete.perm.symm.subset)
    have htop : s.active.above = top := by
      by_contra hne
      exact absurd (hbest.unique _ (hknown.active.mono hcomplete.perm.subset) hne) (not_lt.mpr hle)
    rw [TipState.chain, hknown.root, htop]
  obtain ⟨s, hs, hchain⟩ := hend first hfirst htimely
  obtain ⟨t, ht, hchain'⟩ := hend second hsecond htimely'
  exact ⟨s, t, hs, ht, hchain.trans hchain'.symm, hchain⟩

/-! ### A fork -/

namespace Fork

open ValveRun PlainChain ChainNode

def node : NodeEnv where
  env := ValveRun.network
  extractDestination script := .keyID (BitVec.ofNat 160 script.length)
  readBlockFromDisk _ := true
  recover _ sig := some (BitVec.ofNat 160 sig.length)
  connectable _ _ := true

def coinbase (n : Nat) : Tx where
  nVersion := 2
  vin := [⟨⟨Uint256.ofNat 0, 0xffffffff⟩, Script.pushInt64 n ++ [0], SEQUENCE_FINAL, []⟩]
  vout := if n ≤ 12 then [⟨TICKET_PRICE * COIN, [OP_BUYTICKET]⟩, ⟨0, List.replicate n 0x51⟩]
    else [⟨0, [0x51]⟩]
  nLockTime := BitVec.ofNat 32 n

def parent (fork id : Nat) : Nat := if id = fork + 2 then fork else id - 1

def height (fork id : Nat) : Nat := if id ≤ fork + 1 then id else id - 1

def signature (fork id k : Nat) : List Byte := List.replicate (if id = fork + 3 then k + 5 else k) 1

def block (fork id : Nat) : Block :=
  { header id with
    hashPrevBlock := Uint256.ofNat (parent fork id)
    sig1 := signature fork id 1
    sig2 := signature fork id 2
    sig3 := signature fork id 3
    sig4 := signature fork id 4
    sig5 := signature fork id 5
    vtx := [coinbase (height fork id)] }

def line (fork k : Nat) : List Block := (List.range k).map fun j => block fork (j + 1)

def blocks (fork : Nat) : List Block := line fork (fork + 3)

def top (fork : Nat) : List Block := line fork fork ++ [block fork (fork + 2), block fork (fork + 3)]

variable {fork id k : Nat}

theorem plain_coinbase (n : Nat) : Coinbase n (coinbase n) := by
  by_cases hn : n ≤ 12
  · have hvout : (coinbase n).vout =
        [⟨TICKET_PRICE * COIN, [OP_BUYTICKET]⟩, ⟨0, List.replicate n 0x51⟩] := if_pos hn
    refine ⟨rfl, ?_, ?_, ?_, ?_, ?_, ?_⟩
    all_goals
      simp only [Tx.outputValue, hvout]
      clear hvout
      interval_cases n <;> decide
  · have hvout : (coinbase n).vout = [⟨0, [0x51]⟩] := if_neg hn
    refine ⟨rfl, ?_, ?_, ?_, ?_, ?_, ?_⟩
    all_goals
      simp only [Tx.outputValue, hvout]
      decide

theorem noTicket_coinbase {n : Nat} (hn : 12 < n) : (coinbase n).noTicket := by
  rw [coinbase, Tx.noTicket, if_neg (by omega)]
  rfl

theorem ticketOutputsPresent_coinbase (n : Nat) : (coinbase n).ticketOutputsPresent := by
  by_cases hn : n ≤ 12
  · rw [Tx.ticketOutputsPresent, show (coinbase n).vout = _ from if_pos hn]
  · rw [Tx.ticketOutputsPresent, show (coinbase n).vout = _ from if_neg hn]
    rfl

theorem length_signature (fork id : Nat) (hk : k ≤ 5) : (signature fork id k).length ≤ 10 := by
  rw [signature, List.length_replicate]
  split <;> omega

theorem coinbaseBlock_block (fork id : Nat) : CoinbaseBlock (height fork id) (block fork id) where
  nVersion := rfl
  nBits := rfl
  hashMerkleRoot := rfl
  headerSize := by
    have hsize : ∀ k ≤ 5, sizeOfBytes (signature fork id k) ≤ 11 := by
      intro k hk
      have hlength := length_signature fork id hk
      rw [sizeOfBytes, getSizeOfCompactSize, if_pos (by omega)]
      omega
    have h1 := hsize 1 (by omega)
    have h2 := hsize 2 (by omega)
    have h3 := hsize 3 (by omega)
    have h4 := hsize 4 (by omega)
    have h5 := hsize 5 (by omega)
    simp only [Block.headerSize, block]
    omega
  vtx := ⟨_, rfl, plain_coinbase _⟩

theorem hash_block (fork : Nat) (hid : id < 2 ^ 32) :
    node.hash (block fork id) = Uint256.ofNat id := blockHash_header hid

theorem mem_line {b : Block} : b ∈ line fork k ↔ ∃ id, 0 < id ∧ id ≤ k ∧ block fork id = b := by
  rw [line, List.mem_map]
  constructor
  · rintro ⟨j, hj, rfl⟩
    exact ⟨j + 1, by omega, List.mem_range.mp hj, rfl⟩
  · rintro ⟨id, hpos, hle, rfl⟩
    exact ⟨id - 1, List.mem_range.mpr (by omega), by rw [Nat.sub_add_cancel hpos]⟩

theorem mem_tree {b : Block} : b ∈ block fork 0 :: blocks fork ↔ ∃ id ≤ fork + 3, block fork id = b := by
  rw [List.mem_cons, blocks, mem_line]
  constructor
  · rintro (rfl | ⟨id, -, hle, rfl⟩)
    · exact ⟨0, by omega, rfl⟩
    · exact ⟨id, hle, rfl⟩
  · rintro ⟨id, hle, rfl⟩
    rcases Nat.eq_zero_or_pos id with rfl | hpos
    · exact .inl rfl
    · exact .inr ⟨id, hpos, hle, rfl⟩

theorem line_succ (fork k : Nat) : line fork (k + 1) = line fork k ++ [block fork (k + 1)] := by
  rw [line, List.range_succ, List.map_append, List.map_singleton, ← line]

theorem length_line (fork k : Nat) : (line fork k).length = k := by
  rw [line, List.length_map, List.length_range]

theorem parent_le (hid : id ≤ fork + 3) : parent fork id ≤ fork + 3 := by
  rw [parent]
  split <;> omega

section

variable (hfork : fork ≤ TICKET_VALVE)

include hfork

theorem lt_of_le_fork (hid : id ≤ fork + 3) : id < 2 ^ 32 := by
  rw [TICKET_VALVE] at hfork
  omega

theorem hash_inj {id' : Nat} (hid : id ≤ fork + 3) (hid' : id' ≤ fork + 3) :
    Uint256.ofNat id = Uint256.ofNat id' ↔ id = id' :=
  ofNat_inj (lt_of_le_fork hfork hid) (lt_of_le_fork hfork hid')

theorem distinct : ((block fork 0 :: blocks fork).map node.hash).Nodup := by
  have hhashes :
      (block fork 0 :: blocks fork).map node.hash = (List.range (fork + 4)).map Uint256.ofNat := by
    rw [List.range_succ_eq_map, List.map_cons, List.map_cons, hash_block fork (by decide), blocks,
      line, List.map_map, List.map_map]
    congr 1
    refine List.map_congr_left fun j hj => ?_
    exact hash_block fork (lt_of_le_fork hfork (List.mem_range.mp hj))
  rw [hhashes]
  refine List.Nodup.map_on (fun i hi j hj h => ?_) List.nodup_range
  exact (hash_inj hfork (Nat.lt_succ_iff.mp (List.mem_range.mp hi))
    (Nat.lt_succ_iff.mp (List.mem_range.mp hj))).mp h

theorem length_branch {above : List Block} (h : IsBranch node (block fork 0) (blocks fork) above) :
    ∃ id ≤ fork + 3, chainTip (block fork 0) above = block fork id ∧ above.length = height fork id := by
  obtain ⟨id, hle, htip⟩ := mem_tree.mp h.last_mem_nodes
  have hlength := h.length_eq (fun b => height fork b.nTime.toNat) rfl ?_
  · refine ⟨id, hle, htip.symm, hlength.trans ?_⟩
    rw [← htip]
    change height fork (BitVec.ofNat 32 id).toNat = _
    rw [BitVec.toNat_ofNat, Nat.mod_eq_of_lt (lt_of_le_fork hfork hle)]
  · intro a ha b hb hparent
    obtain ⟨i, hpos, hi, rfl⟩ := mem_line.mp ha
    obtain ⟨j, hj, rfl⟩ := mem_tree.mp hb
    rw [hash_block fork (lt_of_le_fork hfork hj)] at hparent
    have hparent : parent fork i = j := (hash_inj hfork (parent_le hi) hj).mp hparent
    change height fork (BitVec.ofNat 32 i).toNat = height fork (BitVec.ofNat 32 j).toNat + 1
    rw [BitVec.toNat_ofNat, BitVec.toNat_ofNat, Nat.mod_eq_of_lt (lt_of_le_fork hfork hi),
      Nat.mod_eq_of_lt (lt_of_le_fork hfork hj)]
    rw [parent] at hparent
    rw [height, height]
    split at hparent <;> split <;> split <;> omega

theorem workOf_branch {above : List Block} (h : IsBranch node (block fork 0) (blocks fork) above) :
    workOf (block fork 0) above = (above.length + 1) * getBlockProof 0x1f00ffff := by
  obtain ⟨id, hle, -, hlength⟩ := length_branch hfork h
  have hbits : ∀ b ∈ block fork 0 :: above, b.nBits = 0x1f00ffff := by
    intro b hb
    obtain ⟨id, -, rfl⟩ := mem_tree.mp (List.cons_subset_cons _ h.subset hb)
    rfl
  have hproof : getBlockProof 0x1f00ffff < 2 ^ 32 := by decide +kernel
  have hlow : above.length + 1 < 2 ^ 32 := by
    rw [hlength, height]
    rw [TICKET_VALVE] at hfork
    split <;> omega
  rw [workOf_of_bits hbits, Nat.mod_eq_of_lt]
  calc (above.length + 1) * getBlockProof 0x1f00ffff < 2 ^ 32 * 2 ^ 32 := Nat.mul_lt_mul'' hlow hproof
    _ ≤ 2 ^ 256 := by decide

theorem last_line (hk : k ≤ fork + 1) :
    node.hash (chainTip (block fork 0) (line fork k)) = Uint256.ofNat k := by
  rcases k with _ | k
  · rw [line, List.range_zero, List.map_nil, chainTip, last_nil, hash_block fork (by decide)]
  · rw [line_succ, chainTip, last_snoc, hash_block fork (lt_of_le_fork hfork (by omega))]

theorem branch_line (hk : k ≤ fork + 1) : IsBranch node (block fork 0) (blocks fork) (line fork k) := by
  induction k with
  | zero => exact .nil
  | succ k ih =>
    rw [line_succ]
    refine (ih (by omega)).snoc (mem_line.mpr ⟨k + 1, by omega, by omega, rfl⟩) ?_
    have hparent : parent fork (k + 1) = k := by rw [parent, if_neg (by omega), Nat.add_sub_cancel]
    change Uint256.ofNat (parent fork (k + 1)) = _
    rw [hparent]
    exact (last_line hfork (by omega)).symm

theorem branch_top :
    IsBranch node (block fork 0) (blocks fork) (line fork fork ++ [block fork (fork + 2)]) ∧
    IsBranch node (block fork 0) (blocks fork) (top fork) := by
  have hfirst :
      IsBranch node (block fork 0) (blocks fork) (line fork fork ++ [block fork (fork + 2)]) := by
    refine (branch_line hfork (Nat.le_succ _)).snoc (mem_line.mpr ⟨fork + 2, by omega, by omega, rfl⟩) ?_
    rw [last_line hfork (Nat.le_succ _)]
    change Uint256.ofNat (parent fork (fork + 2)) = _
    rw [parent, if_pos rfl]
  refine ⟨hfirst, ?_⟩
  have hsplit : top fork = (line fork fork ++ [block fork (fork + 2)]) ++
      [block fork (fork + 3)] := by rw [top]; simp
  rw [hsplit]
  refine hfirst.snoc (mem_line.mpr ⟨fork + 3, by omega, by omega, rfl⟩) ?_
  rw [last_snoc, hash_block fork (lt_of_le_fork hfork (by omega))]
  change Uint256.ofNat (parent fork (fork + 3)) = _
  rw [parent, if_neg (by omega)]
  rfl

theorem validOn {above : List Block} {b : Block}
    (h : IsBranch node (block fork 0) (blocks fork) (above ++ [b])) :
    ValidOn node PlainChain.limits (fun _ => []) (block fork 0) above b := by
  obtain ⟨hbelow, -, -⟩ := Branch.snoc_iff.mp h
  obtain ⟨id, hle, htip, hlength⟩ := length_branch hfork h
  rw [chainTip, last_snoc] at htip
  subst htip
  rw [List.length_append, List.length_singleton] at hlength
  have hbits : (chainIndex (block fork 0) above).header.nBits = 0x1f00ffff := by
    obtain ⟨below, -, hbelow, -⟩ := length_branch hfork hbelow
    rw [header_chainIndex, hbelow]
    rfl
  refine ⟨?_, ?_, ?_, ?_, rfl, ?_, ?_⟩
  · rw [checkBlockHeader, rule_eq_ok_iff]
    exact fun _ => checkProofOfWork_of_bits rfl
  · intro ctx tree hcheckpoints
    simp only [contextualCheckBlockHeader, Except.bind_eq_ok_iff, rule_eq_ok_iff, orFault_eq_ok_iff]
    refine ⟨_, getNextWorkRequired_of_bits hbits _, (), rfl, (), ?_, (), ?_, (), ?_, ?_⟩
    · rw [getLastCheckpoint, hcheckpoints]
      rintro pcheckpoint ⟨⟩
    · rintro ⟨⟨⟩, -⟩
    · rintro ⟨⟨⟩, -⟩
    · have hversion : (block fork id).header.nVersion = 4 := rfl
      omega
  · refine ⟨coinbase (height fork id), _, rfl, rfl, ?_⟩
    rw [hlength]
    exact List.prefix_append _ _
  · intro ctx hlimits _
    have hblock : CoinbaseBlock ((chainIndex (block fork 0) above).nHeight + 1) (block fork id) := by
      rw [nHeight_chainIndex, hlength]
      exact coinbaseBlock_block fork id
    exact hblock.checkNewBlock (e := PlainChain.plain) hlimits
  · refine ⟨fun _ => (by decide : SeedInRange 0), fun tx htx => ?_⟩
    obtain rfl := List.mem_singleton.mp htx
    exact ticketOutputsPresent_coinbase _
  · rw [workOf_branch hfork hbelow, workOf_branch hfork h, List.length_append, List.length_singleton]
    have hproof : 0 < getBlockProof 0x1f00ffff := by decide +kernel
    exact Nat.mul_lt_mul_of_pos_right (by omega) hproof

theorem validTree : ValidTree node PlainChain.limits (fun _ => []) (block fork 0) (blocks fork) where
  genesisHash := hash_block fork (by decide)
  distinct := distinct hfork
  rooted b hb := by
    obtain ⟨id, hpos, hle, rfl⟩ := mem_line.mp hb
    rcases Nat.lt_or_ge id (fork + 2) with hlow | hhigh
    · obtain ⟨k, rfl⟩ : ∃ k, id = k + 1 := ⟨id - 1, by omega⟩
      exact ⟨line fork k, line_succ fork k ▸ branch_line hfork (by omega)⟩
    · rcases Nat.eq_or_lt_of_le hhigh with rfl | hlast
      · exact ⟨_, (branch_top hfork).1⟩
      · obtain rfl : id = fork + 3 := by omega
        exact ⟨line fork fork ++ [block fork (fork + 2)], by simpa [top] using (branch_top hfork).2⟩
  valid _ _ h := validOn hfork h

theorem mostWork : MostWork node (block fork 0) (blocks fork) (top fork) where
  branch := (branch_top hfork).2
  unique above h hne := by
    obtain ⟨id, hle, htip, hlength⟩ := length_branch hfork h
    have htop : (top fork).length = fork + 2 := by rw [top, List.length_append, length_line]; rfl
    have hlast : id ≠ fork + 3 := by
      rintro rfl
      refine hne (Branch.eq_of_last (distinct hfork) h (branch_top hfork).2 ?_)
      rw [show last (block fork 0) above = _ from htip, top, List.append_cons, last_snoc]
    have hlow : above.length < fork + 2 := by
      rw [hlength, height]
      split <;> omega
    have hproof : 0 < getBlockProof 0x1f00ffff := by decide +kernel
    rw [workOf_branch hfork h, workOf_branch hfork (branch_top hfork).2, htop]
    exact Nat.mul_lt_mul_of_pos_right (by omega) hproof

end

/-! ### Two orders -/

def deliveries (fork : Nat) (ids : List Nat) : List (AcceptContext × Block) :=
  ids.map fun id => (PlainChain.ctx, block fork id)

def trunk (fork : Nat) : List Nat := (List.range fork).map (· + 1)

theorem map_deliveries (fork : Nat) (ids : List Nat) :
    (deliveries fork ids).map Prod.snd = ids.map (block fork) := by
  rw [deliveries, List.map_map]
  rfl

theorem deliveries_snoc (fork : Nat) (ids : List Nat) (id : Nat) :
    deliveries fork (ids ++ [id]) = deliveries fork ids ++ [(PlainChain.ctx, block fork id)] := by
  rw [deliveries, List.map_append, List.map_singleton, ← deliveries]

theorem trunk_succ (k : Nat) : trunk (k + 1) = trunk k ++ [k + 1] := by
  rw [trunk, List.range_succ, List.map_append, List.map_singleton, ← trunk]

theorem map_trunk (fork k : Nat) : (trunk k).map (block fork) = line fork k := by
  rw [trunk, List.map_map]
  rfl

theorem complete_of_perm {rest : List Nat} (hperm : rest.Perm [fork + 1, fork + 2, fork + 3])
    (hparents : ParentsFirst node (block fork 0) (deliveries fork (trunk fork ++ rest))) :
    Complete node (block fork 0) (blocks fork) (deliveries fork (trunk fork ++ rest)) where
  perm := by
    have hall : trunk (fork + 3) = trunk fork ++ [fork + 1, fork + 2, fork + 3] := by
      rw [trunk_succ, trunk_succ, trunk_succ, List.append_assoc, List.append_assoc]
      rfl
    rw [map_deliveries, blocks, ← map_trunk, hall]
    exact (hperm.append_left _).map _
  parentsFirst := hparents

theorem mem_trunk (fork : Nat) : fork ∈ 0 :: trunk fork := by
  rcases fork with _ | k
  · exact List.mem_cons_self
  · rw [trunk_succ]
    simp

section

variable (hfork : fork ≤ TICKET_VALVE)

include hfork

theorem parentsFirst_snoc {ids : List Nat}
    (h : ParentsFirst node (block fork 0) (deliveries fork ids)) (hid : id ≤ fork + 3)
    (hparent : parent fork id ∈ 0 :: ids) :
    ParentsFirst node (block fork 0) (deliveries fork (ids ++ [id])) := by
  rw [deliveries_snoc]
  refine h.snoc ?_
  have hhash : (block fork id).hashPrevBlock = node.hash (block fork (parent fork id)) :=
    (hash_block fork (lt_of_le_fork hfork (parent_le hid))).symm
  rw [map_deliveries, ← List.map_cons (f := block fork), hhash]
  exact List.mem_map_of_mem (List.mem_map_of_mem hparent)

theorem parentsFirst_trunk (hk : k ≤ fork) :
    ParentsFirst node (block fork 0) (deliveries fork (trunk k)) := by
  induction k with
  | zero => rintro before d after heq; simp [trunk, deliveries] at heq
  | succ k ih =>
    rw [trunk_succ]
    refine parentsFirst_snoc hfork (ih (by omega)) (by omega) ?_
    rw [parent, if_neg (by omega), Nat.add_sub_cancel]
    exact mem_trunk k

theorem complete_first :
    Complete node (block fork 0) (blocks fork)
      (deliveries fork (trunk fork ++ [fork + 1, fork + 2, fork + 3])) := by
  refine complete_of_perm (.refl _) ?_
  rw [List.append_cons, List.append_cons _ (fork + 2)]
  have hlast := mem_trunk fork
  refine parentsFirst_snoc hfork
    (parentsFirst_snoc hfork (parentsFirst_snoc hfork (parentsFirst_trunk hfork le_rfl) ?_ ?_) ?_
      ?_) ?_ ?_
  all_goals first | omega | skip
  · rw [parent, if_neg (by omega), Nat.add_sub_cancel]
    exact hlast
  · rw [parent, if_pos rfl]
    simp only [List.mem_cons, List.mem_append] at hlast ⊢
    tauto
  · rw [parent, if_neg (by omega)]
    simp

theorem complete_second :
    Complete node (block fork 0) (blocks fork)
      (deliveries fork (trunk fork ++ [fork + 2, fork + 3, fork + 1])) := by
  have hperm : [fork + 2, fork + 3, fork + 1].Perm [fork + 1, fork + 2, fork + 3] :=
    (List.perm_append_singleton (fork + 1) [fork + 2, fork + 3])
  refine complete_of_perm hperm ?_
  rw [List.append_cons, List.append_cons _ (fork + 3)]
  have hlast := mem_trunk fork
  refine parentsFirst_snoc hfork
    (parentsFirst_snoc hfork (parentsFirst_snoc hfork (parentsFirst_trunk hfork le_rfl) ?_ ?_) ?_
      ?_) ?_ ?_
  all_goals first | omega | skip
  · rw [parent, if_pos rfl]
    exact hlast
  · rw [parent, if_neg (by omega)]
    simp
  · rw [parent, if_neg (by omega), Nat.add_sub_cancel]
    simp only [List.mem_cons, List.mem_append] at hlast ⊢
    tauto

end

end Fork

open Fork ChainNode in
theorem tips_agree_fork_one :
    ∃ s t, (start node (block 1 0)).deliver node (deliveries 1 [1, 2, 3, 4]) = .ok s ∧
      (start node (block 1 0)).deliver node (deliveries 1 [1, 3, 4, 2]) = .ok t ∧
        s.active.chain = t.active.chain ∧
        s.active.chain = block 1 0 :: [block 1 1, block 1 3, block 1 4] := by
  have hfork : 1 ≤ TICKET_VALVE := by decide
  have htimely : ∀ ids (t : ChainNode) D, t.Known node (block 1 0) D → D ⊆ blocks 1 →
    ∀ d ∈ deliveries 1 ids,
      t.Timely node PlainChain.limits (fun _ => []) d.1 d.2 := by
    intro ids t D hknown hsub d hd
    obtain ⟨id, -, rfl⟩ := List.mem_map.mp hd
    obtain ⟨id, hle, -, hlength⟩ := length_branch hfork (hknown.active.mono hsub)
    have hlow : t.active.height ≤ 4 := by
      rw [TipState.height, hlength, height]
      split <;> omega
    refine ⟨rfl, rfl, ?_, ?_, rfl, by rintro _ ⟨⟩⟩
    · rw [checkLuckySignatures, signingTickets, if_neg (by rw [TICKET_VALVE]; omega)]
      rfl
    · rw [checkSync, Bool.or_eq_true, beq_iff_eq, decide_eq_true_iff, TipState.index,
        nHeight_chainIndex, nCheckpointSpan]
      rw [TipState.height] at hlow
      omega
  exact tips_agree (validTree hfork) (mostWork hfork) (complete_first hfork) (complete_second hfork)
    ((complete_first hfork).allTimely (validTree hfork) (htimely _))
      ((complete_second hfork).allTimely (validTree hfork) (htimely _))

/-! ### The fork at the valve -/

namespace Fork

open ValveRun PlainChain ChainNode

variable {k id h : Nat} {rest : List Block}

theorem nodup_blocks {ids : List Nat} (hnodup : (0 :: ids).Nodup)
    (hids : ∀ id ∈ ids, id ≤ TICKET_VALVE + 3) :
    ((block TICKET_VALVE 0 :: ids.map (block TICKET_VALVE)).map node.hash).Nodup := by
  have hle : ∀ id ∈ 0 :: ids, id ≤ TICKET_VALVE + 3 := by
    intro id hid
    rcases List.mem_cons.mp hid with rfl | hid
    · exact Nat.zero_le _
    · exact hids id hid
  rw [← List.map_cons (f := block TICKET_VALVE), List.map_map]
  refine List.Nodup.map_on (fun i hi j hj heq => ?_) hnodup
  simp only [Function.comp_apply, hash_block TICKET_VALVE (lt_of_le_fork le_rfl (hle i hi)),
    hash_block TICKET_VALVE (lt_of_le_fork le_rfl (hle j hj))] at heq
  exact (hash_inj le_rfl (hle i hi) (hle j hj)).mp heq

theorem mem_trunk_iff : id ∈ trunk k ↔ 0 < id ∧ id ≤ k := by
  rw [trunk, List.mem_map]
  constructor
  · rintro ⟨j, hj, rfl⟩
    exact ⟨by omega, List.mem_range.mp hj⟩
  · rintro ⟨hpos, hle⟩
    exact ⟨id - 1, List.mem_range.mpr (by omega), by omega⟩

theorem nodup_trunk (k : Nat) : (trunk k).Nodup := List.nodup_range.map (add_left_injective 1)

theorem subset_blocks {ids : List Nat} (hnodup : (0 :: ids).Nodup)
    (hids : ∀ id ∈ ids, id ≤ TICKET_VALVE + 3) :
    ids.map (block TICKET_VALVE) ⊆ blocks TICKET_VALVE := by
  intro b hb
  obtain ⟨i, hi, rfl⟩ := List.mem_map.mp hb
  refine mem_line.mpr ⟨i, Nat.pos_of_ne_zero ?_, hids i hi, rfl⟩
  rintro rfl
  exact (List.nodup_cons.mp hnodup).1 hi

theorem arrives {ids : List Nat} {above : List Block} (hnodup : (0 :: (ids ++ [id])).Nodup)
    (hids : ∀ i ∈ ids ++ [id], i ≤ TICKET_VALVE + 3)
    (hbelow : IsBranch node (block TICKET_VALVE 0) (ids.map (block TICKET_VALVE)) above)
    (hparent : Uint256.ofNat (parent TICKET_VALVE id) =
      node.hash (chainTip (block TICKET_VALVE 0) above)) :
    Arrives node PlainChain.limits (fun _ => []) (block TICKET_VALVE 0)
      (ids.map (block TICKET_VALVE)) above (block TICKET_VALVE id) := by
  have hmap : ids.map (block TICKET_VALVE) ++ [block TICKET_VALVE id] =
      (ids ++ [id]).map (block TICKET_VALVE) := by
    rw [List.map_append, List.map_singleton]
  refine arrives_of_tree (validTree le_rfl) ?_ ?_ hbelow hparent
  · rw [hmap]
    exact subset_blocks hnodup hids
  · rw [hmap]
    exact nodup_blocks hnodup hids

theorem timely {s : ChainNode} {D above : List Block} (hknown : s.Known node (block TICKET_VALVE 0) D)
    (harrives : Arrives node PlainChain.limits (fun _ => []) (block TICKET_VALVE 0) D above
      (block TICKET_VALVE id))
    (hsignatures : checkLuckySignatures node.tickets node.recover s.active (block TICKET_VALVE id) =
      .ok true)
    (hnear : s.active.height < above.length + nCheckpointSpan) :
    s.Timely node PlainChain.limits (fun _ => []) PlainChain.ctx (block TICKET_VALVE id) := by
  refine ⟨rfl, rfl, hsignatures, ?_, rfl, by rintro _ ⟨⟩⟩
  rw [checkSync, hknown.newIndex harrives, Bool.or_eq_true, decide_eq_true_iff, nHeight_chainIndex,
    TipState.index, nHeight_chainIndex, List.length_append, List.length_singleton]
  rw [TipState.height] at hnear
  omega

/-- A node with these blocks and this active chain, whose pool is the one loaded for its tip. -/
structure Follows (s : ChainNode) (ids : List Nat) (above : List Block) : Prop where
  deliver : (start node (block TICKET_VALVE 0)).deliver node (deliveries TICKET_VALVE ids) = .ok s
  known : s.Known node (block TICKET_VALVE 0) (ids.map (block TICKET_VALVE))
  above : s.active.above = above
  loaded : loadTicketpool node.tickets s.active.chain s.active.height = .ok s.active.pool

theorem deliver_next {s t : ChainNode} {ids : List Nat} {verdict : Bool}
    (hs : (start node (block TICKET_VALVE 0)).deliver node (deliveries TICKET_VALVE ids) = .ok s)
    (ht : s.processNewBlock node PlainChain.ctx (block TICKET_VALVE id) = .ok (t, verdict)) :
    (start node (block TICKET_VALVE 0)).deliver node (deliveries TICKET_VALVE (ids ++ [id])) = .ok t := by
  rw [deliveries_snoc, deliver_snoc, hs, Except.ok_bind, ht]
  rfl

theorem Follows.chain {s : ChainNode} {ids : List Nat} {above : List Block} (h : Follows s ids above) :
    s.active.chain = block TICKET_VALVE 0 :: above := by
  rw [TipState.chain, h.known.root, h.above]

theorem Follows.height {s : ChainNode} {ids : List Nat} {above : List Block} (h : Follows s ids above) :
    s.active.height = above.length := by
  rw [TipState.height, h.above]

theorem Follows.next {s : ChainNode} {ids : List Nat} {above : List Block} (h : Follows s ids above)
    (hnodup : (0 :: (ids ++ [id])).Nodup) (hids : ∀ i ∈ ids ++ [id], i ≤ TICKET_VALVE + 3)
    (hparent : Uint256.ofNat (parent TICKET_VALVE id) = node.hash (chainTip (block TICKET_VALVE 0) above))
    (hsignatures : checkLuckySignatures node.tickets node.recover s.active (block TICKET_VALVE id) =
      .ok true) :
    ∃ t, s.processNewBlock node PlainChain.ctx (block TICKET_VALVE id) = .ok (t, true) ∧
      Follows t (ids ++ [id]) (above ++ [block TICKET_VALVE id]) := by
  have harrives := arrives hnodup hids (h.above ▸ h.known.active) hparent
  have hnear : s.active.height < above.length + nCheckpointSpan := by
    rw [h.height, nCheckpointSpan]
    omega
  obtain ⟨t, ht, hknown, habove, hload⟩ :=
    h.known.step_tip h.loaded (h.above ▸ harrives) (timely h.known harrives hsignatures hnear)
  refine ⟨t, ht, deliver_next h.deliver ht, ?_, by rw [habove, h.above], hload⟩
  rw [List.map_append, List.map_singleton]
  exact hknown

theorem exists_trunk (hk : k ≤ TICKET_VALVE) : ∃ s, Follows s (trunk k) (line TICKET_VALVE k) := by
  induction k with
  | zero => exact ⟨_, rfl, known_start _ _, rfl, rfl⟩
  | succ k ih =>
    obtain ⟨s, hs⟩ := ih (by omega)
    rw [trunk_succ, line_succ]
    have hmem : ∀ i ∈ trunk k ++ [k + 1], 0 < i ∧ i ≤ k + 1 := by
      intro i hi
      rw [← trunk_succ] at hi
      exact mem_trunk_iff.mp hi
    have hsignatures :
        checkLuckySignatures node.tickets node.recover s.active (block TICKET_VALVE (k + 1)) =
          .ok true := by
      rw [checkLuckySignatures, signingTickets, hs.height, length_line, if_neg (by omega)]
      rfl
    have hparent : Uint256.ofNat (parent TICKET_VALVE (k + 1)) =
        node.hash (chainTip (block TICKET_VALVE 0) (line TICKET_VALVE k)) := by
      rw [last_line le_rfl (by omega), parent, if_neg (by omega), Nat.add_sub_cancel]
    have hnodup : (0 :: (trunk k ++ [k + 1])).Nodup := by
      rw [List.nodup_cons, ← trunk_succ]
      exact ⟨fun hzero => absurd (mem_trunk_iff.mp hzero).1 (lt_irrefl 0), nodup_trunk _⟩
    obtain ⟨t, -, ht⟩ :=
      hs.next hnodup (fun i hi => ((hmem i hi).2.trans hk).trans (by omega)) hparent hsignatures
    exact ⟨t, ht⟩

/-! ### The pool at the valve -/

theorem getElem?_line {fork j : Nat} (hj : j ≤ k) :
    (block fork 0 :: (line fork k ++ rest))[j]? = some (block fork j) := by
  rcases j with _ | j
  · rfl
  · rw [List.getElem?_cons_succ, List.getElem?_append_left (by rw [length_line]; omega), line,
      List.getElem?_map, List.getElem?_range (by omega), Option.map_some]

def held : TicketSet :=
  ((loadTicketpool node.tickets (block TICKET_VALVE 0 :: (line TICKET_VALVE 12 ++ []))
    76).toOption.getD TicketPool.new).ticket_pool

theorem load_trunk (rest : List Block) :
    loadTicketpool node.tickets (block TICKET_VALVE 0 :: (line TICKET_VALVE TICKET_VALVE ++ rest))
      TICKET_VALVE =
      .ok ⟨held, TICKET_VALVE - TICKETPOOL_HEIGHT_LATENCY⟩ := by
  have hbase :
    loadTicketpool node.tickets (block TICKET_VALVE 0 :: (line TICKET_VALVE TICKET_VALVE ++ rest))
      76 =
      .ok ⟨held, 76 - TICKETPOOL_HEIGHT_LATENCY⟩ := by
    have hfew : loadTicketpool node.tickets (block TICKET_VALVE 0 :: (line TICKET_VALVE 12 ++ [])) 76 =
        .ok ⟨held, 76 - TICKETPOOL_HEIGHT_LATENCY⟩ := by decide +kernel
    rw [← hfew]
    refine loadTicketpool_congr fun j hj => ?_
    rw [TICKETPOOL_HEIGHT_LATENCY] at hj
    rw [getElem?_line (by rw [TICKET_VALVE]; omega), getElem?_line (by omega)]
  have hearly : ∀ t ∈ held, t.ticketHeight < TICKETPOOL_HEIGHT_LATENCY := by decide +kernel
  refine loadTicketpool_of_quiet (by decide) hbase hearly (by decide) le_rfl fun j hj hle => ?_
  rw [TICKETPOOL_HEIGHT_LATENCY] at hj hle
  refine ⟨_, getElem?_line (by omega), rfl, List.forall_mem_singleton.mpr (noTicket_coinbase ?_)⟩
  rw [height, if_pos (by omega)]
  omega

def draw (tickets : TicketSet) (h : Nat) : Except Fault (List Ticket) :=
  tickets.drawTickets
    (luckyIndices (Uint256.ofNat (h - TICKETPOOL_HEIGHT_LATENCY)).getHex (seedResidue 0)
      tickets.size)

theorem luckyTickets_line (tickets : TicketSet) (hlatency : TICKETPOOL_HEIGHT_LATENCY ≤ h)
    (hh : h ≤ TICKET_VALVE + TICKETPOOL_HEIGHT_LATENCY) :
    luckyTickets node.env.hashing (block TICKET_VALVE 0 :: (line TICKET_VALVE TICKET_VALVE ++ rest))
      tickets h 0 = draw tickets h := by
  have hseed : SeedInRange 0 := by decide
  have hat :
    chainAt (block TICKET_VALVE 0 :: (line TICKET_VALVE TICKET_VALVE ++ rest))
      (h - TICKETPOOL_HEIGHT_LATENCY) =
      some (block TICKET_VALVE (h - TICKETPOOL_HEIGHT_LATENCY)) := by
    rw [chainAt, if_neg (by omega), show ((h : Int) - TICKETPOOL_HEIGHT_LATENCY).toNat =
      h - TICKETPOOL_HEIGHT_LATENCY by omega]
    exact getElem?_line (by omega)
  rw [luckyTickets, getLuckyIndex, hat]
  simp only [hseed, if_true]
  rw [Except.ok_bind,
    show node.env.hashing.blockHash
      (block TICKET_VALVE (h - TICKETPOOL_HEIGHT_LATENCY)).toBlockHeader = _ from
    hash_block TICKET_VALVE (lt_of_le_fork le_rfl (by omega)), draw]

theorem updateTicketpool_line (tickets : TicketSet) (hvalve : TICKET_VALVE ≤ h)
    (hh : h < TICKET_VALVE + TICKETPOOL_HEIGHT_LATENCY) :
    updateTicketpool node.tickets (block TICKET_VALVE 0 :: (line TICKET_VALVE TICKET_VALVE ++ rest))
        ⟨tickets, h - TICKETPOOL_HEIGHT_LATENCY⟩ (h + 1) =
      (draw tickets h >>= fun lucky =>
        pure ⟨expireTickets (lucky.foldl TicketSet.ticketDel tickets) (h + 1),
        h + 1 - TICKETPOOL_HEIGHT_LATENCY⟩) := by
  have hlatency : TICKETPOOL_HEIGHT_LATENCY ≤ h := le_trans (by decide) hvalve
  have hnone : ∀ pool, (block TICKET_VALVE (h + 1 - TICKETPOOL_HEIGHT_LATENCY)).vtx.foldlM
      (buyTicket node.tickets (h + 1 - TICKETPOOL_HEIGHT_LATENCY)) pool = .ok pool := by
    intro pool
    have hcoinbase : (coinbase (height TICKET_VALVE (h + 1 - TICKETPOOL_HEIGHT_LATENCY))).noTicket := by
      refine noTicket_coinbase ?_
      rw [TICKET_VALVE] at hvalve
      rw [height, TICKETPOOL_HEIGHT_LATENCY]
      split <;> omega
    rw [show (block TICKET_VALVE (h + 1 - TICKETPOOL_HEIGHT_LATENCY)).vtx = [_] from rfl,
      List.foldlM_cons, buyTicket_of_noTicket hcoinbase]
    rfl
  have hdue : h - TICKETPOOL_HEIGHT_LATENCY < h + 1 - TICKETPOOL_HEIGHT_LATENCY := by omega
  rw [updateTicketpool_of_due hdue (getElem?_line (by omega)) rfl, advanceTickets, departingTickets,
    if_pos (by omega),
    Nat.add_sub_cancel]
  change (luckyTickets node.env.hashing _ tickets h 0 >>= _) >>= _ = _
  rw [luckyTickets_line tickets hlatency (by omega)]
  simp only [hnone, bind_assoc, Except.ok_bind]

def remaining (k : Nat) : TicketSet := held.filter fun t => 5 * k < t.ticketHeight

theorem load_above (rest : List Block) (hk : k ≤ 2) :
    loadTicketpool node.tickets (block TICKET_VALVE 0 :: (line TICKET_VALVE TICKET_VALVE ++ rest))
      (TICKET_VALVE + k) =
      .ok ⟨remaining k, TICKET_VALVE + k - TICKETPOOL_HEIGHT_LATENCY⟩ := by
  have hleave : ∀ k < 2, (draw (remaining k) (TICKET_VALVE + k) >>= fun lucky =>
      pure (expireTickets (lucky.foldl TicketSet.ticketDel (remaining k)) (TICKET_VALVE + k + 1))) =
        .ok (remaining (k + 1)) := by
    decide +kernel
  induction k with
  | zero =>
    have hall : remaining 0 = held := by decide +kernel
    rw [hall]
    exact load_trunk rest
  | succ k ih =>
    have hlatency : k < TICKETPOOL_HEIGHT_LATENCY := by rw [TICKETPOOL_HEIGHT_LATENCY]; omega
    obtain ⟨lucky, hlucky, hafter⟩ := Except.bind_eq_ok_iff.mp (hleave k hk)
    rw [← Nat.add_assoc, loadTicketpool_succ, ih (by omega), Except.ok_bind,
      updateTicketpool_line _ (by omega) (by omega), hlucky,
      Except.ok_bind, Except.ok.inj hafter]
    rfl

def verdict (tickets : TicketSet) (h id : Nat) : Except Fault Bool :=
  draw tickets h >>= fun lucky => pure ((lucky.zipIdx 1).all fun p =>
    checkSigwithAddress node.env.hashing node.recover
      (block TICKET_VALVE id).header p.1.ticketAddress p.2)

theorem Follows.signingTickets {s : ChainNode} {ids : List Nat} {b : Block}
    (h : Follows s ids (line TICKET_VALVE TICKET_VALVE ++ rest)) (hrest : rest.length ≤ 2)
    (hseed : b.seed = 0) :
    signingTickets node.tickets s.active b =
      draw (remaining rest.length) (TICKET_VALVE + rest.length) := by
  have hheight : s.active.height = TICKET_VALVE + rest.length := by
    rw [h.height, List.length_append, length_line]
  have hpool := h.loaded
  rw [h.chain, hheight, load_above rest hrest] at hpool
  have hlatency : 64 = TICKETPOOL_HEIGHT_LATENCY := rfl
  have hvalve : 5000 = TICKET_VALVE := rfl
  rw [TscPow.signingTickets, if_pos (by omega), ← Except.ok.inj hpool, h.chain, hheight, hseed]
  exact luckyTickets_line _ (by omega) (by omega)

theorem Follows.checkLuckySignatures {s : ChainNode} {ids : List Nat}
    (h : Follows s ids (line TICKET_VALVE TICKET_VALVE ++ rest)) (hrest : rest.length ≤ 2) (id : Nat) :
    checkLuckySignatures node.tickets node.recover s.active (block TICKET_VALVE id) =
      verdict (remaining rest.length) (TICKET_VALVE + rest.length) id := by
  rw [TscPow.checkLuckySignatures, h.signingTickets hrest rfl, verdict]
  rfl

theorem verdict_first : ∀ id ∈ [TICKET_VALVE + 1, TICKET_VALVE + 2],
    verdict (remaining 0) TICKET_VALVE id = .ok true := by
  decide +kernel

theorem verdict_second : verdict (remaining 1) (TICKET_VALVE + 1) (TICKET_VALVE + 2) = .ok false ∧
    verdict (remaining 1) (TICKET_VALVE + 1) (TICKET_VALVE + 3) = .ok true := by
  decide +kernel

theorem verdict_third : verdict (remaining 2) (TICKET_VALVE + 2) (TICKET_VALVE + 1) = .ok true := by
  decide +kernel

theorem signedBy_of_verdict (rest : List Block) (hrest : rest.length ≤ 1)
    (hverdict : verdict (remaining rest.length) (TICKET_VALVE + rest.length) id = .ok true) :
    Node.SignedBy node (block TICKET_VALVE id)
      (block TICKET_VALVE 0 :: (line TICKET_VALVE TICKET_VALVE ++ rest)) := by
  have hlength : (block TICKET_VALVE 0 :: (line TICKET_VALVE TICKET_VALVE ++ rest)).length - 1 =
      TICKET_VALVE + rest.length := by
    rw [List.length_cons, Nat.add_sub_cancel, List.length_append, length_line]
  have hlatency : 64 = TICKETPOOL_HEIGHT_LATENCY := rfl
  have hvalve : 5000 = TICKET_VALVE := rfl
  have hsize : ∀ k ≤ 1, 5 < (remaining k).size := by decide +kernel
  obtain ⟨lucky, hdraw, hall⟩ := Except.bind_eq_ok_iff.mp hverdict
  have hlucky :
    luckyTickets node.env.hashing (block TICKET_VALVE 0 :: (line TICKET_VALVE TICKET_VALVE ++ rest))
      (remaining rest.length)
      (TICKET_VALVE + rest.length) 0 = .ok lucky := by
    rw [luckyTickets_line _ (by omega) (by omega), hdraw]
  refine ⟨⟨remaining rest.length, _⟩, lucky, by rw [hlength]; exact load_above rest (by omega),
    by rw [hlength]; exact hlucky, ?_,
    nodup_luckyTickets hlucky, ?_⟩
  · rw [length_luckyTickets hlucky, if_pos (hsize _ hrest)]
  · exact List.all_eq_true.mp (Except.ok.inj hall)

theorem nodup_ids {extra : List Nat} (hnodup : extra.Nodup) (habove : ∀ id ∈ extra, TICKET_VALVE < id) :
    (0 :: (trunk TICKET_VALVE ++ extra)).Nodup := by
  rw [List.nodup_cons, List.mem_append, mem_trunk_iff, List.nodup_append]
  refine ⟨?_, nodup_trunk _, hnodup, ?_⟩
  · rintro (⟨hpos, -⟩ | hzero)
    · exact lt_irrefl 0 hpos
    · exact absurd (habove 0 hzero) (Nat.not_lt_zero _)
  · rintro i hi j hj rfl
    exact absurd (habove i hj) (not_lt.mpr (mem_trunk_iff.mp hi).2)

theorem ids_le {extra : List Nat} (hextra : ∀ id ∈ extra, id ≤ TICKET_VALVE + 3) :
    ∀ i ∈ trunk TICKET_VALVE ++ extra, i ≤ TICKET_VALVE + 3 := by
  intro i hi
  rcases List.mem_append.mp hi with hi | hi
  · exact (mem_trunk_iff.mp hi).2.trans (Nat.le_add_right _ _)
  · exact hextra i hi

theorem Follows.above_trunk {s : ChainNode}
    (hs : Follows s (trunk TICKET_VALVE) (line TICKET_VALVE TICKET_VALVE))
    (hid : id ∈ [TICKET_VALVE + 1, TICKET_VALVE + 2]) :
    ∃ t, s.processNewBlock node PlainChain.ctx (block TICKET_VALVE id) = .ok (t, true) ∧
      Follows t (trunk TICKET_VALVE ++ [id])
        (line TICKET_VALVE TICKET_VALVE ++ [block TICKET_VALVE id]) := by
  have hvalues : id = TICKET_VALVE + 1 ∨ id = TICKET_VALVE + 2 := by simpa using hid
  have hs' : Follows s (trunk TICKET_VALVE) (line TICKET_VALVE TICKET_VALVE ++ []) := by
    rwa [List.append_nil]
  have hcheck := hs'.checkLuckySignatures (Nat.zero_le _) id
  refine hs.next ?_ ?_ ?_ (hcheck.trans (verdict_first id hid))
  · exact nodup_ids (List.nodup_singleton _) (List.forall_mem_singleton.mpr (by omega))
  · exact ids_le (List.forall_mem_singleton.mpr (by omega))
  · rw [last_line le_rfl (Nat.le_succ _), parent]
    split <;> congr 1
    omega

theorem exists_above (id : Nat) (hid : id ∈ [TICKET_VALVE + 1, TICKET_VALVE + 2]) :
    ∃ t, Follows t (trunk TICKET_VALVE ++ [id])
      (line TICKET_VALVE TICKET_VALVE ++ [block TICKET_VALVE id]) := by
  obtain ⟨s, hs⟩ := exists_trunk le_rfl
  obtain ⟨t, -, ht⟩ := hs.above_trunk hid
  exact ⟨t, ht⟩

theorem exists_first : ∃ s, (start node (block TICKET_VALVE 0)).deliver node
      (deliveries TICKET_VALVE
        (trunk TICKET_VALVE ++ [TICKET_VALVE + 1, TICKET_VALVE + 2, TICKET_VALVE + 3])) = .ok s ∧
    s.active.tip = block TICKET_VALVE (TICKET_VALVE + 1) := by
  obtain ⟨s, hs⟩ := exists_above (TICKET_VALVE + 1) (by simp)
  have hsecond : s.processNewBlock node PlainChain.ctx (block TICKET_VALVE (TICKET_VALVE + 2)) =
      .ok (s, false) :=
    processNewBlock_of_unsigned ((hs.checkLuckySignatures (Nat.le_succ 1) _).trans verdict_second.1)
  have hfresh : ∀ id, TICKET_VALVE + 1 < id → id ≤ TICKET_VALVE + 3 →
      s.tree.mapBlockIndex (Uint256.ofNat id) = none := by
    intro id hlow hhigh
    refine hs.known.fresh _ fun hmem => ?_
    rw [← List.map_cons (f := block TICKET_VALVE), List.map_map, List.mem_map] at hmem
    obtain ⟨j, hj, hhash⟩ := hmem
    have hle : j ≤ TICKET_VALVE + 1 := by
      rw [List.mem_cons, List.mem_append, mem_trunk_iff, List.mem_singleton] at hj
      omega
    rw [Function.comp_apply, hash_block TICKET_VALVE (lt_of_le_fork le_rfl (by omega)),
      hash_inj le_rfl (by omega) hhigh] at hhash
    omega
  have hhash : node.hash (block TICKET_VALVE (TICKET_VALVE + 3)) =
      Uint256.ofNat (TICKET_VALVE + 3) := hash_block TICKET_VALVE (by decide)
  have hgenesis :
      node.hash (block TICKET_VALVE (TICKET_VALVE + 3)) ≠ node.env.params.hashGenesisBlock := by
    rw [hhash]
    exact fun heq => absurd ((hash_inj le_rfl le_rfl (Nat.zero_le _)).mp heq) (by decide)
  have hnew : s.tree.mapBlockIndex (node.hash (block TICKET_VALVE (TICKET_VALVE + 3))) = none := by
    rw [hhash]
    exact hfresh _ (by decide) le_rfl
  have hparent : s.tree.mapBlockIndex (block TICKET_VALVE (TICKET_VALVE + 3)).hashPrevBlock = none :=
    hfresh (parent TICKET_VALVE (TICKET_VALVE + 3)) (by decide) (by decide)
  obtain ⟨t, ht, hactive⟩ := processNewBlock_of_orphan PlainChain.ctx
    ((hs.checkLuckySignatures (Nat.le_succ 1) _).trans verdict_second.2)
    ((coinbaseBlock_block _ _).checkBlock (e := PlainChain.plain)) hgenesis hnew hparent
  refine ⟨t, ?_, ?_⟩
  · rw [List.append_cons, List.append_cons _ (TICKET_VALVE + 2)]
    exact deliver_next (deliver_next hs.deliver hsecond) ht
  · rw [hactive, TipState.tip, hs.above, chainTip, last_snoc]

theorem exists_second : ∃ s, (start node (block TICKET_VALVE 0)).deliver node
      (deliveries TICKET_VALVE
        (trunk TICKET_VALVE ++ [TICKET_VALVE + 2, TICKET_VALVE + 3, TICKET_VALVE + 1])) = .ok s ∧
    s.active.tip = block TICKET_VALVE (TICKET_VALVE + 3) := by
  obtain ⟨s, hs⟩ := exists_above (TICKET_VALVE + 2) (by simp)
  obtain ⟨t, ht⟩ : ∃ t,
      Follows t (trunk TICKET_VALVE ++ [TICKET_VALVE + 2, TICKET_VALVE + 3])
        (top TICKET_VALVE) := by
    have hcheck := (hs.checkLuckySignatures (Nat.le_succ 1) _).trans verdict_second.2
    have htop : top TICKET_VALVE =
      (line TICKET_VALVE TICKET_VALVE ++ [block TICKET_VALVE (TICKET_VALVE + 2)]) ++
        [block TICKET_VALVE (TICKET_VALVE + 3)] := by rw [top, List.append_assoc]; rfl
    have hparent : Uint256.ofNat (parent TICKET_VALVE (TICKET_VALVE + 3)) =
      node.hash (chainTip (block TICKET_VALVE 0)
        (line TICKET_VALVE TICKET_VALVE ++ [block TICKET_VALVE (TICKET_VALVE + 2)])) := by
      rw [chainTip, last_snoc, hash_block TICKET_VALVE (by decide)]
      rfl
    rw [htop, List.append_cons]
    obtain ⟨t, -, ht⟩ := hs.next (by rw [List.append_assoc]; exact nodup_ids (by simp) (by simp))
      (by rw [List.append_assoc]; exact ids_le (by simp)) hparent hcheck
    exact ⟨t, ht⟩
  have hsplit : trunk TICKET_VALVE ++ [TICKET_VALVE + 2, TICKET_VALVE + 3, TICKET_VALVE + 1] =
      (trunk TICKET_VALVE ++ [TICKET_VALVE + 2, TICKET_VALVE + 3]) ++
        [TICKET_VALVE + 1] := by rw [List.append_assoc]; rfl
  have hnodup :
      (0 :: (trunk TICKET_VALVE ++ [TICKET_VALVE + 2, TICKET_VALVE + 3, TICKET_VALVE + 1])).Nodup :=
    nodup_ids (by simp) (by simp)
  have hids : ∀ i ∈ trunk TICKET_VALVE ++ [TICKET_VALVE + 2, TICKET_VALVE + 3, TICKET_VALVE + 1],
      i ≤ TICKET_VALVE + 3 := ids_le (by simp)
  have harrives : Arrives node PlainChain.limits (fun _ => []) (block TICKET_VALVE 0)
      ((trunk TICKET_VALVE ++ [TICKET_VALVE + 2, TICKET_VALVE + 3]).map (block TICKET_VALVE))
        (line TICKET_VALVE TICKET_VALVE)
      (block TICKET_VALVE (TICKET_VALVE + 1)) := by
    refine arrives (hsplit ▸ hnodup) (hsplit ▸ hids) ?_ ?_
    · obtain ⟨u, hu⟩ := exists_trunk le_rfl
      refine (hu.above ▸ hu.known.active).mono ?_
      rw [List.map_append]
      exact List.subset_append_left _ _
    · rw [last_line le_rfl (Nat.le_succ _), parent, if_neg (by omega), Nat.add_sub_cancel]
  have hnear : t.active.height < (line TICKET_VALVE TICKET_VALVE).length + nCheckpointSpan := by
    rw [ht.height, top, List.length_append]
    exact Nat.add_lt_add_left (by decide) _
  obtain ⟨u, hu, hknown, -⟩ := ht.known.step harrives
    (timely ht.known harrives ((ht.checkLuckySignatures le_rfl _).trans verdict_third) hnear)
  refine ⟨u, ?_, ?_⟩
  · rw [hsplit]
    exact deliver_next ht.deliver hu
  · have hsub := subset_blocks hnodup hids
    rw [hsplit, List.map_append, List.map_singleton] at hsub
    have hle :=
      hknown.best (top TICKET_VALVE)
        ((ht.above ▸ ht.known.active).mono (List.subset_append_left _ _))
    have htop : u.active.above = top TICKET_VALVE := by
      by_contra hne
      exact absurd ((mostWork le_rfl).unique _ (hknown.active.mono hsub) hne) (not_lt.mpr hle)
    rw [TipState.tip, htop, top, List.append_cons, chainTip, last_snoc]

end Fork

open Fork ChainNode in
/-- The fork at the valve: twelve tickets, and each block is signed by the lucky tickets of its own parent chain. The node that gets the shorter branch first holds the signatures on the other one against the tickets left after its own tip, rejects it and then its child; the other node takes all blocks. -/
theorem tips_differ_at_valve :
    ValidTree node PlainChain.limits (fun _ => []) (block TICKET_VALVE 0) (blocks TICKET_VALVE) ∧
      MostWork node (block TICKET_VALVE 0) (blocks TICKET_VALVE) (top TICKET_VALVE) ∧
      (∀ id ∈ [TICKET_VALVE + 1, TICKET_VALVE + 2],
        Node.SignedBy node (block TICKET_VALVE id)
          (block TICKET_VALVE 0 :: line TICKET_VALVE TICKET_VALVE)) ∧
      Node.SignedBy node (block TICKET_VALVE (TICKET_VALVE + 3))
        (block TICKET_VALVE 0 ::
          (line TICKET_VALVE TICKET_VALVE ++ [block TICKET_VALVE (TICKET_VALVE + 2)])) ∧
      ∃ first second s t,
        Complete node (block TICKET_VALVE 0) (blocks TICKET_VALVE) first ∧
          Complete node (block TICKET_VALVE 0) (blocks TICKET_VALVE) second ∧
        (start node (block TICKET_VALVE 0)).deliver node first = .ok s ∧
        (start node (block TICKET_VALVE 0)).deliver node second = .ok t ∧
        s.active.tip = block TICKET_VALVE (TICKET_VALVE + 1) ∧
          t.active.tip = block TICKET_VALVE (TICKET_VALVE + 3) ∧
        s.active.tip ≠ t.active.tip := by
  obtain ⟨s, hs, htip⟩ := exists_first
  obtain ⟨t, ht, htip'⟩ := exists_second
  refine ⟨validTree le_rfl, mostWork le_rfl, fun id hid => ?_,
    signedBy_of_verdict _ (Nat.le_refl 1) verdict_second.2, _, _, s, t,
    complete_first le_rfl, complete_second le_rfl, hs, ht, htip, htip', ?_⟩
  · have hsigned := signedBy_of_verdict [] (Nat.zero_le _) (verdict_first id hid)
    rwa [List.append_nil] at hsigned
  · rw [htip, htip']
    intro heq
    have htime := congrArg (fun b : Block => b.nTime) heq
    exact absurd htime (by decide)

end TscPow
