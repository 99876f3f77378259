import TscPow.Node.Activate

/-!
# Relaying a block until it is signed

A block that has its proof of work is passed from node to node while the owners of the lucky tickets sign it: `SIGNNEWBLOCKHEADER`, `NewMixedPoWValidBlock` and the handlers of `POWNEWBLOCKHEADER` and `POWNEWBLOCK` (`net_processing.cpp`), the time-out in `ThreadMessageHandler` (`net.cpp`), and the reset after `ProcessNetBlock` has accepted a block. All of them work on the one block that the node relays.
-/

namespace TscPow

/-! ### Headers and their signatures -/

namespace BlockHeader

def null : BlockHeader :=
  ⟨0, Uint256.ofNat 0, Uint256.ofNat 0, 0, 0, Uint256.ofNat 0, Uint256.ofNat 0, 0, 0, 0, [], [], [],
    [], []⟩

def isNull (h : BlockHeader) : Bool := h.nBits == 0

/-- `CBlockHeader::index`: how many signatures there are before the first empty one. -/
def index (h : BlockHeader) : Nat :=
  if h.sig1 = [] then 0
  else if h.sig2 = [] then 1
  else if h.sig3 = [] then 2
  else if h.sig4 = [] then 3
  else if h.sig5 = [] then 4
  else 5

def setSig (h : BlockHeader) (sig : List Byte) : Nat → BlockHeader
  | 1 => { h with sig1 := sig }
  | 2 => { h with sig2 := sig }
  | 3 => { h with sig3 := sig }
  | 4 => { h with sig4 := sig }
  | 5 => { h with sig5 := sig }
  | _ => h

/-- The header without its signatures, which is what is hashed. -/
def unsigned (h : BlockHeader) : BlockHeader :=
  { h with sig1 := [], sig2 := [], sig3 := [], sig4 := [], sig5 := [] }

variable {h : BlockHeader} {sig : List Byte} {k : Nat}

theorem eq_of_unsigned {h' : BlockHeader} (heq : h'.unsigned = h.unsigned) :
    h'.hashPrevBlock = h.hashPrevBlock ∧ h'.hashMerkleRoot = h.hashMerkleRoot ∧ h'.seed = h.seed ∧
      h'.isNull = h.isNull := by
  simp only [unsigned, BlockHeader.mk.injEq] at heq
  obtain ⟨-, hprev, hroot, -, hbits, -, -, hseed, -⟩ := heq
  exact ⟨hprev, hroot, hseed, by rw [isNull, isNull, hbits]⟩

theorem unsigned_setSig (h : BlockHeader) (sig : List Byte) (k : Nat) :
    (h.setSig sig k).unsigned = h.unsigned := by
  unfold setSig
  split <;> rfl

theorem sig_setSig (sig : List Byte) (hk : 1 ≤ k) (hk' : k ≤ 5) (j : Nat) :
    (h.setSig sig k).sig j = if j = k then some sig else h.sig j := by
  by_cases hj : j = k
  · rw [if_pos hj, hj]
    interval_cases k <;> rfl
  · rw [if_neg hj]
    interval_cases k <;> (unfold BlockHeader.sig; split <;> first | rfl | omega)

theorem le_index_iff (hk : k ≤ 5) : k ≤ h.index ↔ ∀ j, 1 ≤ j → j ≤ k → h.sig j ≠ some [] := by
  constructor
  · intro hle j hj hjk
    have hj5 : j ≤ 5 := hjk.trans hk
    rw [index] at hle
    interval_cases j <;> simp only [BlockHeader.sig, ne_eq, Option.some.injEq] <;> grind
  · intro hall
    have h1 := hall 1
    have h2 := hall 2
    have h3 := hall 3
    have h4 := hall 4
    have h5 := hall 5
    simp only [BlockHeader.sig, ne_eq, Option.some.injEq] at h1 h2 h3 h4 h5
    unfold index
    split_ifs <;> grind

theorem index_le (h : BlockHeader) : h.index ≤ 5 := by
  rw [index]
  grind

theorem index_lt_index_setSig (hsig : sig ≠ []) (hlt : h.index < 5) :
    h.index < (h.setSig sig (h.index + 1)).index := by
  refine (le_index_iff hlt).mpr fun j hj hj' => ?_
  rw [sig_setSig _ (by omega) hlt]
  split
  · simpa using hsig
  · exact (le_index_iff hlt.le).mp le_rfl j hj (by omega)

end BlockHeader

/-! ### The node's keys -/

/-- The first wallet: `SignCompact` with the key of an address, in base64, if the wallet has that key. A signature is not empty and recovers to its key. -/
structure Wallet (recover : Recover) where
  signCompact : Address → Uint256 → Option (List Byte)
  nonempty : ∀ keyID hash sig, signCompact keyID hash = some sig → sig ≠ []
  recovers : ∀ keyID hash sig, signCompact keyID hash = some sig → recover hash sig = some keyID

/-- The node's environment with its wallet and the address that signs below `TICKET_VALVE`. Block hashes do not cover the signatures. -/
structure RelayEnv extends NodeEnv where
  wallet : Wallet recover
  default_pos_miner : Destination
  hash_unsigned : ∀ h : BlockHeader, env.hashing.blockHash h.unsigned = env.hashing.blockHash h

def Block.null : Block := { BlockHeader.null with vtx := [] }

def Block.changeHeader (block : Block) (header : BlockHeader) : Block := { header with vtx := block.vtx }

def Block.setSig (block : Block) (sig : List Byte) (k : Nat) : Block :=
  block.changeHeader (block.header.setSig sig k)

/-- `SignBlockwithAddress`: the block with its new signature, unless the address is no key or the wallet does not have it. -/
def signBlockwithAddress (r : RelayEnv) (needsignblock : Block) (address : Destination)
    (index : Nat) : Option Block :=
  match address with
  | .keyID keyID => (r.wallet.signCompact keyID (r.hash needsignblock)).map fun sig =>
    needsignblock.setSig sig index
  | _ => none

theorem signBlockwithAddress_eq_some {r : RelayEnv} {needsignblock block : Block}
    {address : Destination} {index : Nat}
    (h : signBlockwithAddress r needsignblock address index = some block) :
    ∃ keyID sig, address = .keyID keyID ∧ r.wallet.signCompact keyID (r.hash needsignblock) = some sig ∧
      block = needsignblock.setSig sig index := by
  unfold signBlockwithAddress at h
  split at h
  · rename_i keyID
    obtain ⟨sig, hsig, rfl⟩ := Option.map_eq_some_iff.mp h
    exact ⟨keyID, sig, rfl, hsig, rfl⟩
  · cases h

/-! ### The state -/

abbrev NodeId := Nat

def RelayingBlockMaxLimit : Int := 15
def RelayingBlockMinLimit : Int := 10

/-- The clock, the peers that `ForEachNode` sends to, and what the acceptance of a block reads besides the node. -/
structure RelayContext where
  now : Int
  nodes : List NodeId
  accept : AcceptContext

/-- The relay variables of a node beside its chain. `signed` lists the headers that the node has signed and `sent` the `POWNEWBLOCKHEADER` messages it has sent; the code keeps neither. -/
structure Relay where
  chain : ChainNode
  nRelayingBlock : Block
  nRelayingTime : Int
  nNextChoice : BitVec 32
  nDownLoadingRelayingHash : Uint256
  nMixedPowHeader : NodeId → BlockHeader
  signed : List BlockHeader
  sent : List (NodeId × BlockHeader)

namespace Relay

variable (r : RelayEnv) (ctx : RelayContext)

def start (chain : ChainNode) : Relay :=
  ⟨chain, .null, 0, 0, Uint256.ofNat 0, fun _ => .null, [], []⟩

def tipHash (s : Relay) : Uint256 := s.chain.tipHash r.toNodeEnv

def reset (s : Relay) (nNextChoice : BitVec 32) : Relay :=
  { s with nRelayingBlock := .null, nRelayingTime := 0, nNextChoice }

/-- The address that signs next: that of a lucky ticket, read without a check of its position, or the fixed one below `TICKET_VALVE`. -/
def signingAddress (active : TipState) (tickets : List Ticket) (index : Nat) : Except Fault Destination :=
  if active.height ≥ TICKET_VALVE then
    match tickets[index]? with
    | some ticket => .ok ticket.ticketAddress
    | none => .error .undefined
  else .ok r.default_pos_miner

/-- A block with five signatures goes to `ProcessNewBlock`. -/
def submitSigned (s : Relay) : Except Fault Relay := do
  let (chain, accepted) ←
    s.chain.processNewBlock r.toNodeEnv { ctx.accept with fRequested := true } s.nRelayingBlock
  return if accepted then ({ s with chain } : Relay).reset 0 else { s with chain }

/-- `SIGNNEWBLOCKHEADER` on the relayed block; it returns whether the node has signed. -/
def signNewBlockHeader (s : Relay) : Except Fault (Relay × Bool) :=
  signingTickets r.tickets s.chain.active s.nRelayingBlock >>= fun tickets =>
    if _hlt : s.nRelayingBlock.index < 5 then
      signingAddress r s.chain.active tickets s.nRelayingBlock.index >>= fun address =>
        match _hsign : signBlockwithAddress r s.nRelayingBlock address (s.nRelayingBlock.index + 1) with
        | none => .ok (s, false)
        | some block =>
          signNewBlockHeader { s with
            nRelayingBlock := block, signed := s.signed ++ [block.header] } >>= fun result =>
            .ok (result.1, true)
    else submitSigned r ctx s >>= fun t => .ok (t, false)
termination_by 5 - s.nRelayingBlock.index
decreasing_by
  obtain ⟨keyID, sig, -, hsig, rfl⟩ := signBlockwithAddress_eq_some _hsign
  have hindex := BlockHeader.index_lt_index_setSig (r.wallet.nonempty _ _ _ hsig) _hlt
  change 5 - (s.nRelayingBlock.toBlockHeader.setSig sig _).index < _
  omega

def broadcast (s : Relay) (receives : NodeId → Bool) : Relay :=
  { s with sent := s.sent ++ (ctx.nodes.filter receives).map fun node => (node, s.nRelayingBlock.header) }

/-- The branches of `NewMixedPoWValidBlock` that take a block over; peers that sent the block get it back only with a signature. -/
def takeOver (s : Relay) (block : Block) (nNextChoice : BitVec 32) : Except Fault Relay := do
  let (t, is_signed) ← signNewBlockHeader r ctx
    { s with nRelayingBlock := block, nRelayingTime := ctx.now, nNextChoice }
  return t.broadcast ctx fun node => r.env.hashing.blockHash (t.nMixedPowHeader node) ≠
    r.hash block || is_signed

/-- `NewMixedPoWValidBlock` with `isupdateheader`: the relayed block has got further signatures. -/
def updateHeader (s : Relay) : Except Fault Relay := do
  let (t, _) ← signNewBlockHeader r ctx { s with nRelayingTime := ctx.now }
  return if t.nRelayingBlock.index = 5 then t else t.broadcast ctx fun _ => true

/-- The block that is relayed gives way: more than `RelayingBlockMinLimit` seconds have passed, and the new one has another seed. -/
def givesWay (s : Relay) (block : Block) : Bool :=
  s.nRelayingTime ≠ 0 && decide (ctx.now - s.nRelayingTime > RelayingBlockMinLimit) &&
    s.nRelayingBlock.seed ≠ block.seed

/-- `NewMixedPoWValidBlock` for a new block. -/
def newMixedPoWValidBlock (s : Relay) (block : Block) : Except Fault Relay :=
  if block.hashPrevBlock = s.tipHash r then
    if !s.nRelayingBlock.isNull && s.nRelayingBlock.hashPrevBlock = s.tipHash r then
      if s.givesWay ctx block then s.takeOver r ctx block (block.seed + 1) else .ok s
    else s.takeOver r ctx block block.seed
  else .ok s

def requestBlock (s : Relay) (pfrom : NodeId) (header : BlockHeader) : Relay :=
  if checkProofOfWork (r.env.hashing.blockHash header) header.nBits r.env.params then
    { s with
      nDownLoadingRelayingHash := r.env.hashing.blockHash header
      nMixedPowHeader := Function.update s.nMixedPowHeader pfrom header }
  else s

def requestOnce (s : Relay) (pfrom : NodeId) (header : BlockHeader) : Relay :=
  if s.nDownLoadingRelayingHash = r.env.hashing.blockHash header then
    { s with nMixedPowHeader := Function.update s.nMixedPowHeader pfrom header }
  else s.requestBlock r pfrom header

def onPowNewBlockHeader (s : Relay) (pfrom : NodeId) (header : BlockHeader) : Except Fault Relay :=
  if s.nRelayingBlock.isNull && header.hashPrevBlock = s.tipHash r then .ok (s.requestOnce r pfrom header)
  else if r.env.hashing.blockHash header = r.hash s.nRelayingBlock then
    if header.hashPrevBlock = s.tipHash r && header.index > s.nRelayingBlock.index then
      updateHeader r ctx
        { s with
          nMixedPowHeader := Function.update s.nMixedPowHeader pfrom header
          nRelayingBlock := s.nRelayingBlock.changeHeader header }
    else .ok s
  else if s.nRelayingBlock.hashPrevBlock = s.tipHash r then
    if header.hashPrevBlock = s.tipHash r && header.index > s.nRelayingBlock.index then
      .ok (s.requestBlock r pfrom header)
    else .ok s
  else if header.hashPrevBlock = s.tipHash r then .ok (s.requestOnce r pfrom header)
  else .ok s

def onPowNewBlock (s : Relay) (pfrom : NodeId) (block : Block) : Except Fault Relay :=
  if r.hash block = r.env.hashing.blockHash (s.nMixedPowHeader pfrom) ∧
    r.hash block = s.nDownLoadingRelayingHash then
    newMixedPoWValidBlock r ctx { s with nDownLoadingRelayingHash := Uint256.ofNat 0 } block
  else .ok s

/-- The end of the handler of `GETHEADERS`: a peer that has announced nothing learns of the relayed block. -/
def onGetHeaders (s : Relay) (pfrom : NodeId) : Relay :=
  if (s.nMixedPowHeader pfrom).isNull && !s.nRelayingBlock.isNull &&
    s.nRelayingBlock.hashPrevBlock = s.tipHash r then
    { s with sent := s.sent ++ [(pfrom, s.nRelayingBlock.header)] }
  else s

/-- The check of `ThreadMessageHandler` that gives a block up after `RelayingBlockMaxLimit` seconds. -/
def onTimer (s : Relay) : Relay :=
  if s.nRelayingTime ≠ 0 ∧ ctx.now - s.nRelayingTime > RelayingBlockMaxLimit then
    s.reset (s.nNextChoice + 1)
  else s

/-- A block accepted by `ProcessNetBlock` replaces the relayed one if it is the same or has the same parent. -/
def overrides (s : Relay) (block : Block) : Bool :=
  r.hash block = r.hash s.nRelayingBlock || block.hashPrevBlock = s.nRelayingBlock.hashPrevBlock

/-- `ProcessNetBlock`, for a block that reaches `ProcessNewBlock`. -/
def processNetBlock (s : Relay) (block : Block) : Except Fault Relay := do
  let (chain, accepted) ← s.chain.processNewBlock r.toNodeEnv ctx.accept block
  return if accepted && s.overrides r block then ({ s with chain } : Relay).reset 0 else { s with chain }

/-- What can happen to a node while it relays: messages, a block of its own through `ProcessNewMixedBlock`, the timer, a block from the network, and any other change of its chain. -/
inductive Event where
  | powNewBlockHeader (pfrom : NodeId) (header : BlockHeader)
  | powNewBlock (pfrom : NodeId) (block : Block)
  | newMixedBlock (block : Block)
  | getHeaders (pfrom : NodeId)
  | timer
  | netBlock (block : Block)
  | chainChange (chain : ChainNode)

def step (s : Relay) : Event → Except Fault Relay
  | .powNewBlockHeader pfrom header => s.onPowNewBlockHeader r ctx pfrom header
  | .powNewBlock pfrom block => s.onPowNewBlock r ctx pfrom block
  | .newMixedBlock block => s.newMixedPoWValidBlock r ctx block
  | .getHeaders pfrom => .ok (s.onGetHeaders r pfrom)
  | .timer => .ok (s.onTimer ctx)
  | .netBlock block => s.processNetBlock r ctx block
  | .chainChange chain => .ok { s with chain }

/-! ### What signing can do -/

section

variable {r ctx} {s t : Relay} {is_signed : Bool} {tickets : List Ticket}

/-- The relayed block with a signature of the node in its first empty place. -/
def withSig (s : Relay) (sig : List Byte) : Relay :=
  { s with
    nRelayingBlock := s.nRelayingBlock.setSig sig (s.nRelayingBlock.index + 1)
    signed := s.signed ++ [(s.nRelayingBlock.setSig sig (s.nRelayingBlock.index + 1)).header] }

theorem signNewBlockHeader_cases (h : signNewBlockHeader r ctx s = .ok (t, is_signed)) :
    ∃ tickets, signingTickets r.tickets s.chain.active s.nRelayingBlock = .ok tickets ∧
      (t = s ∨
        s.nRelayingBlock.index < 5 ∧
          (∃ keyID sig, signingAddress r s.chain.active tickets s.nRelayingBlock.index =
            .ok (.keyID keyID) ∧
          r.wallet.signCompact keyID (r.hash s.nRelayingBlock) = some sig ∧
            ∃ again, signNewBlockHeader r ctx (s.withSig sig) = .ok (t, again)) ∨
        s.nRelayingBlock.index = 5 ∧ submitSigned r ctx s = .ok t) := by
  rw [signNewBlockHeader, Except.bind_eq_ok_iff] at h
  obtain ⟨tickets, htickets, h⟩ := h
  refine ⟨tickets, htickets, ?_⟩
  split at h
  · rename_i hlt
    obtain ⟨address, haddress, h⟩ := Except.bind_eq_ok_iff.mp h
    split at h
    · cases h
      exact .inl rfl
    · rename_i block hsign
      obtain ⟨keyID, sig, rfl, hsig, rfl⟩ := signBlockwithAddress_eq_some hsign
      obtain ⟨⟨u, again⟩, hrest, h⟩ := Except.bind_eq_ok_iff.mp h
      cases h
      exact .inr (.inl ⟨hlt, keyID, sig, haddress, hsig, again, hrest⟩)
  · rename_i hge
    obtain ⟨u, hsubmit, h⟩ := Except.bind_eq_ok_iff.mp h
    cases h
    exact .inr (.inr ⟨by have := s.nRelayingBlock.toBlockHeader.index_le; omega, hsubmit⟩)

/-- What every signature of the node keeps holds when the signing ends, before a complete block is submitted. -/
theorem signNewBlockHeader_rule {P : Relay → Prop}
    (hsig : ∀ u tickets keyID sig, P u → signingTickets r.tickets u.chain.active u.nRelayingBlock =
      .ok tickets →
      u.nRelayingBlock.index < 5 → signingAddress r u.chain.active tickets u.nRelayingBlock.index =
        .ok (.keyID keyID) →
        r.wallet.signCompact keyID (r.hash u.nRelayingBlock) = some sig → P (u.withSig sig))
    (hs : P s) (h : signNewBlockHeader r ctx s = .ok (t, is_signed)) :
    ∃ u, P u ∧ (t = u ∨ u.nRelayingBlock.index = 5 ∧ submitSigned r ctx u = .ok t) := by
  induction hleft : 5 - s.nRelayingBlock.index using Nat.strong_induction_on generalizing s is_signed with
  | _ left ih =>
    obtain ⟨tickets, htickets, rfl | ⟨hlt, keyID, sig, haddress, hsign, again, hrest⟩ |
      ⟨hfive, hsubmit⟩⟩ := signNewBlockHeader_cases h
    · exact ⟨t, hs, .inl rfl⟩
    · have hindex : s.nRelayingBlock.index < (s.withSig sig).nRelayingBlock.index :=
        BlockHeader.index_lt_index_setSig (r.wallet.nonempty _ _ _ hsign) hlt
      exact ih _ (by omega) (hsig s tickets keyID sig hs htickets hlt haddress hsign) hrest rfl
    · exact ⟨s, hs, .inr ⟨hfive, hsubmit⟩⟩

theorem submitSigned_cases (h : submitSigned r ctx s = .ok t) :
    ∃ chain, t = { s with chain } ∨ t = ({ s with chain } : Relay).reset 0 := by
  rw [submitSigned, Except.bind_eq_ok_iff] at h
  obtain ⟨⟨chain, accepted⟩, -, h⟩ := h
  cases accepted <;> cases h
  · exact ⟨chain, .inl rfl⟩
  · exact ⟨chain, .inr rfl⟩

theorem signNewBlockHeader_of_missing {fault : Fault} (hlt : s.nRelayingBlock.index < 5)
    (htickets : signingTickets r.tickets s.chain.active s.nRelayingBlock = .ok tickets)
    (haddress : signingAddress r s.chain.active tickets s.nRelayingBlock.index = .error fault) :
    signNewBlockHeader r ctx s = .error fault := by
  rw [signNewBlockHeader, htickets, Except.ok_bind, dif_pos hlt, haddress, Except.error_bind]

theorem signNewBlockHeader_of_stranger {address : Destination} (hlt : s.nRelayingBlock.index < 5)
    (htickets : signingTickets r.tickets s.chain.active s.nRelayingBlock = .ok tickets)
    (haddress : signingAddress r s.chain.active tickets s.nRelayingBlock.index = .ok address)
    (hsign : signBlockwithAddress r s.nRelayingBlock address (s.nRelayingBlock.index + 1) = none) :
    signNewBlockHeader r ctx s = .ok (s, false) := by
  rw [signNewBlockHeader, htickets, Except.ok_bind, dif_pos hlt, haddress, Except.ok_bind]
  split
  · rfl
  · rename_i block hblock
    rw [hsign] at hblock
    cases hblock

theorem signNewBlockHeader_of_own {keyID : Address} {sig : List Byte} (hlt : s.nRelayingBlock.index < 5)
    (htickets : signingTickets r.tickets s.chain.active s.nRelayingBlock = .ok tickets)
    (haddress : signingAddress r s.chain.active tickets s.nRelayingBlock.index = .ok (.keyID keyID))
    (hsign : r.wallet.signCompact keyID (r.hash s.nRelayingBlock) = some sig) :
    signNewBlockHeader r ctx s = signNewBlockHeader r ctx (s.withSig sig) >>= fun result =>
      .ok (result.1, true) := by
  have hblock : signBlockwithAddress r s.nRelayingBlock (.keyID keyID) (s.nRelayingBlock.index + 1) =
      some (s.nRelayingBlock.setSig sig (s.nRelayingBlock.index + 1)) := by
    rw [signBlockwithAddress, hsign, Option.map_some]
  rw [signNewBlockHeader, htickets, Except.ok_bind, dif_pos hlt, haddress, Except.ok_bind]
  split
  · rename_i hnone
    rw [hblock] at hnone
    cases hnone
  · rename_i block hsome
    obtain rfl := Option.some.inj (hblock.symm.trans hsome)
    rfl

theorem signNewBlockHeader_of_complete (hfive : s.nRelayingBlock.index = 5)
    (htickets : signingTickets r.tickets s.chain.active s.nRelayingBlock = .ok tickets) :
    signNewBlockHeader r ctx s = submitSigned r ctx s >>= fun t => .ok (t, false) := by
  rw [signNewBlockHeader, htickets, Except.ok_bind, dif_neg (by omega)]

/-! ### What a message can do -/

theorem takeOver_cases {block : Block} {nNextChoice : BitVec 32}
    (h : s.takeOver r ctx block nNextChoice = .ok t) :
    ∃ u is_signed receives, t = u.broadcast ctx receives ∧
      signNewBlockHeader r ctx { s with
        nRelayingBlock := block, nRelayingTime := ctx.now, nNextChoice } = .ok (u, is_signed) := by
  rw [takeOver, Except.bind_eq_ok_iff] at h
  obtain ⟨⟨u, is_signed⟩, hsign, h⟩ := h
  cases h
  exact ⟨u, is_signed, _, rfl, hsign⟩

theorem updateHeader_cases (h : s.updateHeader r ctx = .ok t) :
    ∃ u is_signed, (t = u ∧ u.nRelayingBlock.index = 5 ∨ t = u.broadcast ctx fun _ => true) ∧
      signNewBlockHeader r ctx { s with nRelayingTime := ctx.now } = .ok (u, is_signed) := by
  rw [updateHeader, Except.bind_eq_ok_iff] at h
  obtain ⟨⟨u, is_signed⟩, hsign, h⟩ := h
  cases h
  refine ⟨u, is_signed, ?_, hsign⟩
  split
  · rename_i hfive
    exact .inl ⟨rfl, hfive⟩
  · exact .inr rfl

theorem seed_ne_of_givesWay {block : Block} (h : s.givesWay ctx block = true) :
    s.nRelayingBlock.seed ≠ block.seed := by
  simp only [givesWay, Bool.and_eq_true, decide_eq_true_eq] at h
  exact h.2

theorem newMixedPoWValidBlock_cases {block : Block} (h : s.newMixedPoWValidBlock r ctx block = .ok t) :
    t = s ∨ block.hashPrevBlock = s.tipHash r ∧
      ((s.nRelayingBlock.isNull = true ∨ s.nRelayingBlock.hashPrevBlock ≠ s.tipHash r) ∧
        s.takeOver r ctx block block.seed = .ok t ∨
        s.givesWay ctx block = true ∧ s.nRelayingBlock.hashPrevBlock = s.tipHash r ∧
          s.takeOver r ctx block (block.seed + 1) = .ok t) := by
  rw [newMixedPoWValidBlock] at h
  split at h
  · rename_i hprev
    split at h
    · rename_i hrelaying
      simp only [Bool.and_eq_true, decide_eq_true_eq] at hrelaying
      split at h
      · rename_i hway
        exact .inr ⟨hprev, .inr ⟨hway, hrelaying.2, h⟩⟩
      · cases h
        exact .inl rfl
    · rename_i hrelaying
      refine .inr ⟨hprev, .inl ⟨?_, h⟩⟩
      simpa [or_iff_not_imp_left] using hrelaying
  · cases h
    exact .inl rfl

theorem requestBlock_cases (s : Relay) (pfrom : NodeId) (header : BlockHeader) :
    ∃ hash mixed, s.requestBlock r pfrom header =
      { s with nDownLoadingRelayingHash := hash, nMixedPowHeader := mixed } := by
  rw [requestBlock]
  split
  · exact ⟨_, _, rfl⟩
  · exact ⟨s.nDownLoadingRelayingHash, s.nMixedPowHeader, rfl⟩

theorem requestOnce_cases (s : Relay) (pfrom : NodeId) (header : BlockHeader) :
    ∃ hash mixed, s.requestOnce r pfrom header =
      { s with nDownLoadingRelayingHash := hash, nMixedPowHeader := mixed } := by
  rw [requestOnce]
  split
  · exact ⟨s.nDownLoadingRelayingHash, _, rfl⟩
  · exact s.requestBlock_cases pfrom header

theorem onPowNewBlockHeader_cases {pfrom : NodeId} {header : BlockHeader}
    (h : s.onPowNewBlockHeader r ctx pfrom header = .ok t) :
    (∃ hash mixed, t = { s with nDownLoadingRelayingHash := hash, nMixedPowHeader := mixed }) ∨
      r.env.hashing.blockHash header = r.hash s.nRelayingBlock ∧ header.hashPrevBlock = s.tipHash r ∧
        s.nRelayingBlock.index < header.index ∧ s.nRelayingBlock.isNull = false ∧
          ∃ mixed, updateHeader r ctx
            { s with
              nMixedPowHeader := mixed
              nRelayingBlock := s.nRelayingBlock.changeHeader header } = .ok t := by
  have hself : ∃ hash mixed, s = { s with nDownLoadingRelayingHash := hash, nMixedPowHeader := mixed } :=
    ⟨s.nDownLoadingRelayingHash, s.nMixedPowHeader, rfl⟩
  rw [onPowNewBlockHeader] at h
  split at h
  · cases h
    exact .inl (s.requestOnce_cases pfrom header)
  · rename_i hnull
    split at h
    · rename_i hhash
      split at h
      · rename_i hupdate
        simp only [Bool.and_eq_true, decide_eq_true_eq] at hnull hupdate
        refine .inr ⟨hhash, hupdate.1, hupdate.2, ?_, _, h⟩
        rw [← Bool.not_eq_true]
        exact fun hrelaying => hnull ⟨hrelaying, hupdate.1⟩
      · cases h
        exact .inl hself
    · split at h
      · split at h
        · cases h
          exact .inl (s.requestBlock_cases pfrom header)
        · cases h
          exact .inl hself
      · split at h
        · cases h
          exact .inl (s.requestOnce_cases pfrom header)
        · cases h
          exact .inl hself

theorem onPowNewBlock_cases {pfrom : NodeId} {block : Block}
    (h : s.onPowNewBlock r ctx pfrom block = .ok t) :
    t = s ∨ r.hash block = r.env.hashing.blockHash (s.nMixedPowHeader pfrom) ∧
      r.hash block = s.nDownLoadingRelayingHash ∧
      newMixedPoWValidBlock r ctx { s with nDownLoadingRelayingHash := Uint256.ofNat 0 } block =
        .ok t := by
  rw [onPowNewBlock] at h
  split at h
  · rename_i hasked
    exact .inr ⟨hasked.1, hasked.2, h⟩
  · cases h
    exact .inl rfl

end

end Relay

end TscPow
