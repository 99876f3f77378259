import TscPow.Net.Collect

/-!
# Signing one block per seed

A ticket holder should not sign two blocks with the same parent and the same seed, and a node should not announce an empty header. The relay gives a block up after a time-out and counts `nNextChoice` up, but nothing holds the seed of the next block against it; and once a block has got its fifth signature and is accepted, the code broadcasts the header of the block that it has just cleared. Where blocks come with seeds from `nNextChoice` on, no tip comes back on which the node has signed, and the node never completes a block itself, neither happens in any run.
-/

namespace TscPow

namespace Relay

variable (r : RelayEnv)

/-- No two headers with the same parent and seed but different hashes. -/
def NoEquivocation (signed : List BlockHeader) : Prop :=
  ∀ h ∈ signed, ∀ h' ∈ signed, h.hashPrevBlock = h'.hashPrevBlock → h.seed = h'.seed →
    r.env.hashing.blockHash h = r.env.hashing.blockHash h'

/-- One of the empty signatures of the block is not the node's to give. -/
def Waits (active : TipState) (block : Block) : Prop :=
  ∃ k < 5, block.header.sig (k + 1) = some [] ∧ ∀ tickets keyID,
    signingTickets r.tickets active block = .ok tickets →
    signingAddress r active tickets k = .ok (.keyID keyID) →
      r.wallet.signCompact keyID (r.hash block) = none

/-- A block that may be taken over: its seed is not behind `nNextChoice` and leaves room for the next ones, and it waits for another signer. -/
structure Acceptable (s : Relay) (block : Block) : Prop where
  relaying : block.isNull = false
  seed : s.nNextChoice.toNat ≤ block.seed.toNat
  room : block.seed.toNat + 2 < 2 ^ 32
  waits : Waits r s.chain.active block

def NotSignedOn (s : Relay) (hash : Uint256) : Prop := ∀ h ∈ s.signed, h.hashPrevBlock ≠ hash

/-- Blocks that are taken over are acceptable, a header for the relayed block is the same header and waits for another signer, and the tip never becomes one on which the node has signed. -/
def Allowed (ctx : RelayContext) (s : Relay) : Event → Prop
  | .powNewBlockHeader _ header =>
    r.env.hashing.blockHash header = r.hash s.nRelayingBlock → header.hashPrevBlock = s.tipHash r →
      s.nRelayingBlock.index < header.index →
      header.unsigned = s.nRelayingBlock.header.unsigned ∧
        Waits r s.chain.active (s.nRelayingBlock.changeHeader header)
  | .powNewBlock _ block => r.hash block = s.nDownLoadingRelayingHash → s.Takes r ctx block →
      s.Acceptable r block
  | .newMixedBlock block => s.Takes r ctx block → s.Acceptable r block
  | .getHeaders _ => True
  | .timer => True
  | .netBlock block => ∀ chain accepted, s.chain.processNewBlock r.toNodeEnv ctx.accept block =
      .ok (chain, accepted) →
    s.NotSignedOn (chain.tipHash r.toNodeEnv) ∨ chain.tipHash r.toNodeEnv = s.tipHash r ∧
      (accepted && s.overrides r block) = false
  | .chainChange chain =>
    s.NotSignedOn (chain.tipHash r.toNodeEnv) ∨ chain.tipHash r.toNodeEnv = s.tipHash r

def Step (s t : Relay) : Prop := ∃ ctx e, s.step r ctx e = .ok t

def AllowedStep (s t : Relay) : Prop := ∃ ctx e, s.Allowed r ctx e ∧ s.step r ctx e = .ok t

/-- What holds between the headers that the node has signed and the block that it relays. -/
structure Inv (s : Relay) : Prop where
  distinct : NoEquivocation r s.signed
  sent : ∀ p ∈ s.sent, p.2.isNull = false
  below : ∀ h ∈ s.signed, h.hashPrevBlock = s.tipHash r →
    h.seed.toNat < s.nNextChoice.toNat ∨ s.nRelayingBlock.isNull = false ∧
      h.unsigned = s.nRelayingBlock.header.unsigned
  own : s.nRelayingBlock.isNull = false → ∀ h ∈ s.signed, h.hashPrevBlock = s.tipHash r →
    h.hashPrevBlock = s.nRelayingBlock.hashPrevBlock →
    h.seed = s.nRelayingBlock.seed → h.unsigned = s.nRelayingBlock.header.unsigned
  seed : s.nRelayingBlock.isNull = false → s.nRelayingBlock.seed.toNat ≤ s.nNextChoice.toNat
  room : s.nRelayingBlock.isNull = false → s.nNextChoice.toNat + 1 < 2 ^ 32
  idle : s.nRelayingBlock.isNull = true → s.nRelayingTime = 0

section

variable {r} {ctx : RelayContext} {s t : Relay} {block : Block}

theorem inv_start (chain : ChainNode) : (start chain).Inv r where
  distinct _ hh := absurd hh List.not_mem_nil
  sent _ hp := absurd hp List.not_mem_nil
  below _ hh := absurd hh List.not_mem_nil
  own hrelaying := nomatch hrelaying
  seed hrelaying := nomatch hrelaying
  room hrelaying := nomatch hrelaying
  idle _ := rfl

/-! ### Signing -/

theorem hash_eq_of_unsigned {h h' : BlockHeader} (heq : h.unsigned = h'.unsigned) :
    r.env.hashing.blockHash h = r.env.hashing.blockHash h' := by
  rw [← r.hash_unsigned h, heq, r.hash_unsigned]

theorem Inv.withSig (hinv : s.Inv r) (hrelaying : s.nRelayingBlock.isNull = false)
    (hprev : s.nRelayingBlock.hashPrevBlock = s.tipHash r) (sig : List Byte) : (s.withSig sig).Inv r := by
  have hunsigned : (s.withSig sig).nRelayingBlock.header.unsigned =
      s.nRelayingBlock.header.unsigned := BlockHeader.unsigned_setSig _ _ _
  obtain ⟨hprev', -, hseed', hnull'⟩ := BlockHeader.eq_of_unsigned hunsigned
  -- the new header is the relayed one, and so is every earlier one with its parent and seed
  have hsigned : ∀ h ∈ (s.withSig sig).signed, h.hashPrevBlock = s.nRelayingBlock.hashPrevBlock →
    h.seed = s.nRelayingBlock.seed →
      h.unsigned = s.nRelayingBlock.header.unsigned := by
    intro h hh hparent hsame
    rcases List.mem_append.mp hh with hh | hh
    · exact hinv.own hrelaying h hh (hparent.trans hprev) hparent hsame
    · rw [List.mem_singleton.mp hh]
      exact hunsigned
  refine ⟨?_, hinv.sent, ?_, ?_, ?_, ?_, ?_⟩
  · intro h hh h' hh' hparent hsame
    rcases List.mem_append.mp hh with hold | hnew
    · rcases List.mem_append.mp hh' with hold' | hnew'
      · exact hinv.distinct h hold h' hold' hparent hsame
      · obtain rfl := List.mem_singleton.mp hnew'
        exact hash_eq_of_unsigned
          ((hsigned h hh (hparent.trans hprev') (hsame.trans hseed')).trans hunsigned.symm)
    · obtain rfl := List.mem_singleton.mp hnew
      exact hash_eq_of_unsigned
        (hunsigned.trans
          (hsigned h' hh' (hparent.symm.trans hprev') (hsame.symm.trans hseed')).symm)
  · intro h hh hparent
    rcases List.mem_append.mp hh with hold | hnew
    · refine (hinv.below h hold hparent).imp_right fun hsame =>
        ⟨hnull'.trans hrelaying, hsame.2.trans hunsigned.symm⟩
    · obtain rfl := List.mem_singleton.mp hnew
      exact .inr ⟨hnull'.trans hrelaying, rfl⟩
  · intro _ h hh _ hparent hsame
    exact (hsigned h hh (hparent.trans hprev') (hsame.trans hseed')).trans hunsigned.symm
  · intro _
    rw [show (s.withSig sig).nRelayingBlock.seed = s.nRelayingBlock.seed from hseed']
    exact hinv.seed hrelaying
  · exact fun _ => hinv.room hrelaying
  · intro hnull
    exact absurd (hrelaying.symm.trans (hnull'.symm.trans hnull)) Bool.false_ne_true

/-- The state between two signatures of the node, with place `k + 1` still empty. -/
structure Signing (r : RelayEnv) (k : Nat) (s u : Relay) : Prop where
  inv : u.Inv r
  chain : u.chain = s.chain
  unsigned : u.nRelayingBlock.header.unsigned = s.nRelayingBlock.header.unsigned
  empty : u.nRelayingBlock.header.sig (k + 1) = some []

theorem Signing.withSig {k : Nat} {u : Relay} {tickets : List Ticket} {keyID : Address}
    {sig : List Byte} (h : Signing r k s u) (hrelaying : s.nRelayingBlock.isNull = false)
    (hprev : s.nRelayingBlock.hashPrevBlock = s.tipHash r)
    (hstranger : ∀ tickets keyID, signingTickets r.tickets s.chain.active s.nRelayingBlock =
      .ok tickets →
      signingAddress r s.chain.active tickets k = .ok (.keyID keyID) →
        r.wallet.signCompact keyID (r.hash s.nRelayingBlock) = none)
    (htickets : signingTickets r.tickets u.chain.active u.nRelayingBlock = .ok tickets)
    (hlt : u.nRelayingBlock.index < 5)
    (haddress : signingAddress r u.chain.active tickets u.nRelayingBlock.index = .ok (.keyID keyID))
    (hsign : r.wallet.signCompact keyID (r.hash u.nRelayingBlock) = some sig) :
    Signing r k s (u.withSig sig) := by
  obtain ⟨hprev', -, hseed', hnull'⟩ := BlockHeader.eq_of_unsigned h.unsigned
  rw [h.chain] at htickets haddress
  rw [signingTickets, show u.nRelayingBlock.seed = s.nRelayingBlock.seed from hseed'] at htickets
  rw [hash_of_unsigned h.unsigned] at hsign
  -- the next place is not the one that waits for another signer
  have hother : k ≠ u.nRelayingBlock.index := by
    rintro rfl
    rw [hstranger tickets keyID htickets haddress] at hsign
    cases hsign
  refine ⟨h.inv.withSig (hnull'.trans hrelaying) ?_ sig, h.chain,
    (BlockHeader.unsigned_setSig _ _ _).trans h.unsigned, ?_⟩
  · refine hprev'.trans (hprev.trans ?_)
    rw [tipHash, tipHash, h.chain]
  · refine (BlockHeader.sig_setSig _ (by omega) hlt _).trans ?_
    rw [if_neg (by omega)]
    exact h.empty

/-- As long as another signer is missing, signing ends with the block still relayed. -/
theorem signNewBlockHeader_inv {is_signed : Bool} (hinv : s.Inv r)
    (hrelaying : s.nRelayingBlock.isNull = false)
    (hprev : s.nRelayingBlock.hashPrevBlock = s.tipHash r)
    (hwaits : Waits r s.chain.active s.nRelayingBlock)
    (h : signNewBlockHeader r ctx s = .ok (t, is_signed)) :
    t.Inv r ∧ t.nRelayingBlock.isNull = false := by
  obtain ⟨k, hk, hempty, hstranger⟩ := hwaits
  obtain ⟨u, hu, rfl | ⟨hfive, -⟩⟩ := signNewBlockHeader_rule (P := Signing r k s)
    (fun _ _ _ _ hu => hu.withSig hrelaying hprev hstranger) ⟨hinv, rfl, rfl, hempty⟩ h
  · exact ⟨hu.inv, (BlockHeader.eq_of_unsigned hu.unsigned).2.2.2.trans hrelaying⟩
  · exact absurd hu.empty ((BlockHeader.le_index_iff le_rfl).mp hfive.ge (k + 1) (by omega) (by omega))

theorem Inv.broadcast (hinv : s.Inv r) (hrelaying : s.nRelayingBlock.isNull = false)
    (receives : NodeId → Bool) :
    (s.broadcast ctx receives).Inv r where
  distinct := hinv.distinct
  sent p hp := by
    rcases List.mem_append.mp hp with hold | hnew
    · exact hinv.sent p hold
    · obtain ⟨node, -, rfl⟩ := List.mem_map.mp hnew
      exact hrelaying
  below := hinv.below
  own := hinv.own
  seed := hinv.seed
  room := hinv.room
  idle := hinv.idle

/-! ### Steps -/

theorem Inv.takeOver {nNextChoice : BitVec 32} (hinv : s.Inv r) (hacceptable : s.Acceptable r block)
    (hprev : block.hashPrevBlock = s.tipHash r) (hseed : block.seed.toNat ≤ nNextChoice.toNat)
    (hroom : nNextChoice.toNat + 1 < 2 ^ 32)
    (hbelow : ∀ h ∈ s.signed, h.hashPrevBlock = s.tipHash r → h.seed.toNat < nNextChoice.toNat ∧
      h.seed ≠ block.seed)
    (h : s.takeOver r ctx block nNextChoice = .ok t) : t.Inv r := by
  obtain ⟨u, is_signed, receives, rfl, hsign⟩ := takeOver_cases h
  have hinv' :
      ({ s with nRelayingBlock := block, nRelayingTime := ctx.now, nNextChoice } :
        Relay).Inv r := by
    refine ⟨hinv.distinct, hinv.sent, fun h hh hparent => .inl (hbelow h hh hparent).1, ?_,
      fun _ => hseed, fun _ => hroom, ?_⟩
    · intro _ h hh hparent _ hsame
      exact absurd hsame (hbelow h hh hparent).2
    · exact fun hnull => absurd (hacceptable.relaying.symm.trans hnull) Bool.false_ne_true
  obtain ⟨hu, hrelaying⟩ :=
    signNewBlockHeader_inv hinv' hacceptable.relaying hprev hacceptable.waits hsign
  exact hu.broadcast hrelaying receives

theorem Inv.newMixedPoWValidBlock (hinv : s.Inv r) (hallowed : s.Takes r ctx block → s.Acceptable r block)
    (h : s.newMixedPoWValidBlock r ctx block = .ok t) : t.Inv r := by
  rcases newMixedPoWValidBlock_cases h with rfl | ⟨hprev, ⟨hstale, htake⟩ | ⟨hway, htip, htake⟩⟩
  · exact hinv
  · have hacceptable := hallowed ⟨hprev, hstale.imp_right .inl⟩
    refine hinv.takeOver hacceptable hprev le_rfl (by have := hacceptable.room; omega)
      (fun h hh hparent => ?_) htake
    have hlt : h.seed.toNat < s.nNextChoice.toNat := by
      refine (hinv.below h hh hparent).resolve_right fun hsame => ?_
      rcases hstale with hnull | hother
      · exact absurd (hsame.1.symm.trans hnull) Bool.false_ne_true
      · exact hother ((BlockHeader.eq_of_unsigned hsame.2).1.symm.trans hparent)
    have hseed := hacceptable.seed
    exact ⟨by omega, fun heq => by rw [heq] at hlt; omega⟩
  · have hacceptable := hallowed ⟨hprev, .inr (.inr hway)⟩
    have hroom := hacceptable.room
    have hnext : (block.seed + 1).toNat = block.seed.toNat + 1 := by
      rw [BitVec.toNat_add]
      exact Nat.mod_eq_of_lt (by simp; omega)
    refine hinv.takeOver hacceptable hprev (by omega) (by omega) (fun h hh hparent => ?_) htake
    have hseed := hacceptable.seed
    rcases hinv.below h hh hparent with hlt | ⟨hrelaying, hsame⟩
    · exact ⟨by omega, fun heq => by rw [heq] at hlt; omega⟩
    · have hle := hinv.seed hrelaying
      rw [show h.seed = s.nRelayingBlock.seed from (BlockHeader.eq_of_unsigned hsame).2.2.1]
      exact ⟨by omega, seed_ne_of_givesWay hway⟩

theorem Inv.updateHeader {header : BlockHeader} {mixed : NodeId → BlockHeader} (hinv : s.Inv r)
    (hunsigned : header.unsigned = s.nRelayingBlock.header.unsigned)
    (hrelaying : s.nRelayingBlock.isNull = false) (hprev : header.hashPrevBlock = s.tipHash r)
    (hwaits : Waits r s.chain.active (s.nRelayingBlock.changeHeader header))
    (h : updateHeader r ctx
      { s with nMixedPowHeader := mixed, nRelayingBlock := s.nRelayingBlock.changeHeader header } =
        .ok t) : t.Inv r := by
  obtain ⟨hprev', -, hseed', hnull'⟩ := BlockHeader.eq_of_unsigned hunsigned
  obtain ⟨u, is_signed, ht, hsign⟩ := updateHeader_cases h
  have hinv' : ({ s with
      nMixedPowHeader := mixed
      nRelayingBlock := s.nRelayingBlock.changeHeader header
      nRelayingTime := ctx.now } : Relay).Inv r := by
    refine ⟨hinv.distinct, hinv.sent, ?_, ?_, ?_, fun _ => hinv.room hrelaying, ?_⟩
    · intro h hh hparent
      exact (hinv.below h hh hparent).imp_right fun hsame =>
        ⟨hnull'.trans hrelaying, hsame.2.trans hunsigned.symm⟩
    · intro _ h hh hparent hparent' hsame
      exact (hinv.own hrelaying h hh hparent (hparent'.trans hprev')
        (hsame.trans hseed')).trans hunsigned.symm
    · intro _
      change header.seed.toNat ≤ _
      rw [hseed']
      exact hinv.seed hrelaying
    · exact fun hnull => absurd (hrelaying.symm.trans (hnull'.symm.trans hnull)) Bool.false_ne_true
  obtain ⟨hu, hrelaying'⟩ := signNewBlockHeader_inv hinv' (hnull'.trans hrelaying) hprev hwaits hsign
  rcases ht with ⟨rfl, -⟩ | rfl
  · exact hu
  · exact hu.broadcast hrelaying' _

theorem Inv.chainChange (hinv : s.Inv r) {chain : ChainNode}
    (htip : s.NotSignedOn (chain.tipHash r.toNodeEnv) ∨ chain.tipHash r.toNodeEnv = s.tipHash r) :
    ({ s with chain } : Relay).Inv r := by
  have hfresh : ∀ h ∈ s.signed, h.hashPrevBlock = chain.tipHash r.toNodeEnv →
      chain.tipHash r.toNodeEnv = s.tipHash r :=
    fun h hh hparent => htip.resolve_left fun hnot => hnot h hh hparent
  refine ⟨hinv.distinct, hinv.sent, fun h hh hparent => ?_, fun hrelaying h hh hparent => ?_,
    hinv.seed, hinv.room, hinv.idle⟩
  · exact hinv.below h hh (hparent.trans (hfresh h hh hparent))
  · exact hinv.own hrelaying h hh (hparent.trans (hfresh h hh hparent))

theorem Inv.reset {nNextChoice : BitVec 32} (hinv : s.Inv r)
    (hbelow : ∀ h ∈ s.signed, h.hashPrevBlock = s.tipHash r → h.seed.toNat < nNextChoice.toNat) :
    (s.reset nNextChoice).Inv r where
  distinct := hinv.distinct
  sent := hinv.sent
  below h hh hparent := .inl (hbelow h hh hparent)
  own hrelaying := nomatch hrelaying
  seed hrelaying := nomatch hrelaying
  room hrelaying := nomatch hrelaying
  idle _ := rfl

theorem Inv.onTimer (hinv : s.Inv r) : (s.onTimer ctx).Inv r := by
  rw [Relay.onTimer]
  split
  · rename_i htime
    have hrelaying : s.nRelayingBlock.isNull = false := by
      rw [← Bool.not_eq_true]
      exact fun hnull => htime.1 (hinv.idle hnull)
    have hroom := hinv.room hrelaying
    have hnext : (s.nNextChoice + 1).toNat = s.nNextChoice.toNat + 1 := by
      rw [BitVec.toNat_add]
      exact Nat.mod_eq_of_lt (by simp; omega)
    refine hinv.reset fun h hh hparent => ?_
    rcases hinv.below h hh hparent with hlt | ⟨-, hsame⟩
    · omega
    · have hle := hinv.seed hrelaying
      rw [show h.seed = s.nRelayingBlock.seed from (BlockHeader.eq_of_unsigned hsame).2.2.1]
      omega
  · exact hinv

theorem Inv.onGetHeaders (hinv : s.Inv r) (pfrom : NodeId) : (s.onGetHeaders r pfrom).Inv r := by
  rw [Relay.onGetHeaders]
  split
  · rename_i hsends
    simp only [Bool.and_eq_true, Bool.not_eq_true'] at hsends
    refine ⟨hinv.distinct, fun p hp => ?_, hinv.below, hinv.own, hinv.seed, hinv.room, hinv.idle⟩
    rcases List.mem_append.mp hp with hold | hnew
    · exact hinv.sent p hold
    · rw [List.mem_singleton.mp hnew]
      exact hsends.1.2
  · exact hinv

theorem Inv.processNetBlock (hinv : s.Inv r) (hallowed : s.Allowed r ctx (.netBlock block))
    (h : s.processNetBlock r ctx block = .ok t) :
    t.Inv r := by
  rw [Relay.processNetBlock, Except.bind_eq_ok_iff] at h
  obtain ⟨⟨chain, accepted⟩, hprocess, h⟩ := h
  have htip := hallowed chain accepted hprocess
  have hinv' := hinv.chainChange (htip.imp_right And.left)
  cases h
  split
  · rename_i hoverrides
    refine hinv'.reset fun h hh hparent => ?_
    rcases htip with hnot | ⟨-, hno⟩
    · exact absurd hparent (hnot h hh)
    · exact absurd (hno.symm.trans hoverrides) Bool.false_ne_true
  · exact hinv'

theorem Inv.step {e : Event} (hinv : s.Inv r) (hallowed : s.Allowed r ctx e)
    (h : s.step r ctx e = .ok t) : t.Inv r := by
  cases e with
  | powNewBlockHeader pfrom header =>
    rcases onPowNewBlockHeader_cases h with ⟨hash, mixed, rfl⟩ |
      ⟨hhash, hprev, hindex, hrelaying, mixed, hupdate⟩
    · exact ⟨hinv.distinct, hinv.sent, hinv.below, hinv.own, hinv.seed, hinv.room, hinv.idle⟩
    · obtain ⟨hunsigned, hwaits⟩ := hallowed hhash hprev hindex
      exact hinv.updateHeader hunsigned hrelaying hprev hwaits hupdate
  | powNewBlock pfrom block =>
    rcases onPowNewBlock_cases h with rfl | ⟨-, hasked, hnew⟩
    · exact hinv
    · have hinv' : ({ s with nDownLoadingRelayingHash := Uint256.ofNat 0 } : Relay).Inv r :=
        ⟨hinv.distinct, hinv.sent, hinv.below, hinv.own, hinv.seed, hinv.room, hinv.idle⟩
      refine hinv'.newMixedPoWValidBlock (fun htakes => ?_) hnew
      obtain ⟨hrelaying, hseed, hroom, hwaits⟩ := hallowed hasked htakes
      exact ⟨hrelaying, hseed, hroom, hwaits⟩
  | newMixedBlock block => exact hinv.newMixedPoWValidBlock hallowed h
  | getHeaders pfrom =>
    cases h
    exact hinv.onGetHeaders pfrom
  | timer =>
    cases h
    exact hinv.onTimer
  | netBlock block => exact hinv.processNetBlock hallowed h
  | chainChange chain =>
    cases h
    exact hinv.chainChange hallowed

end

end Relay

open Relay in
/-- In every run from a node that has signed nothing, if every step is allowed, no two signed headers have the same parent and seed but different hashes, and no header that was sent is null. -/
theorem no_equivocation {r : RelayEnv} {chain : ChainNode} {s : Relay}
    (hrun : Relation.ReflTransGen (AllowedStep r) (start chain) s) :
    NoEquivocation r s.signed ∧ ∀ p ∈ s.sent, p.2.isNull = false := by
  have hinv : s.Inv r := by
    induction hrun with
    | refl => exact inv_start chain
    | tail _ hstep ih =>
      obtain ⟨ctx, e, hallowed, h⟩ := hstep
      exact ih.step hallowed h
  exact ⟨hinv.distinct, hinv.sent⟩

/-! ### The node's own signatures at the valve -/

namespace RelayRun

open Fork Relay

variable {keys id j : Nat} {chain : ChainNode} {ctx : RelayContext} {s : Relay}

def ownSigs (j : Nat) : List (List Byte) := (List.range j).map fun k => List.replicate (k + 1) 1

theorem index_own (id : Nat) (hj : j ≤ 5) : (offer id 0 (ownSigs j)).index = j := by
  interval_cases j <;> rfl

theorem setSig_own (id : Nat) (hj : j < 5) :
    (offer id 0 (ownSigs j)).setSig (List.replicate (j + 1) 1) (j + 1) =
      offer id 0 (ownSigs (j + 1)) := by
  interval_cases j <;> rfl

section

variable (hchain : Follows chain (trunk TICKET_VALVE) (line TICKET_VALVE TICKET_VALVE))

include hchain

theorem sign_own (keys id : Nat) (ctx : RelayContext) (hs : s.chain = chain)
    (hblock : s.nRelayingBlock = offer id 0 (ownSigs j)) (hj : j < 5) (hkeys : j < keys) :
    signNewBlockHeader (relay keys) ctx s =
      signNewBlockHeader (relay keys) ctx
        { s with
          nRelayingBlock := offer id 0 (ownSigs (j + 1))
          signed := s.signed ++ [(offer id 0 (ownSigs (j + 1))).header] } >>=
          fun result => .ok (result.1, true) := by
  have hindex : s.nRelayingBlock.index = j := by rw [hblock]; exact index_own id hj.le
  have hnat : (BitVec.ofNat 160 (j + 1)).toNat = j + 1 := by
    rw [BitVec.toNat_ofNat, Nat.mod_eq_of_lt (lt_of_le_of_lt (Nat.succ_le_of_lt hj) (by decide))]
  have hsign :
      (relay keys).wallet.signCompact (BitVec.ofNat 160 (j + 1))
        ((relay keys).hash s.nRelayingBlock) = some (List.replicate (j + 1) 1) := by
    change (if 0 < (BitVec.ofNat 160 _).toNat ∧ (BitVec.ofNat 160 _).toNat ≤ keys then _ else none) = _
    rw [hnat, if_pos (by omega)]
  have hwith : s.withSig (List.replicate (j + 1) 1) =
      { s with
        nRelayingBlock := offer id 0 (ownSigs (j + 1))
        signed := s.signed ++ [(offer id 0 (ownSigs (j + 1))).header] } := by
    rw [withSig, hindex, hblock, setSig_own id hj]
  rw [← hwith]
  refine signNewBlockHeader_of_own (by omega)
    (hs ▸ signingTickets_chain hchain keys (by rw [hblock]; rfl)) ?_ hsign
  rw [hindex, hs]
  exact signingAddress_chain hchain keys hj

theorem takeOver_one (ctx : RelayContext) (id : Nat) (hs : s.chain = chain) (nNextChoice : BitVec 32) :
    ∃ receives, takeOver (relay 1) ctx s (offer id 0 []) nNextChoice =
      .ok (({ s with
        nRelayingBlock := offer id 0 [[1]]
        nRelayingTime := ctx.now
        nNextChoice
        signed := s.signed ++ [(offer id 0 [[1]]).header] } : Relay).broadcast ctx receives) := by
  have hfirst := sign_own hchain 1 id ctx (j := 0)
    (s := { s with nRelayingBlock := offer id 0 [], nRelayingTime := ctx.now, nNextChoice }) hs rfl
      (by decide) (by decide)
  have hsecond := sign_stranger hchain 1 ctx
    (s := { s with
      nRelayingBlock := offer id 0 (ownSigs 1)
      nRelayingTime := ctx.now
      nNextChoice
      signed := s.signed ++ [(offer id 0 (ownSigs 1)).header] }) hs rfl
        (by rw [index_own id (by decide)]; decide)
    (by rw [index_own id (by decide)])
  rw [hsecond] at hfirst
  rw [takeOver, hfirst]
  exact ⟨_, rfl⟩

theorem sign_all (hid : id ∈ [TICKET_VALVE + 1, TICKET_VALVE + 2]) (left : Nat) (hleft : left ≤ 5)
    (hs : s.chain = chain) (hblock : s.nRelayingBlock = offer id 0 (ownSigs (5 - left))) :
    ∃ t, signNewBlockHeader (relay 5) (context 1) s = .ok (t, decide (0 < left)) ∧
      t.nRelayingBlock = .null := by
  induction left generalizing s with
  | zero =>
    have hcomplete : offer id 0 (ownSigs 5) = block TICKET_VALVE id := by
      rcases List.mem_pair.mp hid with rfl | rfl <;> rfl
    obtain ⟨accepted, hprocess, -⟩ := hchain.above_trunk hid
    have hsubmit : submitSigned (relay 5) (context 1) s =
        .ok (({ s with chain := accepted } : Relay).reset 0) := by
      have hprocess' :
          s.chain.processNewBlock (relay 5).toNodeEnv { (context 1).accept with fRequested := true }
            s.nRelayingBlock =
          .ok (accepted, true) := by
        rw [hs, hblock, Nat.sub_zero, hcomplete]
        exact hprocess
      rw [submitSigned, hprocess']
      rfl
    rw [signNewBlockHeader_of_complete (by rw [hblock]; exact index_own id le_rfl)
      (hs ▸ signingTickets_chain hchain 5 (by rw [hblock]; rfl)), hsubmit]
    exact ⟨_, rfl, rfl⟩
  | succ left ih =>
    have hnext : 5 - (left + 1) + 1 = 5 - left := by omega
    rw [sign_own hchain _ _ _ hs hblock (by omega) (by omega), hnext]
    obtain ⟨t, ht, hnull⟩ := ih (s := { s with
      nRelayingBlock := offer id 0 (ownSigs (5 - left))
      signed := s.signed ++ [(offer id 0 (ownSigs (5 - left))).header] }) (by omega) hs rfl
    rw [ht]
    exact ⟨t, by simp [Except.ok_bind], hnull⟩

end

theorem exists_signed (hchain : Follows chain (trunk TICKET_VALVE) (line TICKET_VALVE TICKET_VALVE))
    (hs : s.chain = chain) (hnull : s.nRelayingBlock.isNull = true)
    (hidle : s.nDownLoadingRelayingHash = Uint256.ofNat 0) (hid : IsChild id) (ctx : RelayContext) :
    ∃ a t, s.step (relay 1) ctx (.powNewBlockHeader 1 (offer id 0 []).header) = .ok a ∧
      a.step (relay 1) ctx (.powNewBlock 1 (offer id 0 [])) = .ok t ∧
      a.chain = chain ∧ a.nNextChoice = s.nNextChoice ∧ t.chain = chain ∧
        t.nDownLoadingRelayingHash = Uint256.ofNat 0 ∧
        t.nRelayingTime = ctx.now ∧ t.signed = s.signed ++ [(offer id 0 [[1]]).header] := by
  have hask := step_ask hchain 1 ctx 0 [] hs hnull hidle hid
  obtain ⟨receives, htake⟩ := takeOver_one hchain ctx id
    (s := { s with
      nDownLoadingRelayingHash := Uint256.ofNat 0
      nMixedPowHeader := Function.update s.nMixedPowHeader 1 (offer id 0 []).header }) hs 0
  have hblock := step_block hchain 1 ctx 0 []
    (s := { s with
      nDownLoadingRelayingHash := Uint256.ofNat id
      nMixedPowHeader := Function.update s.nMixedPowHeader 1 (offer id 0 []).header }) hs hnull rfl
        (by simp) hid
  rw [htake] at hblock
  exact ⟨_, _, hask, hblock, hs, rfl, hs, rfl, rfl, rfl⟩

end RelayRun

open RelayRun Fork Relay in
theorem no_equivocation_one_key :
    ∃ s : Relay, s.signed = [(offer (TICKET_VALVE + 1) 0 [[1]]).header] ∧
      NoEquivocation (relay 1) s.signed ∧ ∀ p ∈ s.sent, p.2.isNull = false := by
  obtain ⟨chain, hchain⟩ := exists_trunk le_rfl
  have hid : IsChild (TICKET_VALVE + 1) := .inl rfl
  obtain ⟨a, t, hask, hblock, hachain, hnext, -, -, -, hsigned⟩ :=
    exists_signed hchain (s := start chain) rfl rfl rfl hid (context 1)
  have hfirst :
      (start chain).Allowed (relay 1) (context 1)
        (.powNewBlockHeader 1 (offer (TICKET_VALVE + 1) 0 []).header) := by
    intro hhash
    exact absurd (hhash.symm.trans (hash_offer 1 hid 0 [])) (ofNat_ne_zero hid)
  have hsecond : a.Allowed (relay 1) (context 1) (.powNewBlock 1 (offer (TICKET_VALVE + 1) 0 [])) := by
    refine fun _ _ =>
      ⟨rfl, by rw [hnext]; exact Nat.zero_le _, by decide, 1, by decide, rfl,
        fun tickets keyID htickets haddress => ?_⟩
    rw [hachain] at htickets haddress
    obtain rfl := Except.ok.inj ((signingTickets_chain hchain 1 rfl).symm.trans htickets)
    obtain ⟨⟩ := Except.ok.inj ((signingAddress_chain hchain 1 (k := 1) (by decide)).symm.trans haddress)
    rfl
  have hrun := (Relation.ReflTransGen.single (r := AllowedStep (relay 1)) ⟨_, _, hfirst, hask⟩).tail
    ⟨_, _, hsecond, hblock⟩
  exact ⟨t, hsigned, no_equivocation hrun⟩

open RelayRun Fork Relay in
/-- After a time-out a node with one key signs another block with the same parent and the same seed; and a node with all five keys, having completed a block, announces a null header. -/
theorem signs_twice_and_sends_null :
    (∃ chain s, (ChainNode.start node (block TICKET_VALVE 0)).deliver node
      (deliveries TICKET_VALVE (trunk TICKET_VALVE)) = .ok chain ∧
      Relation.ReflTransGen (Step (relay 1)) (start chain) s ∧
        (offer (TICKET_VALVE + 1) 0 [[1]]).header ∈ s.signed ∧
        (offer (TICKET_VALVE + 2) 0 [[1]]).header ∈ s.signed ∧
          ¬ NoEquivocation (relay 1) s.signed) ∧
      ∃ chain s, (ChainNode.start node (block TICKET_VALVE 0)).deliver node
        (deliveries TICKET_VALVE (trunk TICKET_VALVE)) = .ok chain ∧
        Relation.ReflTransGen (Step (relay 5)) (start chain) s ∧ (1, BlockHeader.null) ∈ s.sent := by
  obtain ⟨chain, hchain⟩ := exists_trunk le_rfl
  constructor
  · have hid : IsChild (TICKET_VALVE + 1) := .inl rfl
    have hid' : IsChild (TICKET_VALVE + 2) := .inr rfl
    obtain ⟨a, s, hask, hblock, -, -, hschain, hsidle, hstime, hssigned⟩ :=
      exists_signed hchain (s := start chain) rfl rfl rfl hid (context 1)
    -- twenty seconds later the block is given up
    have htimer : s.step (relay 1) (context 21) .timer = .ok (s.reset (s.nNextChoice + 1)) := by
      rw [step, onTimer, hstime, if_pos (by decide)]
    obtain ⟨b, t, hask', hblock', -, -, -, -, -, htsigned⟩ :=
      exists_signed hchain (s := s.reset (s.nNextChoice + 1)) hschain rfl hsidle hid' (context 22)
    have hrun := (((Relation.ReflTransGen.single (r := Step (relay 1)) ⟨_, _, hask⟩).tail
      ⟨_, _, hblock⟩).tail ⟨_, _, htimer⟩).tail ⟨_, _, hask'⟩
    have hsigned : t.signed =
        [(offer (TICKET_VALVE + 1) 0 [[1]]).header, (offer (TICKET_VALVE + 2) 0 [[1]]).header] := by
      rw [htsigned]
      exact congrArg (· ++ [_]) hssigned
    refine ⟨chain, t, hchain.deliver, hrun.tail ⟨_, _, hblock'⟩, by rw [hsigned]; simp,
      by rw [hsigned]; simp, ?_⟩
    rw [hsigned]
    intro hno
    have hsame := hno _ List.mem_cons_self _ (List.mem_cons_of_mem _ List.mem_cons_self)
      ((hashPrevBlock_offer hid 0 _).trans (hashPrevBlock_offer hid' 0 _).symm) rfl
    have hhash := (hash_offer 1 hid 0 [[1]]).symm.trans (hsame.trans (hash_offer 1 hid' 0 [[1]]))
    exact absurd ((hash_inj le_rfl (by decide) (by decide)).mp hhash) (by decide)
  · have hid : IsChild (TICKET_VALVE + 1) := .inl rfl
    have hask := step_ask hchain 5 (context 1) 0 [] (s := start chain) rfl rfl rfl hid
    have hblock := step_block hchain 5 (context 1) 0 []
      (s := { start chain with
        nDownLoadingRelayingHash := Uint256.ofNat (TICKET_VALVE + 1)
        nMixedPowHeader := Function.update
          (fun _ => .null) 1 (offer (TICKET_VALVE + 1) 0 []).header }) rfl rfl rfl rfl hid
    obtain ⟨t, hsign, hnull⟩ := sign_all hchain (by simp) 5 le_rfl
      (s := { start chain with
        nDownLoadingRelayingHash := Uint256.ofNat 0
        nMixedPowHeader := Function.update (fun _ => .null) 1 (offer (TICKET_VALVE + 1) 0 []).header
        nRelayingBlock := offer (TICKET_VALVE + 1) 0 []
        nRelayingTime := (context 1).now
        nNextChoice := 0 }) rfl rfl
    rw [takeOver, hsign] at hblock
    refine ⟨chain, _, hchain.deliver, (Relation.ReflTransGen.single ⟨_, _, hask⟩).tail ⟨_, _, hblock⟩, ?_⟩
    -- the peer gets the header of the cleared block, since the node has signed
    refine List.mem_append_right
      _ (List.mem_map.mpr ⟨1, List.mem_filter.mpr ⟨List.mem_singleton.mpr rfl, Bool.or_true _⟩, ?_⟩)
    rw [hnull]
    rfl

end TscPow
