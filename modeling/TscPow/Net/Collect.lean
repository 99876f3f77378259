import TscPow.Net.Relay
import TscPow.Node.Converge

/-!
# Collecting the signatures

While a block is relayed, its header goes from peer to peer and comes back with more signatures. The handlers of `POWNEWBLOCKHEADER` and `POWNEWBLOCK` compare hashes and count signatures, but verify nothing: neither that a signature belongs to its lucky ticket, nor that the transactions belong to the header, nor that a header with more signatures has those that the node has collected. If the peers keep to this themselves, what the node holds stays sound in every interleaving of their messages.
-/

namespace TscPow

/-- The signature in place `k` verifies for the address that signs there at the tip. From `TICKET_VALVE` on this is the address of the `k`-th lucky ticket for the block's seed. -/
def Verifies (r : RelayEnv) (active : TipState) (block : Block) (k : Nat) : Prop :=
  ∃ tickets address, signingTickets r.tickets active block = .ok tickets ∧
    Relay.signingAddress r active tickets (k - 1) = .ok address ∧
    checkSigwithAddress r.env.hashing r.recover block.header address k = true

def AllVerify (r : RelayEnv) (active : TipState) (block : Block) : Prop :=
  ∀ k sig, block.header.sig k = some sig → sig ≠ [] → Verifies r active block k

/-- The signatures of the one are signatures of the other. -/
def Keeps (block block' : Block) : Prop :=
  ∀ k sig, block.header.sig k = some sig → sig ≠ [] → block'.header.sig k = some sig

namespace Relay

variable (r : RelayEnv)

/-- The relayed block has good signatures only, and the transactions of its header. -/
def Safe (s : Relay) : Prop :=
  s.nRelayingBlock.isNull = false →
    AllVerify r s.chain.active s.nRelayingBlock ∧
      s.nRelayingBlock.hashMerkleRoot = (blockMerkleRoot r.env s.nRelayingBlock.vtx).1

/-- The messages with which signatures are collected. -/
def Event.IsOffer : Event → Prop
  | .powNewBlockHeader _ _ => True
  | .powNewBlock _ _ => True
  | _ => False

/-- One of these messages arrives, and the active chain stays. -/
def Receives (ctx : RelayContext) (e : Event) (s t : Relay) : Prop :=
  e.IsOffer ∧ s.step r ctx e = .ok t ∧ t.chain.active = s.chain.active

/-- `NewMixedPoWValidBlock` takes the block over. -/
def Takes (ctx : RelayContext) (s : Relay) (block : Block) : Prop :=
  block.hashPrevBlock = s.tipHash r ∧
    (s.nRelayingBlock.isNull = true ∨ s.nRelayingBlock.hashPrevBlock ≠ s.tipHash r ∨
      s.givesWay ctx block = true)

/-- What the peers keep to. A header for the relayed block is the same header with further signatures that verify. A block that was asked for and is taken over carries signatures that verify and the transactions of its header, and is another block only under another hash. -/
def Honest (ctx : RelayContext) (s : Relay) : Event → Prop
  | .powNewBlockHeader _ header =>
    r.env.hashing.blockHash header = r.hash s.nRelayingBlock → header.hashPrevBlock = s.tipHash r →
      s.nRelayingBlock.index < header.index →
      header.unsigned = s.nRelayingBlock.header.unsigned ∧
        Keeps s.nRelayingBlock (s.nRelayingBlock.changeHeader header) ∧
        AllVerify r s.chain.active (s.nRelayingBlock.changeHeader header)
  | .powNewBlock _ block =>
    r.hash block = s.nDownLoadingRelayingHash → s.Takes r ctx block →
      (r.hash block = r.hash s.nRelayingBlock →
        block.header.unsigned = s.nRelayingBlock.header.unsigned) ∧
        AllVerify r s.chain.active block ∧ block.hashMerkleRoot = (blockMerkleRoot r.env block.vtx).1
  | _ => True

def Collects (s t : Relay) : Prop := ∃ ctx e, s.Honest r ctx e ∧ Receives r ctx e s t

def SameBlock (s t : Relay) : Prop :=
  t.nRelayingBlock.isNull = false ∧ r.hash t.nRelayingBlock = r.hash s.nRelayingBlock

end Relay

/-! ### Signatures -/

section

variable {r : RelayEnv} {active : TipState} {block block' block'' : Block} {k : Nat}

theorem BlockHeader.sig_index_succ {h : BlockHeader} (hlt : h.index < 5) :
    h.sig (h.index + 1) = some [] := by
  by_contra hne
  refine absurd ((BlockHeader.le_index_iff hlt).mpr fun j hj hj' => ?_) (Nat.not_succ_le_self _)
  rcases Nat.eq_or_lt_of_le hj' with rfl | hj'
  · exact hne
  · exact (BlockHeader.le_index_iff hlt.le).mp le_rfl j hj (by omega)

theorem hash_of_unsigned (hunsigned : block'.header.unsigned = block.header.unsigned) :
    r.hash block' = r.hash block := by
  change r.env.hashing.blockHash block'.header = r.env.hashing.blockHash block.header
  rw [← r.hash_unsigned block'.header, hunsigned, r.hash_unsigned]

theorem Keeps.refl (block : Block) : Keeps block block := fun _ _ h _ => h

theorem Keeps.trans (h : Keeps block block') (h' : Keeps block' block'') : Keeps block block'' :=
  fun k sig hsig hne =>
  h' k sig (h k sig hsig hne) hne

theorem Verifies.congr (hunsigned : block'.header.unsigned = block.header.unsigned)
    (hsig : block'.header.sig k = block.header.sig k) (h : Verifies r active block k) :
    Verifies r active block' k := by
  obtain ⟨tickets, address, htickets, haddress, hcheck⟩ := h
  have hseed : block'.seed = block.seed := (BlockHeader.eq_of_unsigned hunsigned).2.2.1
  have hhash : r.env.hashing.blockHash block'.header = r.env.hashing.blockHash block.header :=
    hash_of_unsigned hunsigned
  refine ⟨tickets, address, ?_, haddress, ?_⟩
  · rw [signingTickets, hseed]
    exact htickets
  · unfold checkSigwithAddress at hcheck ⊢
    rw [hsig, hhash]
    exact hcheck

theorem verifies_setSig {tickets : List Ticket} {keyID : Address} {sig : List Byte}
    (hlt : block.index < 5) (htickets : signingTickets r.tickets active block = .ok tickets)
    (haddress : Relay.signingAddress r active tickets block.index = .ok (.keyID keyID))
    (hsign : r.wallet.signCompact keyID (r.hash block) = some sig) :
    Verifies r active (block.setSig sig (block.index + 1)) (block.index + 1) := by
  have hunsigned : (block.setSig sig (block.index + 1)).header.unsigned = block.header.unsigned :=
    BlockHeader.unsigned_setSig _ _ _
  have hseed : (block.setSig sig (block.index + 1)).seed = block.seed :=
    (BlockHeader.eq_of_unsigned hunsigned).2.2.1
  have hhash : r.env.hashing.blockHash (block.setSig sig (block.index + 1)).header = r.hash block :=
    hash_of_unsigned hunsigned
  have hsig : (block.setSig sig (block.index + 1)).header.sig (block.index + 1) = some sig :=
    (BlockHeader.sig_setSig _ (by omega) hlt _).trans (if_pos rfl)
  refine ⟨tickets, .keyID keyID, ?_, haddress, ?_⟩
  · rw [signingTickets, hseed]
    exact htickets
  · unfold checkSigwithAddress
    rw [hsig, hhash]
    exact beq_iff_eq.mpr (r.wallet.recovers _ _ _ hsign)

/-- The same block, possibly with more signatures. -/
structure Extends (block block' : Block) : Prop where
  unsigned : block'.header.unsigned = block.header.unsigned
  vtx : block'.vtx = block.vtx
  keeps : Keeps block block'

theorem Extends.refl (block : Block) : Extends block block := ⟨rfl, rfl, .refl block⟩

theorem Extends.trans (h : Extends block block') (h' : Extends block' block'') : Extends block block'' :=
  ⟨h'.unsigned.trans h.unsigned, h'.vtx.trans h.vtx, h.keeps.trans h'.keeps⟩

theorem extends_setSig (hlt : block.index < 5) (sig : List Byte) :
    Extends block (block.setSig sig (block.index + 1)) := by
  refine ⟨BlockHeader.unsigned_setSig _ _ _, rfl, fun k sig' hsig' hne => ?_⟩
  have hsig := BlockHeader.sig_setSig (h := block.header) sig (by omega) hlt k
  rw [if_neg] at hsig
  · exact hsig.trans hsig'
  · rintro rfl
    rw [show block.header.sig (block.index + 1) = some [] from BlockHeader.sig_index_succ hlt] at hsig'
    exact hne (Option.some.inj hsig').symm

theorem AllVerify.setSig {tickets : List Ticket} {keyID : Address} {sig : List Byte}
    (hverify : AllVerify r active block) (hlt : block.index < 5)
    (htickets : signingTickets r.tickets active block = .ok tickets)
    (haddress : Relay.signingAddress r active tickets block.index = .ok (.keyID keyID))
    (hsign : r.wallet.signCompact keyID (r.hash block) = some sig) :
    AllVerify r active (block.setSig sig (block.index + 1)) := by
  intro k sig' hsig' hne
  have hplace := BlockHeader.sig_setSig (h := block.header) sig (by omega) hlt k
  by_cases hk : k = block.index + 1
  · rw [hk]
    exact verifies_setSig hlt htickets haddress hsign
  · rw [if_neg hk] at hplace
    exact (hverify k sig' (hplace.symm.trans hsig') hne).congr (BlockHeader.unsigned_setSig _ _ _) hplace

end

/-! ### Steps and runs -/

namespace Relay

variable {r : RelayEnv} {ctx : RelayContext} {s t : Relay}

theorem signNewBlockHeader_safe {is_signed : Bool} (hverify : AllVerify r s.chain.active s.nRelayingBlock)
    (h : signNewBlockHeader r ctx s = .ok (t, is_signed)) :
    t.nRelayingBlock.isNull = true ∨ Extends s.nRelayingBlock t.nRelayingBlock ∧
      AllVerify r s.chain.active t.nRelayingBlock := by
  obtain ⟨u, ⟨-, hextends, hverify⟩, rfl | ⟨-, hsubmit⟩⟩ := signNewBlockHeader_rule
    (P := fun u => u.chain = s.chain ∧ Extends s.nRelayingBlock u.nRelayingBlock ∧
      AllVerify r s.chain.active u.nRelayingBlock)
    (fun u tickets keyID sig ⟨hchain, hextends, hverify⟩ htickets hlt haddress hsign =>
      ⟨hchain, hextends.trans (extends_setSig hlt sig),
      hverify.setSig hlt (hchain ▸ htickets) (hchain ▸ haddress) hsign⟩) ⟨rfl, .refl _, hverify⟩ h
  · exact .inr ⟨hextends, hverify⟩
  · obtain ⟨chain, rfl | rfl⟩ := submitSigned_cases hsubmit
    · exact .inr ⟨hextends, hverify⟩
    · exact .inl rfl

theorem safe_of_signed {block : Block}
    (hroot : block.hashMerkleRoot = (blockMerkleRoot r.env block.vtx).1)
    (hactive : t.chain.active = s.chain.active)
    (h : t.nRelayingBlock.isNull = true ∨ Extends block t.nRelayingBlock ∧
      AllVerify r s.chain.active t.nRelayingBlock) : t.Safe r := by
  intro hrelaying
  rcases h with hnull | ⟨hextends, hverify⟩
  · exact absurd (hrelaying.symm.trans hnull) Bool.false_ne_true
  · refine ⟨hactive ▸ hverify, ?_⟩
    have hsame : t.nRelayingBlock.hashMerkleRoot = block.hashMerkleRoot :=
      (BlockHeader.eq_of_unsigned hextends.unsigned).2.1
    rw [hsame, hextends.vtx, hroot]

theorem safe_updateHeader {header : BlockHeader} {mixed : NodeId → BlockHeader} (hsafe : s.Safe r)
    (hunsigned : header.unsigned = s.nRelayingBlock.header.unsigned)
    (hrelaying : s.nRelayingBlock.isNull = false)
    (hkeeps : Keeps s.nRelayingBlock (s.nRelayingBlock.changeHeader header))
    (hverify : AllVerify r s.chain.active (s.nRelayingBlock.changeHeader header))
    (hactive : t.chain.active = s.chain.active)
    (h : updateHeader r ctx { s with
      nMixedPowHeader := mixed, nRelayingBlock := s.nRelayingBlock.changeHeader header } = .ok t) :
    t.Safe r ∧ (SameBlock r s t → Keeps s.nRelayingBlock t.nRelayingBlock) := by
  obtain ⟨u, is_signed, ht, hsign⟩ := updateHeader_cases h
  have hblock : t.nRelayingBlock = u.nRelayingBlock := by rcases ht with ⟨rfl, -⟩ | rfl <;> rfl
  have hsigned :=
    signNewBlockHeader_safe
      (s := { s with
        nMixedPowHeader := mixed, nRelayingBlock := s.nRelayingBlock.changeHeader header,
          nRelayingTime := ctx.now })
    hverify hsign
  rw [← hblock] at hsigned
  refine ⟨safe_of_signed ?_ hactive hsigned, fun hsame => ?_⟩
  · exact (BlockHeader.eq_of_unsigned hunsigned).2.1.trans (hsafe hrelaying).2
  · rcases hsigned with hnull | ⟨hextends, -⟩
    · exact absurd (hsame.1.symm.trans hnull) Bool.false_ne_true
    · exact hkeeps.trans hextends.keeps

theorem safe_takeOver {block : Block} {nNextChoice : BitVec 32}
    (hverify : AllVerify r s.chain.active block)
    (hroot : block.hashMerkleRoot = (blockMerkleRoot r.env block.vtx).1)
    (hactive : t.chain.active = s.chain.active) (h : s.takeOver r ctx block nNextChoice = .ok t) :
    t.Safe r ∧ (SameBlock r s t → r.hash block = r.hash s.nRelayingBlock) := by
  obtain ⟨u, is_signed, receives, rfl, hsign⟩ := takeOver_cases h
  have hsigned :=
    signNewBlockHeader_safe
      (s := { s with nRelayingBlock := block, nRelayingTime := ctx.now, nNextChoice }) hverify hsign
  refine ⟨safe_of_signed hroot hactive hsigned, fun hsame => ?_⟩
  rcases hsigned with hnull | ⟨hextends, -⟩
  · exact absurd (hsame.1.symm.trans hnull) Bool.false_ne_true
  · rw [← hsame.2]
    exact (hash_of_unsigned hextends.unsigned).symm

/-- A message of an honest peer keeps the relayed block sound, and every signature of it while it stays the same block. -/
theorem Safe.step (hsafe : s.Safe r) (hstep : s.Collects r t) :
    t.Safe r ∧
      (s.nRelayingBlock.isNull = false → SameBlock r s t →
        Keeps s.nRelayingBlock t.nRelayingBlock) := by
  obtain ⟨ctx, e, hhonest, hoffer, h, hactive⟩ := hstep
  cases e with
  | powNewBlockHeader pfrom header =>
    rcases onPowNewBlockHeader_cases h with ⟨hash, mixed, rfl⟩ |
      ⟨hhash, hprev, hindex, hrelaying, mixed, hupdate⟩
    · exact ⟨hsafe, fun _ _ => .refl _⟩
    · obtain ⟨hunsigned, hkeeps, hverify⟩ := hhonest hhash hprev hindex
      obtain ⟨hsafe', hkept⟩ := safe_updateHeader hsafe hunsigned hrelaying hkeeps hverify hactive hupdate
      exact ⟨hsafe', fun _ => hkept⟩
  | powNewBlock pfrom block =>
    rcases onPowNewBlock_cases h with rfl | ⟨-, hasked, hnew⟩
    · exact ⟨hsafe, fun _ _ => .refl _⟩
    rcases newMixedPoWValidBlock_cases hnew with rfl | ⟨hprev, htake⟩
    · exact ⟨hsafe, fun _ _ => .refl _⟩
    -- a block is taken over only if it has another parent or seed than the relayed one
    rcases htake with ⟨hstale, htake⟩ | ⟨hway, -, htake⟩
    · obtain ⟨hcollision, hverify, hroot⟩ := hhonest hasked ⟨hprev, hstale.imp_right .inl⟩
      obtain ⟨hsafe', hsame⟩ :=
        safe_takeOver (s := { s with nDownLoadingRelayingHash := Uint256.ofNat 0 }) hverify hroot
          hactive htake
      refine ⟨hsafe', fun hrelaying hblock => ?_⟩
      have hunsigned := hcollision (hsame hblock)
      rcases hstale with hnull | hother
      · exact absurd (hrelaying.symm.trans hnull) Bool.false_ne_true
      · exact absurd ((BlockHeader.eq_of_unsigned hunsigned).1.symm.trans hprev) hother
    · obtain ⟨hcollision, hverify, hroot⟩ := hhonest hasked ⟨hprev, .inr (.inr hway)⟩
      obtain ⟨hsafe', hsame⟩ :=
        safe_takeOver (s := { s with nDownLoadingRelayingHash := Uint256.ofNat 0 }) hverify hroot
          hactive htake
      refine ⟨hsafe', fun _ hblock => ?_⟩
      exact absurd (BlockHeader.eq_of_unsigned (hcollision (hsame hblock))).2.2.1.symm
        (seed_ne_of_givesWay hway)
  | newMixedBlock | getHeaders | timer | netBlock | chainChange => exact hoffer.elim

theorem safe_of_run {s₀ : Relay} (hsafe : s₀.Safe r)
    (hrun : Relation.ReflTransGen (Collects r) s₀ s) : s.Safe r := by
  induction hrun with
  | refl => exact hsafe
  | tail _ hstep ih => exact (ih.step hstep).1

end Relay

open Relay in
/-- In every run of messages from honest peers with the active chain unchanged, the relayed block is sound in every state, and a signature that it has stays while it is the same block. -/
theorem collects_safely {r : RelayEnv} {s₀ s : Relay} (hsafe : s₀.Safe r)
    (hrun : Relation.ReflTransGen (Collects r) s₀ s) :
    s.Safe r ∧ ∀ t, s.nRelayingBlock.isNull = false →
      Relation.ReflTransGen (fun a b => Collects r a b ∧ SameBlock r a b) s t →
      Keeps s.nRelayingBlock t.nRelayingBlock := by
  have hsafe := safe_of_run hsafe hrun
  refine ⟨hsafe, fun t hrelaying hsame => ?_⟩
  have hkept : t.Safe r ∧ t.nRelayingBlock.isNull = false ∧ Keeps s.nRelayingBlock t.nRelayingBlock := by
    induction hsame with
    | refl => exact ⟨hsafe, hrelaying, .refl _⟩
    | tail _ hstep ih =>
      obtain ⟨hsafe, hrelaying, hkeeps⟩ := ih
      obtain ⟨hsafe', hkept⟩ := hsafe.step hstep.1
      exact ⟨hsafe', hstep.2.1, hkeeps.trans (hkept hrelaying hstep.2)⟩
  exact hkept.2.2

/-! ### Messages at the valve -/

namespace RelayRun

open Fork Relay

def relay (keys : Nat) : RelayEnv :=
  { node with
    wallet :=
      { signCompact := fun keyID _ => if 0 < keyID.toNat ∧ keyID.toNat ≤ keys then
        some (List.replicate keyID.toNat 1) else none
        nonempty := by
          intro keyID _ sig h
          rw [Option.ite_none_right_eq_some] at h
          obtain ⟨⟨hpos, -⟩, h⟩ := h
          rw [← Option.some.inj h, Ne, List.replicate_eq_nil_iff]
          omega
        recovers := by
          intro keyID _ sig h
          rw [Option.ite_none_right_eq_some] at h
          rw [← Option.some.inj h.2]
          change some (BitVec.ofNat 160 (List.replicate keyID.toNat (1 : Byte)).length) = _
          rw [List.length_replicate, BitVec.ofNat_toNat, BitVec.setWidth_eq] }
    default_pos_miner := .noDestination
    hash_unsigned := fun _ => rfl }

def context (now : Int) : RelayContext := ⟨now, [1], PlainChain.ctx⟩

def offer (id root : Nat) (sigs : List (List Byte)) : Block :=
  { block TICKET_VALVE id with
    hashMerkleRoot := Uint256.ofNat root
    sig1 := sigs.getD 0 []
    sig2 := sigs.getD 1 []
    sig3 := sigs.getD 2 []
    sig4 := sigs.getD 3 []
    sig5 := sigs.getD 4 [] }

variable {keys id root : Nat} {sigs sigs' : List (List Byte)} {chain : ChainNode}
  {ctx : RelayContext} {s : Relay}

def IsChild (id : Nat) : Prop := id = TICKET_VALVE + 1 ∨ id = TICKET_VALVE + 2

theorem hashPrevBlock_offer (hid : IsChild id) (root : Nat) (sigs : List (List Byte)) :
    (offer id root sigs).hashPrevBlock = Uint256.ofNat TICKET_VALVE := by
  rcases hid with rfl | rfl <;> rfl

theorem hash_offer (keys : Nat) (hid : IsChild id) (root : Nat) (sigs : List (List Byte)) :
    (relay keys).hash (offer id root sigs) = Uint256.ofNat id :=
  hash_block TICKET_VALVE (by rcases hid with rfl | rfl <;> decide)

theorem ofNat_ne_zero (hid : IsChild id) : Uint256.ofNat 0 ≠ Uint256.ofNat id := by
  rw [Ne, hash_inj le_rfl (Nat.zero_le _) (by rcases hid with rfl | rfl <;> decide)]
  rcases hid with rfl | rfl <;> decide

theorem isNull_offer (id root : Nat) (sigs : List (List Byte)) :
    (offer id root sigs).isNull = false := rfl

theorem sig_offer (id root : Nat) (sigs : List (List Byte)) {j : Nat} (hj : j < 5) :
    (offer id root sigs).header.sig (j + 1) = some (sigs.getD j []) := by
  interval_cases j <;> rfl

theorem exists_of_sig {k : Nat} {sig : List Byte} (h : (offer id root sigs).header.sig k = some sig) :
    ∃ j < 5, k = j + 1 ∧ sig = sigs.getD j [] := by
  have hk : 1 ≤ k ∧ k ≤ 5 := by
    by_contra hk
    unfold BlockHeader.sig at h
    split at h <;> first | omega | cases h
  refine ⟨k - 1, by omega, by omega, ?_⟩
  have hsig := sig_offer id root sigs (j := k - 1) (by omega)
  rw [Nat.sub_add_cancel hk.1, h] at hsig
  exact Option.some.inj hsig

theorem keeps_offer (hkeeps : ∀ j < 5, sigs.getD j [] ≠ [] → sigs'.getD j [] = sigs.getD j []) :
    Keeps (offer id root sigs) (offer id root sigs') := by
  intro k sig hsig hne
  obtain ⟨j, hj, rfl, rfl⟩ := exists_of_sig hsig
  rw [sig_offer id root sigs' hj, hkeeps j hj hne]

def lucky : List Ticket := (draw (remaining 0) TICKET_VALVE).toOption.getD []

section

variable (hchain : Follows chain (trunk TICKET_VALVE) (line TICKET_VALVE TICKET_VALVE))

include hchain

theorem tipHash_chain (keys : Nat) (hs : s.chain = chain) :
    s.tipHash (relay keys) = Uint256.ofNat TICKET_VALVE := by
  rw [Relay.tipHash, hs, ChainNode.tipHash, TipState.tip, hchain.above, hchain.known.root]
  exact last_line le_rfl (Nat.le_succ _)

theorem signingTickets_chain (keys : Nat) {b : Block} (hseed : b.seed = 0) :
    signingTickets (relay keys).tickets chain.active b = .ok lucky := by
  have hlucky : draw (remaining 0) TICKET_VALVE = .ok lucky := by decide +kernel
  rw [← hlucky]
  have hchain' : Follows chain (trunk TICKET_VALVE) (line TICKET_VALVE TICKET_VALVE ++ []) := by
    rwa [List.append_nil]
  exact hchain'.signingTickets (Nat.zero_le _) hseed

theorem signingAddress_chain (keys : Nat) {k : Nat} (hk : k < 5) :
    signingAddress (relay keys) chain.active lucky k = .ok (.keyID (BitVec.ofNat 160 (k + 1))) := by
  have haddress : ∀ k < 5, lucky[k]?.map Ticket.ticketAddress =
      some (.keyID (BitVec.ofNat 160 (k + 1))) := by decide +kernel
  obtain ⟨ticket, hticket, hto⟩ := Option.map_eq_some_iff.mp (haddress k hk)
  have hvalve : chain.active.height ≥ TICKET_VALVE := by rw [hchain.height, length_line]
  rw [signingAddress, if_pos hvalve, hticket, ← hto]

theorem sign_stranger (keys : Nat) (ctx : RelayContext) (hs : s.chain = chain)
    (hseed : s.nRelayingBlock.seed = 0) (hlt : s.nRelayingBlock.index < 5)
    (hkeys : keys ≤ s.nRelayingBlock.index) :
    signNewBlockHeader (relay keys) ctx s = .ok (s, false) := by
  refine signNewBlockHeader_of_stranger hlt (hs ▸ signingTickets_chain hchain keys hseed)
    (hs ▸ signingAddress_chain hchain keys hlt) ?_
  have hid : (BitVec.ofNat 160 (s.nRelayingBlock.index + 1)).toNat = s.nRelayingBlock.index + 1 := by
    rw [BitVec.toNat_ofNat, Nat.mod_eq_of_lt (lt_of_le_of_lt (Nat.succ_le_of_lt hlt) (by decide))]
  have hnone : (relay keys).wallet.signCompact (BitVec.ofNat 160 (s.nRelayingBlock.index + 1))
      ((relay keys).hash s.nRelayingBlock) = none := by
    change (if 0 < (BitVec.ofNat 160 _).toNat ∧ (BitVec.ofNat 160 _).toNat ≤ keys then _ else none) = none
    rw [hid, if_neg (by omega)]
  rw [signBlockwithAddress, hnone, Option.map_none]

theorem verifies_iff {b : Block} {k : Nat} {sig : List Byte} (hk : 1 ≤ k) (hk' : k ≤ 5)
    (hseed : b.seed = 0) (hsig : b.header.sig k = some sig) :
    Verifies (relay keys) chain.active b k ↔ BitVec.ofNat 160 sig.length = BitVec.ofNat 160 k := by
  have htickets := signingTickets_chain hchain keys hseed
  have haddress := signingAddress_chain hchain keys (k := k - 1) (by omega)
  rw [Nat.sub_add_cancel hk] at haddress
  have hcheck :
    checkSigwithAddress (relay keys).env.hashing (relay keys).recover b.header
      (.keyID (BitVec.ofNat 160 k)) k = true ↔
      BitVec.ofNat 160 sig.length = BitVec.ofNat 160 k := by
    unfold checkSigwithAddress
    rw [hsig, beq_iff_eq]
    exact Option.some_inj
  rw [← hcheck]
  constructor
  · rintro ⟨tickets, address, htickets', haddress', hverify⟩
    obtain rfl := Except.ok.inj (htickets.symm.trans htickets')
    obtain rfl := Except.ok.inj (haddress.symm.trans haddress')
    exact hverify
  · exact fun hverify => ⟨lucky, _, htickets, haddress, hverify⟩

theorem allVerify_offer (sigs : List (List Byte))
    (hgood : ∀ j < 5, sigs.getD j [] ≠ [] → (sigs.getD j []).length = j + 1) :
    AllVerify (relay keys) chain.active (offer id root sigs) := by
  intro k sig hsig hne
  obtain ⟨j, hj, rfl, rfl⟩ := exists_of_sig hsig
  rw [verifies_iff hchain (by omega) (by omega) rfl hsig, hgood j hj hne]

theorem step_ask (keys : Nat) (ctx : RelayContext) (root : Nat) (sigs : List (List Byte))
    (hs : s.chain = chain) (hnull : s.nRelayingBlock.isNull = true)
    (hidle : s.nDownLoadingRelayingHash = Uint256.ofNat 0) (hid : IsChild id) :
    s.step (relay keys) ctx (.powNewBlockHeader 1 (offer id root sigs).header) =
      .ok { s with
        nDownLoadingRelayingHash := Uint256.ofNat id
        nMixedPowHeader := Function.update s.nMixedPowHeader 1 (offer id root sigs).header } := by
  have hhash : (relay keys).env.hashing.blockHash (offer id root sigs).header = Uint256.ofNat id :=
    hash_offer keys hid root sigs
  have hprev : (offer id root sigs).header.hashPrevBlock = s.tipHash (relay keys) :=
    (hashPrevBlock_offer hid root sigs).trans (tipHash_chain hchain keys hs).symm
  have hwork :
      checkProofOfWork (Uint256.ofNat id) (offer id root sigs).header.nBits
        (relay keys).env.params = true := by
    rw [← hhash]
    exact ValveRun.checkProofOfWork_of_bits rfl
  rw [step, onPowNewBlockHeader, if_pos (by rw [hnull, hprev]; simp), requestOnce, hhash,
    if_neg (by rw [hidle]; exact ofNat_ne_zero hid),
    requestBlock, hhash, if_pos hwork]

theorem step_block (keys : Nat) (ctx : RelayContext) (root : Nat) (sigs : List (List Byte))
    (hs : s.chain = chain) (hnull : s.nRelayingBlock.isNull = true)
    (hasked : s.nDownLoadingRelayingHash = Uint256.ofNat id)
    (hmixed : s.nMixedPowHeader 1 = (offer id root sigs).header) (hid : IsChild id) :
    s.step (relay keys) ctx (.powNewBlock 1 (offer id root sigs)) =
      takeOver (relay keys) ctx { s with nDownLoadingRelayingHash := Uint256.ofNat 0 }
        (offer id root sigs) 0 := by
  have hhash := hash_offer keys hid root sigs
  have hprev : (offer id root sigs).hashPrevBlock = s.tipHash (relay keys) :=
    (hashPrevBlock_offer hid root sigs).trans (tipHash_chain hchain keys hs).symm
  rw [step, onPowNewBlock, if_pos ⟨by rw [hmixed]; rfl, by rw [hasked, hhash]⟩, newMixedPoWValidBlock]
  change (if (offer id root sigs).hashPrevBlock = s.tipHash (relay keys) then _ else _) = _
  rw [if_pos hprev]
  simp only [hnull, Bool.not_true, Bool.false_and, Bool.false_eq_true, if_false]
  rfl

theorem takeOver_stranger (keys : Nat) (ctx : RelayContext) (root : Nat) (sigs : List (List Byte))
    (hs : s.chain = chain) (hlt : (offer id root sigs).index < 5)
    (hkeys : keys ≤ (offer id root sigs).index) (nNextChoice : BitVec 32) :
    ∃ receives, takeOver (relay keys) ctx s (offer id root sigs) nNextChoice =
      .ok (({ s with nRelayingBlock := offer id root sigs, nRelayingTime := ctx.now, nNextChoice } :
        Relay).broadcast ctx receives) := by
  have hsign := sign_stranger hchain keys ctx
    (s := { s with nRelayingBlock := offer id root sigs, nRelayingTime := ctx.now, nNextChoice }) hs
      rfl hlt hkeys
  rw [takeOver, hsign]
  exact ⟨_, rfl⟩

theorem step_update (keys : Nat) (ctx : RelayContext) (sigs' : List (List Byte))
    (hs : s.chain = chain) (hblock : s.nRelayingBlock = offer id root sigs) (hid : IsChild id)
    (hmore : (offer id root sigs).index < (offer id root sigs').index)
    (hlt : (offer id root sigs').index < 5) (hkeys : keys ≤ (offer id root sigs').index) :
    ∃ t, s.step (relay keys) ctx (.powNewBlockHeader 1 (offer id root sigs').header) = .ok t ∧
      t.chain = s.chain ∧
      t.nRelayingBlock = offer id root sigs' := by
  have hprev : (offer id root sigs').header.hashPrevBlock = s.tipHash (relay keys) :=
    (hashPrevBlock_offer hid root sigs').trans (tipHash_chain hchain keys hs).symm
  have hhash : (relay keys).env.hashing.blockHash (offer id root sigs').header =
      (relay keys).hash s.nRelayingBlock := by rw [hblock]; rfl
  have hmore' : (offer id root sigs').header.index > s.nRelayingBlock.index := by rw [hblock]; exact hmore
  have hsign := sign_stranger hchain keys ctx
    (s := { s with
      nMixedPowHeader := Function.update s.nMixedPowHeader 1 (offer id root sigs').header
      nRelayingBlock := offer id root sigs'
      nRelayingTime := ctx.now }) hs rfl hlt hkeys
  have hchanged : s.nRelayingBlock.changeHeader (offer id root sigs').header =
      offer id root sigs' := by rw [hblock]; rfl
  rw [step, onPowNewBlockHeader, if_neg (by rw [hblock, isNull_offer]; simp), if_pos hhash,
    if_pos (by rw [hprev]; simpa using hmore'),
    updateHeader, hchanged, hsign]
  refine ⟨_, rfl, ?_⟩
  rw [if_neg hlt.ne]
  exact ⟨rfl, rfl⟩

theorem exists_messages (root : Nat) (sigs sigs' : List (List Byte)) (hid : IsChild id)
    (hmore : (offer id root sigs).index < (offer id root sigs').index)
    (hlt : (offer id root sigs').index < 5) :
    ∃ a s t, Receives (relay 0) (context 1) (.powNewBlockHeader 1 (offer id root sigs).header)
      (start chain) a ∧
      Receives (relay 0) (context 1) (.powNewBlock 1 (offer id root sigs)) a s ∧
      Receives (relay 0) (context 1) (.powNewBlockHeader 1 (offer id root sigs').header) s t ∧
      a.chain = chain ∧ a.nRelayingBlock = .null ∧ s.chain = chain ∧
        s.nRelayingBlock = offer id root sigs ∧
        t.chain = chain ∧ t.nRelayingBlock = offer id root sigs' := by
  have hask := step_ask hchain 0 (context 1) root sigs (s := start chain) rfl rfl rfl hid
  obtain ⟨receives, htake⟩ := takeOver_stranger hchain 0 (context 1) root sigs
    (s := { start chain with
      nDownLoadingRelayingHash := Uint256.ofNat 0
      nMixedPowHeader := Function.update (fun _ => .null) 1 (offer id root sigs).header }) rfl
        (hmore.trans hlt) (Nat.zero_le _) 0
  have hblock := step_block hchain 0 (context 1) root sigs
    (s := { start chain with
      nDownLoadingRelayingHash := Uint256.ofNat id
      nMixedPowHeader := Function.update (fun _ => .null) 1 (offer id root sigs).header }) rfl rfl
        rfl rfl hid
  rw [htake] at hblock
  obtain ⟨t, ht, htchain, htblock⟩ := step_update hchain 0 (context 1) sigs'
    (s := ({ start chain with
      nDownLoadingRelayingHash := Uint256.ofNat 0
      nMixedPowHeader := Function.update (fun _ => .null) 1 (offer id root sigs).header
      nRelayingBlock := offer id root sigs
      nRelayingTime := (context 1).now
      nNextChoice := 0 } : Relay).broadcast (context 1) receives) rfl rfl hid hmore hlt (Nat.zero_le _)
  exact ⟨_, _, t, ⟨trivial, hask, rfl⟩, ⟨trivial, hblock, rfl⟩, ⟨trivial, ht, by rw [htchain]⟩, rfl,
    rfl, rfl, rfl, htchain, htblock⟩

end

end RelayRun

open RelayRun Fork Relay in
theorem collects_safely_two_signatures :
    ∃ s t : Relay, s.nRelayingBlock = offer (TICKET_VALVE + 1) 0 [[1]] ∧
      t.nRelayingBlock = offer (TICKET_VALVE + 1) 0 [[1], [1, 1]] ∧
      Collects (relay 0) s t ∧ s.Safe (relay 0) ∧ t.Safe (relay 0) ∧
        Keeps s.nRelayingBlock t.nRelayingBlock := by
  obtain ⟨chain, hchain⟩ := exists_trunk le_rfl
  have hid : IsChild (TICKET_VALVE + 1) := .inl rfl
  obtain ⟨a, s, t, hask, hblock, hupdate, hachain, hanull, hschain, hsblock, htchain, htblock⟩ :=
    exists_messages hchain 0 [[1]] [[1], [1, 1]] hid (by decide) (by decide)
  have hfirst : Collects (relay 0) (start chain) a := by
    refine ⟨_, _, ?_, hask⟩
    intro hhash
    exact absurd (hhash.symm.trans (hash_offer 0 hid 0 [[1]])) (ofNat_ne_zero hid)
  have hsecond : Collects (relay 0) a s := by
    refine ⟨_, _,
      fun _ _ => ⟨fun hhash => ?_, hachain ▸ allVerify_offer hchain [[1]] (by decide), rfl⟩, hblock⟩
    rw [hanull, hash_offer 0 hid] at hhash
    exact absurd hhash.symm (ofNat_ne_zero hid)
  have hthird : Collects (relay 0) s t := by
    refine ⟨_, _, fun _ _ _ => ⟨by rw [hsblock]; rfl, ?_, ?_⟩, hupdate⟩
    · rw [hsblock]
      exact keeps_offer (by decide)
    · rw [hsblock, hschain]
      exact allVerify_offer hchain [[1], [1, 1]] (by decide)
  have hrun := (Relation.ReflTransGen.single hfirst).tail hsecond
  have hstart : (start chain).Safe (relay 0) := fun h => by cases h
  obtain ⟨hsafe, hkeeps⟩ := collects_safely hstart hrun
  refine ⟨s, t, hsblock, htblock, hthird, hsafe, (collects_safely hstart (hrun.tail hthird)).1,
    hkeeps t (by rw [hsblock]; rfl) (.single ⟨hthird, ?_⟩)⟩
  rw [SameBlock, hsblock, htblock]
  exact ⟨rfl, rfl⟩

open RelayRun Fork Relay in
/-- One peer sends a header, then its block with transactions that do not belong to it and one good signature, then the header with another first signature and a second one. The node takes all of it: the wrong transactions, and a bad signature in place of the good one. -/
theorem bad_signature_replaces_good :
    ∃ chain s t, (ChainNode.start node (block TICKET_VALVE 0)).deliver node
      (deliveries TICKET_VALVE (trunk TICKET_VALVE)) = .ok chain ∧
      Relation.ReflTransGen (fun a b => ∃ ctx e, Receives (relay 0) ctx e a b) (start chain) s ∧
        (∃ ctx e, Receives (relay 0) ctx e s t) ∧
      s.nRelayingBlock.isNull = false ∧
        s.nRelayingBlock.hashMerkleRoot ≠ (blockMerkleRoot (relay 0).env s.nRelayingBlock.vtx).1 ∧
      Verifies (relay 0) s.chain.active s.nRelayingBlock 1 ∧ SameBlock (relay 0) s t ∧
      t.nRelayingBlock.sig1 ≠ s.nRelayingBlock.sig1 ∧ t.nRelayingBlock.sig1 ≠ [] ∧
        ¬ Verifies (relay 0) t.chain.active t.nRelayingBlock 1 := by
  obtain ⟨chain, hchain⟩ := exists_trunk le_rfl
  have hid : IsChild (TICKET_VALVE + 1) := .inl rfl
  obtain ⟨a, s, t, hask, hblock, hupdate, -, -, hschain, hsblock, htchain, htblock⟩ :=
    exists_messages hchain 7 [[1]] [[1, 1, 1], [1, 1]] hid (by decide) (by decide)
  refine ⟨chain, s, t, hchain.deliver,
    (Relation.ReflTransGen.single ⟨_, _, hask⟩).tail ⟨_, _, hblock⟩, ⟨_, _, hupdate⟩, ?_⟩
  rw [hsblock, htblock, hschain, htchain, SameBlock, hsblock, htblock]
  refine ⟨rfl, by decide, ?_, ⟨rfl, rfl⟩, by decide, by decide, ?_⟩
  · exact (verifies_iff hchain le_rfl (by decide) rfl rfl).mpr rfl
  · rw [verifies_iff hchain le_rfl (by decide) rfl rfl]
    decide

end TscPow
