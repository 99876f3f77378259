import TscPow.Miner.Assembler
import TscPow.Net.Relay

/-!
# The pool of orphan transactions

A transaction with unknown inputs is kept for a while in `mapOrphanTransactions` (`net_processing.cpp`), with an index by the outputs that it spends. The index holds iterators into the map, so a pool that forgets to update it leaves pointers to freed memory; the functions here are run in any order. An iterator is modelled by the key of its entry, and following one that is no longer in the map is a fault.

Expired orphans are only swept out when `nNextSweep` has come, so how long they stay depends on the clock. `GetTime` may go back; `Reached` is a run with any clock.
-/

namespace TscPow

def MAX_STANDARD_TX_WEIGHT : Nat := 400000

def ORPHAN_TX_EXPIRE_TIME : Int := 20 * 60
def ORPHAN_TX_EXPIRE_INTERVAL : Int := 5 * 60

/-- `COrphanTx`. -/
structure OrphanTx where
  tx : Tx
  fromPeer : NodeId
  nTimeExpire : Int

/-- The two maps, an entry of the index without iterators being absent; the static `nNextSweep`; and the ring of transactions kept for compact blocks, which is empty until the first use. -/
structure OrphanPool where
  hashes : Finset Uint256
  orphan : Uint256 → OrphanTx
  byPrev : OutPoint → Finset Uint256
  nNextSweep : Int
  vExtraTxnForCompact : List (Option (Uint256 × Tx))
  vExtraTxnForCompactIt : Nat

/-- The hashes of a transaction, and the setting `-blockreconstructionextratxn`. -/
structure OrphanSetting where
  txHash : Tx → Uint256
  witnessHash : Tx → Uint256
  maxExtraTxn : Nat

namespace OrphanPool

def empty (orphan : Uint256 → OrphanTx) : OrphanPool := ⟨∅, orphan, fun _ => ∅, 0, [], 0⟩

variable (e : OrphanSetting)

def addToCompactExtraTransactions (s : OrphanPool) (tx : Tx) : Except Fault OrphanPool :=
  if e.maxExtraTxn = 0 then .ok s
  else
    let ring := if s.vExtraTxnForCompact.isEmpty then List.replicate e.maxExtraTxn none
      else s.vExtraTxnForCompact
    if s.vExtraTxnForCompactIt < ring.length then
      .ok { s with
        vExtraTxnForCompact := ring.set s.vExtraTxnForCompactIt (some (e.witnessHash tx, tx))
        vExtraTxnForCompactIt := (s.vExtraTxnForCompactIt + 1) % e.maxExtraTxn }
    else .error .undefined

def addOrphanTx (s : OrphanPool) (tx : Tx) (peer : NodeId) (now : Int) :
    Except Fault (Bool × OrphanPool) := do
  let hash := e.txHash tx
  if hash ∈ s.hashes then return (false, s)
  if getTransactionWeight tx ≥ MAX_STANDARD_TX_WEIGHT then return (false, s)
  let s ← addToCompactExtraTransactions e
    { s with
      hashes := insert hash s.hashes
      orphan := Function.update s.orphan hash ⟨tx, peer, now + ORPHAN_TX_EXPIRE_TIME⟩
      byPrev := tx.prevouts.foldl
        (fun byPrev o => Function.update byPrev o (insert hash (byPrev o))) s.byPrev } tx
  return (true, s)

/-- `EraseOrphanTx`, without the number of erased orphans. -/
def eraseOrphanTx (s : OrphanPool) (hash : Uint256) : OrphanPool :=
  if hash ∈ s.hashes then
    { s with
      byPrev := (s.orphan hash).tx.prevouts.foldl
        (fun byPrev o => Function.update byPrev o ((byPrev o).erase hash)) s.byPrev
      hashes := s.hashes.erase hash }
  else s

/-- The body of the loop over the map, which erases the orphan it is at. -/
def eraseIf (p : OrphanTx → Bool) (s : OrphanPool) (h : Uint256) : OrphanPool :=
  if p (s.orphan h) then s.eraseOrphanTx (e.txHash (s.orphan h).tx) else s

def eraseOrphansFor (s : OrphanPool) (peer : NodeId) : OrphanPool :=
  (s.hashes.sort (· ≤ ·)).foldl (eraseIf e fun o => o.fromPeer == peer) s

/-- The sweep of `LimitOrphanTxSize`. -/
def sweep (s : OrphanPool) (nNow : Int) : OrphanPool :=
  let nMinExpTime := (s.hashes.sort (· ≤ ·)).foldl
    (fun m h => if (s.orphan h).nTimeExpire ≤ nNow then m else min (s.orphan h).nTimeExpire m)
    (nNow + ORPHAN_TX_EXPIRE_TIME - ORPHAN_TX_EXPIRE_INTERVAL)
  { (s.hashes.sort (· ≤ ·)).foldl (eraseIf e fun o => decide (o.nTimeExpire ≤ nNow)) s with
    nNextSweep := nMinExpTime + ORPHAN_TX_EXPIRE_INTERVAL }

/-- The first orphan from a random hash on, or else the first of all. -/
def victim (s : OrphanPool) (randomhash : Uint256) : Option Uint256 :=
  ((s.hashes.sort (· ≤ ·)).find? (randomhash ≤ ·)).or (s.hashes.sort (· ≤ ·)).head?

/-- Evicts random orphans while there are too many; each round takes the next random hash. -/
def evict (nMaxOrphans : Nat) (rand : Nat → Uint256) : Nat → Nat → OrphanPool → OrphanPool
  | 0, _, s => s
  | fuel + 1, nEvicted, s =>
    if s.hashes.card > nMaxOrphans then
      match s.victim (rand nEvicted) with
      | some h => evict nMaxOrphans rand fuel (nEvicted + 1) (s.eraseOrphanTx h)
      | none => s
    else s

def limitOrphanTxSize (s : OrphanPool) (nMaxOrphans : Nat) (nNow : Int) (rand : Nat → Uint256) :
    OrphanPool :=
  let s := if s.nNextSweep ≤ nNow then s.sweep e nNow else s
  evict nMaxOrphans rand s.hashes.card 0 s

/-- The iterators of the index for an output, followed to the hashes of their transactions. The order of the set is that of addresses; any order would do. -/
def spenders (s : OrphanPool) (o : OutPoint) : Except Fault (List Uint256) :=
  ((s.byPrev o).sort (· ≤ ·)).mapM fun h => if h ∈ s.hashes then .ok (e.txHash (s.orphan h).tx)
    else .error .undefined

/-- `BlockConnected`, as far as it is about orphans. -/
def blockConnected (s : OrphanPool) (vtx : List Tx) : Except Fault OrphanPool := do
  let vOrphanErase ← (vtx.flatMap Tx.prevouts).mapM (s.spenders e)
  return vOrphanErase.flatten.foldl eraseOrphanTx s

/-! ### The index -/

/-- Every orphan is stored under its own hash, the index has exactly the orphans that spend an output, and the ring has its full size once it is in use. -/
structure Inv (s : OrphanPool) : Prop where
  key : ∀ h ∈ s.hashes, e.txHash (s.orphan h).tx = h
  index : ∀ o h, h ∈ s.byPrev o ↔ h ∈ s.hashes ∧ o ∈ (s.orphan h).tx.prevouts
  ring : s.vExtraTxnForCompact = [] ∧ s.vExtraTxnForCompactIt = 0 ∨
    s.vExtraTxnForCompact.length = e.maxExtraTxn ∧ s.vExtraTxnForCompactIt < e.maxExtraTxn

variable {e} {s s' : OrphanPool} {h : Uint256}

theorem mem_foldl_insert (hash : Uint256) (prevouts : List OutPoint)
    (byPrev : OutPoint → Finset Uint256) (o : OutPoint) :
    h ∈ prevouts.foldl (fun byPrev o => Function.update byPrev o (insert hash (byPrev o))) byPrev o ↔
      h ∈ byPrev o ∨ h = hash ∧ o ∈ prevouts := by
  induction prevouts generalizing byPrev with
  | nil => simp
  | cons p prevouts ih =>
    rw [List.foldl_cons, ih, Function.update_apply]
    split
    case isTrue hp =>
      subst hp
      simp only [Finset.mem_insert, List.mem_cons]
      tauto
    case isFalse hp =>
      simp only [List.mem_cons]
      tauto

theorem mem_foldl_erase (hash : Uint256) (prevouts : List OutPoint)
    (byPrev : OutPoint → Finset Uint256) (o : OutPoint) :
    h ∈ prevouts.foldl (fun byPrev o => Function.update byPrev o ((byPrev o).erase hash)) byPrev o ↔
      h ∈ byPrev o ∧ ¬ (h = hash ∧ o ∈ prevouts) := by
  induction prevouts generalizing byPrev with
  | nil => simp
  | cons p prevouts ih =>
    rw [List.foldl_cons, ih, Function.update_apply]
    split
    case isTrue hp =>
      subst hp
      simp only [Finset.mem_erase, List.mem_cons]
      tauto
    case isFalse hp =>
      simp only [List.mem_cons]
      tauto

theorem inv_empty (orphan : Uint256 → OrphanTx) : Inv e (empty orphan) :=
  ⟨by simp [empty], by simp [empty], Or.inl ⟨rfl, rfl⟩⟩

theorem Inv.addToCompactExtraTransactions (hinv : s.Inv e) (tx : Tx) :
    ∃ s', s.addToCompactExtraTransactions e tx = .ok s' ∧ s'.Inv e ∧ s'.hashes = s.hashes ∧
      s'.orphan = s.orphan ∧
      s'.nNextSweep = s.nNextSweep := by
  unfold OrphanPool.addToCompactExtraTransactions
  split
  case isTrue => exact ⟨s, rfl, hinv, rfl, rfl, rfl⟩
  case isFalse hmax =>
    have hlength :
      (if s.vExtraTxnForCompact.isEmpty then List.replicate e.maxExtraTxn none
        else s.vExtraTxnForCompact).length =
        e.maxExtraTxn ∧ s.vExtraTxnForCompactIt < e.maxExtraTxn := by
      rcases hinv.ring with ⟨hnil, hit⟩ | ⟨hlength, hit⟩
      · rw [hnil, hit]
        exact ⟨List.length_replicate, Nat.pos_of_ne_zero hmax⟩
      · split
        · exact ⟨List.length_replicate, hit⟩
        · exact ⟨hlength, hit⟩
    dsimp only
    rw [if_pos (hlength.2.trans_eq hlength.1.symm)]
    refine ⟨_, rfl, ⟨hinv.key, hinv.index, Or.inr ⟨?_, Nat.mod_lt _ (Nat.pos_of_ne_zero hmax)⟩⟩,
      rfl, rfl, rfl⟩
    rw [List.length_set]
    exact hlength.1

theorem Inv.addOrphanTx (hinv : s.Inv e) (tx : Tx) (peer : NodeId) (now : Int) :
    ∃ b s', s.addOrphanTx e tx peer now = .ok (b, s') ∧ s'.Inv e ∧ s'.nNextSweep = s.nNextSweep ∧
      ∀ h ∈ s'.hashes, h ∈ s.hashes ∧ s'.orphan h = s.orphan h ∨
        s'.orphan h = ⟨tx, peer, now + ORPHAN_TX_EXPIRE_TIME⟩ := by
  unfold OrphanPool.addOrphanTx
  by_cases hknown : e.txHash tx ∈ s.hashes
  · exact ⟨false, s, by rw [if_pos hknown]; rfl, hinv, rfl, fun h hh => Or.inl ⟨hh, rfl⟩⟩
  by_cases hlarge : getTransactionWeight tx ≥ MAX_STANDARD_TX_WEIGHT
  · exact ⟨false, s, by rw [if_neg hknown, if_pos hlarge]; rfl, hinv, rfl, fun h hh => Or.inl ⟨hh, rfl⟩⟩
  have hother : ∀ h ∈ s.hashes,
      Function.update s.orphan (e.txHash tx) ⟨tx, peer, now + ORPHAN_TX_EXPIRE_TIME⟩ h =
        s.orphan h :=
    fun h hh => Function.update_of_ne (ne_of_mem_of_not_mem hh hknown) _ _
  have hstored : Inv e { s with
      hashes := insert (e.txHash tx) s.hashes
      orphan := Function.update s.orphan (e.txHash tx) ⟨tx, peer, now + ORPHAN_TX_EXPIRE_TIME⟩
      byPrev := tx.prevouts.foldl
        (fun byPrev o => Function.update byPrev o (insert (e.txHash tx) (byPrev o))) s.byPrev
          } := by
    refine ⟨fun h hh => ?_, fun o h => ?_, hinv.ring⟩
    · rcases Finset.mem_insert.mp hh with rfl | hh
      · dsimp only
        rw [Function.update_self]
      · dsimp only
        rw [hother h hh]
        exact hinv.key h hh
    · dsimp only
      rw [mem_foldl_insert, hinv.index, Finset.mem_insert]
      by_cases hnew : h = e.txHash tx
      · subst hnew
        rw [Function.update_self]
        simp [hknown]
      · rw [Function.update_of_ne hnew]
        simp [hnew]
  obtain ⟨s', hok, hinv', hhashes, horphan, hnext⟩ := hstored.addToCompactExtraTransactions tx
  refine ⟨true, s', ?_, hinv', hnext, fun h hh => ?_⟩
  · rw [if_neg hknown, if_neg hlarge]
    simp only [hok]
    rfl
  · rw [horphan]
    rw [hhashes] at hh
    rcases Finset.mem_insert.mp hh with rfl | hh
    · exact Or.inr (Function.update_self _ _ _)
    · exact Or.inl ⟨hh, hother h hh⟩

@[simp] theorem orphan_eraseOrphanTx (s : OrphanPool) (hash : Uint256) :
    (s.eraseOrphanTx hash).orphan = s.orphan := by
  unfold eraseOrphanTx
  split <;> rfl

@[simp] theorem hashes_eraseOrphanTx (s : OrphanPool) (hash : Uint256) :
    (s.eraseOrphanTx hash).hashes = s.hashes.erase hash := by
  unfold eraseOrphanTx
  split
  · rfl
  case isFalse hmem => exact (Finset.erase_eq_of_notMem hmem).symm

@[simp] theorem nNextSweep_eraseOrphanTx (s : OrphanPool) (hash : Uint256) :
    (s.eraseOrphanTx hash).nNextSweep = s.nNextSweep := by
  unfold eraseOrphanTx
  split <;> rfl

theorem Inv.eraseOrphanTx (hinv : s.Inv e) (hash : Uint256) : (s.eraseOrphanTx hash).Inv e := by
  unfold OrphanPool.eraseOrphanTx
  split
  case isFalse => exact hinv
  case isTrue hmem =>
    refine ⟨fun h hh => hinv.key h (Finset.mem_of_mem_erase hh), fun o h => ?_, hinv.ring⟩
    dsimp only
    rw [mem_foldl_erase, hinv.index, Finset.mem_erase]
    by_cases hsame : h = hash
    · subst hsame
      tauto
    · tauto

/-! ### Erasing several orphans -/

theorem foldl_eraseOrphanTx (hinv : s.Inv e) (l : List Uint256) :
    (l.foldl OrphanPool.eraseOrphanTx s).Inv e ∧
    (l.foldl OrphanPool.eraseOrphanTx s).hashes = s.hashes \ l.toFinset ∧
      (l.foldl OrphanPool.eraseOrphanTx s).orphan = s.orphan ∧
      (l.foldl OrphanPool.eraseOrphanTx s).nNextSweep = s.nNextSweep := by
  induction l generalizing s with
  | nil => exact ⟨hinv, by simp, rfl, rfl⟩
  | cons h l ih =>
    obtain ⟨hinv', hhashes, horphan, hnext⟩ := ih (hinv.eraseOrphanTx h)
    refine ⟨hinv', ?_, ?_, ?_⟩
    · rw [List.foldl_cons, hhashes, hashes_eraseOrphanTx, List.toFinset_cons]
      ext x
      simp only [Finset.mem_sdiff, Finset.mem_erase, Finset.mem_insert]
      tauto
    · rw [List.foldl_cons, horphan, orphan_eraseOrphanTx]
    · rw [List.foldl_cons, hnext, nNextSweep_eraseOrphanTx]

theorem foldl_eraseIf (hinv : s.Inv e) (p : OrphanTx → Bool) {l : List Uint256} (hnodup : l.Nodup)
    (hsub : ∀ h ∈ l, h ∈ s.hashes) :
    l.foldl (eraseIf e p) s = (l.filter fun h => p (s.orphan h)).foldl OrphanPool.eraseOrphanTx s := by
  induction l generalizing s with
  | nil => rfl
  | cons h l ih =>
    obtain ⟨hfresh, hnodup⟩ := List.nodup_cons.mp hnodup
    rw [List.foldl_cons, List.filter_cons, eraseIf]
    split
    case isFalse hp =>
      exact ih hinv hnodup fun h' hh' => hsub h' (List.mem_cons_of_mem _ hh')
    case isTrue hp =>
      rw [List.foldl_cons, hinv.key h (hsub h List.mem_cons_self), ih (hinv.eraseOrphanTx h) hnodup,
        orphan_eraseOrphanTx]
      intro h' hh'
      rw [hashes_eraseOrphanTx, Finset.mem_erase]
      exact ⟨fun heq => hfresh (heq ▸ hh'), hsub h' (List.mem_cons_of_mem _ hh')⟩

theorem eraseIf_all (hinv : s.Inv e) (p : OrphanTx → Bool) :
    ((s.hashes.sort (· ≤ ·)).foldl (eraseIf e p) s).Inv e ∧
      ((s.hashes.sort (· ≤ ·)).foldl (eraseIf e p) s).hashes = s.hashes.filter
      (fun h => p (s.orphan h) = false) ∧
      ((s.hashes.sort (· ≤ ·)).foldl (eraseIf e p) s).orphan = s.orphan ∧
      ((s.hashes.sort (· ≤ ·)).foldl (eraseIf e p) s).nNextSweep = s.nNextSweep := by
  rw [foldl_eraseIf hinv p (Finset.sort_nodup ..) fun h hh => (Finset.mem_sort _).mp hh]
  obtain ⟨hinv', hhashes, horphan, hnext⟩ :=
    foldl_eraseOrphanTx hinv ((s.hashes.sort (· ≤ ·)).filter fun h => p (s.orphan h))
  refine ⟨hinv', ?_, horphan, hnext⟩
  rw [hhashes]
  ext h
  simp only [Finset.mem_sdiff, List.mem_toFinset, List.mem_filter, Finset.mem_sort,
    Finset.mem_filter, Bool.eq_false_iff]
  tauto

theorem eraseOrphansFor_spec (hinv : s.Inv e) (peer : NodeId) :
    (s.eraseOrphansFor e peer).Inv e ∧ (s.eraseOrphansFor e peer).hashes = s.hashes.filter
    (fun h => (s.orphan h).fromPeer ≠ peer) ∧
      (s.eraseOrphansFor e peer).orphan = s.orphan ∧
      (s.eraseOrphansFor e peer).nNextSweep = s.nNextSweep := by
  obtain ⟨hinv', hhashes, hrest⟩ := eraseIf_all hinv fun o => o.fromPeer == peer
  refine ⟨hinv', hhashes.trans ?_, hrest⟩
  simp

theorem mem_spenders (hinv : s.Inv e) (o : OutPoint) :
    ∃ l, s.spenders e o = .ok l ∧ ∀ h, h ∈ l ↔ h ∈ s.byPrev o := by
  have hall : ∀ l : List Uint256, (∀ h ∈ l, h ∈ s.hashes) →
      l.mapM (fun h => if h ∈ s.hashes then .ok (e.txHash (s.orphan h).tx) else .error .undefined) =
        (.ok l : Except Fault (List Uint256)) := by
    intro l hl
    induction l with
    | nil => rfl
    | cons h l ih =>
      rw [List.mapM_cons, if_pos (hl h List.mem_cons_self),
        ih fun h' hh' => hl h' (List.mem_cons_of_mem _ hh'), hinv.key h (hl h List.mem_cons_self)]
      rfl
  refine ⟨(s.byPrev o).sort (· ≤ ·), hall _ fun h hh => ?_, fun h => Finset.mem_sort _⟩
  exact ((hinv.index o h).mp ((Finset.mem_sort _).mp hh)).1

theorem blockConnected_spec (hinv : s.Inv e) (vtx : List Tx) :
    ∃ s', s.blockConnected e vtx = .ok s' ∧ s'.Inv e ∧
      s'.hashes =
        s.hashes.filter (fun h => ∀ tx ∈ vtx, ∀ o ∈ tx.prevouts, o ∉ (s.orphan h).tx.prevouts) ∧
        s'.orphan = s.orphan ∧
      s'.nNextSweep = s.nNextSweep := by
  have hmap : ∀ os : List OutPoint, ∃ ls, os.mapM (s.spenders e) = .ok ls ∧ ∀ h, h ∈ ls.flatten ↔
      ∃ o ∈ os, h ∈ s.byPrev o := by
    intro os
    induction os with
    | nil => exact ⟨[], rfl, by simp⟩
    | cons o os ih =>
      obtain ⟨l, hl, hmem⟩ := mem_spenders hinv o
      obtain ⟨ls, hls, hmems⟩ := ih
      refine ⟨l :: ls, by rw [List.mapM_cons, hl, hls]; rfl, fun h => ?_⟩
      rw [List.flatten_cons, List.mem_append, hmem, hmems]
      simp
  obtain ⟨ls, hls, hmem⟩ := hmap (vtx.flatMap Tx.prevouts)
  obtain ⟨hinv', hhashes, hrest⟩ := foldl_eraseOrphanTx hinv ls.flatten
  refine ⟨ls.flatten.foldl OrphanPool.eraseOrphanTx s, by rw [OrphanPool.blockConnected, hls]; rfl,
    hinv', ?_, hrest⟩
  rw [hhashes]
  ext h
  simp only [Finset.mem_sdiff, List.mem_toFinset, hmem, List.mem_flatMap, hinv.index, Finset.mem_filter]
  constructor
  · rintro ⟨hh, hno⟩
    exact ⟨hh, fun tx htx o ho hspent => hno ⟨o, ⟨tx, htx, ho⟩, hh, hspent⟩⟩
  · rintro ⟨hh, hnone⟩
    exact ⟨hh, fun ⟨o, ⟨tx, htx, ho⟩, _, hspent⟩ => hnone tx htx o ho hspent⟩

/-! ### Sweeping and evicting -/

theorem foldl_min_le (nNow bound : Int) (l : List Uint256) (orphan : Uint256 → OrphanTx) :
    l.foldl (fun m h => if (orphan h).nTimeExpire ≤ nNow then m else min (orphan h).nTimeExpire m)
      bound ≤ bound ∧
      ∀ h ∈ l, nNow < (orphan h).nTimeExpire →
        l.foldl (fun m h => if (orphan h).nTimeExpire ≤ nNow then m
          else min (orphan h).nTimeExpire m) bound ≤ (orphan h).nTimeExpire := by
  induction l generalizing bound with
  | nil => simp
  | cons h l ih =>
    rw [List.foldl_cons]
    obtain ⟨hbound, hall⟩ :=
      ih (if (orphan h).nTimeExpire ≤ nNow then bound else min (orphan h).nTimeExpire bound)
    have hle : (if (orphan h).nTimeExpire ≤ nNow then bound else min (orphan h).nTimeExpire bound) ≤
        bound := by
      split <;> omega
    refine ⟨hbound.trans hle, fun h' hh' hlate => ?_⟩
    rcases List.mem_cons.mp hh' with rfl | hh'
    · rw [if_neg (not_le.mpr hlate)] at hbound ⊢
      exact hbound.trans (min_le_left _ _)
    · exact hall h' hh' hlate

theorem sweep_spec (hinv : s.Inv e) (nNow : Int) :
    (s.sweep e nNow).Inv e ∧ (s.sweep e nNow).hashes = s.hashes.filter
    (fun h => nNow < (s.orphan h).nTimeExpire) ∧
      (s.sweep e nNow).orphan = s.orphan ∧ (s.sweep e nNow).nNextSweep ≤ nNow + ORPHAN_TX_EXPIRE_TIME ∧
      ∀ h ∈ (s.sweep e nNow).hashes,
        (s.sweep e nNow).nNextSweep ≤ (s.orphan h).nTimeExpire + ORPHAN_TX_EXPIRE_INTERVAL := by
  obtain ⟨hinv', hhashes, horphan, -⟩ := eraseIf_all hinv fun o => decide (o.nTimeExpire ≤ nNow)
  obtain ⟨hbound, hall⟩ :=
    foldl_min_le nNow (nNow + ORPHAN_TX_EXPIRE_TIME - ORPHAN_TX_EXPIRE_INTERVAL)
      (s.hashes.sort (· ≤ ·)) s.orphan
  have hkept : (s.sweep e nNow).hashes = s.hashes.filter (fun h => nNow < (s.orphan h).nTimeExpire) := by
    refine hhashes.trans ?_
    simp
  refine ⟨⟨hinv'.key, hinv'.index, hinv'.ring⟩, hkept, horphan, ?_, fun h hh => ?_⟩
  · change _ + ORPHAN_TX_EXPIRE_INTERVAL ≤ _
    omega
  · rw [hkept, Finset.mem_filter] at hh
    have := hall h ((Finset.mem_sort _).mpr hh.1) hh.2
    change _ + ORPHAN_TX_EXPIRE_INTERVAL ≤ _
    omega

theorem victim_mem (hne : s.hashes.Nonempty) (randomhash : Uint256) :
    ∃ h ∈ s.hashes, s.victim randomhash = some h := by
  unfold victim
  cases hfind : (s.hashes.sort (· ≤ ·)).find? (randomhash ≤ ·) with
  | some h => exact ⟨h, (Finset.mem_sort _).mp (List.mem_of_find?_eq_some hfind), rfl⟩
  | none =>
    cases hsort : s.hashes.sort (· ≤ ·) with
    | nil =>
      obtain ⟨h, hh⟩ := hne
      rw [← Finset.mem_sort (· ≤ ·), hsort] at hh
      cases hh
    | cons h l => exact ⟨h, (Finset.mem_sort (· ≤ ·)).mp (by rw [hsort]; exact List.mem_cons_self), rfl⟩

theorem evict_spec (nMaxOrphans : Nat) (rand : Nat → Uint256) (fuel nEvicted : Nat) (hinv : s.Inv e)
    (hfuel : s.hashes.card ≤ nMaxOrphans + fuel) :
    (evict nMaxOrphans rand fuel nEvicted s).Inv e ∧
    (evict nMaxOrphans rand fuel nEvicted s).hashes ⊆ s.hashes ∧
      (evict nMaxOrphans rand fuel nEvicted s).hashes.card = min nMaxOrphans s.hashes.card ∧
      (evict nMaxOrphans rand fuel nEvicted s).orphan = s.orphan ∧
      (evict nMaxOrphans rand fuel nEvicted s).nNextSweep = s.nNextSweep := by
  induction fuel generalizing s nEvicted with
  | zero => exact ⟨hinv, Finset.Subset.refl _, (Nat.min_eq_right hfuel).symm, rfl, rfl⟩
  | succ fuel ih =>
    rw [evict]
    split
    case isFalse hfew =>
      exact ⟨hinv, Finset.Subset.refl _, (Nat.min_eq_right (Nat.le_of_not_lt hfew)).symm, rfl, rfl⟩
    case isTrue hmany =>
      obtain ⟨h, hh, hvictim⟩ :=
        victim_mem (s := s) (Finset.card_pos.mp (Nat.zero_lt_of_lt hmany)) (rand nEvicted)
      have hcard : (s.eraseOrphanTx h).hashes.card = s.hashes.card - 1 := by
        rw [hashes_eraseOrphanTx, Finset.card_erase_of_mem hh]
      rw [hvictim]
      obtain ⟨hinv', hsub, hcard', horphan, hnext⟩ :=
        ih (nEvicted + 1) (hinv.eraseOrphanTx h) (by rw [hcard]; omega)
      refine ⟨hinv', ?_, ?_, ?_, ?_⟩
      · rw [hashes_eraseOrphanTx] at hsub
        exact hsub.trans (Finset.erase_subset _ _)
      · rw [hcard'.trans (congrArg _ hcard)]
        omega
      · rw [horphan, orphan_eraseOrphanTx]
      · rw [hnext, nNextSweep_eraseOrphanTx]

/-! ### Runs -/

/-- The next sweep comes no later than `ORPHAN_TX_EXPIRE_INTERVAL` after an orphan has expired, and early enough for those to come. -/
structure Scheduled (s : OrphanPool) (now : Int) : Prop where
  soon : s.nNextSweep ≤ now + ORPHAN_TX_EXPIRE_TIME
  inTime : ∀ h ∈ s.hashes, s.nNextSweep ≤ (s.orphan h).nTimeExpire + ORPHAN_TX_EXPIRE_INTERVAL

/-- What the node does to the pool at a given time. -/
inductive Step (e : OrphanSetting) (now : Int) : OrphanPool → OrphanPool → Prop
  | add {s s' : OrphanPool} {tx : Tx} {peer : NodeId} {b : Bool} : s.addOrphanTx e tx peer now =
      .ok (b, s') → Step e now s s'
  | extra {s s' : OrphanPool} {tx : Tx} : s.addToCompactExtraTransactions e tx = .ok s' → Step e now s s'
  | erase {s : OrphanPool} (hash : Uint256) : Step e now s (s.eraseOrphanTx hash)
  | eraseFor {s : OrphanPool} (peer : NodeId) : Step e now s (s.eraseOrphansFor e peer)
  | limit {s : OrphanPool} (nMaxOrphans : Nat) (rand : Nat → Uint256) : Step e now s
      (s.limitOrphanTxSize e nMaxOrphans now rand)
  | connected {s s' : OrphanPool} {vtx : List Tx} : s.blockConnected e vtx = .ok s' → Step e now s s'

/-- The pools that the node can come to, with the time at which it has them; `clock` says from which times to which `GetTime` may move. -/
inductive Reached (e : OrphanSetting) (clock : Int → Int → Prop) : Int → OrphanPool → Prop
  | empty (orphan : Uint256 → OrphanTx) : Reached e clock 0 (empty orphan)
  | tick {now later : Int} {s : OrphanPool} : Reached e clock now s → clock now later →
      Reached e clock later s
  | step {now : Int} {s s' : OrphanPool} : Reached e clock now s → Step e now s s' →
      Reached e clock now s'

theorem sweepIfDue_spec (hinv : s.Inv e) (now : Int) :
    ∃ t, (if s.nNextSweep ≤ now then s.sweep e now else s) = t ∧ t.Inv e ∧
    t.hashes ⊆ s.hashes ∧ t.orphan = s.orphan ∧ (s.Scheduled now → t.Scheduled now ∧
      ∀ h ∈ t.hashes, now < (s.orphan h).nTimeExpire + ORPHAN_TX_EXPIRE_INTERVAL) := by
  split
  case isTrue =>
    obtain ⟨hinv', hhashes, horphan, hsoon, hinTime⟩ := sweep_spec hinv now
    refine ⟨_, rfl, hinv', hhashes.trans_subset (Finset.filter_subset _ _), horphan,
      fun _ => ⟨⟨hsoon, ?_⟩, fun h hh => ?_⟩⟩
    · rw [horphan]
      exact hinTime
    · rw [hhashes, Finset.mem_filter] at hh
      unfold ORPHAN_TX_EXPIRE_INTERVAL
      omega
  case isFalse hlater =>
    refine ⟨s, rfl, hinv, Finset.Subset.refl _, rfl, fun hsched => ⟨hsched, fun h hh => ?_⟩⟩
    exact (not_le.mp hlater).trans_le (hsched.inTime h hh)

theorem limit_spec (hinv : s.Inv e) (now : Int) (nMaxOrphans : Nat) (rand : Nat → Uint256) :
    (s.limitOrphanTxSize e nMaxOrphans now rand).Inv e ∧
      (s.limitOrphanTxSize e nMaxOrphans now rand).hashes ⊆ s.hashes ∧
      (s.limitOrphanTxSize e nMaxOrphans now rand).hashes.card ≤ nMaxOrphans ∧
      (s.Scheduled now → (s.limitOrphanTxSize e nMaxOrphans now rand).Scheduled now ∧
        ∀ h ∈ (s.limitOrphanTxSize e nMaxOrphans now rand).hashes,
          now < (s.orphan h).nTimeExpire + ORPHAN_TX_EXPIRE_INTERVAL) := by
  unfold limitOrphanTxSize
  obtain ⟨t, heq, htinv, htsub, htorphan, htsched⟩ := sweepIfDue_spec hinv now
  dsimp only
  rw [heq]
  obtain ⟨hinv', hsub, hcard, horphan, hnext⟩ :=
    evict_spec nMaxOrphans rand t.hashes.card 0 htinv (Nat.le_add_left _ _)
  refine ⟨hinv', hsub.trans htsub, hcard.trans_le (Nat.min_le_left _ _), fun hsched => ?_⟩
  obtain ⟨⟨hsoon, hinTime⟩, hlate⟩ := htsched hsched
  refine ⟨⟨hnext.trans_le hsoon, fun h hh => ?_⟩, fun h hh => hlate h (hsub hh)⟩
  rw [hnext, horphan]
  exact hinTime h (hsub hh)

theorem Scheduled.sub {now : Int} (hsched : s.Scheduled now) (hsub : s'.hashes ⊆ s.hashes)
    (horphan : s'.orphan = s.orphan) (hnext : s'.nNextSweep = s.nNextSweep) : s'.Scheduled now :=
  ⟨by rw [hnext]; exact hsched.soon, fun h hh => by rw [hnext, horphan]; exact hsched.inTime h (hsub hh)⟩

theorem Step.spec {now : Int} (hstep : Step e now s s') (hinv : s.Inv e) :
    s'.Inv e ∧ (s.Scheduled now → s'.Scheduled now) := by
  cases hstep with
  | @add _ tx peer b hadd =>
    obtain ⟨b', t, hok, hinv', hnext, hmem⟩ := hinv.addOrphanTx tx peer now
    cases hok.symm.trans hadd
    refine ⟨hinv', fun hsched => ⟨hnext.trans_le hsched.soon, fun h hh => ?_⟩⟩
    rw [hnext]
    rcases hmem h hh with ⟨hold, heq⟩ | heq
    · rw [heq]
      exact hsched.inTime h hold
    · have := hsched.soon
      rw [heq]
      unfold ORPHAN_TX_EXPIRE_INTERVAL
      dsimp only
      omega
  | extra hextra =>
    obtain ⟨t, hok, hinv', hhashes, horphan, hnext⟩ := hinv.addToCompactExtraTransactions _
    cases hok.symm.trans hextra
    exact ⟨hinv', fun hsched => hsched.sub hhashes.subset horphan hnext⟩
  | erase hash =>
    have hsub : (s.eraseOrphanTx hash).hashes ⊆ s.hashes := by
      rw [hashes_eraseOrphanTx]
      exact Finset.erase_subset _ _
    exact ⟨hinv.eraseOrphanTx hash,
      fun hsched => hsched.sub hsub (orphan_eraseOrphanTx _ _) (nNextSweep_eraseOrphanTx _ _)⟩
  | eraseFor peer =>
    obtain ⟨hinv', hhashes, horphan, hnext⟩ := eraseOrphansFor_spec hinv peer
    exact ⟨hinv',
      fun hsched => hsched.sub (hhashes.trans_subset (Finset.filter_subset _ _)) horphan hnext⟩
  | limit nMaxOrphans rand =>
    obtain ⟨hinv', -, -, hsched'⟩ := limit_spec hinv now nMaxOrphans rand
    exact ⟨hinv', fun hsched => (hsched' hsched).1⟩
  | connected hconnected =>
    obtain ⟨t, hok, hinv', hhashes, horphan, hnext⟩ := blockConnected_spec hinv _
    cases hok.symm.trans hconnected
    exact ⟨hinv',
      fun hsched => hsched.sub (hhashes.trans_subset (Finset.filter_subset _ _)) horphan hnext⟩

theorem Scheduled.tick {now later : Int} (hsched : s.Scheduled now) (hle : now ≤ later) :
    s.Scheduled later :=
  ⟨hsched.soon.trans (Int.add_le_add_right hle _), hsched.inTime⟩

theorem scheduled_empty (orphan : Uint256 → OrphanTx) : (empty orphan).Scheduled 0 :=
  ⟨by simp [empty, ORPHAN_TX_EXPIRE_TIME], by simp [empty]⟩

variable {clock : Int → Int → Prop} {now : Int}

theorem Reached.inv (h : Reached e clock now s) : s.Inv e := by
  induction h with
  | empty orphan => exact inv_empty orphan
  | tick _ _ ih => exact ih
  | step _ hstep ih => exact (hstep.spec ih).1

theorem Reached.scheduled (hclock : ∀ a b, clock a b → a ≤ b) (h : Reached e clock now s) :
    s.Scheduled now := by
  induction h with
  | empty orphan => exact scheduled_empty orphan
  | tick _ hle ih => exact ih.tick (hclock _ _ hle)
  | step hreached hstep ih => exact (hstep.spec hreached.inv).2 ih

/-- In every run, whatever the clock, the index stays exact. So no iterator is followed after its orphan is gone and no write to the ring is out of bounds, a connected block takes out exactly the orphans that spend an output which it spends too, and a peer that leaves takes exactly its own. -/
theorem orphans_exact (h : Reached e clock now s) :
    (∀ o h, h ∈ s.byPrev o ↔ h ∈ s.hashes ∧ o ∈ (s.orphan h).tx.prevouts) ∧
    (∀ tx peer, ∃ b s', s.addOrphanTx e tx peer now = .ok (b, s')) ∧
    (∀ vtx, ∃ s', s.blockConnected e vtx = .ok s' ∧
      s'.hashes =
        s.hashes.filter (fun h => ∀ tx ∈ vtx, ∀ o ∈ tx.prevouts, o ∉ (s.orphan h).tx.prevouts)) ∧
    ∀ peer, (s.eraseOrphansFor e peer).hashes =
      s.hashes.filter (fun h => (s.orphan h).fromPeer ≠ peer) := by
  have hinv := h.inv
  refine ⟨hinv.index, fun tx peer => ?_, fun vtx => ?_, fun peer => (eraseOrphansFor_spec hinv peer).2.1⟩
  · obtain ⟨b, s', hok, -⟩ := hinv.addOrphanTx tx peer now
    exact ⟨b, s', hok⟩
  · obtain ⟨s', hok, -, hhashes, -⟩ := blockConnected_spec hinv vtx
    exact ⟨s', hok, hhashes⟩

def sampleSetting : OrphanSetting := ⟨fun _ => Uint256.ofNat 1, fun _ => Uint256.ofNat 2, 100⟩

def sampleChild : Tx where
  nVersion := 2
  vin := [⟨⟨Uint256.ofNat 7, 0⟩, [], SEQUENCE_FINAL, []⟩]
  vout := []
  nLockTime := 0

theorem sampleChild_added : ∃ s,
    (empty fun _ => ⟨sampleChild, 0, 0⟩).addOrphanTx sampleSetting sampleChild 5 0 = .ok (true, s) ∧
    s.hashes = {Uint256.ofNat 1} :=
  ⟨_, rfl, rfl⟩

theorem reached_sampleChild (clock : Int → Int → Prop) :
    ∃ s, Reached sampleSetting clock 0 s ∧ s.hashes = {Uint256.ofNat 1} := by
  obtain ⟨s, hadd, hhashes⟩ := sampleChild_added
  exact ⟨s, .step (.empty _) (.add hadd), hhashes⟩

theorem orphans_exact_child : ∃ s, Reached sampleSetting (fun _ _ => True) 0 s ∧
    s.hashes = {Uint256.ofNat 1} ∧
    (∀ o h, h ∈ s.byPrev o ↔ h ∈ s.hashes ∧ o ∈ (s.orphan h).tx.prevouts) ∧
    (∀ tx peer, ∃ b s', s.addOrphanTx sampleSetting tx peer 0 = .ok (b, s')) ∧
    (∀ vtx, ∃ s', s.blockConnected sampleSetting vtx = .ok s' ∧
      s'.hashes =
        s.hashes.filter (fun h => ∀ tx ∈ vtx, ∀ o ∈ tx.prevouts, o ∉ (s.orphan h).tx.prevouts)) ∧
    ∀ peer, (s.eraseOrphansFor sampleSetting peer).hashes =
      s.hashes.filter (fun h => (s.orphan h).fromPeer ≠ peer) := by
  obtain ⟨s, hreached, hhashes⟩ := reached_sampleChild fun _ _ => True
  exact ⟨s, hreached, hhashes, orphans_exact hreached⟩

/-- `LimitOrphanTxSize` leaves no more orphans than it is asked to, and no others than there were. The sweeps are put off, but as long as the clock does not go back never so far that an orphan is left whose time has been over for `ORPHAN_TX_EXPIRE_INTERVAL`. -/
theorem limitOrphanTxSize_inTime (h : Reached e clock now s) (nMaxOrphans : Nat) (rand : Nat → Uint256) :
    (s.limitOrphanTxSize e nMaxOrphans now rand).hashes.card ≤ nMaxOrphans ∧
    (∀ h ∈ (s.limitOrphanTxSize e nMaxOrphans now rand).hashes, h ∈ s.hashes) ∧
    ((∀ a b, clock a b → a ≤ b) →
      ∀ h ∈ (s.limitOrphanTxSize e nMaxOrphans now rand).hashes,
        now < (s.orphan h).nTimeExpire + ORPHAN_TX_EXPIRE_INTERVAL) := by
  obtain ⟨-, hsub, hcard, hlate⟩ := limit_spec h.inv now nMaxOrphans rand
  exact ⟨hcard, hsub, fun hclock => (hlate (h.scheduled hclock)).2⟩

theorem limitOrphanTxSize_child : ∃ s, Reached sampleSetting (· ≤ ·) 1500 s ∧
    s.hashes = {Uint256.ofNat 1} ∧
    (s.limitOrphanTxSize sampleSetting 100 1500 fun _ => Uint256.ofNat 0).hashes.card ≤ 100 ∧
    (∀ h ∈ (s.limitOrphanTxSize sampleSetting 100 1500 fun _ => Uint256.ofNat 0).hashes, h ∈ s.hashes) ∧
    ∀ h ∈ (s.limitOrphanTxSize sampleSetting 100 1500 fun _ => Uint256.ofNat 0).hashes,
      1500 < (s.orphan h).nTimeExpire + ORPHAN_TX_EXPIRE_INTERVAL := by
  obtain ⟨s, hreached, hhashes⟩ := reached_sampleChild (· ≤ ·)
  have hlater : Reached sampleSetting (· ≤ ·) 1500 s := .tick hreached (by decide)
  obtain ⟨hcard, hsub, hlate⟩ := limitOrphanTxSize_inTime hlater 100 fun _ => Uint256.ofNat 0
  exact ⟨s, hlater, hhashes, hcard, hsub, hlate fun _ _ hle => hle⟩

end OrphanPool

end TscPow
