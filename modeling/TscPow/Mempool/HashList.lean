import TscPow.Base.BackIndex
import TscPow.Mempool.Bookkeeping

/-!
# The list of witness hashes

`vTxHashes` has a witness hash and an iterator for each transaction of the pool, in any order, and `PartiallyDownloadedBlock::InitData` goes through it. An entry stores its position. Removal moves the last element to the position of the entry, through the iterator that is stored there.

Here an iterator is the number of a node of `mapTx`. Nodes are numbered as they are made, so that an iterator to an erased node is not taken for one to a later node. `_clear` erases all nodes and leaves the list as it is.
-/

namespace TscPow

open BackIndex

/-- The pool with its list: the node of a hash, the position that is stored in a node, and the number of nodes that have been made. -/
structure HashedPool where
  mempool : CTxMemPool
  node : Uint256 → Nat
  vTxHashesIdx : Nat → Nat
  vTxHashes : List (Uint256 × Nat)
  made : Nat

namespace HashedPool

variable (txHash witnessHash : Tx → Uint256)

def empty : HashedPool := ⟨CTxMemPool.empty, fun _ => 0, fun _ => 0, [], 0⟩

def live (s : HashedPool) : Set Nat := s.node '' s.mempool.hashes

instance (s : HashedPool) (n : Nat) : Decidable (n ∈ s.live) :=
  decidable_of_iff (∃ h ∈ s.mempool.hashes, s.node h = n) Iff.rfl

/-- `addUnchecked`. If the hash is there, then `mapTx.insert` returns the iterator to its node. -/
def addUnchecked (s : HashedPool) (entry : CTxMemPoolEntry) (setAncestors : Finset Uint256) :
    Except Fault HashedPool := do
  let hash := txHash entry.tx
  let newit := if hash ∈ s.mempool.hashes then s.node hash else s.made
  let m ← s.mempool.addUnchecked txHash entry setAncestors
  return {
    mempool := m
    node := Function.update s.node hash newit
    vTxHashes := s.vTxHashes ++ [(witnessHash (m.entry hash).tx, newit)]
    vTxHashesIdx := Function.update s.vTxHashesIdx newit s.vTxHashes.length
    made := s.made + 1 }

/-- The list without the slot of a node. A position outside of the list and an iterator to an erased node are undefined behaviour. -/
def takeOut (s : HashedPool) (it : Nat) : Except Fault (List (Uint256 × Nat) × (Nat → Nat)) :=
  match s.vTxHashes.getLast? with
  | some back =>
    if s.vTxHashes.length > 1 then
      if s.vTxHashesIdx it < s.vTxHashes.length ∧ back.2 ∈ s.live then
        .ok ((s.vTxHashes.set (s.vTxHashesIdx it) back).dropLast,
          Function.update s.vTxHashesIdx back.2 (s.vTxHashesIdx it))
      else .error .undefined
    else .ok ([], s.vTxHashesIdx)
  | none => .ok ([], s.vTxHashesIdx)

def removeUnchecked (s : HashedPool) (hash : Uint256) : Except Fault HashedPool := do
  Except.require (hash ∈ s.mempool.hashes) .undefined
  let (vTxHashes, vTxHashesIdx) ← s.takeOut (s.node hash)
  return { s with mempool := s.mempool.removeUnchecked hash, vTxHashes, vTxHashesIdx }

/-- `clear`, which keeps `mapDeltas` and `vTxHashes`. -/
def clear (s : HashedPool) : HashedPool :=
  { s with mempool := { CTxMemPool.empty with mapDeltas := s.mempool.mapDeltas } }

/-- The list has exactly one slot for each transaction of the pool, with its witness hash and an iterator to its node, which has the position of the slot. -/
structure Usable (s : HashedPool) : Prop where
  node_inj : ∀ h ∈ s.mempool.hashes, ∀ h' ∈ s.mempool.hashes, s.node h = s.node h' → h = h'
  slot : ∀ i w it, s.vTxHashes[i]? = some (w, it) →
    ∃ h ∈ s.mempool.hashes, s.node h = it ∧ w = witnessHash (s.mempool.entry h).tx ∧ s.vTxHashesIdx it = i
  back : ∀ h ∈ s.mempool.hashes,
    s.vTxHashes[s.vTxHashesIdx (s.node h)]? = some (witnessHash (s.mempool.entry h).tx, s.node h)

end HashedPool

namespace HashedPool

variable {txHash witnessHash : Tx → Uint256} {s s' : HashedPool}

noncomputable def valueOf (witnessHash : Tx → Uint256) (s : HashedPool) (n : Nat) : Uint256 :=
  witnessHash (s.mempool.entry (Function.invFunOn s.node s.mempool.hashes n)).tx

variable (witnessHash) in
theorem valueOf_node (hinj : Set.InjOn s.node s.mempool.hashes) {h : Uint256}
    (hh : h ∈ s.mempool.hashes) :
    s.valueOf witnessHash (s.node h) = witnessHash (s.mempool.entry h).tx := by
  rw [valueOf, hinj.leftInvOn_invFunOn (Finset.mem_coe.mpr hh)]

theorem usable_iff : s.Usable witnessHash ↔
    Set.InjOn s.node s.mempool.hashes ∧
      BackIndex.Indexed s.live (s.valueOf witnessHash) s.vTxHashes s.vTxHashesIdx := by
  constructor
  · rintro ⟨hinj, hslot, hback⟩
    have hinj' : Set.InjOn s.node s.mempool.hashes := fun h hh h' hh' => hinj h hh h' hh'
    refine ⟨hinj', ⟨?_, ?_⟩⟩
    · intro i w it hi
      obtain ⟨h, hh, rfl, hw, hposition⟩ := hslot i w it hi
      exact ⟨⟨h, hh, rfl⟩, hw.trans (valueOf_node witnessHash hinj' hh).symm, hposition⟩
    · rintro it ⟨h, hh, rfl⟩
      rw [valueOf_node witnessHash hinj' hh]
      exact hback h hh
  · rintro ⟨hinj, hslot, hback⟩
    refine ⟨fun h hh h' hh' => hinj hh hh', ?_, ?_⟩
    · intro i w it hi
      obtain ⟨⟨h, hh, rfl⟩, hw, hposition⟩ := hslot i w it hi
      exact ⟨h, hh, rfl, hw.trans (valueOf_node witnessHash hinj hh), hposition⟩
    · intro h hh
      rw [← valueOf_node witnessHash hinj hh]
      exact hback _ ⟨h, hh, rfl⟩

/-- What every run keeps, whatever becomes of the list. -/
def Numbered (s : HashedPool) : Prop := ∀ h ∈ s.mempool.hashes, s.node h < s.made

/-! ### The three calls -/

variable {e : CTxMemPoolEntry} {setAncestors : Finset Uint256}

theorem addUnchecked_eq_ok (h : s.addUnchecked txHash witnessHash e setAncestors = .ok s') :
    ∃ m, s.mempool.addUnchecked txHash e setAncestors = .ok m ∧
      s' = ⟨m, Function.update s.node (txHash e.tx)
        (if txHash e.tx ∈ s.mempool.hashes then s.node (txHash e.tx) else s.made),
        Function.update s.vTxHashesIdx (if txHash e.tx ∈ s.mempool.hashes then s.node (txHash e.tx)
          else s.made) s.vTxHashes.length,
        s.vTxHashes ++
          [(witnessHash (m.entry (txHash e.tx)).tx, if txHash e.tx ∈ s.mempool.hashes then
            s.node (txHash e.tx) else s.made)], s.made + 1⟩ := by
  obtain ⟨m, hm, h⟩ := Except.bind_eq_ok_iff.mp h
  cases h
  exact ⟨m, hm, rfl⟩

theorem Numbered.addUnchecked (hnumbered : s.Numbered)
    (h : s.addUnchecked txHash witnessHash e setAncestors = .ok s') : s'.Numbered := by
  obtain ⟨m, hm, rfl⟩ := addUnchecked_eq_ok h
  intro x hx
  dsimp only at hx ⊢
  rw [(CTxMemPool.content_of_addUnchecked hm).1, Finset.mem_insert] at hx
  by_cases hxe : x = txHash e.tx
  · rw [hxe, Function.update_self]
    split
    · rename_i hmem
      exact (hnumbered _ hmem).trans (Nat.lt_succ_self _)
    · exact Nat.lt_succ_self _
  · rw [Function.update_of_ne hxe]
    exact (hnumbered x (hx.resolve_left hxe)).trans (Nat.lt_succ_self _)

theorem Usable.push (hs : s.Usable witnessHash) {h : Uint256} {n : Nat}
    (hnew : h ∉ s.mempool.hashes) (hfresh : n ∉ s.live)
    (hhashes : s'.mempool.hashes = insert h s.mempool.hashes)
    (htx : ∀ x ∈ s.mempool.hashes, (s'.mempool.entry x).tx = (s.mempool.entry x).tx)
    (hnode : s'.node = Function.update s.node h n)
    (hslots : s'.vTxHashes = s.vTxHashes ++ [(witnessHash (s'.mempool.entry h).tx, n)])
    (hposition : s'.vTxHashesIdx = Function.update s.vTxHashesIdx n s.vTxHashes.length) :
    s'.Usable witnessHash := by
  obtain ⟨hinj, hindexed⟩ := usable_iff.mp hs
  have hh : h ∈ s'.mempool.hashes := by
    rw [hhashes]
    exact Finset.mem_insert_self _ _
  have hold : ∀ x ∈ s.mempool.hashes, s'.node x = s.node x := by
    intro x hx
    rw [hnode, Function.update_of_ne]
    rintro rfl
    exact hnew hx
  have hnew' : s'.node h = n := by rw [hnode, Function.update_self]
  have hinj' : Set.InjOn s'.node s'.mempool.hashes := by
    rw [hhashes, Finset.coe_insert, Set.injOn_insert (Finset.mem_coe.not.mpr hnew)]
    refine ⟨hinj.congr fun x hx => (hold x hx).symm, ?_⟩
    rintro ⟨x, hx, heq⟩
    rw [hold x hx, hnew'] at heq
    exact hfresh ⟨x, hx, heq⟩
  have hlive : s'.live = insert n s.live := by
    have himage : s'.node '' s.mempool.hashes = s.live := Set.image_congr hold
    rw [live, hhashes, Finset.coe_insert, Set.image_insert_eq, hnew', himage]
  have hvalue : ∀ k ∈ s.live, s'.valueOf witnessHash k = s.valueOf witnessHash k := by
    rintro k ⟨x, hx, rfl⟩
    have hx' : x ∈ s'.mempool.hashes := by
      rw [hhashes]
      exact Finset.mem_insert_of_mem hx
    rw [valueOf_node witnessHash hinj hx, ← htx x hx, ← hold x hx, valueOf_node witnessHash hinj' hx']
  have hpush := (hindexed.congr hvalue).push hfresh
  rw [← hnew', valueOf_node witnessHash hinj' hh, hnew', ← hslots, ← hposition, ← hlive] at hpush
  exact usable_iff.mpr ⟨hinj', hpush⟩

theorem Usable.addUnchecked (hs : s.Usable witnessHash) (hnumbered : s.Numbered)
    (hnew : txHash e.tx ∉ s.mempool.hashes)
    (h : s.addUnchecked txHash witnessHash e setAncestors = .ok s') : s'.Usable witnessHash := by
  obtain ⟨m, hm, rfl⟩ := addUnchecked_eq_ok h
  obtain ⟨hhashes, hcontent⟩ := CTxMemPool.content_of_addUnchecked hm
  rw [if_neg hnew]
  have hfresh : s.made ∉ s.live := by
    rintro ⟨x, hx, hxnode⟩
    exact absurd hxnode (hnumbered x hx).ne
  refine hs.push hnew hfresh hhashes ?_ rfl rfl rfl
  intro x hx
  have hne : x ≠ txHash e.tx := by
    rintro rfl
    exact hnew hx
  rw [(hcontent x).1, CTxMemPool.insertEntry, if_neg hnew]
  exact congrArg CTxMemPoolEntry.tx (Function.update_of_ne hne _ _)

theorem not_usable_of_addUnchecked (hs : s.Usable witnessHash) (hmem : txHash e.tx ∈ s.mempool.hashes)
    (h : s.addUnchecked txHash witnessHash e setAncestors = .ok s') : ¬ s'.Usable witnessHash := by
  obtain ⟨m, -, rfl⟩ := addUnchecked_eq_ok h
  rintro ⟨-, hslot, -⟩
  rw [if_pos hmem] at hslot
  have hold := hs.back _ hmem
  have hlt := (List.getElem?_eq_some_iff.mp hold).1
  obtain ⟨-, -, -, -, hposition⟩ :=
    hslot (s.vTxHashesIdx (s.node (txHash e.tx)))
      _ _ (by rw [List.getElem?_append_left hlt]; exact hold)
  exact absurd ((Function.update_self _ _ _).symm.trans hposition).symm hlt.ne

theorem Usable.takeOut (hs : s.Usable witnessHash) {h : Uint256} (hh : h ∈ s.mempool.hashes) :
    ∃ slots position, s.takeOut (s.node h) = .ok (slots, position) ∧
      BackIndex.Indexed (s.live \ {s.node h}) (s.valueOf witnessHash) slots position := by
  obtain ⟨-, hindexed⟩ := usable_iff.mp hs
  have hlive : s.node h ∈ s.live := ⟨h, hh, rfl⟩
  have hlt := (List.getElem?_eq_some_iff.mp (hindexed.back _ hlive)).1
  have hne : s.vTxHashes ≠ [] := List.ne_nil_of_length_pos (by omega)
  obtain ⟨back, hback⟩ : ∃ back, s.vTxHashes.getLast? = some back :=
    ⟨_, List.getLast?_eq_some_getLast hne⟩
  have hswap := hindexed.swapRemove hlive hback
  rw [HashedPool.takeOut, hback]
  dsimp only
  split
  · have hend : s.vTxHashes[s.vTxHashes.length - 1]? = some back := by
      rw [← List.getLast?_eq_getElem?, hback]
    rw [if_pos ⟨hlt, (hindexed.slot _ back.1 back.2 hend).1⟩]
    exact ⟨_, _, rfl, hswap⟩
  · rename_i hone
    -- the slot of the node is the only one
    refine ⟨_, _, rfl, ?_⟩
    have hempty : (s.vTxHashes.set (s.vTxHashesIdx (s.node h)) back).dropLast = [] := by
      rw [← List.length_eq_zero_iff, List.length_dropLast, List.length_set]
      omega
    rw [hempty] at hswap
    rw [hswap.slots_eq_nil_iff.mp rfl]
    exact indexed_nil _ _

theorem removeUnchecked_eq_ok {h : Uint256} (hok : s.removeUnchecked h = .ok s') :
    h ∈ s.mempool.hashes ∧ ∃ slots position, s.takeOut (s.node h) = .ok (slots, position) ∧
      s' = { s with
        mempool := s.mempool.removeUnchecked h, vTxHashes := slots, vTxHashesIdx := position } := by
  obtain ⟨u, hmem, hok⟩ := Except.bind_eq_ok_iff.mp hok
  obtain ⟨⟨slots, position⟩, htake, hok⟩ := Except.bind_eq_ok_iff.mp hok
  cases hok
  exact ⟨Except.require_eq_ok_iff.mp hmem, slots, position, htake, rfl⟩

theorem Numbered.removeUnchecked (hnumbered : s.Numbered) {h : Uint256}
    (hok : s.removeUnchecked h = .ok s') : s'.Numbered := by
  obtain ⟨-, slots, position, -, rfl⟩ := removeUnchecked_eq_ok hok
  intro x hx
  exact hnumbered x (Finset.mem_of_mem_erase hx)

theorem Usable.erase (hs : s.Usable witnessHash) {h : Uint256} (hh : h ∈ s.mempool.hashes)
    (hhashes : s'.mempool.hashes = s.mempool.hashes.erase h)
    (hentry : s'.mempool.entry = s.mempool.entry) (hnode : s'.node = s.node)
    (hindexed : BackIndex.Indexed (s.live \ {s.node h}) (s.valueOf witnessHash) s'.vTxHashes
      s'.vTxHashesIdx) : s'.Usable witnessHash := by
  obtain ⟨hinj, -⟩ := usable_iff.mp hs
  have hsub : (s'.mempool.hashes : Set Uint256) ⊆ s.mempool.hashes := by
    rw [hhashes]
    exact Finset.coe_subset.mpr (Finset.erase_subset _ _)
  have hinj' : Set.InjOn s'.node s'.mempool.hashes := by
    rw [hnode]
    exact hinj.mono hsub
  have hsingle : ({h} : Set Uint256) ⊆ s.mempool.hashes :=
    Set.singleton_subset_iff.mpr (Finset.mem_coe.mpr hh)
  have hlive : s'.live = s.live \ {s.node h} := by
    rw [live, hnode, hhashes, Finset.coe_erase, hinj.image_sdiff,
      Set.inter_eq_self_of_subset_right hsingle, Set.image_singleton]
    rfl
  refine usable_iff.mpr ⟨hinj', ?_⟩
  rw [hlive]
  refine hindexed.congr ?_
  rw [← hlive]
  rintro n ⟨x, hx, rfl⟩
  rw [valueOf_node witnessHash hinj' hx, hentry, hnode, valueOf_node witnessHash hinj (hsub hx)]

theorem Usable.removeUnchecked (hs : s.Usable witnessHash) {h : Uint256} (hh : h ∈ s.mempool.hashes) :
    ∃ s', s.removeUnchecked h = .ok s' ∧ s'.Usable witnessHash := by
  obtain ⟨slots, position, htake, hindexed⟩ := hs.takeOut hh
  refine ⟨{ s with
      mempool := s.mempool.removeUnchecked h, vTxHashes := slots, vTxHashesIdx := position }, ?_,
    hs.erase hh rfl rfl rfl hindexed⟩
  rw [HashedPool.removeUnchecked, Except.require_pos hh, Except.ok_bind, htake]
  rfl

theorem Usable.clear_iff (hs : s.Usable witnessHash) : s.clear.Usable witnessHash ↔
    s.mempool.hashes = ∅ := by
  constructor
  · intro hclear
    refine Finset.eq_empty_of_forall_notMem fun h hh => ?_
    obtain ⟨x, hx, -⟩ := hclear.slot _ _ _ (hs.back h hh)
    exact Finset.notMem_empty x hx
  · intro hempty
    obtain ⟨-, hindexed⟩ := usable_iff.mp hs
    have hnil : s.vTxHashes = [] := by
      rw [hindexed.slots_eq_nil_iff, live, hempty, Finset.coe_empty, Set.image_empty]
    refine ⟨fun h hh => absurd hh (Finset.notMem_empty h), ?_,
      fun h hh => absurd hh (Finset.notMem_empty h)⟩
    intro i w it hi
    have hi' : s.vTxHashes[i]? = some (w, it) := hi
    rw [hnil] at hi'
    cases hi'

end HashedPool

inductive HashedPoolCall
  | addUnchecked (entry : CTxMemPoolEntry) (setAncestors : Finset Uint256)
  | removeUnchecked (hash : Uint256)
  | clear

namespace HashedPool

variable (txHash witnessHash : Tx → Uint256)

def call (s : HashedPool) : HashedPoolCall → Except Fault HashedPool
  | .addUnchecked entry setAncestors => s.addUnchecked txHash witnessHash entry setAncestors
  | .removeUnchecked hash => s.removeUnchecked hash
  | .clear => .ok s.clear

/-- A transaction is added that is not in the pool, an entry of the pool is removed, or an empty pool is cleared. -/
def Harmless (s : HashedPool) : HashedPoolCall → Prop
  | .addUnchecked entry _ => txHash entry.tx ∉ s.mempool.hashes
  | .removeUnchecked hash => hash ∈ s.mempool.hashes
  | .clear => s.mempool.hashes = ∅

def StaysUsable (s : HashedPool) : List HashedPoolCall → Prop
  | [] => s.Usable witnessHash
  | c :: calls => s.Usable witnessHash ∧ ∀ s', s.call txHash witnessHash c = .ok s' → StaysUsable s' calls

def AllHarmless (s : HashedPool) : List HashedPoolCall → Prop
  | [] => True
  | c :: calls => ∀ s', s.call txHash witnessHash c = .ok s' → s.Harmless txHash c ∧ AllHarmless s' calls

variable {txHash witnessHash} {s s' : HashedPool} {c : HashedPoolCall}

theorem Numbered.call (hnumbered : s.Numbered) (h : s.call txHash witnessHash c = .ok s') :
    s'.Numbered := by
  cases c with
  | addUnchecked entry setAncestors => exact Numbered.addUnchecked hnumbered h
  | removeUnchecked hash => exact Numbered.removeUnchecked hnumbered h
  | clear =>
    cases h
    exact fun x hx => absurd hx (Finset.notMem_empty x)

theorem Usable.call_iff (hs : s.Usable witnessHash) (hnumbered : s.Numbered)
    (h : s.call txHash witnessHash c = .ok s') :
    s'.Usable witnessHash ↔ s.Harmless txHash c := by
  cases c with
  | addUnchecked entry setAncestors =>
    constructor
    · exact fun hs' hmem => not_usable_of_addUnchecked hs hmem h hs'
    · exact fun hnew => Usable.addUnchecked hs hnumbered hnew h
  | removeUnchecked hash =>
    have hmem := (removeUnchecked_eq_ok h).1
    obtain ⟨t, ht, husable⟩ := Usable.removeUnchecked hs hmem
    obtain rfl : t = s' := Except.ok.inj (ht.symm.trans h)
    exact iff_of_true husable hmem
  | clear =>
    cases h
    exact hs.clear_iff

theorem staysUsable_of_usable (hs : s.Usable witnessHash) (hnumbered : s.Numbered)
    (calls : List HashedPoolCall) :
    s.StaysUsable txHash witnessHash calls ↔ s.AllHarmless txHash witnessHash calls := by
  induction calls generalizing s with
  | nil => exact iff_of_true hs trivial
  | cons c calls ih =>
    constructor
    · rintro ⟨-, hrest⟩ s' h
      have hs' : s'.Usable witnessHash := by
        have hstays := hrest s' h
        cases calls with
        | nil => exact hstays
        | cons c' calls => exact hstays.1
      exact ⟨(hs.call_iff hnumbered h).mp hs', (ih hs' (hnumbered.call h)).mp (hrest s' h)⟩
    · intro hall
      refine ⟨hs, fun s' h => ?_⟩
      obtain ⟨hharmless, hrest⟩ := hall s' h
      exact (ih ((hs.call_iff hnumbered h).mpr hharmless) (hnumbered.call h)).mpr hrest

theorem usable_empty (witnessHash : Tx → Uint256) : empty.Usable witnessHash :=
  ⟨fun h hh => absurd hh (Finset.notMem_empty h), fun i w it hi => by simp [empty] at hi,
    fun h hh => absurd hh (Finset.notMem_empty h)⟩

/-- From the empty pool on, the list is usable in every state reached exactly if every call was harmless. As long as it is usable, every entry of the pool can be removed. -/
theorem staysUsable_iff_harmless (txHash witnessHash : Tx → Uint256) (calls : List HashedPoolCall) :
    (empty.StaysUsable txHash witnessHash calls ↔ empty.AllHarmless txHash witnessHash calls) ∧
      ∀ s : HashedPool, s.Usable witnessHash → ∀ h ∈ s.mempool.hashes, ∃ s',
        s.removeUnchecked h = .ok s' := by
  constructor
  · exact staysUsable_of_usable (usable_empty witnessHash)
      (fun h hh => absurd hh (Finset.notMem_empty h)) calls
  · intro s hs h hh
    obtain ⟨s', hok, -⟩ := hs.removeUnchecked hh
    exact ⟨s', hok⟩

def plainEntry (n : Nat) : CTxMemPoolEntry :=
  .new ⟨2, [], [], BitVec.ofNat 32 n⟩ 10 ⟨100, hundred_pos⟩ 0 false 0

def hashOf (tx : Tx) : Uint256 := Uint256.ofNat tx.nLockTime.toNat

/-- The pool is cleared with a transaction in it. The list keeps the slot, whose iterator is no longer valid. -/
theorem cleared_slot_stays :
    ∃ s s', empty.call hashOf hashOf (.addUnchecked (plainEntry 1) ∅) = .ok s ∧
      s.call hashOf hashOf .clear = .ok s' ∧ s'.mempool.hashes = ∅ ∧
      s'.vTxHashes = [(Uint256.ofNat 1, 0)] ∧ 0 ∉ s'.live ∧ ¬ s'.Usable hashOf := by
  refine ⟨_, _, rfl, rfl, rfl, rfl, by decide, ?_⟩
  intro hs
  obtain ⟨h, hh, -⟩ := hs.slot 0 (Uint256.ofNat 1) 0 rfl
  exact Finset.notMem_empty h hh

end HashedPool

end TscPow
