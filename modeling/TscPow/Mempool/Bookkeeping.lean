import TscPow.Mempool.TxMempool

/-!
# What an addition to the memory pool keeps

`addUnchecked` changes the statistics and the links of other entries, but not what they are: `Keeps` says that the entries stay the same up to their statistics, and so does the index. What is in the pool afterwards is the new transaction with the old ones (`content_of_addUnchecked`).
-/

namespace TscPow

namespace CTxMemPoolEntry

def content (e : CTxMemPoolEntry) : CTxMemPoolEntry := { e with withDescendants := 0, withAncestors := 0 }

variable {e e' : CTxMemPoolEntry}

theorem tx_eq (h : e.content = e'.content) : e.tx = e'.tx := by
  have hf := congrArg tx h
  exact hf

theorem spendsCoinbase_eq (h : e.content = e'.content) : e.spendsCoinbase = e'.spendsCoinbase := by
  have hf := congrArg spendsCoinbase h
  exact hf

def withDelta (e : CTxMemPoolEntry) (delta : Option Amount) : CTxMemPoolEntry :=
  if delta.getD 0 ≠ 0 then e.updateFeeDelta (delta.getD 0) else e

theorem tx_withDelta (e : CTxMemPoolEntry) (delta : Option Amount) : (e.withDelta delta).tx = e.tx := by
  rw [withDelta]
  split <;> rfl

theorem spendsCoinbase_withDelta (e : CTxMemPoolEntry) (delta : Option Amount) :
    (e.withDelta delta).spendsCoinbase = e.spendsCoinbase := by
  rw [withDelta]
  split <;> rfl

end CTxMemPoolEntry

namespace CTxMemPool

/-! ### What a change of links or statistics keeps -/

/-- `m'` has the entries of `m`, up to their statistics, and its index. -/
structure Keeps (m m' : CTxMemPool) : Prop where
  hashes : m'.hashes = m.hashes
  content : ∀ h, (m'.entry h).content = (m.entry h).content
  mapNextTx : m'.mapNextTx = m.mapNextTx
  mapDeltas : m'.mapDeltas = m.mapDeltas
  totalTxSize : m'.totalTxSize = m.totalTxSize

variable {m m' m'' : CTxMemPool} {txHash : Tx → Uint256}

theorem keeps_modify (m : CTxMemPool) (its : Finset Uint256) {f : CTxMemPoolEntry → CTxMemPoolEntry}
    (hf : ∀ e, (f e).content = e.content) : m.Keeps (m.modify its f) := by
  refine ⟨rfl, fun h => ?_, rfl, rfl, rfl⟩
  change (if h ∈ its then f (m.entry h) else m.entry h).content = _
  split
  · exact hf _
  · rfl

/-! ### A transaction is added -/

/-- `addUnchecked` before any other entry is touched. -/
def inserted (m : CTxMemPool) (txHash : Tx → Uint256) (entry : CTxMemPoolEntry) : CTxMemPool :=
  let hash := txHash entry.tx
  let m := (m.insertEntry hash entry).applyDelta hash
  let tx := (m.entry hash).tx
  let m := m.insertNextTx tx.prevouts hash
  { m with parents := Function.update m.parents hash (m.parents hash ∪ m.parentsOf tx) }

theorem addUnchecked_eq (m : CTxMemPool) (txHash : Tx → Uint256) (e : CTxMemPoolEntry)
    (s : Finset Uint256) :
    m.addUnchecked txHash e s = (do
      let m ← (m.inserted txHash e).updateAncestorsOf true (txHash e.tx) s
      let m ← m.updateEntryForAncestors (txHash e.tx) s
      pure { m with totalTxSize := m.totalTxSize + e.nTxSize }) := rfl

theorem applyDelta_eq (m : CTxMemPool) (h : Uint256) :
    m.applyDelta h = m.modify {h} (·.withDelta (m.mapDeltas h)) := by
  have hid : m.modify {h} (fun e => e) = m := by simp [modify]
  rw [applyDelta]
  unfold CTxMemPoolEntry.withDelta
  split
  case h_1 delta heq =>
    simp only [heq, Option.getD_some]
    split
    · rfl
    · exact hid.symm
  case h_2 heq =>
    simp only [heq, Option.getD_none, ne_eq, not_true_eq_false, if_false]
    exact hid.symm

theorem keeps_of_updateDescendantState {its : Finset Uint256} {d : DescendantState}
    (h : m.updateDescendantState its d = .ok m') : m.Keeps m' := by
  rw [updateDescendantState] at h
  split at h
  · cases h
    exact keeps_modify m its fun _ => rfl
  · cases h

theorem keeps_of_updateAncestorState {its : Finset Uint256} {d : AncestorState}
    (h : m.updateAncestorState its d = .ok m') : m.Keeps m' := by
  rw [updateAncestorState] at h
  split at h
  · cases h
    exact keeps_modify m its fun _ => rfl
  · cases h

theorem content_of_addUnchecked {e : CTxMemPoolEntry} {s : Finset Uint256}
    (h : m.addUnchecked txHash e s = .ok m') :
    m'.hashes = insert (txHash e.tx) m.hashes ∧ ∀ x,
      (m'.entry x).tx = ((m.insertEntry (txHash e.tx) e).entry x).tx ∧
      (m'.entry x).spendsCoinbase = ((m.insertEntry (txHash e.tx) e).entry x).spendsCoinbase := by
  rw [addUnchecked_eq] at h
  obtain ⟨m₁, h₁, h⟩ := Except.bind_eq_ok_iff.mp h
  obtain ⟨m₂, h₂, h⟩ := Except.bind_eq_ok_iff.mp h
  cases h
  have hkeeps₁ := keeps_of_updateDescendantState h₁
  have hkeeps₂ := keeps_of_updateAncestorState h₂
  have hinserted :
    ∀ x, ((m.inserted txHash e).entry x).tx = ((m.insertEntry (txHash e.tx) e).entry x).tx ∧
      ((m.inserted txHash e).entry x).spendsCoinbase =
        ((m.insertEntry (txHash e.tx) e).entry x).spendsCoinbase := by
    intro x
    have hentry : (m.inserted txHash e).entry x =
        ((m.insertEntry (txHash e.tx) e).applyDelta (txHash e.tx)).entry x := rfl
    rw [hentry, applyDelta_eq, modify]
    dsimp only
    split
    · exact ⟨CTxMemPoolEntry.tx_withDelta _ _, CTxMemPoolEntry.spendsCoinbase_withDelta _ _⟩
    · exact ⟨rfl, rfl⟩
  have hhashes : (m.inserted txHash e).hashes = insert (txHash e.tx) m.hashes := by
    have happly : (m.inserted txHash e).hashes =
        ((m.insertEntry (txHash e.tx) e).applyDelta (txHash e.tx)).hashes := rfl
    rw [happly, applyDelta_eq, modify, insertEntry]
    split
    · rename_i hmem
      exact (Finset.insert_eq_of_mem hmem).symm
    · rfl
  constructor
  · exact hkeeps₂.hashes.trans (hkeeps₁.hashes.trans hhashes)
  · intro x
    have hcontent := (hkeeps₂.content x).trans (hkeeps₁.content x)
    obtain ⟨htx, hflag⟩ := hinserted x
    exact ⟨(CTxMemPoolEntry.tx_eq hcontent).trans htx,
      (CTxMemPoolEntry.spendsCoinbase_eq hcontent).trans hflag⟩

end CTxMemPool

end TscPow
