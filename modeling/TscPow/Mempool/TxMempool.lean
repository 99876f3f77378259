import TscPow.Consensus.TxVerify

/-!
# The memory pool

`CTxMemPool` (`txmempool.h`, `txmempool.cpp`). An entry is a transaction with the statistics of two packages: of the entry with all its descendants in the pool and of the entry with all its ancestors. The links between parents and children are kept in `mapLinks`, the outpoints that are spent in `mapNextTx`. All of this is updated in place, entry by entry, whenever a transaction comes or goes.

An iterator into `mapTx` is the hash of its transaction. Where one loop applies the same change to every entry of a set, the change is written once for the whole set. The numbers are unbounded. Memory usage, fee estimates, lock points and the random order of `vTxHashes` are left out.
-/

namespace TscPow

/-- The number of the transactions of a package, their size and their modified fees. -/
abbrev DescendantState := Int × Int × Amount

/-- The same with the cost of the signature operations. -/
abbrev AncestorState := Int × Int × Amount × Int

/-- `CTxMemPoolEntry`. `nTxSize` is what `GetTxSize` returns, a virtual size, which is never zero. -/
structure CTxMemPoolEntry where
  tx : Tx
  nFee : Amount
  nTxSize : Nat
  nTxSize_pos : 0 < nTxSize
  nTime : Int
  spendsCoinbase : Bool
  sigOpCost : Nat
  feeDelta : Amount
  withDescendants : DescendantState
  withAncestors : AncestorState

-- The order by which sets of iterators are worked off. The facts about it are named once, so that every `sort` refers to the same ones.
instance : IsTrans Uint256 (· ≤ ·) := ⟨fun _ _ _ => le_trans⟩

instance : Std.Antisymm (α := Uint256) (· ≤ ·) := ⟨fun _ _ => le_antisymm⟩

-- Sizes of sample entries.
theorem hundred_pos : 0 < 100 := by decide

theorem twoHundred_pos : 0 < 200 := by decide

namespace CTxMemPoolEntry

/-- `CTxMemPoolEntry::CTxMemPoolEntry`. -/
def new (tx : Tx) (nFee : Amount) (nTxSize : { n : Nat // 0 < n }) (nTime : Int)
    (spendsCoinbase : Bool) (sigOpCost : Nat) :
    CTxMemPoolEntry where
  tx := tx
  nFee := nFee
  nTxSize := nTxSize
  nTxSize_pos := nTxSize.2
  nTime := nTime
  spendsCoinbase := spendsCoinbase
  sigOpCost := sigOpCost
  feeDelta := 0
  withDescendants := (1, nTxSize, nFee)
  withAncestors := (1, nTxSize, nFee, sigOpCost)

def getModifiedFee (e : CTxMemPoolEntry) : Amount := e.nFee + e.feeDelta

/-- What the entry adds to the statistics of its ancestors, itself included. -/
def descendantShare (e : CTxMemPoolEntry) : DescendantState := (1, e.nTxSize, e.getModifiedFee)

/-- What the entry adds to the statistics of its descendants, itself included. -/
def ancestorShare (e : CTxMemPoolEntry) : AncestorState := (1, e.nTxSize, e.getModifiedFee, e.sigOpCost)

def updateFeeDelta (e : CTxMemPoolEntry) (newFeeDelta : Amount) : CTxMemPoolEntry :=
  { e with
    withDescendants := e.withDescendants + (0, 0, newFeeDelta - e.feeDelta)
    withAncestors := e.withAncestors + (0, 0, newFeeDelta - e.feeDelta, 0)
    feeDelta := newFeeDelta }

/-- `UpdateDescendantState`, without its assertions. -/
def addDescendants (e : CTxMemPoolEntry) (modify : DescendantState) : CTxMemPoolEntry :=
  { e with withDescendants := e.withDescendants + modify }

/-- `UpdateAncestorState`, without its assertions. -/
def addAncestors (e : CTxMemPoolEntry) (modify : AncestorState) : CTxMemPoolEntry :=
  { e with withAncestors := e.withAncestors + modify }

/-- The assertions of `UpdateDescendantState`: a positive size and a positive number. -/
def descendantsPositive (e : CTxMemPoolEntry) : Bool :=
  decide (0 < e.withDescendants.2.1) && decide (0 < e.withDescendants.1)

/-- The assertions of `UpdateAncestorState`. -/
def ancestorsPositive (e : CTxMemPoolEntry) : Bool :=
  decide (0 < e.withAncestors.2.1) && decide (0 < e.withAncestors.1) && decide (0 ≤ e.withAncestors.2.2.2)

instance : Inhabited CTxMemPoolEntry := ⟨new ⟨0, [], [], 0⟩ 0 ⟨1, Nat.one_pos⟩ 0 false 0⟩

end CTxMemPoolEntry

def Tx.prevouts (tx : Tx) : List OutPoint := tx.vin.map (·.prevout)

/-- `CTxMemPool`. `mapTx` is the set of the hashes and the entry of each, `mapLinks` the parents and the children of each. -/
structure CTxMemPool where
  hashes : Finset Uint256
  entry : Uint256 → CTxMemPoolEntry
  parents : Uint256 → Finset Uint256
  children : Uint256 → Finset Uint256
  mapNextTx : AList fun _ : OutPoint => Uint256
  mapDeltas : Uint256 → Option Amount
  totalTxSize : Int

namespace CTxMemPool

def empty : CTxMemPool := ⟨∅, default, fun _ => ∅, fun _ => ∅, ∅, fun _ => none, 0⟩

/-! ### Changes of single fields -/

def modify (m : CTxMemPool) (its : Finset Uint256) (f : CTxMemPoolEntry → CTxMemPoolEntry) : CTxMemPool :=
  { m with entry := fun h => if h ∈ its then f (m.entry h) else m.entry h }

def updateDescendantState (m : CTxMemPool) (its : Finset Uint256) (modify : DescendantState) :
    Except Fault CTxMemPool :=
  if ∀ h ∈ its, ((m.entry h).addDescendants modify).descendantsPositive then
    .ok (m.modify its (·.addDescendants modify))
  else .error .assertion

def updateAncestorState (m : CTxMemPool) (its : Finset Uint256) (modify : AncestorState) :
    Except Fault CTxMemPool :=
  if ∀ h ∈ its, ((m.entry h).addAncestors modify).ancestorsPositive then
    .ok (m.modify its (·.addAncestors modify))
  else .error .assertion

def updateChild (m : CTxMemPool) (its : Finset Uint256) (child : Uint256) (add : Bool) : CTxMemPool :=
  { m with children := fun h =>
      if h ∈ its then (if add then insert child (m.children h) else (m.children h).erase child)
        else m.children h }

/-- The hashes of the transactions of the pool that `tx` spends. -/
def parentsOf (m : CTxMemPool) (tx : Tx) : Finset Uint256 :=
  (tx.prevouts.map (·.hash)).toFinset ∩ m.hashes

/-! ### Adding a transaction -/

def updateAncestorsOf (m : CTxMemPool) (add : Bool) (it : Uint256) (setAncestors : Finset Uint256) :
    Except Fault CTxMemPool :=
  let share := (m.entry it).descendantShare
  (m.updateChild (m.parents it) it add).updateDescendantState setAncestors (if add then share else -share)

def updateEntryForAncestors (m : CTxMemPool) (it : Uint256) (setAncestors : Finset Uint256) :
    Except Fault CTxMemPool :=
  m.updateAncestorState {it} (∑ h ∈ setAncestors, (m.entry h).ancestorShare)

/-- `mapTx.insert` and `mapLinks.insert`: nothing if the hash is there. -/
def insertEntry (m : CTxMemPool) (hash : Uint256) (entry : CTxMemPoolEntry) : CTxMemPool :=
  if hash ∈ m.hashes then m
  else
    { m with
      hashes := insert hash m.hashes
      entry := Function.update m.entry hash entry
      parents := Function.update m.parents hash ∅
      children := Function.update m.children hash ∅ }

def applyDelta (m : CTxMemPool) (hash : Uint256) : CTxMemPool :=
  match m.mapDeltas hash with
  | some delta => if delta ≠ 0 then m.modify {hash} (·.updateFeeDelta delta) else m
  | none => m

/-- `mapNextTx.insert` for every outpoint of `prevouts`: the first transaction that spends it stays. -/
def insertNextTx (m : CTxMemPool) (prevouts : List OutPoint) (hash : Uint256) : CTxMemPool :=
  { m with mapNextTx := prevouts.foldl (fun n o => if o ∈ n then n else n.insert o hash) m.mapNextTx }

def addUnchecked (m : CTxMemPool) (txHash : Tx → Uint256) (entry : CTxMemPoolEntry)
    (setAncestors : Finset Uint256) :
    Except Fault CTxMemPool := do
  let hash := txHash entry.tx
  let m := (m.insertEntry hash entry).applyDelta hash
  let tx := (m.entry hash).tx
  let m := m.insertNextTx tx.prevouts hash
  let m := { m with parents := Function.update m.parents hash (m.parents hash ∪ m.parentsOf tx) }
  let m ← m.updateAncestorsOf true hash setAncestors
  let m ← m.updateEntryForAncestors hash setAncestors
  pure { m with totalTxSize := m.totalTxSize + entry.nTxSize }

/-! ### Removing a transaction -/

def removeUnchecked (m : CTxMemPool) (it : Uint256) : CTxMemPool :=
  { m with
    hashes := m.hashes.erase it
    parents := Function.update m.parents it ∅
    children := Function.update m.children it ∅
    mapNextTx := (m.entry it).tx.prevouts.foldl (fun n o => n.erase o) m.mapNextTx
    totalTxSize := m.totalTxSize - (m.entry it).nTxSize }

end CTxMemPool

end TscPow
