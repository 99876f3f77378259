import TscPow.Base.Fault
import TscPow.Base.WriteBack
import TscPow.Contract.State

/-!
# The store of receipts

`StorageResults` (`tsc/storageresults.cpp`) keeps the receipts of contract transactions by transaction hash: in a cache until `commitResults`, in a database from then on. Neither layer overwrites: `addResult` leaves a cached list as it is, `commitResults` one that the database has, and `getResult` puts what it reads into the cache. `ConnectBlock` adds the receipts of a block and commits them, a failed connection clears the cache, and `DisconnectBlock` deletes them again, so that no transaction gets receipts while it has others.

The columns of a list of receipts are written to the database as RLP, which is a parameter that reads back what it wrote.
-/

namespace TscPow

/-- `TransactionException` of `libethereum`. -/
inductive TransactionException
  | none
  | unknown
  | badRLP
  | invalidFormat
  | outOfGasIntrinsic
  | invalidSignature
  | invalidNonce
  | notEnoughCash
  | outOfGasBase
  | blockGasLimitReached
  | badInstruction
  | badJumpDestination
  | outOfGas
  | outOfStack
  | stackUnderflow
  | createWithValue
  | noInformation
deriving DecidableEq, Inhabited

namespace TransactionException

def all : List TransactionException :=
  [none, unknown, badRLP, invalidFormat, outOfGasIntrinsic, invalidSignature, invalidNonce,
    notEnoughCash, outOfGasBase,
    blockGasLimitReached, badInstruction, badJumpDestination, outOfGas, outOfStack, stackUnderflow,
      createWithValue, noInformation]

def code (excepted : TransactionException) : BitVec 32 := BitVec.ofNat 32 (all.idxOf excepted)

/-- The cast back; a value that no enumerator has is left out of the model. -/
def ofCode (code : BitVec 32) : Option TransactionException := all[code.toNat]?

theorem ofCode_code (excepted : TransactionException) : ofCode excepted.code = some excepted := by
  cases excepted <;> rfl

end TransactionException

structure LogEntry where
  address : Address
  topics : List Uint256
  data : List Byte
deriving DecidableEq

/-- `TransactionReceiptInfo`; the sender and the receiver are called `from` and `to` in the source. -/
structure TransactionReceiptInfo where
  blockHash : Uint256
  blockNumber : BitVec 32
  transactionHash : Uint256
  transactionIndex : BitVec 32
  sender : Address
  receiver : Address
  cumulativeGasUsed : BitVec 64
  gasUsed : BitVec 64
  contractAddress : Address
  logs : List LogEntry
  excepted : TransactionException
deriving DecidableEq, Inhabited

abbrev LogEntriesSerializ := List (Address × List Uint256 × List Byte)

structure TransactionReceiptInfoSerialized where
  blockHashes : List Uint256
  blockNumbers : List (BitVec 32)
  transactionHashes : List Uint256
  transactionIndexes : List (BitVec 32)
  senders : List Address
  receivers : List Address
  cumulativeGasUsed : List U256
  gasUsed : List U256
  contractAddresses : List Address
  logs : List LogEntriesSerializ
  excepted : List (BitVec 32)
deriving DecidableEq

/-- The RLP stream of eleven columns, and what is read from it. -/
structure ReceiptCodec (Value : Type) where
  encode : TransactionReceiptInfoSerialized → Value
  decode : Value → TransactionReceiptInfoSerialized
  itemCount : Value → Nat
  decode_encode : ∀ tris, decode (encode tris) = tris
  itemCount_encode : ∀ tris, itemCount (encode tris) = 11

def logEntriesSerialization (logs : List LogEntry) : LogEntriesSerializ :=
  logs.map fun i => (i.address, i.topics, i.data)

def logEntriesDeserialize (logs : LogEntriesSerializ) : List LogEntry :=
  logs.map fun i => ⟨i.1, i.2.1, i.2.2⟩

def serializeReceipts (result : List TransactionReceiptInfo) : TransactionReceiptInfoSerialized where
  blockHashes := result.map (·.blockHash)
  blockNumbers := result.map (·.blockNumber)
  transactionHashes := result.map (·.transactionHash)
  transactionIndexes := result.map (·.transactionIndex)
  senders := result.map (·.sender)
  receivers := result.map (·.receiver)
  cumulativeGasUsed := result.map fun i => i.cumulativeGasUsed.setWidth 256
  gasUsed := result.map fun i => i.gasUsed.setWidth 256
  contractAddresses := result.map (·.contractAddress)
  logs := result.map fun i => logEntriesSerialization i.logs
  excepted := result.map fun i => i.excepted.code

/-- An entry of a column, read without a check. -/
def columnEntry {α : Type} (column : List α) (j : Nat) : Except Fault α :=
  (column[j]?).elim (.error .undefined) .ok

section

variable {Value : Type} (codec : ReceiptCodec Value)

def deserializeReceipts (value : Value) : Except Fault (List TransactionReceiptInfo) :=
  let tris := codec.decode value
  (List.range tris.blockHashes.length).mapM fun j => do
    let blockHash ← columnEntry tris.blockHashes j
    let blockNumber ← columnEntry tris.blockNumbers j
    let transactionHash ← columnEntry tris.transactionHashes j
    let transactionIndex ← columnEntry tris.transactionIndexes j
    let sender ← columnEntry tris.senders j
    let receiver ← columnEntry tris.receivers j
    let cumulativeGasUsed ← columnEntry tris.cumulativeGasUsed j
    let gasUsed ← columnEntry tris.gasUsed j
    let contractAddress ← columnEntry tris.contractAddresses j
    let logs ← columnEntry tris.logs j
    let excepted ← if codec.itemCount value = 11 then do
        let code ← columnEntry tris.excepted j
        (TransactionException.ofCode code).elim (.error .undefined) .ok
      else pure .noInformation
    return ⟨blockHash, blockNumber, transactionHash, transactionIndex, sender, receiver,
      cumulativeGasUsed.setWidth 64,
      gasUsed.setWidth 64, contractAddress, logEntriesDeserialize logs, excepted⟩

/-- The cache and the database, both by transaction hash. -/
structure StorageResults (Value : Type) where
  m_cache_result : AList fun _ : Uint256 => List TransactionReceiptInfo
  db : Uint256 → Option Value

namespace StorageResults

def empty : StorageResults Value := ⟨∅, fun _ => none⟩

/-- `std::unordered_map::insert` does not replace an entry. -/
def insertResult (cache : AList fun _ : Uint256 => List TransactionReceiptInfo) (hashTx : Uint256)
    (result : List TransactionReceiptInfo) :
    AList fun _ : Uint256 => List TransactionReceiptInfo :=
  if hashTx ∈ cache then cache else cache.insert hashTx result

def addResult (s : StorageResults Value) (hashTx : Uint256) (result : List TransactionReceiptInfo) :
    StorageResults Value :=
  { s with m_cache_result := insertResult s.m_cache_result hashTx result }

def clearCacheResult (s : StorageResults Value) : StorageResults Value := { s with m_cache_result := ∅ }

/-- `deleteResults`, given the hashes of the transactions. -/
def deleteResults (s : StorageResults Value) (hashes : List Uint256) : StorageResults Value :=
  hashes.foldl (fun s hashTx => ⟨s.m_cache_result.erase hashTx, Function.update s.db hashTx none⟩) s

def readResult (s : StorageResults Value) (hashTx : Uint256) :
    Except Fault (Option (List TransactionReceiptInfo)) :=
  match s.db hashTx with
  | none => .ok none
  | some value => (deserializeReceipts codec value).map some

/-- `getResult`, with the store it leaves. -/
def getResult (s : StorageResults Value) (hashTx : Uint256) :
    Except Fault (List TransactionReceiptInfo × StorageResults Value) :=
  match s.m_cache_result.lookup hashTx with
  | some result => .ok (result, s)
  | none => do
    match ← s.readResult codec hashTx with
    | none => return ([], s)
    | some result =>
      return (result, { s with m_cache_result := insertResult s.m_cache_result hashTx result })

/-- A round of the loop of `commitResults`: what the database has is kept. -/
def commitEntry (db : Uint256 → Option Value) (i : Σ _ : Uint256, List TransactionReceiptInfo) :
    Uint256 → Option Value :=
  match db i.1 with
  | some _ => db
  | none => Function.update db i.1 (some (codec.encode (serializeReceipts i.2)))

def commitResults (s : StorageResults Value) : StorageResults Value :=
  ⟨∅, s.m_cache_result.entries.foldl (commitEntry codec) s.db⟩

abbrev Action := WriteBack.Action Uint256 (List TransactionReceiptInfo)

def act (s : StorageResults Value) : Action → Except Fault (StorageResults Value)
  | .add hashTx result => .ok (s.addResult hashTx result)
  | .get hashTx => (s.getResult codec hashTx).map Prod.snd
  | .delete hashes => .ok (s.deleteResults hashes)
  | .commit => .ok (s.commitResults codec)
  | .clear => .ok s.clearCacheResult

def run (actions : List Action) : Except Fault (StorageResults Value) := actions.foldlM (act codec) empty

end StorageResults

/-! ### Receipts in the database -/

theorem columnEntry_map {α β : Type} [Inhabited α] (l : List α) (f : α → β) {j : Nat}
    (hj : j < l.length) :
    columnEntry (l.map f) j = .ok (f (l[j]?.getD default)) := by
  rw [columnEntry, List.getElem?_map, List.getElem?_eq_getElem hj]
  rfl

theorem logEntriesDeserialize_serialization (logs : List LogEntry) :
    logEntriesDeserialize (logEntriesSerialization logs) = logs := by
  rw [logEntriesDeserialize, logEntriesSerialization, List.map_map]
  exact List.map_id logs

theorem map_range_getD {α : Type} [Inhabited α] (l : List α) :
    ((List.range l.length).map fun j => l[j]?.getD default) = l := by
  apply List.ext_getElem
  · simp
  · intro j hj _
    simp [List.getElem?_eq_getElem (show j < l.length by simpa using hj)]

theorem deserializeReceipts_encode (result : List TransactionReceiptInfo) :
    deserializeReceipts codec (codec.encode (serializeReceipts result)) = .ok result := by
  have hlength : (serializeReceipts result).blockHashes.length = result.length := List.length_map _
  rw [deserializeReceipts, codec.decode_encode, codec.itemCount_encode, hlength]
  conv_rhs => rw [← map_range_getD result]
  apply Except.mapM_eq_ok_of_forall
  intro j hj
  rw [List.mem_range] at hj
  have hgas : ∀ gas : BitVec 64, (gas.setWidth 256).setWidth 64 = gas := by
    intro gas
    simp
  simp only [serializeReceipts, columnEntry_map _ _ hj, Except.ok_bind, if_true,
    TransactionException.ofCode_code, Option.elim_some, logEntriesDeserialize_serialization, hgas]
  rfl

/-! ### One transaction -/

open WriteBack

/-- What the cache and the database have for a transaction, held against its pending and its committed list: the database has the committed one; the cache has the pending one, or the committed one if it was read. -/
structure Holds (cached : Option (List TransactionReceiptInfo)) (stored : Option Value)
    (cell : Cell (List TransactionReceiptInfo)) : Prop where
  stored_eq : stored = cell.committed.map fun result => codec.encode (serializeReceipts result)
  cached_eq : cached = cell.pending ∨ cell.pending = none ∧ cached = cell.committed
  agree : ∀ a ∈ cell.pending, ∀ b ∈ cell.committed, a = b

namespace Holds

variable {codec} {cached : Option (List TransactionReceiptInfo)} {stored : Option Value}
  {cell : Cell (List TransactionReceiptInfo)} {result : List TransactionReceiptInfo} {hashTx : Uint256}

theorem empty : Holds codec none none (Cell.empty : Cell (List TransactionReceiptInfo)) :=
  ⟨rfl, .inl rfl, by simp [Cell.empty]⟩

theorem value_eq_of_cached (h : Holds codec (some result) stored cell) : cell.value = some result := by
  rw [Cell.value]
  rcases h.cached_eq with hpending | ⟨hpending, hcommitted⟩
  · rw [← hpending, Option.some_or]
  · rw [hpending, Option.none_or, ← hcommitted]

theorem value_eq_of_not_cached (h : Holds codec none stored cell) :
    cell.pending = none ∧ cell.value = cell.committed := by
  have hpending : cell.pending = none := by
    rcases h.cached_eq with hpending | ⟨hpending, -⟩
    · exact hpending.symm
    · exact hpending
  exact ⟨hpending, by rw [Cell.value, hpending, Option.none_or]⟩

theorem add (h : Holds codec cached stored cell) (hfree : cell.value = none ∨ cell.value = some result) :
    Holds codec (some (cached.getD result)) stored { cell with pending := some result } := by
  refine ⟨h.stored_eq, .inl ?_, ?_⟩
  · cases cached with
    | none => rfl
    | some other =>
      rw [h.value_eq_of_cached] at hfree
      rcases hfree with hnone | hsame
      · cases hnone
      · exact hsame
  · intro a ha b hb
    obtain rfl := Option.some.inj ha
    rw [Cell.value] at hfree
    cases hpending : cell.pending with
    | none =>
      rw [hpending, Option.mem_def.mp hb] at hfree
      simpa [eq_comm] using hfree
    | some pending =>
      have hsame : pending = result := by simpa [hpending] using hfree
      exact hsame.symm.trans (h.agree pending hpending b hb)

theorem clear (h : Holds codec cached stored cell) :
    Holds codec none stored { cell with pending := none } :=
  ⟨h.stored_eq, .inl rfl, by simp⟩

theorem commit (h : Holds codec cached stored cell) :
    Holds codec none (stored.or (cached.map fun result => codec.encode (serializeReceipts result)))
      ⟨none, cell.value⟩ := by
  refine ⟨?_, .inl rfl, by simp⟩
  rw [h.stored_eq, ← Option.map_or, Cell.value]
  cases hcommitted : cell.committed with
  | none =>
    rcases h.cached_eq with hcached | ⟨hpending, hcached⟩
    · rw [hcached, Option.none_or, Option.or_none]
    · rw [hcached, hpending, hcommitted]
  | some committed =>
    cases hpending : cell.pending with
    | none => simp
    | some pending => simp [h.agree pending hpending committed hcommitted]

end Holds

/-! ### Calls and runs -/

namespace StorageResults

variable {codec} {s : StorageResults Value} {hashTx : Uint256}

theorem lookup_insertResult (cache : AList fun _ : Uint256 => List TransactionReceiptInfo)
    (hashTx : Uint256) (result : List TransactionReceiptInfo) (k : Uint256) :
    (insertResult cache hashTx result).lookup k = if hashTx = k then some
    ((cache.lookup k).getD result) else cache.lookup k := by
  rw [insertResult]
  split
  · rename_i hmem
    split
    · rename_i hkey
      subst hkey
      obtain ⟨cached, hcached⟩ := Option.isSome_iff_exists.mp (AList.lookup_isSome.mpr hmem)
      rw [hcached, Option.getD_some]
    · rfl
  · rename_i hmem
    split
    · rename_i hkey
      subst hkey
      rw [AList.lookup_insert, AList.lookup_eq_none.mpr hmem, Option.getD_none]
    · rename_i hkey
      exact AList.lookup_insert_ne (Ne.symm hkey)

theorem lookup_deleteResults (hashes : List Uint256) (s : StorageResults Value) (k : Uint256) :
    (s.deleteResults hashes).m_cache_result.lookup k =
    (if k ∈ hashes then none else s.m_cache_result.lookup k) ∧
      (s.deleteResults hashes).db k = if k ∈ hashes then none else s.db k := by
  induction hashes generalizing s with
  | nil => simp [deleteResults]
  | cons hashTx hashes ih =>
    have hstep := ih ⟨s.m_cache_result.erase hashTx, Function.update s.db hashTx none⟩
    rw [deleteResults, List.foldl_cons, ← deleteResults]
    by_cases hkey : k = hashTx
    · subst hkey
      simpa [AList.lookup_erase] using hstep
    · simpa [hkey, AList.lookup_erase_ne hkey] using hstep

theorem foldl_commitEntry (entries : List (Σ _ : Uint256, List TransactionReceiptInfo))
    (db : Uint256 → Option Value) (k : Uint256) :
    entries.foldl (commitEntry codec) db k = (db k).or
      ((entries.dlookup k).map fun result => codec.encode (serializeReceipts result)) := by
  induction entries generalizing db with
  | nil => simp
  | cons i entries ih =>
    obtain ⟨hashTx, result⟩ := i
    rw [List.foldl_cons, ih, commitEntry]
    dsimp only
    by_cases hkey : k = hashTx
    · subst hkey
      rw [List.dlookup_cons_eq]
      cases hstored : db k with
      | some value => simp only [hstored, Option.some_or]
      | none => simp only [Function.update_self, Option.some_or, Option.none_or, Option.map_some]
    · rw [List.dlookup_cons_ne _ _ hkey]
      cases hstored : db hashTx with
      | some value => rfl
      | none => simp only [Function.update_of_ne hkey]

def Tracks (codec : ReceiptCodec Value) (s : StorageResults Value) (history : List Action) : Prop :=
  ∀ k, Holds codec (s.m_cache_result.lookup k) (s.db k) (Cell.after k history)

theorem tracks_empty : Tracks codec empty [] := fun _ => .empty

theorem Tracks.addResult {history : List Action} {result : List TransactionReceiptInfo}
    (h : Tracks codec s history) (hfree : AddsWhenFree (history ++ [.add hashTx result])) :
    Tracks codec (s.addResult hashTx result) (history ++ [.add hashTx result]) := by
  intro k
  rw [Cell.after_concat, StorageResults.addResult, lookup_insertResult, Cell.act]
  split
  · rename_i hkey
    subst hkey
    apply (h hashTx).add
    rw [Cell.value_after]
    exact hfree history hashTx result [] rfl
  · exact h k

theorem Tracks.deleteResults {history : List Action} (h : Tracks codec s history)
    (hashes : List Uint256) :
    Tracks codec (s.deleteResults hashes) (history ++ [.delete hashes]) := by
  intro k
  obtain ⟨hcached, hstored⟩ := lookup_deleteResults hashes s k
  rw [Cell.after_concat, hcached, hstored, Cell.act]
  split
  · exact .empty
  · exact h k

theorem Tracks.commitResults {history : List Action} (h : Tracks codec s history) :
    Tracks codec (s.commitResults codec) (history ++ [.commit]) := by
  intro k
  rw [Cell.after_concat, StorageResults.commitResults]
  dsimp only
  rw [AList.lookup_empty, foldl_commitEntry]
  exact (h k).commit

theorem Tracks.clearCacheResult {history : List Action} (h : Tracks codec s history) :
    Tracks codec s.clearCacheResult (history ++ [.clear]) := by
  intro k
  rw [Cell.after_concat, StorageResults.clearCacheResult]
  dsimp only
  rw [AList.lookup_empty]
  exact (h k).clear

theorem Tracks.getResult {history : List Action} (h : Tracks codec s history) (hashTx : Uint256) :
    ∃ s', s.getResult codec hashTx = .ok ((latest hashTx history).getD [], s') ∧
      Tracks codec s' (history ++ [.get hashTx]) := by
  have hkeep : ∀ k, Cell.after k (history ++ [.get hashTx]) = Cell.after k history :=
    fun k => Cell.after_concat history (.get hashTx)
  have hhere := h hashTx
  rw [← Cell.value_after, StorageResults.getResult]
  cases hcached : s.m_cache_result.lookup hashTx with
  | some result =>
    rw [hcached] at hhere
    refine ⟨s, ?_, fun k => hkeep k ▸ h k⟩
    rw [hhere.value_eq_of_cached]
    rfl
  | none =>
    rw [hcached] at hhere
    obtain ⟨hpending, hvalue⟩ := hhere.value_eq_of_not_cached
    have hstored := hhere.stored_eq
    rw [hvalue]
    cases hcommitted : (Cell.after hashTx history).committed with
    | none =>
      rw [hcommitted] at hstored
      refine ⟨s, ?_, fun k => hkeep k ▸ h k⟩
      simp only [readResult, hstored]
      rfl
    | some result =>
      rw [hcommitted] at hstored
      refine ⟨{ s with m_cache_result := insertResult s.m_cache_result hashTx result }, ?_, fun k => ?_⟩
      · simp only [readResult, hstored, Option.map_some, deserializeReceipts_encode]
        rfl
      · dsimp only
        rw [hkeep, lookup_insertResult]
        split
        · rename_i hkey
          subst hkey
          rw [hcached, Option.getD_none]
          exact ⟨hhere.stored_eq, .inr ⟨hpending, hcommitted.symm⟩, hhere.agree⟩
        · exact h k

theorem Tracks.act {history : List Action} (h : Tracks codec s history) {action : Action}
    (hfree : AddsWhenFree (history ++ [action])) :
    ∃ s', s.act codec action = .ok s' ∧ Tracks codec s' (history ++ [action]) := by
  cases action with
  | add hashTx result => exact ⟨_, rfl, h.addResult hfree⟩
  | get hashTx =>
    obtain ⟨s', hget, htracks⟩ := h.getResult hashTx
    refine ⟨s', ?_, htracks⟩
    rw [StorageResults.act, hget]
    rfl
  | delete hashes => exact ⟨_, rfl, h.deleteResults hashes⟩
  | commit => exact ⟨_, rfl, h.commitResults⟩
  | clear => exact ⟨_, rfl, h.clearCacheResult⟩

theorem exists_run_tracks (codec : ReceiptCodec Value) (actions : List Action)
    (hfree : AddsWhenFree actions) :
    ∃ s, run codec actions = .ok s ∧ Tracks codec s actions := by
  induction actions using List.reverseRecOn with
  | nil => exact ⟨empty, rfl, tracks_empty⟩
  | append_singleton actions action ih =>
    obtain ⟨s, hrun, htracks⟩ := ih hfree.left
    obtain ⟨s', hact, htracks'⟩ := htracks.act hfree
    refine ⟨s', ?_, htracks'⟩
    exact Except.foldlM_append_eq_ok_iff.mpr ⟨s, hrun, Except.foldlM_cons_eq_ok_iff.mpr ⟨s', hact, rfl⟩⟩

/-- After any calls in which results are added only for transactions that have none, or have the same, `getResult` returns the result of the latest addition that was neither cleared before it was committed nor deleted later, and the empty list if there is none. -/
theorem getResult_eq_latest (codec : ReceiptCodec Value) (actions : List Action)
    (hfree : AddsWhenFree actions) (hashTx : Uint256) :
    ∃ s s', run codec actions = .ok s ∧
      s.getResult codec hashTx = .ok ((latest hashTx actions).getD [], s') := by
  obtain ⟨s, hrun, htracks⟩ := exists_run_tracks codec actions hfree
  obtain ⟨s', hget, -⟩ := htracks.getResult hashTx
  exact ⟨s, s', hrun, hget⟩

end StorageResults

end

namespace Remined

open WriteBack StorageResults

def columns : ReceiptCodec TransactionReceiptInfoSerialized :=
  ⟨id, id, fun _ => 11, fun _ => rfl, fun _ => rfl⟩

def tx : Uint256 := Uint256.ofNat 7

def receipt (height : Nat) : TransactionReceiptInfo :=
  { (default : TransactionReceiptInfo) with
    blockHash := Uint256.ofNat height, blockNumber := BitVec.ofNat 32 height, transactionHash :=
      tx, gasUsed := 21000, excepted := .outOfGas
    logs := [⟨5, [Uint256.ofNat 1], [1, 2, 3]⟩] }

def history : List Action := [.add tx [receipt 10], .commit, .delete [tx], .add tx [receipt 11], .commit]

theorem addsWhenFree : AddsWhenFree history := by
  have hadd : AddsWhenFree [.add tx [receipt 10]] := AddsWhenFree.nil.concat fun k a _ => .inl rfl
  have hcommit : AddsWhenFree [.add tx [receipt 10], .commit] := hadd.concat fun k a h => by cases h
  have hdelete : AddsWhenFree [.add tx [receipt 10], .commit, .delete [tx]] :=
    hcommit.concat fun k a h => by cases h
  have hagain : AddsWhenFree [.add tx [receipt 10], .commit, .delete [tx], .add tx [receipt 11]] := by
    refine hdelete.concat fun k a h => .inl ?_
    cases h
    decide +kernel
  exact hagain.concat fun k a h => by cases h

theorem getResult_eq_latest_remined :
    ∃ s s', run columns history = .ok s ∧ s.getResult columns tx = .ok ([receipt 11], s') := by
  exact getResult_eq_latest columns history addsWhenFree tx

/-- A result that is added over another one is not kept: a cached one stays, and a stored one comes back with the next commit. -/
theorem earlier_result_kept :
    ((run columns [.add tx [receipt 10], .add tx [receipt 11]] >>= fun s =>
      s.getResult columns tx).map Prod.fst = .ok [receipt 10] ∧
      (latest tx [.add tx [receipt 10], .add tx [receipt 11]]).getD [] = [receipt 11]) ∧
    (run columns [.add tx [receipt 10], .commit, .add tx [receipt 11], .commit] >>= fun s =>
      s.getResult columns tx).map Prod.fst = .ok [receipt 10] ∧
      (latest tx [.add tx [receipt 10], .commit, .add tx [receipt 11], .commit]).getD [] =
      [receipt 11] := by
  decide +kernel

end Remined

end TscPow
