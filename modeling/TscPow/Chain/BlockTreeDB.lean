import TscPow.Pow.NextWork

/-!
# The block index on disk

`CBlockTreeDB` (`txdb.cpp`) keeps a `CDiskBlockIndex` (`chain.h`) for every entry of `mapBlockIndex`. An entry is written under its hash in memory; when the index is loaded, it is found again under the hash computed from the stored fields. What `LoadBlockIndexGuts` does not copy back, the second nonce, the proof hash and the five signatures, is lost at the first restart, and an entry that had a second nonce changes its hash at the second. The byte stream between the two is taken to give back the fields that were written.
-/

namespace TscPow

/-- `CBlockIndex`, as far as it is kept on disk; `pprev` is the parent's key in `mapBlockIndex`. -/
structure CBlockIndex where
  pprev : Option Uint256
  nHeight : Int
  nFile : Int
  nDataPos : BitVec 32
  nUndoPos : BitVec 32
  nTx : BitVec 32
  nStatus : BitVec 32
  nVersion : Int
  hashMerkleRoot : Uint256
  nTime : BitVec 32
  nBits : BitVec 32
  hashStateRoot : Uint256
  hashUTXORoot : Uint256
  seed : BitVec 32
  nNonce : BitVec 64
  nNonce_ex : BitVec 64
  sig1 : List Byte
  sig2 : List Byte
  sig3 : List Byte
  sig4 : List Byte
  sig5 : List Byte
  nStakeModifier : Uint256
  hashProof : Uint256
  nMoneySupply : BitVec 64
deriving DecidableEq

/-- `uint256()`. -/
abbrev Uint256.null : Uint256 := Uint256.ofNat 0

def BLOCK_HAVE_DATA : BitVec 32 := 8
def BLOCK_HAVE_UNDO : BitVec 32 := 16

namespace CBlockIndex

def setNull : CBlockIndex where
  pprev := none
  nHeight := 0
  nFile := 0
  nDataPos := 0
  nUndoPos := 0
  nTx := 0
  nStatus := 0
  nVersion := 0
  hashMerkleRoot := Uint256.null
  nTime := 0
  nBits := 0
  hashStateRoot := Uint256.null
  hashUTXORoot := Uint256.null
  seed := 0
  nNonce := 0
  nNonce_ex := 0
  sig1 := []
  sig2 := []
  sig3 := []
  sig4 := []
  sig5 := []
  nStakeModifier := Uint256.null
  hashProof := Uint256.null
  nMoneySupply := 0

def hashPrev (e : CBlockIndex) : Uint256 := e.pprev.getD Uint256.null

def getBlockHeader (e : CBlockIndex) : BlockHeader where
  nVersion := e.nVersion
  hashPrevBlock := e.hashPrev
  hashMerkleRoot := e.hashMerkleRoot
  nTime := e.nTime
  nBits := e.nBits
  hashStateRoot := e.hashStateRoot
  hashUTXORoot := e.hashUTXORoot
  seed := e.seed
  nNonce := e.nNonce
  nNonce_ex := e.nNonce_ex
  sig1 := e.sig1
  sig2 := e.sig2
  sig3 := e.sig3
  sig4 := e.sig4
  sig5 := e.sig5

end CBlockIndex

structure CDiskBlockIndex extends CBlockIndex where
  hashPrev : Uint256

namespace CDiskBlockIndex

/-- What is read back for an entry that was written: the file position and the two offsets are stored only with the status bits that give them a meaning. -/
def stored (e : CBlockIndex) : CDiskBlockIndex :=
  { e with
    pprev := none
    hashPrev := e.hashPrev
    nFile := if e.nStatus &&& (BLOCK_HAVE_DATA ||| BLOCK_HAVE_UNDO) ≠ 0 then e.nFile else 0
    nDataPos := if e.nStatus &&& BLOCK_HAVE_DATA ≠ 0 then e.nDataPos else 0
    nUndoPos := if e.nStatus &&& BLOCK_HAVE_UNDO ≠ 0 then e.nUndoPos else 0 }

/-- `GetBlockHash`: the header is put together without the signatures. -/
def getBlockHash (hashing : Hashing) (d : CDiskBlockIndex) : Uint256 :=
  hashing.blockHash
    { nVersion := d.nVersion
      hashPrevBlock := d.hashPrev
      hashMerkleRoot := d.hashMerkleRoot
      nTime := d.nTime
      nBits := d.nBits
      hashStateRoot := d.hashStateRoot
      hashUTXORoot := d.hashUTXORoot
      seed := d.seed
      nNonce := d.nNonce
      nNonce_ex := d.nNonce_ex
      sig1 := []
      sig2 := []
      sig3 := []
      sig4 := []
      sig5 := [] }

end CDiskBlockIndex

abbrev BlockMap := Uint256 → Option CBlockIndex

instance : Std.LawfulEqCmp (compare : Uint256 → Uint256 → Ordering) where
  eq_of_compare := compare_eq_iff_eq.mp
  compare_self := compare_eq_iff_eq.mpr rfl

/-- The records under `DB_BLOCK_INDEX`, in the order of their keys. -/
abbrev BlockTreeDB := Std.TreeMap Uint256 CDiskBlockIndex

def insertBlockIndex (m : BlockMap) (hash : Uint256) : BlockMap :=
  if hash.isNull ∨ (m hash).isSome then m else Function.update m hash (some CBlockIndex.setNull)

/-- `CheckIndexProof`, for proof of work. -/
def checkIndexProof (hash : Uint256) (e : CBlockIndex) (params : Params) : Bool :=
  checkProofOfWork hash e.nBits params

/-- Why the index is not loaded: `CheckIndexProof` fails, or a record hashes to zero and a null pointer is followed. -/
inductive LoadFailure
  | indexProof (hash : Uint256)
  | nullPointer
deriving DecidableEq

/-- The assignments of `LoadBlockIndexGuts`. -/
def CBlockIndex.assign (pindexNew : CBlockIndex) (diskindex : CDiskBlockIndex) : CBlockIndex :=
  { pindexNew with
    pprev := if diskindex.hashPrev.isNull then none else some diskindex.hashPrev
    nHeight := diskindex.nHeight
    nFile := diskindex.nFile
    nDataPos := diskindex.nDataPos
    nUndoPos := diskindex.nUndoPos
    nVersion := diskindex.nVersion
    hashMerkleRoot := diskindex.hashMerkleRoot
    nTime := diskindex.nTime
    nBits := diskindex.nBits
    nNonce := diskindex.nNonce
    nMoneySupply := diskindex.nMoneySupply
    nStatus := diskindex.nStatus
    nTx := diskindex.nTx
    hashStateRoot := diskindex.hashStateRoot
    hashUTXORoot := diskindex.hashUTXORoot
    nStakeModifier := diskindex.nStakeModifier
    seed := diskindex.seed }

section

variable (hashing : Hashing) (params : Params)

/-- One round of the loop of `LoadBlockIndexGuts`. -/
def loadRecord (m : BlockMap) (diskindex : CDiskBlockIndex) : Except LoadFailure BlockMap :=
  let hash := diskindex.getBlockHash hashing
  let m := insertBlockIndex (insertBlockIndex m hash) diskindex.hashPrev
  match m hash with
  | none => .error .nullPointer
  | some pindexNew =>
    let pindexNew := pindexNew.assign diskindex
    if checkIndexProof hash pindexNew params then .ok (Function.update m hash (some pindexNew))
    else .error (.indexProof hash)

/-- `LoadBlockIndexGuts`, into an empty `mapBlockIndex`. -/
def loadBlockIndexGuts (db : BlockTreeDB) : Except LoadFailure BlockMap :=
  db.toList.foldlM (fun m record => loadRecord hashing params m record.2) fun _ => none

/-- `WriteBatchSync`, for the block index; each entry comes with its key in `mapBlockIndex`. -/
def writeBatchSync (db : BlockTreeDB) (blockinfo : List (Uint256 × CBlockIndex)) : BlockTreeDB :=
  blockinfo.foldl (fun db entry => db.insert entry.1 (.stored entry.2)) db

/-! ### Restarts -/

structure IndexState where
  db : BlockTreeDB
  mapBlockIndex : BlockMap

/-- What changes in an entry that is marked dirty: where its data are and how far it has been checked. -/
structure BlockPosition where
  nFile : Int
  nDataPos : BitVec 32
  nUndoPos : BitVec 32
  nTx : BitVec 32
  nStatus : BitVec 32
  nMoneySupply : BitVec 64

def CBlockIndex.moved (e : CBlockIndex) (p : BlockPosition) : CBlockIndex :=
  { e with
    nFile := p.nFile, nDataPos := p.nDataPos, nUndoPos := p.nUndoPos, nTx := p.nTx, nStatus := p.nStatus
    nMoneySupply := p.nMoneySupply }

/-- Some entries are changed and marked dirty, the dirty entries are written, and the node is restarted. -/
def IndexState.restart (s : IndexState) (dirty : List (Uint256 × BlockPosition)) :
    Except LoadFailure IndexState := do
  let blockinfo := dirty.filterMap fun (hash, p) => (s.mapBlockIndex hash).map fun e => (hash, e.moved p)
  let db := writeBatchSync s.db blockinfo
  let mapBlockIndex ← loadBlockIndexGuts hashing params db
  return ⟨db, mapBlockIndex⟩

/-- A block index as `AddToBlockIndex` builds it, with all its entries listed: the keys are the hashes of the headers and meet their targets, and the parent of every entry but the genesis block is there. -/
structure BlockMap.WellFormed (m : BlockMap) (entries : List (Uint256 × CBlockIndex)) : Prop where
  mem_iff : ∀ hash e, (hash, e) ∈ entries ↔ m hash = some e
  blockHash : ∀ hash e, m hash = some e → hashing.blockHash e.getBlockHeader = hash
  notNull : ∀ hash e, m hash = some e → hash.isNull = false
  checkIndexProof : ∀ hash e, m hash = some e → checkIndexProof hash e params = true
  parent : ∀ hash e p, m hash = some e → e.pprev = some p → (m p).isSome

/-- The index is written as a whole and loaded again, and every header field is back; however often entries are then marked dirty, written and loaded, every entry stays under its hash, with its parent. -/
def SurvivesRestarts (m : BlockMap) (entries : List (Uint256 × CBlockIndex)) : Prop :=
  ∃ loaded, loadBlockIndexGuts hashing params (writeBatchSync ∅ entries) = .ok loaded ∧
    (∀ hash e, m hash = some e → ∃ e', loaded hash = some e' ∧
      e'.getBlockHeader = e.getBlockHeader ∧ e'.hashProof = e.hashProof) ∧
    ∀ rounds : List (List (Uint256 × BlockPosition)), ∃ s : IndexState,
      rounds.foldlM (IndexState.restart hashing params) ⟨writeBatchSync ∅ entries, loaded⟩ = .ok s ∧
        ∀ hash e, m hash = some e → ∃ e', s.mapBlockIndex hash = some e' ∧ e'.pprev = e.pprev

end

/-- The fields of an entry that `LoadBlockIndexGuts` leaves as `SetNull` made them. -/
structure CBlockIndex.Plain (e : CBlockIndex) : Prop where
  nNonce_ex : e.nNonce_ex = 0
  hashProof : e.hashProof = Uint256.null
  sig1 : e.sig1 = []
  sig2 : e.sig2 = []
  sig3 : e.sig3 = []
  sig4 : e.sig4 = []
  sig5 : e.sig5 = []

/-! ### What loading does -/

section

variable {hashing : Hashing} {params : Params} {m m' : BlockMap} {hash k : Uint256}

theorem insertBlockIndex_of_ne (h : k ≠ hash) : insertBlockIndex m hash k = m k := by
  rw [insertBlockIndex]
  split
  · rfl
  · exact Function.update_of_ne h _ _

theorem insertBlockIndex_of_isSome (h : (m k).isSome) : insertBlockIndex m hash k = m k := by
  by_cases heq : k = hash
  · subst heq
    rw [insertBlockIndex, if_pos (.inr h)]
  · exact insertBlockIndex_of_ne heq

theorem insertBlockIndex_self (h : hash.isNull = false) :
    insertBlockIndex m hash hash = some ((m hash).getD CBlockIndex.setNull) := by
  rw [insertBlockIndex]
  cases hm : m hash with
  | none => simp [h]
  | some e => simp [hm]

theorem insertBlockIndex_eq_or (m : BlockMap) (hash k : Uint256) :
    insertBlockIndex m hash k = m k ∨ m k = none ∧
      insertBlockIndex m hash k = some CBlockIndex.setNull := by
  by_cases heq : k = hash
  · subst heq
    rw [insertBlockIndex]
    split
    · exact .inl rfl
    · rename_i hnew
      exact .inr ⟨Option.not_isSome_iff_eq_none.mp fun h => hnew (.inr h), Function.update_self _ _ _⟩
  · exact .inl (insertBlockIndex_of_ne heq)

theorem CBlockIndex.plain_setNull : CBlockIndex.setNull.Plain := ⟨rfl, rfl, rfl, rfl, rfl, rfl, rfl⟩

theorem CBlockIndex.Plain.assign {e : CBlockIndex} (h : e.Plain) (d : CDiskBlockIndex) :
    (e.assign d).Plain :=
  ⟨h.nNonce_ex, h.hashProof, h.sig1, h.sig2, h.sig3, h.sig4, h.sig5⟩

def BlockMap.Plain (m : BlockMap) : Prop := ∀ hash e, m hash = some e → e.Plain

theorem BlockMap.Plain.insertBlockIndex (h : m.Plain) (hash : Uint256) :
    BlockMap.Plain (insertBlockIndex m hash) := by
  intro k e he
  rcases insertBlockIndex_eq_or m hash k with heq | ⟨-, heq⟩
  · exact h k e (heq ▸ he)
  · rw [heq] at he
    cases he
    exact CBlockIndex.plain_setNull

theorem BlockMap.Plain.loadRecord (h : m.Plain) {d : CDiskBlockIndex}
    (hload : loadRecord hashing params m d = .ok m') : m'.Plain := by
  have hinserted :
      BlockMap.Plain
        (TscPow.insertBlockIndex (TscPow.insertBlockIndex m (d.getBlockHash hashing)) d.hashPrev) :=
    (h.insertBlockIndex _).insertBlockIndex _
  simp only [TscPow.loadRecord] at hload
  split at hload
  · cases hload
  · rename_i pindexNew hnew
    split at hload
    · cases hload
      intro k e he
      by_cases heq : k = d.getBlockHash hashing
      · rw [heq, Function.update_self] at he
        cases he
        exact (hinserted _ _ hnew).assign d
      · rw [Function.update_of_ne heq] at he
        exact hinserted k e he
    · cases hload

theorem plain_of_loadBlockIndexGuts {db : BlockTreeDB}
    (hload : loadBlockIndexGuts hashing params db = .ok m) : m.Plain :=
  Except.foldlM_invariant hload (fun _ _ h => nomatch h) fun _ _ _ _ hm hrecord => hm.loadRecord hrecord

/-! ### Loading records that are found under their own hash -/

/-- Records as they should be: each hashes to its key and meets its target, and the parent is among the keys `known`. -/
structure LoadableRecord (hashing : Hashing) (params : Params) (known : Uint256 → Prop)
    (hash : Uint256) (d : CDiskBlockIndex) : Prop where
  getBlockHash : d.getBlockHash hashing = hash
  notNull : hash.isNull = false
  proof : checkProofOfWork hash d.nBits params = true
  parent : d.hashPrev.isNull = true ∨ known d.hashPrev

variable {known : Uint256 → Prop}

theorem loadRecord_of_loadable {d : CDiskBlockIndex} (h : LoadableRecord hashing params known hash d)
    (hm : m hash = none ∨ m hash = some CBlockIndex.setNull) :
    loadRecord hashing params m d =
      .ok (Function.update (insertBlockIndex (insertBlockIndex m hash) d.hashPrev) hash
        (some (CBlockIndex.setNull.assign d))) := by
  have hself : insertBlockIndex m hash hash = some CBlockIndex.setNull := by
    rw [insertBlockIndex_self h.notNull]
    rcases hm with hm | hm <;> simp [hm]
  have hfound :
      insertBlockIndex (insertBlockIndex m hash) d.hashPrev hash = some CBlockIndex.setNull := by
    rw [insertBlockIndex_of_isSome (by simp [hself]), hself]
  have hproof : checkIndexProof hash (CBlockIndex.setNull.assign d) params = true := h.proof
  simp only [loadRecord, h.getBlockHash, hfound, hproof, if_true]

/-- Loading a list of such records with different keys: each is copied into a blank entry, and nothing is changed but blank entries made for parents. -/
theorem exists_foldlM_loadRecord (records : List (Uint256 × CDiskBlockIndex)) (m : BlockMap)
    (hnodup : (records.map Prod.fst).Nodup)
    (hload : ∀ r ∈ records, LoadableRecord hashing params known r.1 r.2)
    (hm : ∀ r ∈ records, m r.1 = none ∨ m r.1 = some CBlockIndex.setNull) :
    ∃ m', records.foldlM (fun m record => loadRecord hashing params m record.2) m = .ok m' ∧
      (∀ r ∈ records, m' r.1 = some (CBlockIndex.setNull.assign r.2)) ∧
      ∀ k, k ∉ records.map Prod.fst → (m k).isSome ∨ ¬ known k → m' k = m k := by
  induction records generalizing m with
  | nil => exact ⟨m, rfl, by simp, fun _ _ _ => rfl⟩
  | cons r records ih =>
    rw [List.map_cons, List.nodup_cons] at hnodup
    rw [List.forall_mem_cons] at hload hm
    set next := Function.update (insertBlockIndex (insertBlockIndex m r.1) r.2.hashPrev) r.1
      (some (CBlockIndex.setNull.assign r.2))
      with hnext
    have hother : ∀ k, k ≠ r.1 → next k = m k ∨ m k = none ∧ next k = some CBlockIndex.setNull := by
      intro k hk
      rw [hnext, Function.update_of_ne hk, ← insertBlockIndex_of_ne (m := m) hk]
      exact insertBlockIndex_eq_or _ _ _
    have hblank : ∀ r' ∈ records, next r'.1 = none ∨ next r'.1 = some CBlockIndex.setNull := by
      intro r' hr'
      have hne : r'.1 ≠ r.1 := fun heq => hnodup.1 (List.mem_map.mpr ⟨r', hr', heq⟩)
      rcases hother r'.1 hne with heq | ⟨-, heq⟩
      · rw [heq]
        exact hm.2 r' hr'
      · exact .inr heq
    obtain ⟨m', hfold, hloaded, hkept⟩ := ih next hnodup.2 hload.2 hblank
    refine ⟨m', ?_, ?_, ?_⟩
    · rw [Except.foldlM_cons_eq_ok_iff]
      exact ⟨next, loadRecord_of_loadable hload.1 hm.1, hfold⟩
    · rw [List.forall_mem_cons]
      refine ⟨?_, hloaded⟩
      rw [hkept r.1 hnodup.1 (.inl (by simp [hnext])), hnext, Function.update_self]
    · intro k hk hsafe
      rw [List.map_cons, List.mem_cons, not_or] at hk
      have hsame : next k = m k := by
        rcases hsafe with hthere | hunknown
        · rcases hother k hk.1 with heq | ⟨hnone, -⟩
          · exact heq
          · simp [hnone] at hthere
        · -- a blank entry is made for a parent only
          rw [hnext, Function.update_of_ne hk.1]
          rcases hload.1.parent with hnull | hknown
          · rw [insertBlockIndex, if_pos (.inl hnull), insertBlockIndex_of_ne hk.1]
          · have hne : k ≠ r.2.hashPrev := fun heq => hunknown (heq ▸ hknown)
            rw [insertBlockIndex_of_ne hne, insertBlockIndex_of_ne hk.1]
      rw [← hsame]
      apply hkept k hk.2
      rw [hsame]
      exact hsafe

theorem exists_loadBlockIndexGuts {db : BlockTreeDB}
    (hload : ∀ hash d, db[hash]? = some d →
      LoadableRecord hashing params (fun p => (db[p]?).isSome) hash d) :
    ∃ m, loadBlockIndexGuts hashing params db = .ok m ∧ ∀ hash,
      m hash = (db[hash]?).map CBlockIndex.setNull.assign := by
  have hmem (hash : Uint256) (d : CDiskBlockIndex) : (hash, d) ∈ db.toList ↔ db[hash]? = some d :=
    Std.TreeMap.mem_toList_iff_getElem?_eq_some
  have hnodup : (db.toList.map Prod.fst).Nodup :=
    Std.TreeMap.distinct_keys_toList.map Prod.fst fun r r' hne heq => hne (compare_eq_iff_eq.mpr heq)
  obtain ⟨m, hfold, hloaded, hkept⟩ := exists_foldlM_loadRecord db.toList (fun _ => none) hnodup
    (fun r hr => hload r.1 r.2 ((hmem r.1 r.2).mp hr)) fun _ _ => .inl rfl
  refine ⟨m, hfold, fun hash => ?_⟩
  cases hdb : db[hash]? with
  | some d => exact hloaded (hash, d) ((hmem hash d).mpr hdb)
  | none =>
    apply hkept hash
    · intro hkey
      obtain ⟨r, hr, rfl⟩ := List.mem_map.mp hkey
      rw [(hmem r.1 r.2).mp hr] at hdb
      cases hdb
    · simp [hdb]

/-! ### Writing -/

theorem getElem?_writeBatchSync (db : BlockTreeDB) (blockinfo : List (Uint256 × CBlockIndex))
    (hash : Uint256) :
    (hash ∉ blockinfo.map Prod.fst ∧ (writeBatchSync db blockinfo)[hash]? = db[hash]?) ∨
      ∃ e, (hash, e) ∈ blockinfo ∧ (writeBatchSync db blockinfo)[hash]? = some (.stored e) := by
  induction blockinfo generalizing db with
  | nil => exact .inl ⟨List.not_mem_nil, rfl⟩
  | cons entry blockinfo ih =>
    change (_ ∧ (writeBatchSync (db.insert entry.1 (.stored entry.2)) blockinfo)[hash]? = _) ∨
      ∃ e, _ ∧ (writeBatchSync (db.insert entry.1 (.stored entry.2)) blockinfo)[hash]? = _
    rcases ih (db.insert entry.1 (.stored entry.2)) with ⟨hnot, hsame⟩ | ⟨e, he, hnew⟩
    · rw [hsame, Std.TreeMap.getElem?_insert]
      by_cases heq : entry.1 = hash
      · subst heq
        exact .inr ⟨entry.2, List.mem_cons_self, if_pos (compare_eq_iff_eq.mpr rfl)⟩
      · refine .inl ⟨?_, if_neg fun h => heq (compare_eq_iff_eq.mp h)⟩
        rw [List.map_cons, List.mem_cons, not_or]
        exact ⟨Ne.symm heq, hnot⟩
    · exact .inr ⟨e, List.mem_cons_of_mem _ he, hnew⟩

/-! ### Restarts of an index of plain entries -/

structure CBlockIndex.Copies (e e' : CBlockIndex) : Prop where
  pprev : e'.pprev = e.pprev
  getBlockHeader : e'.getBlockHeader = e.getBlockHeader

variable {e e' : CBlockIndex} {entries : List (Uint256 × CBlockIndex)}

theorem CBlockIndex.Copies.nBits (h : e.Copies e') : e'.nBits = e.nBits :=
  congrArg BlockHeader.nBits h.getBlockHeader

theorem CBlockIndex.Copies.hashPrev (h : e.Copies e') : e'.hashPrev = e.hashPrev :=
  congrArg BlockHeader.hashPrevBlock h.getBlockHeader

theorem CBlockIndex.Copies.moved (h : e.Copies e') (p : BlockPosition) : e.Copies (e'.moved p) :=
  ⟨h.pprev, h.getBlockHeader⟩

theorem CBlockIndex.Plain.getBlockHash_stored (he : e.Plain) (h : e.Copies e') :
    (CDiskBlockIndex.stored e').getBlockHash hashing = hashing.blockHash e.getBlockHeader := by
  have hsig1 : e'.sig1 = [] := (congrArg BlockHeader.sig1 h.getBlockHeader).trans he.sig1
  have hsig2 : e'.sig2 = [] := (congrArg BlockHeader.sig2 h.getBlockHeader).trans he.sig2
  have hsig3 : e'.sig3 = [] := (congrArg BlockHeader.sig3 h.getBlockHeader).trans he.sig3
  have hsig4 : e'.sig4 = [] := (congrArg BlockHeader.sig4 h.getBlockHeader).trans he.sig4
  have hsig5 : e'.sig5 = [] := (congrArg BlockHeader.sig5 h.getBlockHeader).trans he.sig5
  rw [← h.getBlockHeader, CDiskBlockIndex.getBlockHash, getBlockHeader, hsig1, hsig2, hsig3, hsig4, hsig5]
  rfl

theorem CBlockIndex.Plain.copies_assign (he : e.Plain) (h : e.Copies e')
    (hparent : ∀ p, e.pprev = some p → p.isNull = false) :
    e.Copies (CBlockIndex.setNull.assign (.stored e')) := by
  have hpprev : (CBlockIndex.setNull.assign (.stored e')).pprev = e.pprev := by
    change (if e'.hashPrev.isNull then none else some e'.hashPrev) = e.pprev
    rw [h.hashPrev, CBlockIndex.hashPrev]
    cases hp : e.pprev with
    | none => rfl
    | some p => simp [hparent p hp]
  refine ⟨hpprev, ?_⟩
  have hprev : (CBlockIndex.setNull.assign (.stored e')).hashPrev = e'.hashPrev := by
    rw [CBlockIndex.hashPrev, hpprev, ← h.pprev, CBlockIndex.hashPrev]
  have hnonce : e'.nNonce_ex = 0 := (congrArg BlockHeader.nNonce_ex h.getBlockHeader).trans he.nNonce_ex
  have hsig1 : e'.sig1 = [] := (congrArg BlockHeader.sig1 h.getBlockHeader).trans he.sig1
  have hsig2 : e'.sig2 = [] := (congrArg BlockHeader.sig2 h.getBlockHeader).trans he.sig2
  have hsig3 : e'.sig3 = [] := (congrArg BlockHeader.sig3 h.getBlockHeader).trans he.sig3
  have hsig4 : e'.sig4 = [] := (congrArg BlockHeader.sig4 h.getBlockHeader).trans he.sig4
  have hsig5 : e'.sig5 = [] := (congrArg BlockHeader.sig5 h.getBlockHeader).trans he.sig5
  rw [← h.getBlockHeader, getBlockHeader, hprev, getBlockHeader, hnonce, hsig1, hsig2, hsig3, hsig4,
    hsig5]
  rfl

/-- The database holds a copy of every entry of `m` under its hash, and nothing else. -/
structure Mirrors (m : BlockMap) (db : BlockTreeDB) : Prop where
  there : ∀ hash e, m hash = some e → (db[hash]?).isSome
  copy : ∀ hash d, db[hash]? = some d → ∃ e e', m hash = some e ∧ d = .stored e' ∧ e.Copies e'

/-- The database mirrors `m`, and the index in memory has a copy of every entry of `m` and no other entries. -/
structure Restored (m : BlockMap) (s : IndexState) : Prop where
  mirrors : Mirrors m s.db
  kept : ∀ hash e, m hash = some e → ∃ e', s.mapBlockIndex hash = some e' ∧ e.Copies e'
  only : ∀ hash e', s.mapBlockIndex hash = some e' → ∃ e, m hash = some e ∧ e.Copies e'

theorem mirrors_writeBatchSync (hwf : m.WellFormed hashing params entries) :
    Mirrors m (writeBatchSync ∅ entries) := by
  constructor
  · intro hash e he
    rcases getElem?_writeBatchSync ∅ entries hash with ⟨hnot, -⟩ | ⟨e', -, hnew⟩
    · exact absurd (List.mem_map.mpr ⟨(hash, e), (hwf.mem_iff hash e).mpr he, rfl⟩) hnot
    · simp [hnew]
  · intro hash d hd
    rcases getElem?_writeBatchSync ∅ entries hash with ⟨-, hsame⟩ | ⟨e, he, hnew⟩
    · rw [hsame] at hd
      simp at hd
    · rw [hnew] at hd
      cases hd
      exact ⟨e, e, (hwf.mem_iff hash e).mp he, rfl, rfl, rfl⟩

section

variable (hwf : m.WellFormed hashing params entries) (hplain : m.Plain)

include hwf hplain

theorem Mirrors.loadable {db : BlockTreeDB} (h : Mirrors m db) {d : CDiskBlockIndex}
    (hd : db[hash]? = some d) :
    LoadableRecord hashing params (fun p => (db[p]?).isSome) hash d := by
  obtain ⟨e, e', he, rfl, hcopy⟩ := h.copy hash d hd
  refine ⟨?_, hwf.notNull hash e he, ?_, ?_⟩
  · rw [(hplain hash e he).getBlockHash_stored hcopy, hwf.blockHash hash e he]
  · change checkProofOfWork hash e'.nBits params = true
    rw [hcopy.nBits]
    exact hwf.checkIndexProof hash e he
  · change e'.hashPrev.isNull = true ∨ (db[e'.hashPrev]?).isSome
    rw [hcopy.hashPrev, CBlockIndex.hashPrev]
    cases hp : e.pprev with
    | none => exact .inl (by decide)
    | some p =>
      obtain ⟨parent, hparent⟩ := Option.isSome_iff_exists.mp (hwf.parent hash e p he hp)
      exact .inr (h.there p parent hparent)

theorem Mirrors.load {db : BlockTreeDB} (h : Mirrors m db) :
    ∃ loaded, loadBlockIndexGuts hashing params db = .ok loaded ∧ Restored m ⟨db, loaded⟩ := by
  obtain ⟨loaded, hload, hloaded⟩ := exists_loadBlockIndexGuts fun _ _ hd => h.loadable hwf hplain hd
  have hcopy (hash : Uint256) (d : CDiskBlockIndex) (hd : db[hash]? = some d) :
      ∃ e, m hash = some e ∧ e.Copies (CBlockIndex.setNull.assign d) := by
    obtain ⟨e, e', he, rfl, hcopy⟩ := h.copy hash d hd
    refine ⟨e, he, (hplain hash e he).copies_assign hcopy fun p hp => ?_⟩
    obtain ⟨parent, hparent⟩ := Option.isSome_iff_exists.mp (hwf.parent hash e p he hp)
    exact hwf.notNull p parent hparent
  refine ⟨loaded, hload, h, fun hash e he => ?_, fun hash e' he' => ?_⟩
  · obtain ⟨d, hd⟩ := Option.isSome_iff_exists.mp (h.there hash e he)
    obtain ⟨e₁, he₁, hcopies⟩ := hcopy hash d hd
    rw [he] at he₁
    cases he₁
    exact ⟨_, (hloaded hash).trans (by rw [hd, Option.map_some]), hcopies⟩
  · obtain ⟨d, hd, rfl⟩ := Option.map_eq_some_iff.mp ((hloaded hash).symm.trans he')
    exact hcopy hash d hd

theorem Restored.restart {s : IndexState} (h : Restored m s) (dirty : List (Uint256 × BlockPosition)) :
    ∃ t, s.restart hashing params dirty = .ok t ∧ Restored m t := by
  set blockinfo :=
    dirty.filterMap fun r => (s.mapBlockIndex r.1).map fun e => (r.1, e.moved r.2) with hinfo
  have hwritten : Mirrors m (writeBatchSync s.db blockinfo) := by
    constructor
    · intro hash e he
      rcases getElem?_writeBatchSync s.db blockinfo hash with ⟨-, hsame⟩ | ⟨e', -, hnew⟩
      · rw [hsame]
        exact h.mirrors.there hash e he
      · simp [hnew]
    · intro hash d hd
      rcases getElem?_writeBatchSync s.db blockinfo hash with ⟨-, hsame⟩ | ⟨e', he', hnew⟩
      · exact h.mirrors.copy hash d (hsame ▸ hd)
      · rw [hnew] at hd
        cases hd
        simp only [hinfo, List.mem_filterMap, Option.map_eq_some_iff, Prod.mk.injEq] at he'
        obtain ⟨r, -, e₁, he₁, rfl, rfl⟩ := he'
        obtain ⟨e, he, hcopies⟩ := h.only r.1 e₁ he₁
        exact ⟨e, _, he, rfl, hcopies.moved r.2⟩
  obtain ⟨loaded, hload, hrestored⟩ := hwritten.load hwf hplain
  refine ⟨⟨_, loaded⟩, ?_, hrestored⟩
  simp only [IndexState.restart, Except.bind_eq_ok_iff, Except.pure_eq_ok_iff]
  exact ⟨loaded, hload, rfl⟩

theorem Restored.restarts (rounds : List (List (Uint256 × BlockPosition))) {s : IndexState}
    (h : Restored m s) :
    ∃ t, rounds.foldlM (IndexState.restart hashing params) s = .ok t ∧ Restored m t := by
  induction rounds generalizing s with
  | nil => exact ⟨s, rfl, h⟩
  | cons dirty rounds ih =>
    obtain ⟨s', hstep, h'⟩ := h.restart hwf hplain dirty
    obtain ⟨t, hrest, ht⟩ := ih h'
    exact ⟨t, Except.foldlM_cons_eq_ok_iff.mpr ⟨s', hstep, hrest⟩, ht⟩

end

/-- The block index survives restarts exactly when none of its entries has a second nonce, a proof hash or a signature. -/
theorem survivesRestarts_iff_plain (hashing : Hashing) (params : Params) (m : BlockMap)
    (entries : List (Uint256 × CBlockIndex)) (hwf : m.WellFormed hashing params entries) :
    SurvivesRestarts hashing params m entries ↔ m.Plain := by
  constructor
  · intro h hash e he
    obtain ⟨loaded, hload, hheaders, -⟩ := h
    obtain ⟨e', he', hheader, hproof⟩ := hheaders hash e he
    have hplain := plain_of_loadBlockIndexGuts hload hash e' he'
    exact {
      nNonce_ex := (congrArg BlockHeader.nNonce_ex hheader).symm.trans hplain.nNonce_ex
      hashProof := hproof.symm.trans hplain.hashProof
      sig1 := (congrArg BlockHeader.sig1 hheader).symm.trans hplain.sig1
      sig2 := (congrArg BlockHeader.sig2 hheader).symm.trans hplain.sig2
      sig3 := (congrArg BlockHeader.sig3 hheader).symm.trans hplain.sig3
      sig4 := (congrArg BlockHeader.sig4 hheader).symm.trans hplain.sig4
      sig5 := (congrArg BlockHeader.sig5 hheader).symm.trans hplain.sig5 }
  · intro hplain
    obtain ⟨loaded, hload, hrestored⟩ := (mirrors_writeBatchSync hwf).load hwf hplain
    have hloaded := plain_of_loadBlockIndexGuts hload
    refine ⟨loaded, hload, fun hash e he => ?_, fun rounds => ?_⟩
    · obtain ⟨e', he', hcopies⟩ := hrestored.kept hash e he
      exact ⟨e', he', hcopies.getBlockHeader,
        (hloaded hash e' he').hashProof.trans (hplain hash e he).hashProof.symm⟩
    · obtain ⟨s, hrun, hs⟩ := hrestored.restarts hwf hplain rounds
      refine ⟨s, hrun, fun hash e he => ?_⟩
      obtain ⟨e', he', hcopies⟩ := hs.kept hash e he
      exact ⟨e', he', hcopies.pprev⟩

end

/-! ### An index of two entries -/

namespace RestartSample

def hashing : Hashing where
  txHash _ := Uint256.null
  blockHash header := Uint256.ofNat (header.nTime.toNat + 2 ^ 32 * header.nNonce_ex.toNat)
  merkleRoot _ := (Uint256.null, false)

def entry (pprev : Option Uint256) (nHeight : Int) (nTime : BitVec 32) (nNonce_ex : BitVec 64) :
    CBlockIndex :=
  { CBlockIndex.setNull with pprev, nHeight, nVersion := 4, nTime, nBits := 0x1f00ffff, nNonce_ex }

def genesis : CBlockIndex := entry none 0 1 0

def hash (nNonce_ex : BitVec 64) : Uint256 := Uint256.ofNat (2 + 2 ^ 32 * nNonce_ex.toNat)

def entries (nNonce_ex : BitVec 64) : List (Uint256 × CBlockIndex) :=
  [(Uint256.ofNat 1, genesis), (hash nNonce_ex, entry (some (Uint256.ofNat 1)) 1 2 nNonce_ex)]

def index (nNonce_ex : BitVec 64) : BlockMap := fun k =>
  if k = Uint256.ofNat 1 then some genesis
  else if k = hash nNonce_ex then some (entry (some (Uint256.ofNat 1)) 1 2 nNonce_ex) else none

theorem mem_entries_iff {nNonce_ex : BitVec 64} (k : Uint256) (e : CBlockIndex)
    (hne : hash nNonce_ex ≠ Uint256.ofNat 1) :
    (k, e) ∈ entries nNonce_ex ↔ index nNonce_ex k = some e := by
  simp only [entries, index, List.mem_cons, Prod.mk.injEq, List.not_mem_nil, or_false]
  split
  case isTrue h => simp [h, hne.symm, eq_comm]
  case isFalse h => simp [h, eq_comm]

theorem wellFormed_index {nNonce_ex : BitVec 64} (hnonce : nNonce_ex = 0 ∨ nNonce_ex = 1) :
    (index nNonce_ex).WellFormed hashing mainParams (entries nNonce_ex) := by
  have hne : hash nNonce_ex ≠ Uint256.ofNat 1 := by
    rcases hnonce with rfl | rfl <;> decide
  have hall : ∀ r ∈ entries nNonce_ex, hashing.blockHash r.2.getBlockHeader = r.1 ∧ r.1.isNull = false ∧
      checkIndexProof r.1 r.2 mainParams = true ∧ ∀ p ∈ r.2.pprev, (index nNonce_ex p).isSome := by
    rcases hnonce with rfl | rfl <;> decide +kernel
  have hentry (k : Uint256) (e : CBlockIndex) (he : index nNonce_ex k = some e) :=
    hall (k, e) ((mem_entries_iff k e hne).mpr he)
  exact {
    mem_iff := fun k e => mem_entries_iff k e hne
    blockHash := fun k e he => (hentry k e he).1
    notNull := fun k e he => (hentry k e he).2.1
    checkIndexProof := fun k e he => (hentry k e he).2.2.1
    parent := fun k e p he hp => (hentry k e he).2.2.2 p hp }

end RestartSample

open RestartSample in
theorem survivesRestarts_iff_plain_zero :
    (index 0).WellFormed hashing mainParams (entries 0) ∧
      (SurvivesRestarts hashing mainParams (index 0) (entries 0) ↔ (index 0).Plain) :=
  ⟨wellFormed_index (.inl rfl), survivesRestarts_iff_plain _ _ _ _ (wellFormed_index (.inl rfl))⟩

open RestartSample in
/-- A block with a second nonce: after a restart the nonce is gone, and after the next one, with the block marked dirty in between, the block is no longer under its hash. -/
theorem second_nonce_lost :
    (index 1).WellFormed hashing mainParams (entries 1) ∧
      (loadBlockIndexGuts hashing mainParams (writeBatchSync ∅ (entries 1))).toOption.map (fun loaded =>
        ((loaded (RestartSample.hash 1)).map CBlockIndex.nNonce_ex,
          (IndexState.restart hashing mainParams ⟨writeBatchSync ∅ (entries 1), loaded⟩
            [(RestartSample.hash 1, ⟨0, 0, 0, 1, 3, 0⟩)]).toOption.map fun s =>
              (s.mapBlockIndex (RestartSample.hash 1)).isSome)) =
        some (some 0, some false) :=
  ⟨wellFormed_index (.inr rfl), by decide +kernel⟩

end TscPow
