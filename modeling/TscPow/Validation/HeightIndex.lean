import TscPow.Base.KeyedSet
import TscPow.Base.Scan
import TscPow.Contract.Converter
import TscPow.Validation.TxIndex

/-!
# The indexes by height

With `-logevents`, `ConnectBlock` records in the block tree database (`txdb.cpp`) under a height and a contract address which transactions ran this contract at this height, and, always, under a height which address staked its block. `DisconnectBlock` removes both again. The keys of the database are byte strings in lexicographic order, with the kind of the entry as their first byte. `EraseHeightIndex` and `EraseStakeIndex` put a cursor at the first key of a height and erase keys as long as these are keys of this height.

The height index has the heights in big endian, so that the keys of a height are next to each other, and all of them go. `EraseStakeIndex` looks for keys of the height index as well, where there are none: its cursor stops at the first key, and the entry of the stake index stays. With a `pfClean` for the result, as `VerifyDB` and `ReplayBlocks` have it, the height index is left alone too.
-/

namespace TscPow

open Reader

/-! ### The keys -/

structure CHeightTxIndexKey where
  height : BitVec 32
  address : Address
deriving DecidableEq

def DB_BLOCK_FILES : Byte := 0x66
def DB_TXINDEX : Byte := 0x74
def DB_BLOCK_INDEX : Byte := 0x62
def DB_HEIGHTINDEX : Byte := 0x68
def DB_STAKEINDEX : Byte := 0x73
def DB_FLAG : Byte := 0x46
def DB_REINDEX_FLAG : Byte := 0x52
def DB_LAST_BLOCK : Byte := 0x6c

def writeUInt32be (n : BitVec 32) : List Byte := (writeBitVec n).reverse

def readUInt32be : Reader Byte (BitVec 32) := do
  let bytes ← Reader.take 4
  return BitVec.ofNat 32 (Limbs.value bytes.reverse)

namespace CHeightTxIndexKey

def serialize (key : CHeightTxIndexKey) : List Byte :=
  writeUInt32be key.height ++ writeBytes key.address.asBytes

def unserialize : Reader Byte CHeightTxIndexKey := do
  let height ← readUInt32be
  let tmp ← readBytes
  return ⟨height, Address.ofVch tmp⟩

end CHeightTxIndexKey

/-- The keys that `CBlockTreeDB` writes. -/
inductive DBKey
  | blockFiles (nFile : BitVec 32)
  | txIndex (txid : Uint256)
  | blockIndex (hash : Uint256)
  | heightIndex (key : CHeightTxIndexKey)
  | stakeIndex (height : BitVec 32)
  | flag (name : List Byte)
  | reindexFlag
  | lastBlock
deriving DecidableEq

namespace DBKey

def serialize : DBKey → List Byte
  | .blockFiles nFile => DB_BLOCK_FILES :: writeBitVec nFile
  | .txIndex txid => DB_TXINDEX :: txid.data
  | .blockIndex hash => DB_BLOCK_INDEX :: hash.data
  | .heightIndex key => DB_HEIGHTINDEX :: key.serialize
  | .stakeIndex height => DB_STAKEINDEX :: writeBitVec height
  | .flag name => DB_FLAG :: writeBytes name
  | .reindexFlag => [DB_REINDEX_FLAG]
  | .lastBlock => [DB_LAST_BLOCK]

def height? : DBKey → Option (BitVec 32)
  | .heightIndex key => some key.height
  | .stakeIndex height => some height
  | _ => none

end DBKey

/-! ### The database -/

/-- The values of the three indexes; the other records are kept as they are. -/
inductive DBValue
  | hashes (hash : List Uint256)
  | address (address : Address)
  | position (pos : CDiskTxPos)
  | record (bytes : List Byte)
deriving DecidableEq

structure DBEntry where
  key : DBKey
  value : DBValue
deriving DecidableEq

/-- The bytes of a key, in the order of which the database keeps its entries. -/
def DBEntry.slice (e : DBEntry) : List Nat := e.key.serialize.map BitVec.toNat

abbrev CBlockTreeDB := KeyedSet DBEntry.slice

namespace CBlockTreeDB

def write (db : CBlockTreeDB) (key : DBKey) (value : DBValue) : CBlockTreeDB := db.replace ⟨key, value⟩

def seek (db : CBlockTreeDB) (start : List Byte) : List DBEntry :=
  Scan.seek DBEntry.slice (start.map BitVec.toNat) db.byKey

def readPair : Reader Byte (Byte × CHeightTxIndexKey) := do
  let first ← readBitVec 8
  let second ← CHeightTxIndexKey.unserialize
  return (first, second)

def getKey (e : DBEntry) : Option (Byte × CHeightTxIndexKey) :=
  (readPair.run e.key.serialize).map Prod.fst

/-- The keys that the loop of `EraseHeightIndex` and of `EraseStakeIndex` puts into its batch. -/
def eraseLoop (height : BitVec 32) : List DBEntry → List (List Byte)
  | [] => []
  | e :: rest =>
    match getKey e with
    | some (first, second) =>
      if first == DB_HEIGHTINDEX && second.height == height then
        (first :: second.serialize) :: eraseLoop height rest
      else []
    | none => []

def eraseBatch (db : CBlockTreeDB) (batch : List (List Byte)) : CBlockTreeDB :=
  db.filter fun e => decide (e.key.serialize ∉ batch)

def writeHeightIndex (db : CBlockTreeDB) (heightIndex : CHeightTxIndexKey) (hash : List Uint256) :
    CBlockTreeDB :=
  db.write (.heightIndex heightIndex) (.hashes hash)

def eraseHeightIndex (db : CBlockTreeDB) (height : BitVec 32) : CBlockTreeDB :=
  db.eraseBatch (eraseLoop height (db.seek (DB_HEIGHTINDEX :: writeUInt32be height)))

def writeStakeIndex (db : CBlockTreeDB) (height : BitVec 32) (address : Address) : CBlockTreeDB :=
  db.write (.stakeIndex height) (.address address)

def eraseStakeIndex (db : CBlockTreeDB) (height : BitVec 32) : CBlockTreeDB :=
  db.eraseBatch (eraseLoop height (db.seek (DB_STAKEINDEX :: writeBitVec height)))

def writeTxIndex (db : CBlockTreeDB) (vect : List (Uint256 × CDiskTxPos)) : CBlockTreeDB :=
  vect.foldl (fun db e => db.write (.txIndex e.1) (.position e.2)) db

end CBlockTreeDB

/-! ### Blocks -/

/-- `heightIndexes[key]` for the address of the key, which is in the map in the order of the addresses, with one more hash. -/
def pushHash (key : CHeightTxIndexKey) (hash : Uint256) : List (CHeightTxIndexKey × List Uint256) →
    List (CHeightTxIndexKey × List Uint256)
  | [] => [(key, [hash])]
  | e :: rest =>
    if e.1.address < key.address then e :: pushHash key hash rest
    else if e.1.address = key.address then (e.1, e.2 ++ [hash]) :: rest
    else (key, [hash]) :: e :: rest

/-- What `ConnectBlock` knows of a block when it writes the indexes. -/
structure IndexedBlock where
  nHeight : BitVec 32
  /-- The new address of each contract execution, with the hash of its transaction. -/
  executions : List (Address × Uint256)
  vPos : List (Uint256 × CDiskTxPos)

/-- The `heightIndexes` of `ConnectBlock`. -/
def IndexedBlock.heightIndexes (block : IndexedBlock) : List (CHeightTxIndexKey × List Uint256) :=
  block.executions.foldl (fun heightIndexes e => pushHash ⟨block.nHeight, e.1⟩ e.2 heightIndexes) []

namespace CBlockTreeDB

/-- The writes of `ConnectBlock`. No block is proof of stake, so that the address in the stake index is null. -/
def connectBlock (db : CBlockTreeDB) (fLogEvents fTxIndex : Bool) (block : IndexedBlock) : CBlockTreeDB :=
  let db := if fLogEvents then
    block.heightIndexes.foldl (fun db e => db.writeHeightIndex e.1 e.2) db else db
  let db := db.writeStakeIndex block.nHeight 0
  if fTxIndex then db.writeTxIndex block.vPos else db

/-- The erasures of `DisconnectBlock`; `pfClean` says whether it was given a pointer. -/
def disconnectBlock (db : CBlockTreeDB) (fLogEvents pfClean : Bool) (nHeight : BitVec 32) :
    CBlockTreeDB :=
  let db := if !pfClean && fLogEvents then db.eraseHeightIndex nHeight else db
  db.eraseStakeIndex nHeight

end CBlockTreeDB

/-! ### Reading keys back -/

theorem Address.length_asBytes (a : Address) : a.asBytes.length = 20 := by simp [Address.asBytes]

theorem Address.ofVch_asBytes (a : Address) : Address.ofVch a.asBytes = a := by
  have hwords := Limbs.foldl_words (w := 8) (n := 20) a (Nat.le_refl _) (Nat.le_refl 20)
  rw [Nat.sub_self, Nat.mul_zero, BitVec.ushiftRight_zero] at hwords
  rw [Address.ofVch, if_pos a.length_asBytes]
  exact hwords

theorem length_writeUInt32be (n : BitVec 32) : (writeUInt32be n).length = 4 := by
  simp [writeUInt32be, writeBitVec, length_writeUInt]

theorem reads_uint32be (n : BitVec 32) : Reads readUInt32be (writeUInt32be n) n := by
  have hvalue : BitVec.ofNat 32 (Limbs.value (writeUInt32be n).reverse) = n := by
    rw [writeUInt32be, List.reverse_reverse, writeBitVec, writeUInt, Limbs.value_ofNat]
    apply BitVec.eq_of_toNat_eq
    rw [BitVec.toNat_ofNat, Nat.mod_mod, Nat.mod_eq_of_lt n.isLt]
  have htake := Reads.take (writeUInt32be n)
  rw [length_writeUInt32be] at htake
  have hmap := htake.map fun bytes => BitVec.ofNat 32 (Limbs.value bytes.reverse)
  rw [hvalue] at hmap
  exact hmap

theorem reads_heightKey (key : CHeightTxIndexKey) :
    Reads CHeightTxIndexKey.unserialize key.serialize key := by
  have hlength : key.address.asBytes.length ≤ MAX_SIZE := by
    rw [Address.length_asBytes]
    decide
  have haddress :=
    (reads_bytes hlength).map fun tmp => CHeightTxIndexKey.mk key.height (Address.ofVch tmp)
  rw [Address.ofVch_asBytes] at haddress
  exact (reads_uint32be key.height).bind haddress

namespace CBlockTreeDB

theorem getKey_heightIndex (key : CHeightTxIndexKey) (value : DBValue) :
    getKey ⟨.heightIndex key, value⟩ = some (DB_HEIGHTINDEX, key) := by
  have hfirst : Reads (readBitVec 8) [DB_HEIGHTINDEX] DB_HEIGHTINDEX := reads_bitVec rfl DB_HEIGHTINDEX
  have hpair : Reads readPair ([DB_HEIGHTINDEX] ++ key.serialize) (DB_HEIGHTINDEX, key) :=
    hfirst.bind ((reads_heightKey key).map fun second => (DB_HEIGHTINDEX, second))
  have hrun := hpair []
  rw [List.append_nil] at hrun
  exact congrArg (Option.map Prod.fst) hrun

theorem head_of_getKey {e : DBEntry} {first : Byte} {second : CHeightTxIndexKey}
    (h : getKey e = some (first, second)) :
    e.key.serialize.head? = some first := by
  rw [getKey, readPair, StateT.run_bind] at h
  cases hbytes : e.key.serialize with
  | nil =>
    rw [hbytes] at h
    cases h
  | cons byte rest =>
    have hwrite : writeBitVec byte = [byte] := by simp [writeBitVec, writeUInt, Limbs.ofNat]
    have hbyte : (readBitVec 8).run (byte :: rest) = some (byte, rest) := by
      rw [← List.singleton_append, ← hwrite]
      exact reads_bitVec rfl byte rest
    rw [hbytes, hbyte] at h
    obtain ⟨read, hrun, hread⟩ := Option.map_eq_some_iff.mp h
    change (CHeightTxIndexKey.unserialize.run rest >>= fun key => some ((byte, key.1), key.2)) =
      some read at hrun
    obtain ⟨key, -, hkey⟩ := Option.bind_eq_some_iff.mp hrun
    rw [← Option.some.inj hkey] at hread
    exact congrArg (some ∘ Prod.fst) hread

def ofHeight (height : BitVec 32) (e : DBEntry) : Bool :=
  match e.key with
  | .heightIndex key => key.height == height
  | _ => false

theorem ofHeight_iff {height : BitVec 32} {e : DBEntry} : ofHeight height e = true ↔
    ∃ address, e.key = .heightIndex ⟨height, address⟩ := by
  rw [ofHeight]
  split
  case h_1 key hkey =>
    rw [hkey, beq_iff_eq]
    constructor
    · rintro rfl
      exact ⟨key.address, rfl⟩
    · rintro ⟨address, h⟩
      rw [DBKey.heightIndex.injEq] at h
      rw [h]
  case h_2 hkey =>
    refine iff_of_false Bool.false_ne_true ?_
    rintro ⟨address, h⟩
    exact hkey _ h

theorem eq_heightIndex_of_head {key : DBKey} (h : key.serialize.head? = some DB_HEIGHTINDEX) :
    ∃ second, key = .heightIndex second := by
  cases key with
  | heightIndex second => exact ⟨second, rfl⟩
  | blockFiles => exact absurd (Option.some.inj h) (by decide)
  | txIndex => exact absurd (Option.some.inj h) (by decide)
  | blockIndex => exact absurd (Option.some.inj h) (by decide)
  | stakeIndex => exact absurd (Option.some.inj h) (by decide)
  | flag => exact absurd (Option.some.inj h) (by decide)
  | reindexFlag => exact absurd (Option.some.inj h) (by decide)
  | lastBlock => exact absurd (Option.some.inj h) (by decide)

theorem key_of_getKey {e : DBEntry} {second : CHeightTxIndexKey}
    (h : getKey e = some (DB_HEIGHTINDEX, second)) : e.key = .heightIndex second := by
  obtain ⟨key, hkey⟩ := eq_heightIndex_of_head (head_of_getKey h)
  have hget := getKey_heightIndex key e.value
  rw [← hkey] at hget
  cases h.symm.trans hget
  exact hkey

theorem eraseLoop_eq (height : BitVec 32) (entries : List DBEntry) :
    eraseLoop height entries = (entries.takeWhile (ofHeight height)).map fun e => e.key.serialize := by
  induction entries with
  | nil => rfl
  | cons e rest ih =>
    rw [eraseLoop, List.takeWhile_cons]
    by_cases hof : ofHeight height e = true
    · obtain ⟨address, hkey⟩ := ofHeight_iff.mp hof
      have hget : getKey e = some (DB_HEIGHTINDEX, ⟨height, address⟩) := by
        rw [← getKey_heightIndex _ e.value, ← hkey]
      rw [hget, if_pos hof, List.map_cons, hkey, ← ih]
      simp [DBKey.serialize]
    · rw [if_neg hof, List.map_nil]
      split
      case h_1 first second hget =>
        refine if_neg ?_
        rw [Bool.and_eq_true, beq_iff_eq, beq_iff_eq]
        rintro ⟨rfl, rfl⟩
        exact hof (ofHeight_iff.mpr ⟨second.address, key_of_getKey hget⟩)
      case h_2 => rfl

/-! ### The order of the keys -/

theorem slice_injective {first second : List Byte}
    (h : first.map BitVec.toNat = second.map BitVec.toNat) : first = second :=
  List.map_injective_iff.mpr (fun _ _ => BitVec.eq_of_toNat_eq) h

theorem ofHeight_iff_begins {height : BitVec 32} {e : DBEntry} :
    ofHeight height e = true ↔ (DB_HEIGHTINDEX :: writeUInt32be height).map BitVec.toNat <+: e.slice := by
  constructor
  · intro hof
    obtain ⟨address, hkey⟩ := ofHeight_iff.mp hof
    refine ⟨(writeBytes address.asBytes).map BitVec.toNat, ?_⟩
    rw [DBEntry.slice, hkey, ← List.map_append]
    rfl
  · rintro ⟨rest, hrest⟩
    have htake : (DB_HEIGHTINDEX :: writeUInt32be height) = e.key.serialize.take 5 := by
      apply slice_injective
      rw [List.map_take, ← DBEntry.slice, ← hrest, List.take_left']
      rw [List.length_map, List.length_cons, length_writeUInt32be]
    have hhead : e.key.serialize.head? = some DB_HEIGHTINDEX := by
      have htaken : (e.key.serialize.take 5).head? = some DB_HEIGHTINDEX := by
        rw [← htake]
        rfl
      rwa [List.head?_take, if_neg (by decide)] at htaken
    obtain ⟨⟨height', address⟩, hkey⟩ := eq_heightIndex_of_head hhead
    refine ofHeight_iff.mpr ⟨address, ?_⟩
    have hheight : writeUInt32be height = writeUInt32be height' := by
      rw [hkey] at htake
      have htail := List.tail_eq_of_cons_eq htake
      rwa [CHeightTxIndexKey.serialize, List.take_left' (length_writeUInt32be _)] at htail
    have hread := reads_uint32be height []
    rw [hheight, reads_uint32be height' []] at hread
    cases hread
    exact hkey

/-! ### Erasures -/

theorem mem_eraseHeightIndex {db : CBlockTreeDB} {height : BitVec 32} {e : DBEntry} :
    e ∈ db.eraseHeightIndex height ↔ e ∈ db ∧ ∀ address, e.key ≠ .heightIndex ⟨height, address⟩ := by
  -- from the key of the cursor on, the entries of the height come first
  have hscan :
      ∀ e, e ∈ (db.seek (DB_HEIGHTINDEX :: writeUInt32be height)).takeWhile (ofHeight height) ↔
      e ∈ db ∧ ofHeight height e = true := by
    intro e
    rw [← KeyedSet.mem_byKey]
    refine Scan.mem_scan_iff db.pairwise_byKey ?_ ?_
    · intro e hof
      exact Scan.le_of_prefix (ofHeight_iff_begins.mp hof)
    · intro a b hstart hle hof
      obtain ⟨rest, hrest⟩ := ofHeight_iff_begins.mp hof
      rw [← hrest] at hle
      exact ofHeight_iff_begins.mpr (Scan.prefix_of_le_of_le hstart hle)
  rw [eraseHeightIndex, eraseBatch, KeyedSet.mem_filter, eraseLoop_eq, decide_eq_true_eq]
  apply and_congr_right
  intro he
  rw [← not_exists, ← ofHeight_iff, List.mem_map]
  refine not_congr ⟨?_, fun hof => ⟨e, (hscan e).mpr ⟨he, hof⟩, rfl⟩⟩
  rintro ⟨e', he', hkey⟩
  obtain ⟨hmem, hof⟩ := (hscan e').mp he'
  rwa [KeyedSet.eq_of_key_eq he hmem (by rw [DBEntry.slice, DBEntry.slice, hkey])]

theorem mem_eraseStakeIndex {db : CBlockTreeDB} {height : BitVec 32} {e : DBEntry} :
    e ∈ db.eraseStakeIndex height ↔ e ∈ db := by
  have hnil : eraseLoop height (db.seek (DB_STAKEINDEX :: writeBitVec height)) = [] := by
    rw [eraseLoop_eq, List.map_eq_nil_iff, List.eq_nil_iff_forall_not_mem]
    intro e he
    obtain ⟨address, hkey⟩ := ofHeight_iff.mp (List.mem_takeWhile_imp he)
    have hle := ((Scan.mem_seek_iff db.pairwise_byKey).mp (List.takeWhile_subset _ he)).2
    rw [DBEntry.slice, hkey] at hle
    exact hle.not_gt (List.Lex.rel (by decide))
  rw [eraseStakeIndex, hnil, eraseBatch, KeyedSet.mem_filter]
  simp

/-! ### Writes -/

theorem eq_stakeIndex_of_head {key : DBKey} (h : key.serialize.head? = some DB_STAKEINDEX) :
    ∃ height, key = .stakeIndex height := by
  cases key with
  | stakeIndex height => exact ⟨height, rfl⟩
  | blockFiles => exact absurd (Option.some.inj h) (by decide)
  | txIndex => exact absurd (Option.some.inj h) (by decide)
  | blockIndex => exact absurd (Option.some.inj h) (by decide)
  | heightIndex => exact absurd (Option.some.inj h) (by decide)
  | flag => exact absurd (Option.some.inj h) (by decide)
  | reindexFlag => exact absurd (Option.some.inj h) (by decide)
  | lastBlock => exact absurd (Option.some.inj h) (by decide)

theorem eq_of_serialize_eq {key other : DBKey} {height : BitVec 32}
    (hkey : key.height? = some height) (h : other.serialize = key.serialize) :
    other = key := by
  cases key with
  | heightIndex key =>
    have hget : getKey ⟨other, .hashes []⟩ = some (DB_HEIGHTINDEX, key) := by
      rw [getKey, h]
      exact getKey_heightIndex key (.hashes [])
    exact key_of_getKey hget
  | stakeIndex key =>
    have hhead : other.serialize.head? = some DB_STAKEINDEX := by rw [h]; rfl
    obtain ⟨height', rfl⟩ := eq_stakeIndex_of_head hhead
    have hread := reads_bitVec rfl height' []
    rw [List.tail_eq_of_cons_eq h, reads_bitVec rfl key []] at hread
    cases hread
    rfl
  | blockFiles | txIndex | blockIndex | flag | reindexFlag | lastBlock => cases hkey

def Has (db : CBlockTreeDB) (key : DBKey) : Prop := ∃ e ∈ db, e.key = key

theorem mem_write_of_ne {db : CBlockTreeDB} {key : DBKey} {value : DBValue} {e : DBEntry}
    {height : BitVec 32} (he : e.key.height? = some height) (hne : key ≠ e.key) :
    e ∈ db.write key value ↔ e ∈ db := by
  have hslice : e.slice ≠ DBEntry.slice ⟨key, value⟩ :=
    fun h => hne (eq_of_serialize_eq he (slice_injective h).symm)
  rw [write, KeyedSet.mem_replace, and_iff_left hslice]
  refine or_iff_right ?_
  rintro rfl
  exact hne rfl

theorem has_write {db : CBlockTreeDB} {key written : DBKey} {value : DBValue} {height : BitVec 32}
    (hkey : key.height? = some height) :
    (db.write written value).Has key ↔ written = key ∨ db.Has key := by
  by_cases heq : written = key
  · refine iff_of_true ⟨⟨written, value⟩, KeyedSet.mem_replace.mpr (Or.inl rfl), heq⟩ (Or.inl heq)
  · rw [or_iff_right heq]
    apply exists_congr
    intro e
    apply and_congr_left
    rintro rfl
    exact mem_write_of_ne hkey heq

section Batch

variable {β : Type} {key : β → DBKey} {value : β → DBValue} {written : List β} {db : CBlockTreeDB}
  {height : BitVec 32}

theorem mem_foldl_write {e : DBEntry} (he : e.key.height? = some height)
    (hne : ∀ b ∈ written, key b ≠ e.key) :
    e ∈ written.foldl (fun db b => db.write (key b) (value b)) db ↔ e ∈ db := by
  induction written generalizing db with
  | nil => rfl
  | cons b rest ih =>
    obtain ⟨hb, hrest⟩ := List.forall_mem_cons.mp hne
    rw [List.foldl_cons, ih hrest, mem_write_of_ne he hb]

theorem has_foldl_write {k : DBKey} (hk : k.height? = some height) :
    (written.foldl (fun db b => db.write (key b) (value b)) db).Has k ↔ k ∈ written.map key ∨
      db.Has k := by
  induction written generalizing db with
  | nil => simp
  | cons b rest ih =>
    rw [List.foldl_cons, ih, has_write hk, List.map_cons, List.mem_cons, eq_comm, or_left_comm,
      or_assoc]

end Batch

end CBlockTreeDB

/-! ### Blocks in the indexes -/

theorem mem_pushHash {key k : CHeightTxIndexKey} {hash : Uint256}
    {indexes : List (CHeightTxIndexKey × List Uint256)}
    (hheight : ∀ e ∈ indexes, e.1.height = key.height) :
    k ∈ (pushHash key hash indexes).map Prod.fst ↔ k = key ∨ k ∈ indexes.map Prod.fst := by
  induction indexes with
  | nil => simp [pushHash]
  | cons e rest ih =>
    obtain ⟨hhead, htail⟩ := List.forall_mem_cons.mp hheight
    rw [pushHash]
    split
    · rw [List.map_cons, List.mem_cons, ih htail, List.map_cons, List.mem_cons, or_left_comm]
    · split
      · rename_i haddress
        have hkey : e.1 = key := by
          cases h : e.1
          cases key
          simp_all
        rw [List.map_cons, List.map_cons, hkey, List.mem_cons, or_self_left]
      · rw [List.map_cons, List.mem_cons]

theorem mem_foldl_pushHash {nHeight : BitVec 32} {executions : List (Address × Uint256)}
    {key : CHeightTxIndexKey} {indexes : List (CHeightTxIndexKey × List Uint256)}
    (hheight : ∀ k ∈ indexes.map Prod.fst, k.height = nHeight) :
    key ∈ (executions.foldl (fun indexes e => pushHash ⟨nHeight, e.1⟩ e.2 indexes) indexes).map Prod.fst ↔
      key ∈ indexes.map Prod.fst ∨ key.height = nHeight ∧ key.address ∈ executions.map Prod.fst := by
  induction executions generalizing indexes with
  | nil => simp
  | cons e rest ih =>
    have hpush : ∀ k, k ∈ (pushHash ⟨nHeight, e.1⟩ e.2 indexes).map Prod.fst ↔
        k = ⟨nHeight, e.1⟩ ∨ k ∈ indexes.map Prod.fst :=
      fun k => mem_pushHash fun i hi => hheight i.1 (List.mem_map_of_mem hi)
    rw [List.foldl_cons, ih, hpush, List.map_cons, List.mem_cons]
    · have hkey : key = ⟨nHeight, e.1⟩ ↔ key.height = nHeight ∧ key.address = e.1 := by cases key; simp
      rw [hkey, and_or_left, or_assoc, or_left_comm]
    · intro k hk
      obtain rfl | hk := (hpush k).mp hk
      · rfl
      · exact hheight k hk

theorem IndexedBlock.mem_heightIndexes {block : IndexedBlock} {key : CHeightTxIndexKey} :
    key ∈ block.heightIndexes.map Prod.fst ↔ key.height = block.nHeight ∧
      key.address ∈ block.executions.map Prod.fst := by
  rw [heightIndexes, mem_foldl_pushHash (by simp)]
  exact or_iff_right List.not_mem_nil

namespace CBlockTreeDB

variable {db : CBlockTreeDB} {fTxIndex : Bool} {block : IndexedBlock}

theorem mem_indexed {e : DBEntry} {height : BitVec 32} (he : e.key.height? = some height) :
    (e ∈ if fTxIndex then db.writeTxIndex block.vPos else db) ↔ e ∈ db := by
  split
  · refine mem_foldl_write he ?_
    intro b _ hkey
    rw [← hkey] at he
    cases he
  · rfl

theorem mem_connectBlock_of_ne {e : DBEntry} {height : BitVec 32} (he : e.key.height? = some height)
    (hne : height ≠ block.nHeight) :
    e ∈ db.connectBlock true fTxIndex block ↔ e ∈ db := by
  rw [connectBlock, if_pos rfl, mem_indexed he, writeStakeIndex, mem_write_of_ne he]
  · refine mem_foldl_write he ?_
    intro b hb hkey
    have hb := IndexedBlock.mem_heightIndexes.mp (List.mem_map_of_mem hb)
    rw [← hkey] at he
    exact hne ((Option.some.inj he).symm.trans hb.1)
  · intro hkey
    rw [← hkey] at he
    exact hne (Option.some.inj he).symm

theorem has_connectBlock (db : CBlockTreeDB) (fTxIndex : Bool) (block : IndexedBlock)
    (address : Address) :
    (db.connectBlock true fTxIndex block).Has (.heightIndex ⟨block.nHeight, address⟩) ↔
      address ∈ block.executions.map Prod.fst ∨ db.Has (.heightIndex ⟨block.nHeight, address⟩) := by
  let indexed := block.heightIndexes.foldl (fun db e => db.writeHeightIndex e.1 e.2) db
  have htxIndex : (db.connectBlock true fTxIndex block).Has (.heightIndex ⟨block.nHeight, address⟩) ↔
      (indexed.writeStakeIndex block.nHeight 0).Has (.heightIndex ⟨block.nHeight, address⟩) := by
    apply exists_congr
    intro e
    apply and_congr_left
    intro hkey
    have he : e.key.height? = some block.nHeight := by rw [hkey]; rfl
    exact mem_indexed he
  have hstake : DBKey.stakeIndex block.nHeight ≠ .heightIndex ⟨block.nHeight, address⟩ :=
    DBKey.noConfusion
  rw [htxIndex, writeStakeIndex, has_write rfl, or_iff_right hstake]
  refine (has_foldl_write rfl).trans (or_congr ?_ Iff.rfl)
  have hmem : ⟨block.nHeight, address⟩ ∈ block.heightIndexes.map Prod.fst ↔
      address ∈ block.executions.map Prod.fst :=
    IndexedBlock.mem_heightIndexes.trans (and_iff_right rfl)
  rw [← hmem, List.mem_map, List.mem_map]
  exact exists_congr fun e => and_congr_right fun _ => DBKey.heightIndex.injEq _ _ ▸ Iff.rfl

theorem mem_stakeIndex_connectBlock :
    ⟨.stakeIndex block.nHeight, .address 0⟩ ∈ db.connectBlock true fTxIndex block := by
  rw [connectBlock, mem_indexed rfl]
  exact KeyedSet.mem_replace.mpr (Or.inl rfl)

theorem mem_disconnectBlock {pfClean : Bool} {nHeight : BitVec 32} {e : DBEntry} :
    e ∈ db.disconnectBlock true pfClean nHeight ↔
      e ∈ db ∧ (pfClean = true ∨ ∀ address, e.key ≠ .heightIndex ⟨nHeight, address⟩) := by
  rw [disconnectBlock, mem_eraseStakeIndex]
  cases pfClean with
  | true => simp
  | false => simp [mem_eraseHeightIndex]

/-- Of a block that was connected and disconnected with event logs, the height index keeps nothing, unless `DisconnectBlock` was given a pointer for its result, but the stake index keeps its entry. The entries of other heights are as before. -/
theorem cleans_indexes_iff (db : CBlockTreeDB) (fTxIndex pfClean : Bool) (block : IndexedBlock) :
    let after := (db.connectBlock true fTxIndex block).disconnectBlock true pfClean block.nHeight
    ((∀ address, ¬ after.Has (.heightIndex ⟨block.nHeight, address⟩)) ↔
        pfClean = false ∨ block.executions = [] ∧ ∀ address,
          ¬ db.Has (.heightIndex ⟨block.nHeight, address⟩)) ∧
      ⟨.stakeIndex block.nHeight, .address 0⟩ ∈ after ∧
      ∀ e height, e.key.height? = some height → height ≠ block.nHeight → (e ∈ after ↔ e ∈ db) := by
  refine ⟨?_, ?_, ?_⟩
  · cases pfClean with
    | false =>
      refine iff_of_true ?_ (Or.inl rfl)
      rintro address ⟨e, he, hkey⟩
      obtain hclean | herased := (mem_disconnectBlock.mp he).2
      · cases hclean
      · exact herased address hkey
    | true =>
      have hkept :
        ∀ address,
        ((db.connectBlock true fTxIndex block).disconnectBlock true true block.nHeight).Has
          (.heightIndex ⟨block.nHeight, address⟩) ↔
          address ∈ block.executions.map Prod.fst ∨ db.Has (.heightIndex ⟨block.nHeight, address⟩) := by
        intro address
        rw [← has_connectBlock db fTxIndex]
        exact exists_congr fun e => and_congr_left fun _ =>
          mem_disconnectBlock.trans (and_iff_left (Or.inl rfl))
      simp only [hkept, not_or, forall_and, reduceCtorEq, false_or]
      refine and_congr_left fun _ => ?_
      rw [← List.eq_nil_iff_forall_not_mem, List.map_eq_nil_iff]
  · exact mem_disconnectBlock.mpr ⟨mem_stakeIndex_connectBlock, Or.inr fun _ => DBKey.noConfusion⟩
  · intro e height he hne
    rw [mem_disconnectBlock, mem_connectBlock_of_ne he hne]
    refine and_iff_left (Or.inr ?_)
    intro address hkey
    rw [hkey] at he
    exact hne (Option.some.inj he).symm

/-- A contract is called in a block at height five, and the block is disconnected: the null address stays recorded for the height. -/
theorem stakeIndex_remains :
    let db : CBlockTreeDB := KeyedSet.empty
    let block : IndexedBlock := ⟨5, [(0xc0ffee, Uint256.ofNat 7)], []⟩
    (db.connectBlock true false block).toList =
    [⟨.heightIndex ⟨5, 0xc0ffee⟩, .hashes [Uint256.ofNat 7]⟩, ⟨.stakeIndex 5, .address 0⟩] ∧
      ((db.connectBlock true false block).disconnectBlock true false 5).toList =
      [⟨.stakeIndex 5, .address 0⟩] := by
  decide +kernel

end CBlockTreeDB

end TscPow
