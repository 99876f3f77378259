import TscPow.Primitives.Stream
import TscPow.Validation.Money

/-!
# Positions of transactions

With `-txindex`, `ConnectBlock` records where each transaction of a block is: the position of the block in its file, and an offset that starts with the size of the number of transactions and grows by the size of each. `ReadFromDisk` reads the header at the position of the block, skips the offset and reads the transaction there. Block files are shorter than `MAX_SIZE`, so every length in a block that is in one of them can be read back.
-/

namespace TscPow

open Reader

def MAX_BLOCKFILE_SIZE : Nat := 0x8000000

/-- `CDiskTxPos`: a position in a block file, and an offset after the header. -/
structure CDiskTxPos where
  nFile : Int
  nPos : BitVec 32
  nTxOffset : BitVec 32
deriving DecidableEq

/-- The positions that the loop of `ConnectBlock` records from a transaction on. -/
def recordPositions (hashing : Hashing) (pos : CDiskTxPos) : List Tx → List (Uint256 × CDiskTxPos)
  | [] => []
  | tx :: rest => (hashing.txHash tx, pos) :: recordPositions hashing { pos with
      nTxOffset := pos.nTxOffset + BitVec.ofNat 32 tx.totalSize } rest

/-- The `vPos` of `ConnectBlock` for a block at a position of a file. -/
def txPositions (hashing : Hashing) (nFile : Int) (nPos : BitVec 32) (block : Block) :
    List (Uint256 × CDiskTxPos) :=
  recordPositions hashing ⟨nFile, nPos, BitVec.ofNat 32 (getSizeOfCompactSize block.vtx.length)⟩ block.vtx

/-- `ReadFromDisk`, given the contents of the block files. -/
def readFromDisk (files : Int → List Byte) (txindex : CDiskTxPos) : Option Tx := do
  let (_, filein) ← BlockHeader.unserialize.run ((files txindex.nFile).drop txindex.nPos.toNat)
  let (tx, _) ← Tx.unserialize.run (filein.drop txindex.nTxOffset.toNat)
  return tx

/-- The block is in a block file, as `WriteBlockToDisk` writes it. -/
structure OnDisk (files : Int → List Byte) (nFile : Int) (nPos : BitVec 32) (block : Block) : Prop where
  written : ∃ rest, (files nFile).drop nPos.toNat = block.serialize ++ rest
  length_le : (files nFile).length ≤ MAX_BLOCKFILE_SIZE

/-- The integers of the block are values of their types in the source. -/
structure Block.Typed (block : Block) : Prop where
  nVersion : FitsInt 4 block.nVersion
  txVersion : ∀ tx ∈ block.vtx, FitsInt 4 tx.nVersion
  nValue : ∀ tx ∈ block.vtx, ∀ o ∈ tx.vout, FitsInt 8 o.nValue

/-! ### Lengths -/

theorem length_le_writeBytes (bytes : List Byte) : bytes.length ≤ (writeBytes bytes).length := by
  simp [writeBytes]

theorem length_write_le_flatMap {α : Type} (write : α → List Byte) {v : List α} {a : α} (ha : a ∈ v) :
    (write a).length ≤ (v.flatMap write).length := by
  have hmem : (write a).length ∈ v.map fun a => (write a).length := List.mem_map.mpr ⟨a, ha, rfl⟩
  rw [List.length_flatMap]
  exact List.single_le_sum (by simp) _ hmem

theorem length_write_le_writeVector {α : Type} {write : α → List Byte} {v : List α} {a : α} (ha : a ∈ v) :
    (write a).length ≤ (writeVector write v).length := by
  rw [writeVector, List.length_append]
  exact (length_write_le_flatMap write ha).trans (Nat.le_add_left _ _)

theorem length_le_writeVector {α : Type} {write : α → List Byte}
    (hwrite : ∀ a, 1 ≤ (write a).length) (v : List α) :
    v.length ≤ (writeVector write v).length := by
  rw [length_writeVector]
  refine (le_of_eq_of_le ?_ (List.card_nsmul_le_sum _ 1 ?_)).trans (Nat.le_add_left _ _)
  · simp
  · intro n hn
    obtain ⟨a, -, rfl⟩ := List.mem_map.mp hn
    exact hwrite a

theorem Tx.fits_of_length {tx : Tx} (hlength : tx.serialize.length ≤ MAX_SIZE)
    (hversion : FitsInt 4 tx.nVersion) (hvalue : ∀ o ∈ tx.vout, FitsInt 8 o.nValue) : tx.Fits := by
  have hparts : (writeVector TxIn.serialize tx.vin).length ≤ MAX_SIZE ∧
    (writeVector TxOut.serialize tx.vout).length ≤ MAX_SIZE ∧
      ∀ i ∈ tx.vin, (writeVector writeBytes i.scriptWitness).length ≤ MAX_SIZE := by
    cases hwitness : tx.hasWitness with
    | true =>
      rw [Tx.serialize, if_pos hwitness] at hlength
      simp only [List.length_append] at hlength
      refine ⟨by omega, by omega, fun i hi => ?_⟩
      have hflat := length_write_le_flatMap (fun i => writeVector writeBytes i.scriptWitness) hi
      omega
    | false =>
      rw [Tx.serialize, if_neg (by rw [hwitness]; exact Bool.false_ne_true)] at hlength
      simp only [List.length_append] at hlength
      refine ⟨by omega, by omega, fun i hi => ?_⟩
      rw [Tx.hasWitness, List.any_eq_false] at hwitness
      have hempty : i.scriptWitness = [] := by simpa using hwitness i hi
      rw [hempty]
      decide
  obtain ⟨hvin, hvout, hstack⟩ := hparts
  have hin : ∀ i : TxIn, i.scriptSig.length + 1 ≤ i.serialize.length := by
    intro i
    have := length_le_writeBytes i.scriptSig
    simp only [TxIn.serialize, List.length_append, writeBitVec, length_writeUInt]
    omega
  have hout : ∀ o : TxOut, o.scriptPubKey.length + 1 ≤ o.serialize.length := by
    intro o
    have := length_le_writeBytes o.scriptPubKey
    simp only [TxOut.serialize, List.length_append, writeInt, length_writeUInt]
    omega
  have hbytes : ∀ bytes : List Byte, 1 ≤ (writeBytes bytes).length := by
    intro bytes
    rw [length_writeBytes, sizeOfBytes, getSizeOfCompactSize]
    split <;> omega
  refine ⟨hversion, ?_, ?_, ?_, ?_⟩
  · exact (length_le_writeVector (fun i => (Nat.le_add_left _ _).trans (hin i)) tx.vin).trans hvin
  · exact (length_le_writeVector (fun o => (Nat.le_add_left _ _).trans (hout o)) tx.vout).trans hvout
  · intro i hi
    have hserialize : i.serialize.length ≤ MAX_SIZE := (length_write_le_writeVector hi).trans hvin
    refine ⟨by have := hin i; omega,
      (length_le_writeVector hbytes i.scriptWitness).trans (hstack i hi), fun item hitem => ?_⟩
    exact (length_le_writeBytes item).trans ((length_write_le_writeVector hitem).trans (hstack i hi))
  · intro o ho
    have hserialize : o.serialize.length ≤ MAX_SIZE := (length_write_le_writeVector ho).trans hvout
    exact ⟨hvalue o ho, by have := hout o; omega⟩

theorem BlockHeader.fits_of_length {h : BlockHeader} (hlength : h.serialize.length ≤ MAX_SIZE)
    (hversion : FitsInt 4 h.nVersion) : h.Fits := by
  have h1 := length_le_writeBytes h.sig1
  have h2 := length_le_writeBytes h.sig2
  have h3 := length_le_writeBytes h.sig3
  have h4 := length_le_writeBytes h.sig4
  have h5 := length_le_writeBytes h.sig5
  have hsum : (writeBytes h.sig1).length + (writeBytes h.sig2).length + (writeBytes h.sig3).length +
    (writeBytes h.sig4).length +
      (writeBytes h.sig5).length ≤ MAX_SIZE := by
    simp only [BlockHeader.serialize, List.length_append] at hlength
    omega
  clear hlength
  exact ⟨hversion, by omega, by omega, by omega, by omega, by omega⟩

/-! ### Positions -/

theorem getElem?_recordPositions {hashing : Hashing} {vtx : List Tx} {i : Nat} {tx : Tx}
    (hi : vtx[i]? = some tx) (pos : CDiskTxPos) :
    (recordPositions hashing pos vtx)[i]? =
      some (hashing.txHash tx,
        { pos with
          nTxOffset := pos.nTxOffset +
            BitVec.ofNat 32 ((vtx.take i).flatMap Tx.serialize).length }) := by
  induction vtx generalizing i pos with
  | nil => simp at hi
  | cons first rest ih =>
    rw [recordPositions]
    cases i with
    | zero =>
      obtain rfl : first = tx := by simpa using hi
      simp
    | succ i =>
      rw [List.getElem?_cons_succ] at hi ⊢
      rw [ih hi, List.take_succ_cons, List.flatMap_cons, List.length_append, ← Tx.length_serialize,
        BitVec.ofNat_add, BitVec.add_assoc]

theorem length_take_flatMap_le {α : Type} (write : α → List Byte) (v : List α) (i : Nat) :
    ((v.take i).flatMap write).length ≤ (v.flatMap write).length := by
  conv_rhs => rw [← List.take_append_drop i v, List.flatMap_append, List.length_append]
  exact Nat.le_add_right _ _

theorem drop_writeVector {α : Type} {write : α → List Byte} {v : List α} {i : Nat} {a : α}
    (hi : v[i]? = some a) (rest : List Byte) :
    (writeVector write v ++ rest).drop
    (getSizeOfCompactSize v.length + ((v.take i).flatMap write).length) =
      write a ++ ((v.drop (i + 1)).flatMap write ++ rest) := by
  obtain ⟨hlt, rfl⟩ := List.getElem?_eq_some_iff.mp hi
  have hsplit : v.flatMap write =
      (v.take i).flatMap write ++ (write v[i] ++ (v.drop (i + 1)).flatMap write) := by
    conv_lhs => rw [← List.take_append_drop i v, List.drop_eq_getElem_cons hlt]
    rw [List.flatMap_append, List.flatMap_cons]
  have hstream : writeVector write v ++ rest =
      writeCompactSize v.length ++ (v.take i).flatMap write ++
        (write v[i] ++ ((v.drop (i + 1)).flatMap write ++ rest)) := by
    rw [writeVector, hsplit]
    simp only [List.append_assoc]
  rw [hstream, ← length_writeCompactSize, ← List.length_append, List.drop_left]

/-- The transaction at the position that `ConnectBlock` records for it is read back from the file, witness included. -/
theorem readFromDisk_txPositions {World : Type} (env : Env) (contracts : Contracts World)
    (x : ConnectInput World) (out : ConnectOutput World) (files : Int → List Byte) (nFile : Int)
    (nPos : BitVec 32) (hconnect : connectBlock env contracts x = .ok out)
    (hgenesis : env.hashing.blockHash x.block.header ≠ env.params.hashGenesisBlock)
    (hdisk : OnDisk files nFile nPos x.block) (htyped : x.block.Typed) (i : Nat) (tx : Tx)
    (hi : x.block.vtx[i]? = some tx) :
    ∃ pos, (txPositions env.hashing nFile nPos x.block)[i]? = some (env.hashing.txHash tx, pos) ∧
      readFromDisk files pos = some tx := by
  refine ⟨_, getElem?_recordPositions hi _, ?_⟩
  obtain ⟨rest, hwritten⟩ := hdisk.written
  have htx := List.mem_of_getElem? hi
  -- the block is part of the file, and so no longer than it
  have hlength : x.block.serialize.length ≤ MAX_BLOCKFILE_SIZE := by
    have hdrop := List.length_drop (i := nPos.toNat) (l := files nFile)
    have hfile := hdisk.length_le
    rw [hwritten, List.length_append] at hdrop
    omega
  have hmax : MAX_BLOCKFILE_SIZE ≤ MAX_SIZE := by decide
  rw [Block.serialize, List.length_append] at hlength
  have hheader := reads_header (BlockHeader.fits_of_length (by omega) htyped.nVersion)
  have hserialize : tx.serialize.length ≤ (writeVector Tx.serialize x.block.vtx).length :=
    length_write_le_writeVector htx
  have hvin :=
    vin_ne_nil_of_checkTransaction
      (checkTransaction_of_checkBlock (connectBlock_steps hconnect hgenesis).1 htx)
  have hread :=
    reads_tx (Tx.fits_of_length (by omega) (htyped.txVersion tx htx) (htyped.nValue tx htx)) hvin
  have hoffset : (BitVec.ofNat 32 (getSizeOfCompactSize x.block.vtx.length) +
      BitVec.ofNat 32 ((x.block.vtx.take i).flatMap Tx.serialize).length).toNat =
        getSizeOfCompactSize x.block.vtx.length + ((x.block.vtx.take i).flatMap Tx.serialize).length := by
    have htake := length_take_flatMap_le Tx.serialize x.block.vtx i
    rw [writeVector, List.length_append, length_writeCompactSize] at hlength
    have hsmall : MAX_BLOCKFILE_SIZE < 2 ^ 32 := by decide
    rw [← BitVec.ofNat_add, BitVec.toNat_ofNat, Nat.mod_eq_of_lt (by omega)]
  rw [readFromDisk]
  dsimp only
  rw [hwritten, Block.serialize, List.append_assoc, hheader]
  change (Tx.unserialize.run ((writeVector Tx.serialize x.block.vtx ++ rest).drop _) >>= fun p =>
    pure p.1) = some tx
  rw [hoffset, drop_writeVector hi, hread]
  rfl

namespace Sample

def witnessSpend : Tx where
  nVersion := 2
  vin := [⟨⟨Uint256.ofNat 7, 0⟩, [], SEQUENCE_FINAL, [[1, 2, 3], []]⟩]
  vout := [⟨COIN, opTrue⟩]
  nLockTime := 2

def witnessBlock : ConnectInput Unit :=
  let x := connect [coinbase [⟨260000 * COIN, opTrue⟩], witnessSpend]
  { x with block := { x.block with sig5 := List.replicate 300 9 } }

def blockFile (_ : Int) : List Byte :=
  [0xf1, 0xcf, 0xa6, 0xd3, 0xa4, 0x02, 0x00, 0x00] ++ witnessBlock.block.serialize

theorem onDisk_witnessBlock : OnDisk blockFile 0 8 witnessBlock.block where
  length_le := by decide +kernel
  written := ⟨[], by simp [blockFile]⟩

theorem typed_witnessBlock : witnessBlock.block.Typed where
  nVersion := by decide +kernel
  txVersion := by decide +kernel
  nValue := by decide +kernel

theorem readFromDisk_witnessSpend : ∃ pos,
    (txPositions network.hashing 0 8 witnessBlock.block)[1]? = some
    (network.hashing.txHash witnessSpend, pos) ∧
    readFromDisk blockFile pos = some witnessSpend := by
  have hconnect : (connectBlock network noContracts witnessBlock).isOk = true := by decide +kernel
  obtain ⟨out, hout⟩ := Except.exists_of_isOk hconnect
  exact readFromDisk_txPositions network noContracts witnessBlock out blockFile 0 8 hout
    (by decide +kernel) onDisk_witnessBlock typed_witnessBlock 1 witnessSpend rfl

end Sample

end TscPow
