import TscPow.Base.Reader
import TscPow.Primitives.Serialize

/-!
# Byte streams

`Serialize` and `Unserialize` of transactions, headers and blocks (`serialize.h`, `primitives/transaction.h`, `primitives/block.h`), as they are used for files: with witness data, and with the nonces and the five signatures of a header. What is written is read back, provided the numbers fit their types, no length exceeds `MAX_SIZE` and, for a transaction, there is an input: without inputs, the number of outputs would be taken for the flags of the extended format.
-/

namespace TscPow

open Reader

def MAX_SIZE : Nat := 0x10000000

/-! ### Numbers -/

def writeUInt (width n : Nat) : List Byte := Limbs.ofNat width n

def readUInt (width : Nat) : Reader Byte Nat := do
  let bytes ← Reader.take width
  return Limbs.value bytes

def writeInt (width : Nat) (z : Int) : List Byte := writeUInt width (z % 2 ^ (8 * width)).toNat

def readInt (width : Nat) : Reader Byte Int := do
  let n ← readUInt width
  return Int.bmod n (2 ^ (8 * width))

def FitsInt (width : Nat) (z : Int) : Prop := -2 ^ (8 * width - 1) ≤ z ∧ z < 2 ^ (8 * width - 1)

instance (width : Nat) (z : Int) : Decidable (FitsInt width z) := inferInstanceAs (Decidable (_ ∧ _))

def writeBitVec {w : Nat} (b : BitVec w) : List Byte := writeUInt (w / 8) b.toNat

def readBitVec (w : Nat) : Reader Byte (BitVec w) := do
  let n ← readUInt (w / 8)
  return BitVec.ofNat w n

def writeCompactSize (nSize : Nat) : List Byte :=
  if nSize < 253 then writeUInt 1 nSize
  else if nSize ≤ 0xffff then writeUInt 1 253 ++ writeUInt 2 nSize
  else if nSize ≤ 0xffffffff then writeUInt 1 254 ++ writeUInt 4 nSize
  else writeUInt 1 255 ++ writeUInt 8 nSize

/-- The number after the first byte of a compact size, which has to be too large for a shorter form. -/
def readWideSize (width least : Nat) : Reader Byte Nat := do
  let nSizeRet ← readUInt width
  if nSizeRet < least then failure else return nSizeRet

def readSizeAfter (chSize : Nat) : Reader Byte Nat :=
  if chSize < 253 then pure chSize
  else if chSize = 253 then readWideSize 2 253
  else if chSize = 254 then readWideSize 4 0x10000
  else readWideSize 8 0x100000000

def readCompactSize : Reader Byte Nat := do
  let chSize ← readUInt 1
  let nSizeRet ← readSizeAfter chSize
  if nSizeRet > MAX_SIZE then failure else return nSizeRet

/-! ### Byte strings and vectors -/

def writeBytes (bytes : List Byte) : List Byte := writeCompactSize bytes.length ++ bytes

def readBytes : Reader Byte (List Byte) := do
  let nSize ← readCompactSize
  Reader.take nSize

def writeVector {α : Type} (write : α → List Byte) (v : List α) : List Byte :=
  writeCompactSize v.length ++ v.flatMap write

def readVector {α : Type} (r : Reader Byte α) : Reader Byte (List α) := do
  let nSize ← readCompactSize
  Reader.replicate r nSize

def readUint256 : Reader Byte Uint256 := do
  let data ← Reader.take 32
  if h : data.length = 32 then return ⟨data, h⟩ else failure

/-! ### Transactions -/

namespace OutPoint

def serialize (o : OutPoint) : List Byte := o.hash.data ++ writeBitVec o.n

def unserialize : Reader Byte OutPoint := do
  let hash ← readUint256
  let n ← readBitVec 32
  return ⟨hash, n⟩

end OutPoint

namespace TxIn

/-- The witness is not part of an input in the stream. -/
def serialize (i : TxIn) : List Byte :=
  i.prevout.serialize ++ (writeBytes i.scriptSig ++ writeBitVec i.nSequence)

def unserialize : Reader Byte TxIn := do
  let prevout ← OutPoint.unserialize
  let scriptSig ← readBytes
  let nSequence ← readBitVec 32
  return ⟨prevout, scriptSig, nSequence, []⟩

def withoutWitness (i : TxIn) : TxIn := { i with scriptWitness := [] }

end TxIn

namespace TxOut

def serialize (o : TxOut) : List Byte := writeInt 8 o.nValue ++ writeBytes o.scriptPubKey

def unserialize : Reader Byte TxOut := do
  let nValue ← readInt 8
  let scriptPubKey ← readBytes
  return ⟨nValue, scriptPubKey⟩

end TxOut

namespace Tx

/-- `SerializeTransaction`, with witness data. -/
def serialize (tx : Tx) : List Byte :=
  writeInt 4 tx.nVersion ++
    ((if tx.hasWitness then
        writeVector TxIn.serialize [] ++
          (writeUInt 1 1 ++
            (writeVector TxIn.serialize tx.vin ++ (writeVector TxOut.serialize tx.vout ++
          tx.vin.flatMap fun i => writeVector writeBytes i.scriptWitness)))
      else writeVector TxIn.serialize tx.vin ++ writeVector TxOut.serialize tx.vout) ++
      writeBitVec tx.nLockTime)

/-- The inputs and the outputs with the flags before them, if there are any. -/
def unserializeParts : Reader Byte (Nat × List TxIn × List TxOut) := do
  let vin ← readVector TxIn.unserialize
  -- an empty vector is a dummy for the extended format
  if vin = [] then
    let flags ← readUInt 1
    if flags ≠ 0 then
      let vin ← readVector TxIn.unserialize
      let vout ← readVector TxOut.unserialize
      return (flags, vin, vout)
    else return (0, [], [])
  else
    let vout ← readVector TxOut.unserialize
    return (0, vin, vout)

def unserializeWitness (i : TxIn) : Reader Byte TxIn := do
  let stack ← readVector readBytes
  return { i with scriptWitness := stack }

/-- The witnesses, if the first flag is set; no other flag is known. -/
def unserializeFlagged (flags : Nat) (vin : List TxIn) : Reader Byte (List TxIn) :=
  if flags = 1 then vin.mapM unserializeWitness else if flags = 0 then pure vin else failure

/-- `UnserializeTransaction`, with witness data. -/
def unserialize : Reader Byte Tx := do
  let nVersion ← readInt 4
  let (flags, vin, vout) ← unserializeParts
  let vin ← unserializeFlagged flags vin
  let nLockTime ← readBitVec 32
  return ⟨nVersion, vin, vout, nLockTime⟩

end Tx

/-! ### Blocks -/

namespace BlockHeader

def serialize (h : BlockHeader) : List Byte :=
  writeInt 4 h.nVersion ++
    (h.hashPrevBlock.data ++
      (h.hashMerkleRoot.data ++ (writeBitVec h.nTime ++ (writeBitVec h.nBits ++
    (h.hashStateRoot.data ++
      (h.hashUTXORoot.data ++
        (writeBitVec h.seed ++ (writeBitVec h.nNonce ++ (writeBitVec h.nNonce_ex ++
      (writeBytes h.sig1 ++
        (writeBytes h.sig2 ++
          (writeBytes h.sig3 ++ (writeBytes h.sig4 ++ writeBytes h.sig5)))))))))))))

def unserialize : Reader Byte BlockHeader := do
  let nVersion ← readInt 4
  let hashPrevBlock ← readUint256
  let hashMerkleRoot ← readUint256
  let nTime ← readBitVec 32
  let nBits ← readBitVec 32
  let hashStateRoot ← readUint256
  let hashUTXORoot ← readUint256
  let seed ← readBitVec 32
  let nNonce ← readBitVec 64
  let nNonce_ex ← readBitVec 64
  let sig1 ← readBytes
  let sig2 ← readBytes
  let sig3 ← readBytes
  let sig4 ← readBytes
  let sig5 ← readBytes
  return ⟨nVersion, hashPrevBlock, hashMerkleRoot, nTime, nBits, hashStateRoot, hashUTXORoot, seed,
    nNonce, nNonce_ex,
    sig1, sig2, sig3, sig4, sig5⟩

end BlockHeader

def Block.serialize (b : Block) : List Byte := b.toBlockHeader.serialize ++ writeVector Tx.serialize b.vtx

def Block.unserialize : Reader Byte Block := do
  let header ← BlockHeader.unserialize
  let vtx ← readVector Tx.unserialize
  return { toBlockHeader := header, vtx }

/-! ### Reading numbers back -/

theorem length_writeUInt (width n : Nat) : (writeUInt width n).length = width := by
  simp [writeUInt, Limbs.ofNat]

theorem reads_uint {width n : Nat} (hn : n < 2 ^ (8 * width)) :
    Reads (readUInt width) (writeUInt width n) n := by
  have htake := Reads.take (writeUInt width n)
  rw [length_writeUInt] at htake
  have hvalue : Limbs.value (writeUInt width n) = n := by
    rw [writeUInt, Limbs.value_ofNat, Nat.mod_eq_of_lt hn]
  have hmap := htake.map Limbs.value
  rwa [hvalue] at hmap

theorem reads_int {width : Nat} {z : Int} (hwidth : 0 < width) (hz : FitsInt width z) :
    Reads (readInt width) (writeInt width z) z := by
  have hpow : (2 : Int) ^ (8 * width) = 2 * 2 ^ (8 * width - 1) := by
    rw [← pow_succ']
    congr 1
    omega
  have hpos : (0 : Int) < 2 ^ (8 * width) := by positivity
  have hmod := Int.emod_nonneg z hpos.ne'
  have hlt : (z % 2 ^ (8 * width)).toNat < 2 ^ (8 * width) := by
    have := Int.emod_lt_of_pos z hpos
    zify
    rwa [Int.toNat_of_nonneg hmod]
  have hvalue : Int.bmod ((z % 2 ^ (8 * width)).toNat : Int) (2 ^ (8 * width)) = z := by
    rw [Int.toNat_of_nonneg hmod]
    have hcast : (2 : Int) ^ (8 * width) = ((2 ^ (8 * width) : Nat) : Int) := by push_cast; rfl
    rw [hcast, Int.emod_bmod]
    apply Int.bmod_eq_of_le
    · rw [← hcast]
      have := hz.1
      omega
    · rw [← hcast]
      have := hz.2
      omega
  have hmap := (reads_uint hlt).map fun n : Nat => Int.bmod n (2 ^ (8 * width))
  rwa [hvalue] at hmap

theorem reads_bitVec {w : Nat} (hw : 8 * (w / 8) = w) (b : BitVec w) :
    Reads (readBitVec w) (writeBitVec b) b := by
  have hlt : b.toNat < 2 ^ (8 * (w / 8)) := by
    rw [hw]
    exact b.isLt
  have hmap := (reads_uint hlt).map (BitVec.ofNat w)
  rwa [BitVec.ofNat_toNat, BitVec.setWidth_eq] at hmap

theorem reads_wideSize {width least nSize : Nat} (hleast : least ≤ nSize)
    (hwidth : nSize < 2 ^ (8 * width)) :
    Reads (readWideSize width least) (writeUInt width nSize) nSize := by
  rw [← List.append_nil (writeUInt width nSize)]
  refine (reads_uint hwidth).bind ?_
  rw [if_neg (by omega)]
  exact Reads.pure nSize

theorem reads_compactSize_of_after {chSize nSize : Nat} {wide : List Byte} (hch : chSize < 256)
    (hmax : nSize ≤ MAX_SIZE) (hafter : Reads (readSizeAfter chSize) wide nSize) :
    Reads readCompactSize (writeUInt 1 chSize ++ wide) nSize := by
  refine (reads_uint hch).bind ?_
  rw [← List.append_nil wide]
  refine hafter.bind ?_
  rw [if_neg (by omega)]
  exact Reads.pure nSize

theorem reads_compactSize {nSize : Nat} (hmax : nSize ≤ MAX_SIZE) :
    Reads readCompactSize (writeCompactSize nSize) nSize := by
  have hfits : nSize ≤ 0xffffffff := hmax.trans (by decide)
  rw [writeCompactSize]
  split
  · rename_i hsmall
    rw [← List.append_nil (writeUInt 1 nSize)]
    refine reads_compactSize_of_after (by omega) hmax ?_
    rw [readSizeAfter, if_pos hsmall]
    exact Reads.pure nSize
  · rename_i hsmall
    split
    · exact reads_compactSize_of_after (by decide) hmax (reads_wideSize (by omega) (by omega))
    · exact reads_compactSize_of_after (by decide) hmax (reads_wideSize (by omega) (by omega))

/-! ### Reading vectors back -/

theorem reads_bytes {bytes : List Byte} (hmax : bytes.length ≤ MAX_SIZE) :
    Reads readBytes (writeBytes bytes) bytes :=
  (reads_compactSize hmax).bind (Reads.take bytes)

theorem reads_vector {α γ : Type} {r : Reader Byte α} {write : γ → List Byte} {value : γ → α}
    {v : List γ} (hmax : v.length ≤ MAX_SIZE) (h : ∀ c ∈ v, Reads r (write c) (value c)) :
    Reads (readVector r) (writeVector write v) (v.map value) :=
  (reads_compactSize hmax).bind (Reads.replicate h)

theorem reads_vector_self {α : Type} {r : Reader Byte α} {write : α → List Byte} {v : List α}
    (hmax : v.length ≤ MAX_SIZE) (h : ∀ a ∈ v, Reads r (write a) a) :
    Reads (readVector r) (writeVector write v) v := by
  have hvector := reads_vector hmax h
  rwa [List.map_id'] at hvector

theorem reads_uint256 (u : Uint256) : Reads readUint256 u.data u := by
  have htake := Reads.take u.data
  rw [u.length_data] at htake
  rw [← List.append_nil u.data]
  refine htake.bind ?_
  rw [dif_pos u.length_data]
  exact Reads.pure u

/-! ### Reading transactions back -/

/-- The numbers fit their types, and the lengths are within `MAX_SIZE`. -/
structure TxIn.Fits (i : TxIn) : Prop where
  scriptSig : i.scriptSig.length ≤ MAX_SIZE
  stack : i.scriptWitness.length ≤ MAX_SIZE
  items : ∀ item ∈ i.scriptWitness, item.length ≤ MAX_SIZE

structure TxOut.Fits (o : TxOut) : Prop where
  nValue : FitsInt 8 o.nValue
  scriptPubKey : o.scriptPubKey.length ≤ MAX_SIZE

structure Tx.Fits (tx : Tx) : Prop where
  nVersion : FitsInt 4 tx.nVersion
  vin : tx.vin.length ≤ MAX_SIZE
  vout : tx.vout.length ≤ MAX_SIZE
  inputs : ∀ i ∈ tx.vin, i.Fits
  outputs : ∀ o ∈ tx.vout, o.Fits

structure BlockHeader.Fits (h : BlockHeader) : Prop where
  nVersion : FitsInt 4 h.nVersion
  sig1 : h.sig1.length ≤ MAX_SIZE
  sig2 : h.sig2.length ≤ MAX_SIZE
  sig3 : h.sig3.length ≤ MAX_SIZE
  sig4 : h.sig4.length ≤ MAX_SIZE
  sig5 : h.sig5.length ≤ MAX_SIZE

theorem reads_outPoint (o : OutPoint) : Reads OutPoint.unserialize o.serialize o :=
  (reads_uint256 o.hash).bind ((reads_bitVec (by decide) o.n).map _)

theorem reads_txIn {i : TxIn} (h : i.Fits) : Reads TxIn.unserialize i.serialize i.withoutWitness :=
  (reads_outPoint i.prevout).bind
    ((reads_bytes h.scriptSig).bind ((reads_bitVec (by decide) i.nSequence).map _))

theorem reads_txOut {o : TxOut} (h : o.Fits) : Reads TxOut.unserialize o.serialize o :=
  (reads_int (by decide) h.nValue).bind ((reads_bytes h.scriptPubKey).map _)

theorem reads_witness {i : TxIn} (h : i.Fits) :
    Reads (Tx.unserializeWitness i.withoutWitness) (writeVector writeBytes i.scriptWitness) i :=
  (reads_vector_self h.stack fun item hitem => reads_bytes (h.items item hitem)).map _

theorem reads_vin {tx : Tx} (h : tx.Fits) :
    Reads (readVector TxIn.unserialize) (writeVector TxIn.serialize tx.vin)
      (tx.vin.map TxIn.withoutWitness) :=
  reads_vector h.vin fun i hi => reads_txIn (h.inputs i hi)

theorem reads_vout {tx : Tx} (h : tx.Fits) :
    Reads (readVector TxOut.unserialize) (writeVector TxOut.serialize tx.vout) tx.vout :=
  reads_vector_self h.vout fun o ho => reads_txOut (h.outputs o ho)

theorem map_withoutWitness {tx : Tx} (h : tx.hasWitness = false) :
    tx.vin.map TxIn.withoutWitness = tx.vin := by
  rw [Tx.hasWitness, List.any_eq_false] at h
  conv_rhs => rw [← List.map_id tx.vin]
  apply List.map_congr_left
  intro i hi
  have hempty : i.scriptWitness = [] := by simpa using h i hi
  rw [TxIn.withoutWitness, ← hempty]
  rfl

theorem reads_parts_plain {tx : Tx} (h : tx.Fits) (hvin : tx.vin ≠ []) :
    Reads Tx.unserializeParts (writeVector TxIn.serialize tx.vin ++ writeVector TxOut.serialize tx.vout)
      (0, tx.vin.map TxIn.withoutWitness, tx.vout) := by
  refine (reads_vin h).bind ?_
  rw [if_neg (by simpa using hvin)]
  exact (reads_vout h).map _

theorem reads_parts_extended {tx : Tx} (h : tx.Fits) :
    Reads Tx.unserializeParts
      (writeVector TxIn.serialize [] ++
        (writeUInt 1 1 ++
          (writeVector TxIn.serialize tx.vin ++ writeVector TxOut.serialize tx.vout)))
      (1, tx.vin.map TxIn.withoutWitness, tx.vout) := by
  have hdummy : Reads (readVector TxIn.unserialize) (writeVector TxIn.serialize []) [] :=
    reads_vector_self (by decide) (by simp)
  refine hdummy.bind ?_
  rw [if_pos rfl]
  refine (reads_uint (by decide)).bind ?_
  rw [if_pos (by decide)]
  exact (reads_vin h).bind ((reads_vout h).map _)

theorem reads_tx {tx : Tx} (h : tx.Fits) (hvin : tx.vin ≠ []) : Reads Tx.unserialize tx.serialize tx := by
  refine (reads_int (by decide) h.nVersion).bind ?_
  cases hwitness : tx.hasWitness with
  | false =>
    have hflagged : Reads (Tx.unserializeFlagged 0 (tx.vin.map TxIn.withoutWitness)) [] tx.vin := by
      rw [map_withoutWitness hwitness]
      exact Reads.pure tx.vin
    rw [if_neg Bool.false_ne_true, ← List.nil_append (writeBitVec tx.nLockTime)]
    exact (reads_parts_plain h hvin).bind (hflagged.bind ((reads_bitVec (by decide) tx.nLockTime).map _))
  | true =>
    have hflagged :
        Reads (Tx.unserializeFlagged 1 (tx.vin.map TxIn.withoutWitness))
          (tx.vin.flatMap fun i => writeVector writeBytes i.scriptWitness) tx.vin := by
      have hall : ∀ i ∈ tx.vin,
          Reads (Tx.unserializeWitness i.withoutWitness) (writeVector writeBytes i.scriptWitness)
            i :=
        fun i hi => reads_witness (h.inputs i hi)
      have hmapM := Reads.mapM hall
      rw [List.map_id'] at hmapM
      rw [Tx.unserializeFlagged, if_pos rfl, List.mapM_map]
      exact hmapM
    have hsplit :
      writeVector TxIn.serialize [] ++
        (writeUInt 1 1 ++
          (writeVector TxIn.serialize tx.vin ++ (writeVector TxOut.serialize tx.vout ++
          tx.vin.flatMap fun i => writeVector writeBytes i.scriptWitness))) ++ writeBitVec tx.nLockTime =
        writeVector TxIn.serialize [] ++
          (writeUInt 1 1 ++
            (writeVector TxIn.serialize tx.vin ++ writeVector TxOut.serialize tx.vout)) ++
          ((tx.vin.flatMap fun i => writeVector writeBytes i.scriptWitness) ++
            writeBitVec tx.nLockTime) := by
      simp only [List.append_assoc]
    rw [if_pos rfl, hsplit]
    exact (reads_parts_extended h).bind (hflagged.bind ((reads_bitVec (by decide) tx.nLockTime).map _))

theorem reads_header {header : BlockHeader} (h : header.Fits) :
    Reads BlockHeader.unserialize header.serialize header := by
  refine (reads_int (by decide) h.nVersion).bind ?_
  refine (reads_uint256 _).bind ((reads_uint256 _).bind ?_)
  refine (reads_bitVec (by decide) _).bind ((reads_bitVec (by decide) _).bind ?_)
  refine (reads_uint256 _).bind ((reads_uint256 _).bind ?_)
  refine (reads_bitVec (by decide) _).bind
    ((reads_bitVec (by decide) _).bind ((reads_bitVec (by decide) _).bind ?_))
  exact (reads_bytes h.sig1).bind
    ((reads_bytes h.sig2).bind ((reads_bytes h.sig3).bind ((reads_bytes h.sig4).bind
    ((reads_bytes h.sig5).map _))))

structure Block.Fits (b : Block) : Prop where
  header : b.toBlockHeader.Fits
  vtx : b.vtx.length ≤ MAX_SIZE
  transactions : ∀ tx ∈ b.vtx, tx.Fits ∧ tx.vin ≠ []

theorem reads_block {b : Block} (h : b.Fits) : Reads Block.unserialize b.serialize b :=
  (reads_header h.header).bind
    ((reads_vector_self h.vtx fun tx htx =>
      reads_tx (h.transactions tx htx).1 (h.transactions tx htx).2).map _)

/-! ### Without witnesses -/

/-- What the id of a transaction covers: everything but the witnesses. -/
def Tx.withoutWitness (tx : Tx) : Tx :=
  { tx with vin := tx.vin.map fun i => { i with scriptWitness := [] } }

namespace Tx

/-- `SerializeTransaction` with `SERIALIZE_TRANSACTION_NO_WITNESS`, of which the hash is the id. -/
def serializeNoWitness (tx : Tx) : List Byte :=
  writeInt 4 tx.nVersion ++
    (writeVector TxIn.serialize tx.vin ++
      (writeVector TxOut.serialize tx.vout ++ writeBitVec tx.nLockTime))

/-- `UnserializeTransaction` with `SERIALIZE_TRANSACTION_NO_WITNESS`. -/
def unserializeNoWitness : Reader Byte Tx := do
  let nVersion ← readInt 4
  let vin ← readVector TxIn.unserialize
  let vout ← readVector TxOut.unserialize
  let nLockTime ← readBitVec 32
  return ⟨nVersion, vin, vout, nLockTime⟩

end Tx

theorem reads_txNoWitness {tx : Tx} (h : tx.Fits) :
    Reads Tx.unserializeNoWitness tx.serializeNoWitness tx.withoutWitness :=
  (reads_int (by decide) h.nVersion).bind
    ((reads_vin h).bind ((reads_vout h).bind ((reads_bitVec (by decide) tx.nLockTime).map _)))

theorem serializeNoWitness_withoutWitness (tx : Tx) :
    tx.withoutWitness.serializeNoWitness = tx.serializeNoWitness := by
  have hvin : writeVector TxIn.serialize tx.withoutWitness.vin = writeVector TxIn.serialize tx.vin := by
    rw [Tx.withoutWitness, writeVector, List.length_map, List.flatMap_map]
    rfl
  rw [Tx.serializeNoWitness, hvin]
  rfl

/-- What was written is read back. Without the witnesses, the bytes are a function of the rest of the transaction, and two transactions that differ in the rest have different bytes. -/
theorem serialize_survives :
    (∀ tx : Tx, tx.Fits → tx.vin ≠ [] → Reads Tx.unserialize tx.serialize tx) ∧
    ∀ tx tx' : Tx, tx.Fits → tx'.Fits →
      (tx.serializeNoWitness = tx'.serializeNoWitness ↔
        tx.withoutWitness = tx'.withoutWitness) := by
  refine ⟨fun tx h hvin => reads_tx h hvin, ?_⟩
  intro tx tx' h h'
  constructor
  · intro heq
    have hread := reads_txNoWitness h
    rw [heq] at hread
    exact hread.unique (reads_txNoWitness h')
  · intro heq
    rw [← serializeNoWitness_withoutWitness tx, heq, serializeNoWitness_withoutWitness]

def witnessTx (nLockTime : BitVec 32) : Tx where
  nVersion := 2
  vin := [⟨⟨Uint256.ofNat 7, 0⟩, [0x51], SEQUENCE_FINAL, [[1, 2, 3], []]⟩]
  vout := [⟨50, [0x51]⟩]
  nLockTime := nLockTime

theorem fits_witnessTx (nLockTime : BitVec 32) : (witnessTx nLockTime).Fits where
  nVersion := by change FitsInt 4 2; decide
  vin := by change 1 ≤ MAX_SIZE; decide
  vout := by change 1 ≤ MAX_SIZE; decide
  inputs := List.forall_mem_singleton.mpr ⟨by decide, by decide, by decide⟩
  outputs := List.forall_mem_singleton.mpr ⟨by decide, by decide⟩

theorem serialize_survives_witnessTx : Reads Tx.unserialize (witnessTx 3).serialize (witnessTx 3) ∧
    (witnessTx 3).serializeNoWitness ≠ (witnessTx 4).serializeNoWitness := by
  refine ⟨serialize_survives.1 _ (fits_witnessTx 3) (List.cons_ne_nil _ _), fun heq => ?_⟩
  have := (serialize_survives.2 _ _ (fits_witnessTx 3) (fits_witnessTx 4)).mp heq
  exact absurd (congrArg Tx.nLockTime this) (by decide)

/-! ### What was accepted -/

theorem eq_of_readUInt {width n : Nat} {input rest : List Byte}
    (h : (readUInt width).run input = some (n, rest)) :
    n < 2 ^ (8 * width) ∧ input = writeUInt width n ++ rest := by
  obtain ⟨bytes, mid, hbytes, hpure⟩ := run_bind_eq_some.mp h
  cases hpure
  obtain ⟨rfl, hinput⟩ := eq_append_of_take hbytes
  refine ⟨Limbs.value_lt bytes, ?_⟩
  rw [writeUInt, Limbs.ofNat_value (by decide)]
  exact hinput

theorem eq_of_readWideSize {width least nSize : Nat} {input rest : List Byte}
    (h : (readWideSize width least).run input = some (nSize, rest)) :
    least ≤ nSize ∧ nSize < 2 ^ (8 * width) ∧ input = writeUInt width nSize ++ rest := by
  obtain ⟨n, mid, hn, hcheck⟩ := run_bind_eq_some.mp h
  obtain ⟨hlt, hinput⟩ := eq_of_readUInt hn
  split at hcheck
  · cases hcheck
  · rename_i hleast
    cases hcheck
    exact ⟨by omega, hlt, hinput⟩

theorem eq_of_readSizeAfter {chSize nSize : Nat} {input rest : List Byte} (hch : chSize < 256)
    (h : (readSizeAfter chSize).run input = some (nSize, rest)) :
    writeUInt 1 chSize ++ input = writeCompactSize nSize ++ rest := by
  rw [readSizeAfter] at h
  rw [writeCompactSize]
  split at h
  · rename_i hsmall
    cases h
    rw [if_pos hsmall]
  · rename_i hsmall
    split at h
    · rename_i h253
      obtain ⟨hleast, hlt, rfl⟩ := eq_of_readWideSize h
      rw [if_neg (by omega), if_pos (by omega), h253, List.append_assoc]
    · split at h
      · rename_i h254
        obtain ⟨hleast, hlt, rfl⟩ := eq_of_readWideSize h
        rw [if_neg (by omega), if_neg (by omega), if_pos (by omega), h254, List.append_assoc]
      · have h255 : chSize = 255 := by omega
        obtain ⟨hleast, hlt, rfl⟩ := eq_of_readWideSize h
        rw [if_neg (by omega), if_neg (by omega), if_neg (by omega), h255, List.append_assoc]

theorem eq_of_readCompactSize {nSize : Nat} {input rest : List Byte}
    (h : readCompactSize.run input = some (nSize, rest)) :
    nSize ≤ MAX_SIZE ∧ input = writeCompactSize nSize ++ rest := by
  obtain ⟨chSize, mid, hch, hmore⟩ := run_bind_eq_some.mp h
  obtain ⟨n, mid', hafter, hcheck⟩ := run_bind_eq_some.mp hmore
  obtain ⟨hlt, rfl⟩ := eq_of_readUInt hch
  split at hcheck
  · cases hcheck
  · rename_i hmax
    cases hcheck
    exact ⟨by omega, eq_of_readSizeAfter hlt hafter⟩

theorem eq_of_readUint256 {u : Uint256} {input rest : List Byte}
    (h : readUint256.run input = some (u, rest)) : input = u.data ++ rest := by
  obtain ⟨bytes, mid, hbytes, hcheck⟩ := run_bind_eq_some.mp h
  obtain ⟨hlength, hinput⟩ := eq_append_of_take hbytes
  rw [dif_pos hlength] at hcheck
  cases hcheck
  exact hinput

/-! ### Sizes -/

theorem length_writeCompactSize (nSize : Nat) :
    (writeCompactSize nSize).length = getSizeOfCompactSize nSize := by
  rw [writeCompactSize, getSizeOfCompactSize]
  split
  · rw [length_writeUInt]
  · split
    · rw [List.length_append, length_writeUInt, length_writeUInt]
    · split <;> rw [List.length_append, length_writeUInt, length_writeUInt]

theorem length_writeBytes (bytes : List Byte) : (writeBytes bytes).length = sizeOfBytes bytes := by
  rw [writeBytes, List.length_append, length_writeCompactSize, sizeOfBytes]

theorem length_writeVector {α : Type} (write : α → List Byte) (v : List α) :
    (writeVector write v).length = getSizeOfCompactSize v.length +
    (v.map fun a => (write a).length).sum := by
  rw [writeVector, List.length_append, length_writeCompactSize, List.length_flatMap]

theorem Tx.length_serialize (tx : Tx) : tx.serialize.length = tx.totalSize := by
  have hvin : (writeVector TxIn.serialize tx.vin).length =
      getSizeOfCompactSize tx.vin.length +
        (tx.vin.map fun i => 36 + sizeOfBytes i.scriptSig + 4).sum := by
    have hin : ∀ i : TxIn, i.serialize.length = 36 + sizeOfBytes i.scriptSig + 4 := by
      intro i
      simp only [TxIn.serialize, OutPoint.serialize, List.length_append, Uint256.length_data,
        writeBitVec, length_writeUInt, length_writeBytes]
      omega
    simp only [length_writeVector, hin]
  have hvout : (writeVector TxOut.serialize tx.vout).length =
      getSizeOfCompactSize tx.vout.length +
        (tx.vout.map fun o => 8 + sizeOfBytes o.scriptPubKey).sum := by
    have hout : ∀ o : TxOut, o.serialize.length = 8 + sizeOfBytes o.scriptPubKey := by
      intro o
      rw [TxOut.serialize, List.length_append, writeInt, length_writeUInt, length_writeBytes]
    simp only [length_writeVector, hout]
  have hwitness : (tx.vin.flatMap fun i => writeVector writeBytes i.scriptWitness).length =
      (tx.vin.map fun i => getSizeOfCompactSize i.scriptWitness.length +
        (i.scriptWitness.map sizeOfBytes).sum).sum := by
    have hsize : (fun bytes => (writeBytes bytes).length) = sizeOfBytes := funext length_writeBytes
    simp only [List.length_flatMap, length_writeVector, hsize]
  have hdummy : (writeVector TxIn.serialize []).length = 1 := rfl
  rw [Tx.serialize, Tx.totalSize, Tx.strippedSize]
  split
  · simp only [List.length_append, hdummy, hvin, hvout, hwitness, writeInt, writeBitVec, length_writeUInt]
    omega
  · simp only [List.length_append, hvin, hvout, writeInt, writeBitVec, length_writeUInt]
    omega

end TscPow
