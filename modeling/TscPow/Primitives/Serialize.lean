import TscPow.Primitives.Block
import TscPow.Script.Script

/-!
# Serialized sizes

`GetSerializeSize` for transactions and blocks, with and without witness data, as the size limits of block validation use it.
-/

namespace TscPow

def getSizeOfCompactSize (nSize : Nat) : Nat :=
  if nSize < 253 then 1 else if nSize ≤ 0xffff then 3 else if nSize ≤ 0xffffffff then 5 else 9

def sizeOfBytes (bytes : List Byte) : Nat := getSizeOfCompactSize bytes.length + bytes.length

namespace Tx

/-- The size under `SERIALIZE_TRANSACTION_NO_WITNESS`. -/
def strippedSize (tx : Tx) : Nat :=
  4 + getSizeOfCompactSize tx.vin.length + (tx.vin.map fun i => 36 + sizeOfBytes i.scriptSig + 4).sum +
    getSizeOfCompactSize tx.vout.length + (tx.vout.map fun o => 8 + sizeOfBytes o.scriptPubKey).sum + 4

def totalSize (tx : Tx) : Nat :=
  if tx.hasWitness then
    tx.strippedSize + 2 +
      (tx.vin.map fun i =>
        getSizeOfCompactSize i.scriptWitness.length + (i.scriptWitness.map sizeOfBytes).sum).sum
  else tx.strippedSize

end Tx

namespace Block

def headerSize (b : Block) : Nat :=
  4 + 32 + 32 + 4 + 4 + 32 + 32 + 4 + 8 + 8 + sizeOfBytes b.sig1 + sizeOfBytes b.sig2 +
    sizeOfBytes b.sig3 +
    sizeOfBytes b.sig4 + sizeOfBytes b.sig5

def strippedSize (b : Block) : Nat :=
  b.headerSize + getSizeOfCompactSize b.vtx.length + (b.vtx.map Tx.strippedSize).sum

def totalSize (b : Block) : Nat :=
  b.headerSize + getSizeOfCompactSize b.vtx.length + (b.vtx.map Tx.totalSize).sum

def weight (b : Block) : Nat := b.strippedSize * 3 + b.totalSize

end Block

theorem length_vout_le_strippedSize (tx : Tx) : tx.vout.length ≤ tx.strippedSize := by
  have hsum : tx.vout.length ≤ (tx.vout.map fun o => 8 + sizeOfBytes o.scriptPubKey).sum := by
    have hle := List.card_nsmul_le_sum (tx.vout.map fun o => 8 + sizeOfBytes o.scriptPubKey) 1 (by
      intro size hsize
      obtain ⟨o, -, rfl⟩ := List.mem_map.mp hsize
      omega)
    simpa using hle
  rw [Tx.strippedSize]
  omega

end TscPow
