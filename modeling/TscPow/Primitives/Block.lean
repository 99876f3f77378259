import TscPow.Primitives.Transaction

/-!
# Blocks

`CBlockHeader` and `CBlock` (`primitives/block.h`). The five signatures are part of the header but not of the data that is hashed; hashing itself is outside the source modelled here, so whatever depends on it takes the hash functions as a parameter.
-/

namespace TscPow

/-- `CBlockHeader`. -/
structure BlockHeader where
  nVersion : Int
  hashPrevBlock : Uint256
  hashMerkleRoot : Uint256
  nTime : BitVec 32
  nBits : BitVec 32
  hashStateRoot : Uint256
  hashUTXORoot : Uint256
  seed : BitVec 32
  nNonce : BitVec 64
  nNonce_ex : BitVec 64
  sig1 : List Byte
  sig2 : List Byte
  sig3 : List Byte
  sig4 : List Byte
  sig5 : List Byte
deriving DecidableEq, Inhabited

def BlockHeader.getBlockTime (h : BlockHeader) : Int := h.nTime.toNat

/-- `IsProofOfStake`. The chain is proof of work only; the source answers `false` for every block. -/
def BlockHeader.isProofOfStake (_ : BlockHeader) : Bool := false

/-- `CBlock`, without its `fChecked` cache. -/
structure Block extends BlockHeader where
  vtx : List Tx
deriving DecidableEq

/-- The hash functions of the source: `CTransaction::GetHash`, `CBlockHeader::GetHash`, and `ComputeMerkleRoot` with its verdict whether the tree was mutated. -/
structure Hashing where
  txHash : Tx → Uint256
  blockHash : BlockHeader → Uint256
  merkleRoot : List Uint256 → Uint256 × Bool

end TscPow
