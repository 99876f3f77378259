import TscPow.Base.Fault
import TscPow.Chain.BlockIndex
import TscPow.Consensus.Params
import TscPow.Pow.Compact

/-!
# Difficulty adjustment and proof of work

`pow.cpp`: the target a block has to meet, how it is recomputed once per adjustment interval, and the check of a hash against it.
-/

namespace TscPow

open BaseUint

/-- The two adjustments of `nActualTimeSpacing`: "limit adjustment step". -/
def limitAdjustmentStep (nTargetTimeSpacing nActualTimeSpacing : Int) : Int :=
  let raised := if nActualTimeSpacing < nTargetTimeSpacing.tdiv 4 then nTargetTimeSpacing.tdiv 4
    else nActualTimeSpacing
  if raised > nTargetTimeSpacing * 4 then nTargetTimeSpacing * 4 else raised

def calculateNextWorkRequired (pindexLast : BlockIndex) (nFirstBlockTime : Int) (params : Params) :
    Except Fault (BitVec 32) :=
  if params.fPowNoRetargeting then .ok pindexLast.header.nBits
  else
    let nTargetTimeSpacing := params.nPowTargetTimespan
    let nActualTimeSpacing :=
      limitAdjustmentStep nTargetTimeSpacing (pindexLast.getBlockTime - nFirstBlockTime)
    let bnTargetLimit := uintToArith256 params.powLimit
    -- `*=` takes the spacing as a `uint32_t`, `/=` as a `uint64_t`
    let product := (setCompact pindexLast.header.nBits).target.mulU32 (BitVec.ofInt 32 nActualTimeSpacing)
    match product.div (ofUInt64 (BitVec.ofInt 64 nTargetTimeSpacing)) with
    | none => .error (.exception "Division by zero")
    | some bnNew =>
      .ok ((if bnNew ≤ ofUInt64 0 ∨ bnTargetLimit < bnNew then bnTargetLimit else bnNew).getCompact false)

/-- The loop of `GetNextWorkRequired` that looks for "the last non-special-min-difficulty-rules-block". -/
def lastRegularBits (interval : Int) (nTargetLimit : BitVec 32) : BlockHeader → List BlockHeader →
    BitVec 32
  | header, [] => header.nBits
  | header, parent :: ancestors =>
    if ((ancestors.length + 1 : Nat) : Int).tmod interval ≠ 0 ∧ header.nBits = nTargetLimit then
      lastRegularBits interval nTargetLimit parent ancestors
    else header.nBits

def getNextWorkRequired (pindexLast : BlockIndex) (pblock : BlockHeader) (params : Params) :
    Except Fault (BitVec 32) :=
  let nTargetLimit := (uintToArith256 params.powLimit).getCompact false
  let interval := params.difficultyAdjustmentInterval
  if ((pindexLast.nHeight : Int) + 1).tmod interval ≠ 0 then
    if params.fPowAllowMinDifficultyBlocks then
      if pblock.getBlockTime > pindexLast.getBlockTime + params.nPowTargetSpacing * 2 then
        .ok nTargetLimit
      else .ok (lastRegularBits interval nTargetLimit pindexLast.header pindexLast.ancestors)
    else .ok pindexLast.header.nBits
  else
    let nChangeFirst := (pindexLast.nHeight : Int) - (interval - 1)
    match pindexLast.getAncestor nChangeFirst with
    | none => .error .assertion
    | some pindexFirst => calculateNextWorkRequired pindexLast pindexFirst.getBlockTime params

/-- The range check of `CheckProofOfWork`. -/
def checkTargetRange (nBits : BitVec 32) (params : Params) : Bool :=
  let decoded := setCompact nBits
  !(decoded.fNegative || decoded.target.equalTo 0 || decoded.fOverflow ||
    decide (uintToArith256 params.powLimit < decoded.target))

def checkProofOfWork (hash : Uint256) (nBits : BitVec 32) (params : Params) : Bool :=
  checkTargetRange nBits params && !decide ((setCompact nBits).target < uintToArith256 hash)

end TscPow
