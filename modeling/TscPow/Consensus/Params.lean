import TscPow.Primitives.Uint256

/-!
# Consensus parameters

The fields of `Consensus::Params` that the modelled rules read, with the values of the main network (`chainparams.cpp`).
-/

namespace TscPow

structure Params where
  hashGenesisBlock : Uint256
  BIP34Height : Int
  BIP34Hash : Uint256
  BIP65Height : Int
  BIP66Height : Int
  powLimit : Uint256
  fPowAllowMinDifficultyBlocks : Bool
  fPowNoRetargeting : Bool
  fPoSNoRetargeting : Bool
  nPowTargetSpacing : Int
  nPowTargetTimespan : Int
  nFixUTXOCacheHFHeight : Int

def Params.difficultyAdjustmentInterval (params : Params) : Int :=
  params.nPowTargetTimespan.tdiv params.nPowTargetSpacing

/-- The main network, `CMainParams`. The source leaves `fPoSNoRetargeting` unset there; it is read as zero. -/
def mainParams : Params where
  hashGenesisBlock := Uint256.ofNat 0x000018234c5e94f9df19e2f85b6354c0b9eff3d4b4a4a45418bc9712999d1dfc
  BIP34Height := 0
  BIP34Hash := Uint256.ofNat 0x000018234c5e94f9df19e2f85b6354c0b9eff3d4b4a4a45418bc9712999d1dfc
  BIP65Height := 0
  BIP66Height := 0
  powLimit := Uint256.ofNat 0x0000ffffffffffffffffffffffffffffffffffffffffffffffffffffffffffff
  fPowAllowMinDifficultyBlocks := false
  fPowNoRetargeting := false
  fPoSNoRetargeting := false
  nPowTargetSpacing := 2 * 5
  nPowTargetTimespan := 2 * 5 * 2016
  nFixUTXOCacheHFHeight := 100000

/-! ### Tickets

The constants of `util.h`. -/

def TICKETPOOL_HEIGHT_LATENCY : Nat := 64
def TICKET_VALVE : Nat := 5000
def TICKET_POOL_MAX_SIZE : Nat := 2048
def TICKET_PRICE : Int := 30000

end TscPow
