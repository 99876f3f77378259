import TscPow.Base.Fault
import TscPow.Script.Script

/-!
# The view of unspent coins

`CCoinsViewCache` (`coins.h`, `coins.cpp`) as block validation sees it: which coin an outpoint names, if it is unspent, and which outpoints the cache has an entry for. The second is needed because `AddCoin` looks for an overwritten coin only among cached entries.
-/

namespace TscPow

structure Coin where
  out : TxOut
  fCoinBase : Bool
  fCoinStake : Bool
  nHeight : Nat
deriving DecidableEq

/-- `coinEmpty`: a null output, which reads as spent. -/
def Coin.empty : Coin := ⟨⟨-1, []⟩, false, false, 0⟩

/-- `IsSpent`, which is `IsNull` of the output. -/
def Coin.isSpent (coin : Coin) : Bool := coin.out.nValue == -1

structure CoinsView where
  coin : OutPoint → Option Coin
  cached : List OutPoint
  bestBlock : Uint256

namespace CoinsView

def accessCoin (v : CoinsView) (outpoint : OutPoint) : Coin := (v.coin outpoint).getD Coin.empty

def haveCoin (v : CoinsView) (outpoint : OutPoint) : Bool := (v.coin outpoint).isSome

def haveInputs (v : CoinsView) (tx : Tx) : Bool :=
  tx.isCoinBase || tx.vin.all fun i => v.haveCoin i.prevout

/-- The values of the coins that a list of inputs names. -/
def inputValue (v : CoinsView) (vin : List TxIn) : Amount :=
  (vin.map fun i => (v.accessCoin i.prevout).out.nValue).sum

def getValueIn (v : CoinsView) (tx : Tx) : Amount := if tx.isCoinBase then 0 else v.inputValue tx.vin

def spendCoin (v : CoinsView) (outpoint : OutPoint) : Option CoinsView :=
  if v.haveCoin outpoint then
    some { v with coin := Function.update v.coin outpoint none, cached := outpoint :: v.cached }
  else none

def addCoin (v : CoinsView) (outpoint : OutPoint) (coin : Coin) (possible_overwrite : Bool) :
    Except Fault CoinsView :=
  if coin.out.nValue = -1 then .error .assertion
  else if Script.isUnspendable coin.out.scriptPubKey then .ok v
  else if !possible_overwrite ∧ outpoint ∈ v.cached ∧ v.haveCoin outpoint then
    .error (.exception "Adding new coin that replaces non-pruned entry")
  else .ok { v with coin := Function.update v.coin outpoint (some coin), cached := outpoint :: v.cached }

/-- `AddCoins`, with the default `check = false`. The height of a coin has thirty bits. -/
def addCoins (v : CoinsView) (txid : Uint256) (tx : Tx) (nHeight : Nat) : Except Fault CoinsView :=
  tx.vout.zipIdx.foldlM (fun v (out, i) =>
    v.addCoin ⟨txid, BitVec.ofNat 32 i⟩ ⟨out, tx.isCoinBase, tx.isCoinStake, nHeight % 2 ^ 30⟩
      tx.isCoinBase) v

/-- The spending loop of `UpdateCoins`; the coins spent become the undo data. -/
def spendInputs (v : CoinsView) (vin : List TxIn) : Except Fault (CoinsView × List Coin) :=
  vin.foldlM (fun (v, undo) i =>
    match v.spendCoin i.prevout with
    | none => .error .assertion
    | some v' => .ok (v', undo ++ [v.accessCoin i.prevout])) (v, [])

def updateCoins (v : CoinsView) (txid : Uint256) (tx : Tx) (nHeight : Nat) :
    Except Fault (CoinsView × List Coin) := do
  let (v, undo) ← if tx.isCoinBase then .ok (v, []) else v.spendInputs tx.vin
  let v ← v.addCoins txid tx nHeight
  .ok (v, undo)

end CoinsView

end TscPow
