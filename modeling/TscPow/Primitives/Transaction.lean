import TscPow.Primitives.Uint256

/-!
# Scripts and transactions

The data of `script/script.h` and `primitives/transaction.h` that the modelled rules read. Amounts are the source's `int64_t` counted in satoshis; every rule that adds them up checks their range first, so they are kept as integers here.
-/

namespace TscPow

abbrev Byte := BitVec 8

/-- `CScript`: the raw bytes. -/
abbrev Script := List Byte

/-- `CAmount`. -/
abbrev Amount := Int

def COIN : Amount := 100000000

def CENT : Amount := 1000000

def MAX_MONEY : Amount := 1609562500 * COIN + 25 * 20 * CENT

def MoneyRange (nValue : Amount) : Bool := decide (0 ≤ nValue ∧ nValue ≤ MAX_MONEY)

theorem moneyRange_iff {nValue : Amount} : MoneyRange nValue = true ↔ 0 ≤ nValue ∧ nValue ≤ MAX_MONEY :=
  decide_eq_true_iff

def OP_RETURN : Byte := 0x6a
def OP_BUYTICKET : Byte := 0xba
def OP_CREATE : Byte := 0xc1
def OP_CALL : Byte := 0xc2
def OP_SPEND : Byte := 0xc3

/-- `COutPoint`. -/
structure OutPoint where
  hash : Uint256
  n : BitVec 32
deriving DecidableEq

/-- `COutPoint::IsNull`: a null hash and index `(uint32_t) -1`. -/
def OutPoint.isNull (o : OutPoint) : Bool := o.hash.isNull && o.n == 0xffffffff

/-- `CTxIn`, with its witness stack. -/
structure TxIn where
  prevout : OutPoint
  scriptSig : Script
  nSequence : BitVec 32
  scriptWitness : List Script
deriving DecidableEq

def SEQUENCE_FINAL : BitVec 32 := 0xffffffff

/-- `CTxOut`. -/
structure TxOut where
  nValue : Amount
  scriptPubKey : Script
deriving DecidableEq

def TxOut.isEmpty (o : TxOut) : Bool := o.nValue == 0 && o.scriptPubKey.isEmpty

/-- `CTransaction`, without its cached hash. -/
structure Tx where
  nVersion : Int
  vin : List TxIn
  vout : List TxOut
  nLockTime : BitVec 32
deriving DecidableEq

namespace Tx

def isCoinBase (tx : Tx) : Bool :=
  match tx.vin with
  | [input] => input.prevout.isNull && decide (tx.vout.length ≥ 1)
  | _ => false

/-- `IsCoinStake`: "the coin stake transaction is marked with the first output empty". -/
def isCoinStake (tx : Tx) : Bool :=
  match tx.vin, tx.vout with
  | input :: _, out :: _ :: _ => !input.prevout.isNull && out.isEmpty
  | _, _ => false

end Tx

end TscPow
