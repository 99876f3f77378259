import TscPow.Script.Script

/-!
# Contract transactions and their results

The data that passes between block validation and contract execution: a contract output converted for the virtual machine (`TscTransaction`), the outcome of its execution (`ResultExecute`), and the transfers and gas refunds that `ByteCodeExec::processingResults` makes of a list of outcomes.
-/

namespace TscPow

/-- A 160-bit contract or key-hash address, `dev::Address`. -/
abbrev Address := BitVec 160

/-- The twenty bytes of an address, most significant first, as `asBytes` lists them. -/
def Address.asBytes (a : Address) : List Byte :=
  (List.range 20).map fun i => (a >>> (8 * (19 - i))).setWidth 8

structure VersionVM where
  format : Nat
  rootVM : Nat
  vmVersion : Nat
  flagOptions : Nat
deriving DecidableEq

namespace VersionVM

def evmDefault : VersionVM := ⟨0, 1, 0, 0⟩

def noExec : VersionVM := ⟨0, 0, 0, 0⟩

/-- `VersionVM::fromRaw`: the fields of 2, 6, 8 and 16 bits, lowest first. -/
def fromRaw (val : Nat) : VersionVM :=
  ⟨val % 2 ^ 2, val / 2 ^ 2 % 2 ^ 6, val / 2 ^ 8 % 2 ^ 8, val / 2 ^ 16 % 2 ^ 16⟩

end VersionVM

/-- `TscTransaction`: the converted output number `nVout` of the transaction `hashWith`. -/
structure TscTransaction where
  sender : Address
  isCreation : Bool
  receiveAddress : Address
  value : Nat
  gas : Nat
  gasPrice : Nat
  version : VersionVM
  hashWith : Uint256
  nVout : BitVec 32
deriving DecidableEq

/-- `ResultExecute`: whether the execution raised an exception, the gas it used, and the transaction that condenses its transfers, if there is one. -/
structure ResultExecute where
  excepted : Bool
  gasUsed : Nat
  tx : Option Tx
deriving DecidableEq

structure ByteCodeExecResult where
  usedGas : Nat
  refundSender : Amount
  refundOutputs : List TxOut
  valueTransfers : List Tx
deriving DecidableEq

/-- `OP_DUP OP_HASH160 <address> OP_EQUALVERIFY OP_CHECKSIG`. -/
def payToPubkeyHash (a : Address) : Script := [0x76, 0xa9, 0x14] ++ a.asBytes ++ [0x88, 0xac]

/-- The transaction that hands the value of a failed contract output back to its sender. -/
def refundTx (qtx : TscTransaction) : Tx where
  nVersion := 2
  vin := [⟨⟨qtx.hashWith, qtx.nVout⟩, [OP_SPEND], SEQUENCE_FINAL, []⟩]
  vout := [⟨qtx.value, payToPubkeyHash qtx.sender⟩]
  nLockTime := 0

/-- One round of `processingResults`; `none` is its `return false`. -/
def processResult (acc : ByteCodeExecResult) (qtx : TscTransaction) (result : ResultExecute) :
    Option ByteCodeExecResult :=
  let gasUsed := result.gasUsed % 2 ^ 64
  let withTransfers (acc : ByteCodeExecResult) (transfers : List Tx) : ByteCodeExecResult :=
    { acc with
      usedGas := (acc.usedGas + gasUsed) % 2 ^ 64
      valueTransfers := acc.valueTransfers ++ transfers ++ result.tx.toList }
  if result.excepted then some (withTransfers acc (if qtx.value > 0 then [refundTx qtx] else []))
  else if qtx.gas ≥ 2 ^ 64 ∨ result.gasUsed ≥ 2 ^ 64 ∨ qtx.gasPrice ≥ 2 ^ 64 then none
  else
    -- the product of two `uint64_t` read as an `int64_t`
    let amount := Int.bmod (((qtx.gas : Int) - gasUsed) * qtx.gasPrice) (2 ^ 64)
    if amount < 0 then none
    else if amount > 0 then
      some (withTransfers
        { acc with
          refundSender := Int.bmod (acc.refundSender + amount) (2 ^ 64)
          refundOutputs := acc.refundOutputs ++ [⟨amount, payToPubkeyHash qtx.sender⟩] } [])
    else some (withTransfers acc [])

def processingResults (txs : List TscTransaction) (results : List ResultExecute) :
    Option ByteCodeExecResult :=
  (txs.zip results).foldlM (fun acc (qtx, result) => processResult acc qtx result) ⟨0, 0, [], []⟩

end TscPow
