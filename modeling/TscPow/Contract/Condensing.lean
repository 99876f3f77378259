import TscPow.Contract.State

/-!
# Condensing transfers into one transaction

`CondensingTX` (`tsc/tscstate.cpp`): the transfers of an execution become one transaction that spends the coins of everyone involved and pays each of them the new balance in a single output. Its maps are ordered by address. The constructor is given the transfers of the state and the addresses to delete, so the state stands for all three here.
-/

namespace TscPow

def MAX_CONTRACT_VOUTS : Nat := 1000

/-- `CAmount` of a `u256`. -/
def U256.toAmount (value : U256) : Amount := (value.setWidth 64).toInt

/-- The output of a contract, a call that executes nothing: `<0> <0> <0> <0> <address> OP_CALL`. -/
def noExecScript (a : Address) : Script := [1, 0, 1, 0, 1, 0, 1, 0, 0x14] ++ a.asBytes ++ [OP_CALL]

namespace CondensingTX

variable (s : TscState) (qtx : TscTransaction)

/-- The output that the transaction comes from, as a coin of its sender. -/
def ownVin : Vin := ⟨qtx.hashWith, qtx.nVout, BitVec.ofNat 256 qtx.value, true⟩

/-- One round of the loop of `selectionVin`. -/
def selectVin (vins : Address → Option Vin) (ti : TransferInfo) : Address → Option Vin :=
  let vins :=
    if (vins ti.sender).isSome then vins
    else if ti.sender = qtx.sender ∧ qtx.value > 0 then Function.update vins ti.sender (some (ownVin qtx))
    else Function.update vins ti.sender (s.vin ti.sender)
  if (vins ti.receiver).isSome then vins else Function.update vins ti.receiver (s.vin ti.receiver)

def selectionVin : Address → Option Vin := s.transfers.foldl (selectVin s qtx) fun _ => none

/-- One round of the loop of `calculatePlusAndMinus`. -/
def addPlusMinus (info : Address → U256 × U256) (ti : TransferInfo) : Address → U256 × U256 :=
  let info := Function.update info ti.sender ((info ti.sender).1, (info ti.sender).2 + ti.value)
  Function.update info ti.receiver ((info ti.receiver).1 + ti.value, (info ti.receiver).2)

def calculatePlusAndMinus : Address → U256 × U256 := s.transfers.foldl addPlusMinus fun _ => (0, 0)

/-- The keys of `plusMinusInfo`. -/
def involved : List Address :=
  (s.transfers.flatMap fun ti => [ti.sender, ti.receiver]).dedup.insertionSort (· ≤ ·)

def checkDeleteAddress (a : Address) : Bool := decide (a ∈ s.deleteAddresses)

/-- What an address brings in: `vins[address]` makes an entry of zeros where there is none. -/
def broughtIn (a : Address) : U256 :=
  let vin := selectionVin s qtx a
  let entry := vin.getD ⟨.ofNat 0, 0, 0, false⟩
  if vin.isSome && entry.alive || !entry.alive && !checkDeleteAddress s a then entry.value else 0

/-- `createNewBalances` from some address on, with its verdict; the balances found before a failure remain. -/
def newBalances : List Address → List (Address × U256) × Bool
  | [] => ([], true)
  | a :: rest =>
    let balance := broughtIn s qtx a + (calculatePlusAndMinus s a).1
    if balance < (calculatePlusAndMinus s a).2 then ([], false)
    else ((a, balance - (calculatePlusAndMinus s a).2) :: (newBalances rest).1, (newBalances rest).2)

def createNewBalances : List (Address × U256) × Bool := newBalances s qtx (involved s)

/-- `createVins`. The entries that `createNewBalances` has made have no value. -/
def createVins : List TxIn :=
  (involved s).filterMap fun a => (selectionVin s qtx a).bind fun v =>
    if v.value > 0 ∧ (v.alive ∨ ¬v.alive ∧ ¬checkDeleteAddress s a) then
      some ⟨⟨v.hash, v.nVout⟩, [OP_SPEND], SEQUENCE_FINAL, []⟩
    else none

/-- The output script for an address: a contract gets a contract output. -/
def outScript (a : Address) : Script := if (s.account a).any Account.isAlive then noExecScript a
    else payToPubkeyHash a

/-- `createVout` from some balance on, each output with its address, and whether there are too many of them. -/
def voutFrom : Nat → List (Address × U256) → List (Address × TxOut) × Bool
  | _, [] => ([], false)
  | count, (a, balance) :: rest =>
    if balance > 0 then
      let out := (a, ⟨balance.toAmount, outScript s a⟩)
      if count + 1 > MAX_CONTRACT_VOUTS then ([out], true)
      else (out :: (voutFrom (count + 1) rest).1, (voutFrom (count + 1) rest).2)
    else if count > MAX_CONTRACT_VOUTS then ([], true)
    else voutFrom count rest

/-- What is left in a `CondensingTX` by `createCondensingTX`, with the transaction; without a transaction it is the empty one. -/
structure Condensed where
  tx : Option Tx
  balances : List (Address × U256)
  nVouts : Address → BitVec 32
  voutOverflow : Bool

def createCondensingTX : Condensed :=
  let balances := createNewBalances s qtx
  if balances.2 then
    let vins := createVins s qtx
    let vouts := voutFrom s 0 balances.1
    { tx := if vins.isEmpty || vouts.1.isEmpty then none else some ⟨2, vins, vouts.1.map Prod.snd, 0⟩
      balances := balances.1
      nVouts := fun a => BitVec.ofNat 32 (((vouts.1.map Prod.fst).idxOf? a).getD 0)
      voutOverflow := vouts.2 }
  else ⟨none, balances.1, fun _ => 0, false⟩

/-- `createVin`: the coins of the addresses involved after the transaction. The hash of the empty transaction is zero. -/
def createVin (txHash : Tx → Uint256) (c : Condensed) (a : Address) : Option Vin :=
  let hash := (c.tx.map txHash).getD (.ofNat 0)
  if a = qtx.sender then none
  else (c.balances.lookup a).map fun balance => if balance > 0 then
    ⟨hash, c.nVouts a, balance, true⟩ else ⟨hash, 0, 0, false⟩

end CondensingTX

def TscState.updateUTXO (s : TscState) (vins : Address → Option Vin) : TscState :=
  { s with
    cacheUTXO := fun a => match vins a with
      | some v => if (s.vin a).isSome || v.alive then some v else s.cacheUTXO a
      | none => s.cacheUTXO a }

end TscPow
