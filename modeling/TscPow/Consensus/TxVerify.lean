import TscPow.Consensus.Validation
import TscPow.Primitives.Serialize
import TscPow.Validation.Coins

/-!
# Transaction rules

`consensus/tx_verify.cpp`: the rules on a single transaction, without context (`CheckTransaction`) and against the coins it spends (`CheckTxInputs`). Two facts are used later: a transaction that passes the first has outputs whose total is an amount of money, and one that passes the second does not pay out more than it spends, unless it has the shape of a coin stake.
-/

namespace TscPow

/-- The size limits that the block size of the contract DGP determines (`consensus.cpp`). -/
structure Limits where
  dgpMaxBlockSize : Nat
  dgpMaxBlockWeight : Nat
  dgpMaxBlockSigOps : Nat
deriving DecidableEq

def Limits.ofBlockSize (newBlockSize : Nat) : Limits where
  dgpMaxBlockSize := newBlockSize
  dgpMaxBlockWeight := 4 * newBlockSize % 2 ^ 32
  dgpMaxBlockSigOps := 4 * newBlockSize % 2 ^ 32 / 100

/-- The script interpreter, as far as validation calls it: `Solver` on a contract output, `CScriptCheck` on an input of a transaction (the script error, if there is one), and `CountWitnessSigOps`. -/
structure Interpreter where
  solver : Script → Bool
  verifyScript : Tx → Nat → TxOut → Nat → Option String
  countWitnessSigOps : TxIn → Script → Nat → Nat

def COINBASE_MATURITY : Int := 500
def MAX_TRANSACTION_BASE_SIZE : Nat := 1000000
def WITNESS_SCALE_FACTOR : Nat := 4
def LOCKTIME_THRESHOLD : Int := 500000000

def isFinalTx (tx : Tx) (nBlockHeight : Int) (nBlockTime : Int) : Bool :=
  let nLockTime : Int := tx.nLockTime.toNat
  nLockTime ==
    0 || decide (nLockTime < if nLockTime < LOCKTIME_THRESHOLD then nBlockHeight else nBlockTime) ||
    tx.vin.all fun txin => txin.nSequence == SEQUENCE_FINAL

def getLegacySigOpCount (tx : Tx) : Nat :=
  (tx.vin.map fun i => Script.getSigOpCount i.scriptSig false).sum +
    (tx.vout.map fun o => Script.getSigOpCount o.scriptPubKey false).sum

def SCRIPT_VERIFY_P2SH : Nat := 1

/-- `GetTransactionSigOpCost`; the assertions are on coins that the caller has found. -/
def getTransactionSigOpCost (interpreter : Interpreter) (tx : Tx) (inputs : CoinsView)
    (flags : Nat) : Except Fault Nat :=
  let legacy := getLegacySigOpCount tx * WITNESS_SCALE_FACTOR
  if tx.isCoinBase then .ok legacy
  else if tx.vin.any fun i => !inputs.haveCoin i.prevout then .error .assertion
  else
    let script (i : TxIn) := (inputs.accessCoin i.prevout).out.scriptPubKey
    let p2sh := (tx.vin.map fun i =>
      if Script.isPayToScriptHash (script i) then Script.getSigOpCountP2SH (script i) i.scriptSig
        else 0).sum
    let witness := (tx.vin.map fun i => interpreter.countWitnessSigOps i (script i) flags).sum
    .ok (legacy + (if flags &&& SCRIPT_VERIFY_P2SH ≠ 0 then p2sh * WITNESS_SCALE_FACTOR else 0) + witness)

namespace Tx

/-- The loop body of `GetValueOut` and `GetCoinBaseRealOut`. -/
def addOutput (func : String) (nValueOut : Amount) (out : TxOut) : Except Fault Amount :=
  if MoneyRange out.nValue ∧ MoneyRange (nValueOut + out.nValue) then .ok (nValueOut + out.nValue)
  else .error (.exception (func ++ ": value out of range"))

def getValueOut (tx : Tx) : Except Fault Amount := tx.vout.foldlM (addOutput "GetValueOut") 0

/-- `GetCoinBaseRealOut` stops after six outputs. -/
def getCoinBaseRealOut (tx : Tx) : Except Fault Amount :=
  (tx.vout.take 6).foldlM (addOutput "GetCoinBaseRealOut") 0

def outputValue (tx : Tx) : Amount := (tx.vout.map TxOut.nValue).sum

end Tx

/-- The loop of `CheckTransaction` over the outputs. -/
def checkOutput (interpreter : Interpreter) (tx : Tx) (nValueOut : Amount) (txout : TxOut) :
    Validation Amount := do
  rule (¬ (txout.isEmpty ∧ !tx.isCoinBase ∧ !tx.isCoinStake))
    ⟨100, REJECT_INVALID, "bad-txns-vout-empty", false⟩
  rule (0 ≤ txout.nValue) ⟨100, REJECT_INVALID, "bad-txns-vout-negative", false⟩
  rule (txout.nValue ≤ MAX_MONEY) ⟨100, REJECT_INVALID, "bad-txns-vout-toolarge", false⟩
  rule (MoneyRange (nValueOut + txout.nValue))
    ⟨100, REJECT_INVALID, "bad-txns-txouttotal-toolarge", false⟩
  rule ((Script.hasOpCall txout.scriptPubKey ∨ Script.hasOpCreate txout.scriptPubKey) →
    interpreter.solver txout.scriptPubKey)
    ⟨100, REJECT_INVALID, "bad-txns-contract-nonstandard", false⟩
  pure (nValueOut + txout.nValue)

def checkTransaction (interpreter : Interpreter) (limits : Limits) (tx : Tx)
    (fCheckDuplicateInputs : Bool) :
    Validation Unit := do
  rule (tx.vin ≠ []) ⟨10, REJECT_INVALID, "bad-txns-vin-empty", false⟩
  rule (tx.vout ≠ []) ⟨10, REJECT_INVALID, "bad-txns-vout-empty", false⟩
  rule (tx.strippedSize ≤ MAX_TRANSACTION_BASE_SIZE ∧
    tx.strippedSize * WITNESS_SCALE_FACTOR ≤ limits.dgpMaxBlockWeight)
    ⟨100, REJECT_INVALID, "bad-txns-oversize", false⟩
  let _ ← tx.vout.foldlM (checkOutput interpreter tx) 0
  rule (fCheckDuplicateInputs → (tx.vin.map TxIn.prevout).Nodup)
    ⟨100, REJECT_INVALID, "bad-txns-inputs-duplicate", false⟩
  if tx.isCoinBase then
    rule (∀ i ∈ tx.vin, 2 ≤ i.scriptSig.length ∧ i.scriptSig.length ≤ 100)
      ⟨100, REJECT_INVALID, "bad-cb-length", false⟩
  else
    rule (∀ i ∈ tx.vin, !i.prevout.isNull) ⟨10, REJECT_INVALID, "bad-txns-prevout-null", false⟩

/-- The loop of `CheckTxInputs` over the inputs. -/
def checkTxInput (inputs : CoinsView) (nSpendHeight : Int) (nValueIn : Amount) (txin : TxIn) :
    Validation Amount := do
  let coin := inputs.accessCoin txin.prevout
  rule ((coin.fCoinBase ∨ coin.fCoinStake) → ¬ nSpendHeight - coin.nHeight < COINBASE_MATURITY)
    ⟨0, REJECT_INVALID, "bad-txns-premature-spend-of-coinbase", false⟩
  rule (MoneyRange coin.out.nValue ∧ MoneyRange (nValueIn + coin.out.nValue))
    ⟨100, REJECT_INVALID, "bad-txns-inputvalues-outofrange", false⟩
  pure (nValueIn + coin.out.nValue)

def checkTxInputs (tx : Tx) (inputs : CoinsView) (nSpendHeight : Int) : Validation Unit := do
  rule (inputs.haveInputs tx) ⟨0, 0, "", false⟩
  let nValueIn ← tx.vin.foldlM (checkTxInput inputs nSpendHeight) 0
  if tx.isCoinStake then pure ()
  else
    let nValueOut ← orFault tx.getValueOut
    rule (¬ nValueIn < nValueOut) ⟨100, REJECT_INVALID, "bad-txns-in-belowout", false⟩
    rule (0 ≤ nValueIn - nValueOut) ⟨100, REJECT_INVALID, "bad-txns-fee-negative", false⟩
    rule (MoneyRange (nValueIn - nValueOut)) ⟨100, REJECT_INVALID, "bad-txns-fee-outofrange", false⟩

/-! ### What the checks establish -/

/-- The reasons for which `CheckTransaction` rejects. -/
def transactionReasons : List String :=
  ["bad-txns-vin-empty", "bad-txns-vout-empty", "bad-txns-oversize", "bad-txns-vout-negative",
    "bad-txns-vout-toolarge",
    "bad-txns-txouttotal-toolarge", "bad-txns-contract-nonstandard", "bad-txns-inputs-duplicate",
      "bad-cb-length", "bad-txns-prevout-null"]

/-- `CheckTransaction` rejects for its own reasons only, and never because the data may be corrupted. -/
theorem checkTransaction_ne_error {interpreter : Interpreter} {limits : Limits} {tx : Tx}
    {fCheckDuplicateInputs : Bool} {failure : Failure}
    (h : ∀ reject, reject.strRejectReason ∈ transactionReasons → reject.corruptionPossible = false →
      .invalid reject ≠ failure) :
    checkTransaction interpreter limits tx fCheckDuplicateInputs ≠ .error failure := by
  have hrule (c : Prop) [Decidable c] (own : Reject)
    (hown : own.strRejectReason ∈ transactionReasons ∧ own.corruptionPossible = false) :
      rule c own ≠ .error failure := Except.require_ne_error (h own hown.1 hown.2)
  have houtput (total : Amount) (out : TxOut) :
      checkOutput interpreter tx total out ≠ .error failure := by
    unfold checkOutput
    refine Except.bind_ne_error (hrule _ _ (by decide)) fun _ => ?_
    refine Except.bind_ne_error (hrule _ _ (by decide)) fun _ => ?_
    refine Except.bind_ne_error (hrule _ _ (by decide)) fun _ => ?_
    refine Except.bind_ne_error (hrule _ _ (by decide)) fun _ => ?_
    exact Except.bind_ne_error (hrule _ _ (by decide)) fun _ => Except.pure_ne_error
  unfold checkTransaction
  refine Except.bind_ne_error (hrule _ _ (by decide)) fun _ => ?_
  refine Except.bind_ne_error (hrule _ _ (by decide)) fun _ => ?_
  refine Except.bind_ne_error (hrule _ _ (by decide)) fun _ => ?_
  refine Except.bind_ne_error (Except.foldlM_ne_error houtput _ _) fun _ => ?_
  refine Except.bind_ne_error (hrule _ _ (by decide)) fun _ => ?_
  split
  · exact hrule _ _ (by decide)
  · exact hrule _ _ (by decide)

theorem foldlM_addOutput {func : String} {vout : List TxOut} {start total : Amount}
    (h : vout.foldlM (Tx.addOutput func) start = .ok total) :
    total = start + (vout.map TxOut.nValue).sum := by
  induction vout generalizing start with
  | nil =>
    rw [List.foldlM_nil, Except.pure_eq_ok_iff] at h
    simp [h]
  | cons out vout ih =>
    obtain ⟨next, hnext, hrest⟩ := Except.foldlM_cons_eq_ok_iff.mp h
    rw [Tx.addOutput] at hnext
    split at hnext
    · rw [ih hrest, ← Except.ok.inj hnext, List.map_cons, List.sum_cons, Int.add_assoc]
    · cases hnext

theorem getValueOut_eq_ok {tx : Tx} {total : Amount} (h : tx.getValueOut = .ok total) :
    total = tx.outputValue := by
  rw [foldlM_addOutput h, Tx.outputValue, Int.zero_add]

theorem foldlM_checkTxInput {inputs : CoinsView} {nSpendHeight : Int} {vin : List TxIn}
    {start total : Amount} (h : vin.foldlM (checkTxInput inputs nSpendHeight) start = .ok total) :
    total = start + inputs.inputValue vin := by
  induction vin generalizing start with
  | nil =>
    rw [List.foldlM_nil, Except.pure_eq_ok_iff] at h
    simp [h, CoinsView.inputValue]
  | cons txin vin ih =>
    obtain ⟨next, hnext, hrest⟩ := Except.foldlM_cons_eq_ok_iff.mp h
    simp only [checkTxInput, Except.bind_eq_ok_iff, Except.pure_eq_ok_iff] at hnext
    obtain ⟨-, -, -, -, rfl⟩ := hnext
    rw [ih hrest, CoinsView.inputValue, CoinsView.inputValue, List.map_cons, List.sum_cons, Int.add_assoc]

theorem outputValue_le_of_checkTxInputs {tx : Tx} {inputs : CoinsView} {nSpendHeight : Int}
    (h : checkTxInputs tx inputs nSpendHeight = .ok ()) (hstake : tx.isCoinStake = false) :
    tx.outputValue ≤ inputs.inputValue tx.vin := by
  simp only [checkTxInputs, Except.bind_eq_ok_iff, rule_eq_ok_iff, hstake, Bool.false_eq_true, if_false,
    orFault_eq_ok_iff] at h
  obtain ⟨-, -, nValueIn, hin, nValueOut, hout, -, hle, -⟩ := h
  rw [← getValueOut_eq_ok hout, ← Int.zero_add (inputs.inputValue tx.vin), ← foldlM_checkTxInput hin]
  exact Int.not_lt.mp hle

end TscPow
