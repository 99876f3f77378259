import TscPow.Consensus.Params
import TscPow.Contract.Condensing
import TscPow.Contract.Executive
import TscPow.Primitives.Block

/-!
# Executing contract transactions

`TscState::execute` (`tsc/tscstate.cpp`) with the `Executive` around the virtual machine, and `ByteCodeExec::performByteCode` with the environment it builds from the block. What the virtual machine does with a transaction is a parameter, a `Behaviour`.
-/

namespace TscPow

inductive Permanence where
  | Committed
  | Reverted
deriving DecidableEq

/-- What the virtual machine makes of a transaction: the gas required before anything runs, whether a called precompiled contract cannot be paid for, whether a creation comes with code to run, what the code does and the gas it leaves. -/
structure Behaviour where
  baseGasRequired : Nat
  lacksGas : Bool
  hasInit : Bool
  frame : Frame
  gasLeft : Nat

namespace TscTransaction

def gasCost (qtx : TscTransaction) : Nat := qtx.gas * qtx.gasPrice

end TscTransaction

/-! ### The executive around the virtual machine -/

/-- The start of `execute`: the sender is given what the transaction costs, and both the sender and the author are to be deleted at the end. -/
def TscState.prepare (env : EvmEnv) (qtx : TscTransaction) (s : TscState) : TscState :=
  let s := (s.addBalance qtx.sender (BitVec.ofNat 256 (qtx.value + qtx.gasCost))).1
  { s with
    newAddress := if qtx.isCreation then env.createTscAddress qtx.hashWith qtx.nVout else 0
    deleteAddresses := qtx.sender :: env.author :: s.deleteAddresses }

/-- The conditions of `CreateWithValue` and of `Executive::initialize`. The nonce of every transaction is zero. -/
def TscState.initialized (env : EvmEnv) (b : Behaviour) (qtx : TscTransaction) (s : TscState) : Bool :=
  !(qtx.isCreation && decide (qtx.value ≠ 0)) && decide (qtx.gas ≤ env.gasLimit) &&
    decide (b.baseGasRequired ≤ qtx.gas) &&
    s.getNonce qtx.sender == 0 && decide ((s.balance qtx.sender).toNat ≥ qtx.value + qtx.gasCost)

/-- What `Executive::execute` leaves: the state of its savepoint, the state in which the code starts, the account the code runs on, and whether there is any code. -/
structure Started where
  saved : TscState
  entered : TscState
  self : Address
  runs : Bool

/-- `Executive::execute`. -/
def TscState.start (env : EvmEnv) (b : Behaviour) (qtx : TscTransaction) (s : TscState) : Started :=
  let s := s.subBalance qtx.sender (BitVec.ofNat 256 qtx.gasCost)
  if qtx.isCreation then
    let created := s.enterCreate env qtx.sender
    { saved := s.incNonce qtx.sender
      entered := if !b.hasInit && created.1.addressHasCode created.2 then
        created.1.setNewCode created.2 [] else created.1
      self := created.2
      runs := b.hasInit }
  else
    let s := s.incNonce qtx.sender
    { saved := s
      entered :=
        if env.isPrecompiled qtx.receiveAddress && b.lacksGas then if env.eip158 then
          (s.addBalance qtx.receiveAddress 0).1
        else s
        else s.enterCall qtx.sender qtx.receiveAddress (BitVec.ofNat 256 qtx.value)
      self := qtx.receiveAddress
      runs := s.runsCode env qtx.receiveAddress }

/-- What `Executive::go` leaves. -/
structure Ended where
  state : TscState
  excepted : Bool
  suicides : List Address
  gasLeft : Nat

/-- `Executive::go`; an exception uses up the gas. -/
def Started.go (env : EvmEnv) (b : Behaviour) (qtx : TscTransaction) (st : Started) : Ended :=
  match b.frame.run env st.self st.entered with
  | (t, some halt) =>
    ⟨if qtx.isCreation then t.setNewCode st.self halt.output else t, false, halt.suicides,
      min b.gasLeft qtx.gas⟩
  | (t, none) => ⟨t.rollback st.saved.savepoint, true, [], 0⟩

def Ended.finalize (env : EvmEnv) (qtx : TscTransaction) (e : Ended) : TscState :=
  let s := (e.state.addBalance qtx.sender (BitVec.ofNat 256 (e.gasLeft * qtx.gasPrice))).1
  e.suicides.foldl TscState.kill
    (s.addBalance env.author (BitVec.ofNat 256 ((qtx.gas - e.gasLeft) * qtx.gasPrice))).1

/-! ### Executing a transaction -/

/-- What `execute` reads besides its arguments: the hash of a transaction, the height of the chain, and the consensus parameters. -/
structure ExecContext where
  txHash : Tx → Uint256
  height : Int
  params : Params

/-- The `catch` block: nothing is written from `nFixUTXOCacheHFHeight` on. -/
def TscState.recover (ctx : ExecContext) (p : Permanence) (s : TscState) : TscState :=
  if ctx.height < ctx.params.nFixUTXOCacheHFHeight ∧ p ≠ .Reverted then s.deleteAccounts.commit true
  else s.clearCaches

/-- The end of `execute`. -/
def TscState.release (s : TscState) : TscState := { s with newAddress := 0, transfers := [] }

/-- The transaction of an execution with too many outputs. -/
def voutLimitTx (qtx : TscTransaction) : Option Tx := if qtx.value > 0 then some (refundTx qtx) else none

/-- The part of `execute` after `finalize` for a committed execution. -/
def Ended.settle (ctx : ExecContext) (env : EvmEnv) (qtx : TscTransaction) (savepoint : Nat)
    (e : Ended) : TscState × ResultExecute :=
  let s := (e.finalize env qtx).deleteAccounts
  let gasUsed := qtx.gas - e.gasLeft
  if e.excepted then ((s.commitUTXO.commit env.eip158).release, ⟨true, gasUsed, none⟩)
  else
    let condensed := CondensingTX.createCondensingTX s qtx
    if condensed.voutOverflow then
      (((s.rollback savepoint).recover ctx .Committed).release, ⟨false, qtx.gas, voutLimitTx qtx⟩)
    else
      (((s.updateUTXO
        (CondensingTX.createVin qtx ctx.txHash condensed)).commitUTXO.commit env.eip158).release,
        ⟨false, gasUsed, condensed.tx⟩)

def TscState.execute (ctx : ExecContext) (env : EvmEnv) (p : Permanence) (b : Behaviour)
    (qtx : TscTransaction) (s : TscState) :
    TscState × ResultExecute :=
  let s := s.prepare env qtx
  if !s.initialized env b qtx then ((s.recover ctx p).release, ⟨true, qtx.gas, none⟩)
  else
    let started := s.start env b qtx
    if !started.runs then
      (((started.entered.rollback started.saved.savepoint).recover ctx p).release,
        ⟨true, qtx.gas, none⟩)
    else
      let ended := started.go env b qtx
      match p with
      | .Reverted =>
        ((ended.finalize env qtx).clearCaches.release,
          ⟨ended.excepted, qtx.gas - ended.gasLeft, none⟩)
      | .Committed => ended.settle ctx env qtx started.saved.savepoint

/-! ### The transactions of a block -/

inductive TemplateOp where
  | op (opcode : Byte)
  | pubkey
  | pubkeyHash

/-- The loop of `Solver` for one template, with the data it collects. -/
def matchTemplate : List TemplateOp → Script → Option (List (List Byte))
  | [], script => if script.isEmpty then some [] else none
  | t :: ts, script =>
    match Script.getOp script with
    | none => none
    | some (opcode, operand, rest) =>
      match t with
      | .op expected => if opcode = expected ∧ operand = [] then matchTemplate ts rest else none
      | .pubkey => if 33 ≤ operand.length ∧ operand.length ≤ 65 then
          (matchTemplate ts rest).map (operand :: ·) else none
      | .pubkeyHash => if operand.length = 20 then (matchTemplate ts rest).map (operand :: ·) else none

/-- `CPubKey::GetLen`. -/
def pubkeyLen (header : Byte) : Nat := if header = 2 ∨ header = 3 then 33
    else if header = 4 ∨ header = 6 ∨ header = 7 then 65 else 0

def Address.ofBytes (bytes : List Byte) : Address := bytes.foldl (fun a b => a <<< 8 ||| b.setWidth 160) 0

/-- `EthAddrFromScript`. The other kinds of script that `Solver` looks for first are none of these two. -/
def ethAddrFromScript (hash160 : List Byte → Address) (script : Script) : Address :=
  match matchTemplate [.pubkey, .op 0xac] script with
  | some [key] => if key.length = pubkeyLen (key.headD 0) then hash160 key else 0
  | _ =>
    match matchTemplate [.op 0x76, .op 0xa9, .pubkeyHash, .op 0x88, .op 0xac] script with
    | some [hash] => Address.ofBytes hash
    | _ => 0

/-- The part of the seal engine and the hash functions that is the same for every block. -/
structure Engine where
  hash160 : List Byte → Address
  createTscAddress : Uint256 → BitVec 32 → Address
  contractAddress : Address → U256 → Address
  isPrecompiled : Address → Bool
  EIP158ForkBlock : Nat

/-- `BuildEVMEnvironment`; no block is one of proof of stake. -/
def buildEVMEnvironment (engine : Engine) (height : Nat) (blockGasLimit : Nat) (block : Block) :
    EvmEnv where
  createTscAddress := engine.createTscAddress
  contractAddress := engine.contractAddress
  isPrecompiled := engine.isPrecompiled
  EIP158ForkBlock := engine.EIP158ForkBlock
  number := height + 1
  gasLimit := blockGasLimit
  author := ethAddrFromScript engine.hash160
    ((block.vtx.headD ⟨0, [], [], 0⟩).vout.headD ⟨0, []⟩).scriptPubKey

/-- The loop of `performByteCode`, with the results so far on `false`. -/
def performTxs (ctx : ExecContext) (env : EvmEnv) (p : Permanence) :
    List (Behaviour × TscTransaction) → TscState → TscState × List ResultExecute × Bool
  | [], s => (s, [], true)
  | (b, qtx) :: rest, s =>
    if qtx.version ≠ .evmDefault then (s, [], false)
    else if !qtx.isCreation && !s.addressInUse qtx.receiveAddress then
      let r := performTxs ctx env p rest s
      (r.1, ⟨true, 0, none⟩ :: r.2.1, r.2.2)
    else
      let executed := s.execute ctx env p b qtx
      let r := performTxs ctx env p rest executed.1
      (r.1, executed.2 :: r.2.1, r.2.2)

/-- `performByteCode`: after a `return false` the addresses to delete stay for the next block. -/
def performByteCode (ctx : ExecContext) (env : EvmEnv) (p : Permanence)
    (txs : List (Behaviour × TscTransaction)) (s : TscState) :
    TscState × List ResultExecute × Bool :=
  let r := performTxs ctx env p txs s
  (if r.2.2 then { r.1 with deleteAddresses := [] } else r.1, r.2)

/-! ### How an execution starts -/

section

variable {env : EvmEnv} {b : Behaviour} {qtx : TscTransaction} {s : TscState}

def TscState.endow (env : EvmEnv) (qtx : TscTransaction) (s : TscState) : TscState :=
  { s.prepare env qtx with newAddress := 0 }

/-- A creation transaction makes its account at an address that has none and is not to be deleted, and finds the address that `Executive::create` would use without an account too. -/
structure TscTransaction.Fresh (env : EvmEnv) (qtx : TscTransaction) (s : TscState) : Prop where
  unused_eth : s.account (env.contractAddress qtx.sender 0) = none
  eth_ne_sender : env.contractAddress qtx.sender 0 ≠ qtx.sender
  unused : s.account (env.createTscAddress qtx.hashWith qtx.nVout) = none
  unnoted : env.createTscAddress qtx.hashWith qtx.nVout ∉ qtx.sender :: env.author :: s.deleteAddresses
  ne_zero : env.createTscAddress qtx.hashWith qtx.nVout ≠ 0

def TscState.charged (env : EvmEnv) (qtx : TscTransaction) (s : TscState) : TscState :=
  ((s.endow env qtx).subBalance qtx.sender (BitVec.ofNat 256 qtx.gasCost)).incNonce qtx.sender

theorem TscState.prepare_of_call (h : qtx.isCreation = false) : s.prepare env qtx = s.endow env qtx := by
  simp [TscState.endow, TscState.prepare, h]

theorem TscState.account_endow (hnew : s.newAddress = 0) (a : Address) :
    (s.endow env qtx).account a =
      if a = qtx.sender then
        some (((s.account qtx.sender).map
          (Account.addBalance (BitVec.ofNat 256 (qtx.value + qtx.gasCost)))).getD
          (.new 0 (BitVec.ofNat 256 (qtx.value + qtx.gasCost))))
      else s.account a :=
  TscState.account_addBalance hnew _ _ a

theorem TscState.logged_charged (env : EvmEnv) (qtx : TscTransaction) (s : TscState) :
    Logged (s.endow env qtx) (s.charged env qtx) := by
  have hsub := Logged.subBalance (s := s.endow env qtx) rfl qtx.sender (BitVec.ofNat 256 qtx.gasCost)
  exact hsub.trans (.incNonce _ _)

theorem TscState.start_of_call (h : qtx.isCreation = false)
    (hruns : ((s.prepare env qtx).start env b qtx).runs = true) :
    (s.prepare env qtx).start env b qtx =
      ⟨s.charged env qtx, (s.charged env qtx).enterCall qtx.sender qtx.receiveAddress
        (BitVec.ofNat 256 qtx.value), qtx.receiveAddress, true⟩ := by
  rw [TscState.prepare_of_call h] at hruns ⊢
  simp only [TscState.start, h, Bool.false_eq_true, if_false, TscState.runsCode, Bool.and_eq_true,
    Bool.not_eq_true'] at hruns
  simp [TscState.start, h, TscState.charged, TscState.runsCode, hruns.1, hruns.2]

theorem TscState.account_charged_of_ne (env : EvmEnv) (hnew : s.newAddress = 0) {a : Address}
    (hne : a ≠ qtx.sender) :
    (s.charged env qtx).account a = s.account a := by
  have hsub : ((s.endow env qtx).subBalance qtx.sender (BitVec.ofNat 256 qtx.gasCost)).account a =
      s.account a := by
    rw [TscState.subBalance]
    split
    · rw [TscState.account_endow hnew, if_neg hne]
    · rw [TscState.account_addBalance rfl, if_neg hne, TscState.account_endow hnew, if_neg hne]
  rw [TscState.charged, TscState.account_incNonce, if_neg hne, hsub]

theorem TscState.account_charged_eq_none (env : EvmEnv) (hnew : s.newAddress = 0) {a : Address}
    (ha : s.account a = none) (hne : a ≠ qtx.sender) :
    (s.charged env qtx).account a = none := by
  rw [TscState.account_charged_of_ne env hnew hne, ha]

def TscState.created (env : EvmEnv) (qtx : TscTransaction) (s : TscState) : TscState :=
  let created := ((s.charged env qtx).addBalance (env.createTscAddress qtx.hashWith qtx.nVout) 0).1
  if env.eip158 then created.incNonce (env.createTscAddress qtx.hashWith qtx.nVout) else created

theorem TscState.logged_created (env : EvmEnv) (qtx : TscTransaction) (s : TscState) :
    Logged (s.charged env qtx) (s.created env qtx) := by
  have hnew : (s.charged env qtx).newAddress = 0 := (TscState.logged_charged env qtx s).newAddress
  have hadd := Logged.addBalance hnew (env.createTscAddress qtx.hashWith qtx.nVout) 0
  simp only [TscState.created]
  split
  · exact hadd.trans (.incNonce _ _)
  · exact hadd

theorem TscState.code_created (env : EvmEnv) (qtx : TscTransaction) (s : TscState) (a : Address) :
    (s.created env qtx).code a = (s.charged env qtx).code a := by
  have hnew : (s.charged env qtx).newAddress = 0 := (TscState.logged_charged env qtx s).newAddress
  simp only [TscState.created]
  split
  · rw [TscState.code_incNonce, TscState.code_addBalance hnew]
  · rw [TscState.code_addBalance hnew]

theorem TscState.getNonce_subBalance (hnew : s.newAddress = 0) {a : Address}
    (ha : s.account a ≠ none) (value : U256) :
    (s.subBalance a value).getNonce a = s.getNonce a := by
  obtain ⟨account, ha⟩ := Option.ne_none_iff_exists'.mp ha
  rw [TscState.subBalance]
  split
  · rfl
  · rw [TscState.getNonce, TscState.account_addBalance hnew, if_pos rfl, ha, TscState.getNonce, ha]
    rfl

theorem TscState.start_of_create (h : qtx.isCreation = true) (hnew : s.newAddress = 0)
    (hfresh : qtx.Fresh env s) (hnonce : (s.prepare env qtx).getNonce qtx.sender = 0) :
    (s.prepare env qtx).start env b qtx =
      ⟨(s.charged env qtx).reserve (env.createTscAddress qtx.hashWith qtx.nVout), s.created env qtx,
        env.createTscAddress qtx.hashWith qtx.nVout, b.hasInit⟩ := by
  have hprepare : s.prepare env qtx =
      (s.endow env qtx).reserve (env.createTscAddress qtx.hashWith qtx.nVout) := by
    simp [TscState.endow, TscState.prepare, TscState.reserve, h]
  have hsender : (s.endow env qtx).account qtx.sender ≠ none := by
    rw [TscState.account_endow hnew, if_pos rfl]
    exact Option.some_ne_none _
  have hne : env.createTscAddress qtx.hashWith qtx.nVout ≠ qtx.sender :=
    fun heq => hfresh.unnoted (heq ▸ List.mem_cons_self)
  have hnew' : (s.charged env qtx).newAddress = 0 := (TscState.logged_charged env qtx s).newAddress
  have hnone := TscState.account_charged_eq_none env hnew hfresh.unused hne
  have hnone_eth := TscState.account_charged_eq_none env hnew hfresh.unused_eth hfresh.eth_ne_sender
  -- paying for the gas and counting the nonce leave the reserved address alone
  have hpaid : (s.prepare env qtx).subBalance qtx.sender (BitVec.ofNat 256 qtx.gasCost) =
      ((s.endow env qtx).subBalance qtx.sender (BitVec.ofNat 256 qtx.gasCost)).reserve
        (env.createTscAddress qtx.hashWith qtx.nVout) := by
    rw [hprepare, TscState.subBalance_reserve hsender]
  have hcharged :
    ((s.prepare env qtx).subBalance qtx.sender (BitVec.ofNat 256 qtx.gasCost)).incNonce qtx.sender =
      (s.charged env qtx).reserve (env.createTscAddress qtx.hashWith qtx.nVout) := by
    rw [hpaid, TscState.incNonce_reserve]
    rfl
  have hnonce' :
      ((s.prepare env qtx).subBalance qtx.sender
        (BitVec.ofNat 256 qtx.gasCost)).getNonce qtx.sender = 0 := by
    rw [hpaid, ← hnonce, hprepare]
    exact TscState.getNonce_subBalance rfl hsender _
  have hcreate :
    ((s.prepare env qtx).subBalance qtx.sender (BitVec.ofNat 256 qtx.gasCost)).enterCreate env
      qtx.sender =
      (s.created env qtx, env.createTscAddress qtx.hashWith qtx.nVout) := by
    rw [TscState.enterCreate, hcharged, hnonce', TscState.transferBalance_zero,
      TscState.addBalance_reserve hnone_eth hnone hfresh.ne_zero hnew', TscState.addBalance_snd hnew']
    rfl
  have hcode :
      (s.created env qtx).addressHasCode (env.createTscAddress qtx.hashWith qtx.nVout) = false := by
    rw [TscState.addressHasCode, TscState.code_created, TscState.code_of_account_eq_none hnone]
    rfl
  simp only [TscState.start, h, if_true]
  rw [hcharged, hcreate, hcode, Bool.and_false]
  rfl

end

end TscPow
