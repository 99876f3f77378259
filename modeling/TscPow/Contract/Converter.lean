import TscPow.Contract.Execute
import TscPow.Script.Interpreter
import TscPow.Script.Standard

/-!
# Converting contract outputs

`TscTxConverter` (`validation.cpp`) makes a transaction for the virtual machine of every contract output: it evaluates the output's script, which ends at `OP_CREATE` or `OP_CALL` with the rest of the script on top of the stack, and takes the parameters from the stack. The stack is a member of the converter: what an output leaves on it is there for the next one, and the verdict of the evaluation is not looked at.

`Solver` has checked the same script without evaluating it. For a script of data pushes before its opcode the two agree.
-/

namespace TscPow

structure EthTransactionParams where
  version : VersionVM
  gasLimit : Nat
  gasPrice : Nat
  code : List Byte
  receiveAddress : Address
deriving DecidableEq

/-- `dev::Address` of a byte array; one of another length gives the zero address. -/
def Address.ofVch (vch : List Byte) : Address := if vch.length = 20 then Address.ofBytes vch else 0

def INT64_MAX : Nat := 2 ^ 63 - 1

section Converter

variable (crypto : Crypto) (uninitialized : Byte)

/-- The stack after `EvalScript` under `SCRIPT_EXEC_BYTE_CODE`, whatever it returns. -/
def evaluatedStack (stack : Stack) (scriptPubKey : Script) : Stack :=
  match evalScript crypto .base .BASE (2 ^ ScriptFlag.EXEC_BYTE_CODE.bit) stack scriptPubKey with
  | .ok stack => stack
  | .error failure => failure.2

/-- `receiveStack`: the opcode and the stack below it. Of an empty item the source reads a byte that was never set. -/
def receiveStack (stack : Stack) (scriptPubKey : Script) : Option (Byte × Stack) :=
  match evaluatedStack crypto stack scriptPubKey with
  | [] => none
  | scriptRest :: stack =>
    let opcode := scriptRest.headD uninitialized
    if opcode = OP_CREATE ∧ stack.length < 4 ∨ opcode = OP_CALL ∧ stack.length < 5 then none
    else some (opcode, stack)

/-- The gas limit and the gas price together, which have to fit into an `int64_t`. -/
def gasFits (gasPrice gasLimit : Nat) : Bool :=
  decide (gasPrice ≤ INT64_MAX) && decide (gasLimit ≤ INT64_MAX) &&
    decide (¬(gasPrice ≠ 0 ∧ gasLimit > INT64_MAX / gasPrice))

/-- `parseEthTXParams`, with the stack it leaves. -/
def parseEthTXParams (opcode : Byte) (stack : Stack) : Option (EthTransactionParams × Stack) :=
  let receiveAddress := if opcode = OP_CALL then Address.ofVch (stack.headD []) else 0
  match if opcode = OP_CALL then stack.tail else stack with
  | code :: vchPrice :: vchLimit :: vchVersion :: stack => do
    guard (code ≠ [])
    let gasPrice ← vchToUint64 vchPrice
    let gasLimit ← vchToUint64 vchLimit
    guard (gasFits gasPrice gasLimit)
    guard (vchVersion.length ≤ 4)
    let version ← vchToUint64 vchVersion
    some (⟨VersionVM.fromRaw version, gasLimit, gasPrice, code, receiveAddress⟩, stack)
  | _ => none

/-- One contract output: the opcode, the parameters and the stack for the next output. -/
def convertOutput (stack : Stack) (scriptPubKey : Script) :
    Option ((Byte × EthTransactionParams) × Stack) := do
  let (opcode, stack) ← receiveStack crypto uninitialized stack scriptPubKey
  let (params, stack) ← parseEthTXParams opcode stack
  some ((opcode, params), stack)

def TxOut.isContract (out : TxOut) : Bool :=
  Script.hasOpCreate out.scriptPubKey || Script.hasOpCall out.scriptPubKey

/-- The loop of `extractionTscTransactions` over the outputs from number `nOut` on. -/
def extractFrom : Stack → Nat → List TxOut → Option (List (Nat × Byte × EthTransactionParams))
  | _, _, [] => some []
  | stack, nOut, out :: vout =>
    if out.isContract then do
      let (converted, stack) ← convertOutput crypto uninitialized stack out.scriptPubKey
      let rest ← extractFrom stack (nOut + 1) vout
      some ((nOut, converted) :: rest)
    else extractFrom stack (nOut + 1) vout

def createEthTX (sender : Address) (hashWith : Uint256) (tx : Tx)
    (converted : Nat × Byte × EthTransactionParams) : TscTransaction where
  sender := sender
  isCreation := converted.2.2.receiveAddress = 0 ∧ converted.2.1 ≠ OP_CALL
  receiveAddress := converted.2.2.receiveAddress
  value := ((tx.vout.getD converted.1 ⟨0, []⟩).nValue % 2 ^ 256).toNat
  gas := converted.2.2.gasLimit
  gasPrice := converted.2.2.gasPrice
  version := converted.2.2.version
  hashWith := hashWith
  nVout := BitVec.ofNat 32 converted.1

/-- `extractionTscTransactions`; the sender is the same for all outputs. -/
def extractionTscTransactions (sender : Address) (hashWith : Uint256) (tx : Tx) :
    Option (List TscTransaction × List EthTransactionParams) :=
  (extractFrom crypto uninitialized [] 0 tx.vout).map fun extracted =>
    (extracted.map (createEthTX sender hashWith tx), extracted.map (·.2.2))

end Converter

theorem sender_of_extraction {crypto : Crypto} {uninitialized : Byte} {sender : Address}
    {hashWith : Uint256} {tx : Tx} {txs : List TscTransaction} {etps : List EthTransactionParams}
    (h : extractionTscTransactions crypto uninitialized sender hashWith tx = some (txs, etps)) :
    ∀ qtx ∈ txs, qtx.sender = sender := by
  obtain ⟨extracted, hextract, heq⟩ := Option.map_eq_some_iff.mp h
  cases heq
  intro qtx hqtx
  obtain ⟨e, he, rfl⟩ := List.mem_map.mp hqtx
  rfl

/-! ### Scripts of data pushes -/

structure ContractOutput where
  version : List Byte
  gasLimit : List Byte
  gasPrice : List Byte
  data : List Byte
  address : Option (List Byte)

namespace ContractOutput

def items (c : ContractOutput) : List (List Byte) :=
  [c.version, c.gasLimit, c.gasPrice, c.data] ++ c.address.toList

def opcode (c : ContractOutput) : Byte := if c.address.isSome then OP_CALL else OP_CREATE

/-- The script pushes these items, and the opcode follows. -/
def Consists (c : ContractOutput) (script : Script) : Prop :=
  ∃ pushes : List (Byte × List Byte), Script.Parses script (pushes ++ [(c.opcode, [])]) ∧
    pushes.map Prod.snd = c.items ∧
    ∀ push ∈ pushes, push.1.toNat ≤ 0x4e

/-- What `Solver` checks. -/
structure Checked (c : ContractOutput) : Prop where
  version_ne_nil : c.version ≠ []
  version_length : c.version.length ≤ 4
  version_sign : (c.version.getLast?.any fun b => b &&& 0x80 != 0) = false
  version_known : VersionVM.fromRaw (Limbs.value c.version) = .evmDefault ∨
    VersionVM.fromRaw (Limbs.value c.version) = .noExec
  gasLimit : (vchToUint64 c.gasLimit).any
    (checkGasLimit true (VersionVM.fromRaw (Limbs.value c.version)).rootVM)
  gasPrice : (vchToUint64 c.gasPrice).any
    (checkGasPrice true (VersionVM.fromRaw (Limbs.value c.version)).rootVM)
  data : c.data ≠ []
  address : ∀ a ∈ c.address, a.length = 20

def params (c : ContractOutput) : EthTransactionParams :=
  ⟨VersionVM.fromRaw (Limbs.value c.version), Limbs.value c.gasLimit, Limbs.value c.gasPrice,
    c.data, Address.ofVch (c.address.getD [])⟩

def Fits (c : ContractOutput) (script : Script) : Prop :=
  script.length ≤ Script.MAX_SCRIPT_SIZE ∧ c.data.length ≤ MAX_SCRIPT_ELEMENT_SIZE ∧
    Limbs.value c.gasLimit * Limbs.value c.gasPrice ≤ INT64_MAX

instance (c : ContractOutput) (script : Script) : Decidable (c.Fits script) :=
  inferInstanceAs (Decidable (_ ∧ _))

end ContractOutput

/-- One operation is `OP_CREATE` or `OP_CALL`, and every other one is a data push. -/
def Script.PushesData (script : Script) : Prop :=
  (Script.operations script).countP (fun op => op.1 == OP_CREATE || op.1 == OP_CALL) = 1 ∧
    ∀ op ∈ Script.operations script, op.1 = OP_CREATE ∨ op.1 = OP_CALL ∨ op.1.toNat ≤ 0x4e

instance (script : Script) : Decidable script.PushesData := inferInstanceAs (Decidable (_ ∧ _))

theorem Script.PushesData.toNat_le {script : Script} (h : script.PushesData)
    {pushes : List (Byte × List Byte)} {opcode : Byte}
    (hopcode : opcode = OP_CREATE ∨ opcode = OP_CALL)
    (hparses : Script.Parses script (pushes ++ [(opcode, [])])) :
    ∀ push ∈ pushes, push.1.toNat ≤ 0x4e := by
  intro push hpush
  have hlast :
      [(opcode, ([] : List Byte))].countP (fun op => op.1 == OP_CREATE || op.1 == OP_CALL) = 1 := by
    rcases hopcode with rfl | rfl <;> decide
  obtain ⟨hcount, hall⟩ := h
  rw [hparses.operations] at hcount hall
  rw [List.countP_append, hlast] at hcount
  have hnone := List.countP_eq_zero.mp (Nat.succ.inj hcount) push hpush
  simp only [Bool.or_eq_true, beq_iff_eq, not_or] at hnone
  rcases hall push (List.mem_append_left _ hpush) with hcreate | hcall | hdata
  · exact absurd hcreate hnone.1
  · exact absurd hcall hnone.2
  · exact hdata

theorem Script.PushesData.not_mem {script : Script} (h : script.PushesData) {opcode : Byte}
    (hother : opcode ≠ OP_CREATE ∧ opcode ≠ OP_CALL ∧ 0x4e < opcode.toNat) (operand : List Byte) :
    (opcode, operand) ∉ Script.operations script := by
  intro hmem
  rcases h.2 _ hmem with hcreate | hcall | hdata
  · exact hother.1 hcreate
  · exact hother.2.1 hcall
  · exact absurd hdata (Nat.not_le.mpr hother.2.2)

theorem Script.PushesData.head_ne {script : Script} (h : script.PushesData) {opcode : Byte}
    (hother : opcode ≠ OP_CREATE ∧ opcode ≠ OP_CALL ∧ 0x4e < opcode.toNat) :
    script.head? ≠ some opcode := by
  intro hhead
  obtain ⟨rest, rfl⟩ := List.head?_eq_some_iff.mp hhead
  obtain ⟨ops, hops⟩ := Script.operations_of_getOp (Script.getOp_of_gt hother.2.2 rest)
  apply h.not_mem hother []
  rw [hops]
  exact List.mem_cons_self

theorem Script.PushesData.isPayToScriptHash_eq_false {script : Script} (h : script.PushesData) :
    Script.isPayToScriptHash script = false := by
  apply eq_false_of_ne_true
  intro hhash
  simp only [Script.isPayToScriptHash, Bool.and_eq_true, beq_iff_eq] at hhash
  have hother : (0xa9 : Byte) ≠ OP_CREATE ∧ (0xa9 : Byte) ≠ OP_CALL ∧
      0x4e < (0xa9 : Byte).toNat := by decide
  apply h.head_ne hother
  rw [List.head?_eq_getElem?]
  exact hhash.1.1.2

theorem Script.PushesData.isWitnessProgram_eq_none {script : Script} (h : script.PushesData) :
    Script.isWitnessProgram script = none := by
  unfold Script.isWitnessProgram
  split
  · rename_i version size program
    apply if_neg
    rintro ⟨hlow, hhigh, hversion, hsize⟩
    rcases hversion with rfl | hversion
    · have hpush : Script.getOp (size :: program) = some (size, program, []) := by
        unfold Script.getOp Script.immediate
        dsimp only
        rw [if_pos (by omega), if_neg (by omega), hsize, List.take_length, List.drop_length]
      have hparses : Script.Parses (0 :: size :: program) [(0, []), (size, program)] :=
        .cons rfl (.cons hpush .nil)
      have hcount := h.1
      rw [hparses.operations] at hcount
      have hcreate : size ≠ OP_CREATE := by
        intro heq
        rw [heq] at hsize
        have : OP_CREATE.toNat = 0xc1 := rfl
        omega
      have hcall : size ≠ OP_CALL := by
        intro heq
        rw [heq] at hsize
        have : OP_CALL.toNat = 0xc2 := rfl
        omega
      have hzero : (0 : Byte) ≠ OP_CREATE ∧ (0 : Byte) ≠ OP_CALL := by decide
      simp only [List.countP_cons, List.countP_nil, hcreate, hcall, hzero.1, hzero.2, beq_iff_eq, or_self,
        Bool.or_eq_true, if_false] at hcount
      exact absurd hcount (by decide)
    · apply h.head_ne _ rfl
      refine ⟨?_, ?_, by omega⟩
      · intro heq
        rw [heq] at hversion
        exact absurd hversion (by decide)
      · intro heq
        rw [heq] at hversion
        exact absurd hversion (by decide)
  · rfl

theorem exists_template_of_pushesData {script : Script} (hsolve : solvesContract script = true)
    (hpush : script.PushesData) :
    ∃ m, matchScript true [.version, .gasLimit, .gasPrice, .data, .op OP_CREATE] script
      ⟨[], ⟨0, 20, 0, 0⟩⟩ = .ok m ∨
      matchScript true [.version, .gasLimit, .gasPrice, .data, .pubkeyHash, .op OP_CALL] script
        ⟨[], ⟨0, 20, 0, 0⟩⟩ = .ok m := by
  have hreturn : ¬(script.head? = some OP_RETURN ∧ Script.isPushOnly script.tail = true) :=
    fun h => hpush.head_ne (by decide) h.1
  have hticket : Script.hasOpSStx script = false := by
    apply eq_false_of_ne_true
    intro hticket
    rw [Script.hasOpSStx, beq_iff_eq] at hticket
    have hother : OP_BUYTICKET ≠ OP_CREATE ∧ OP_BUYTICKET ≠ OP_CALL ∧
        0x4e < OP_BUYTICKET.toNat := by decide
    apply hpush.head_ne hother
    cases script with
    | nil => exact absurd hticket (by decide)
    | cons b rest => exact congrArg some hticket
  unfold solvesContract solver at hsolve
  rw [hpush.isPayToScriptHash_eq_false, hpush.isWitnessProgram_eq_none] at hsolve
  simp only [Bool.false_eq_true, if_false, hreturn, hticket] at hsolve
  obtain ⟨template, htemplate, m, hm, -⟩ := exists_template_of_scanTemplates hsolve
  simp only [mTemplates, List.mem_cons, List.not_mem_nil, or_false] at htemplate
  -- the templates for keys have opcodes that are not in the script
  rcases htemplate with rfl | rfl | rfl | rfl | rfl
  · obtain ⟨ops, hparses, hmem⟩ := exists_parses_of_matchScript (by decide) hm
    refine absurd (hmem 0xac (by decide)) ?_
    rw [← hparses.operations]
    exact hpush.not_mem (by decide) []
  · obtain ⟨ops, hparses, hmem⟩ := exists_parses_of_matchScript (by decide) hm
    refine absurd (hmem 0xac (by decide)) ?_
    rw [← hparses.operations]
    exact hpush.not_mem (by decide) []
  · obtain ⟨ops, hparses, hmem⟩ := exists_parses_of_multisig hm
    refine absurd hmem ?_
    rw [← hparses.operations]
    exact hpush.not_mem (by decide) []
  · exact ⟨m, .inl hm⟩
  · exact ⟨m, .inr hm⟩

theorem exists_contractOutput {script : Script} (hsolve : solvesContract script = true)
    (hpush : script.PushesData) :
    ∃ c : ContractOutput, c.Consists script ∧ c.Checked := by
  obtain ⟨m, hm⟩ := exists_template_of_pushesData hsolve hpush
  rcases hm with hm | hm
  · obtain ⟨op₁, version, rest₁, m₁, hop₁, hversion, hm⟩ := (matchScript_cons_eq_ok_iff (by decide)).mp hm
    obtain ⟨op₂, gasLimit, rest₂, m₂, hop₂, hlimit, hm⟩ := (matchScript_cons_eq_ok_iff (by decide)).mp hm
    obtain ⟨op₃, gasPrice, rest₃, m₃, hop₃, hprice, hm⟩ := (matchScript_cons_eq_ok_iff (by decide)).mp hm
    obtain ⟨op₄, data, rest₄, m₄, hop₄, hdata, hm⟩ := (matchScript_cons_eq_ok_iff (by decide)).mp hm
    obtain ⟨op, operand, rest, m₅, hop, hlast, hm⟩ := (matchScript_cons_eq_ok_iff (by decide)).mp hm
    obtain ⟨rfl, rfl⟩ := op_of_matchItem hlast
    obtain ⟨rfl, _⟩ := matchScript_nil_eq_ok_iff.mp hm
    have hparses :
        Script.Parses script
          ([(op₁, version), (op₂, gasLimit), (op₃, gasPrice), (op₄, data)] ++ [(OP_CREATE, [])]) :=
      .cons hop₁ (.cons hop₂ (.cons hop₃ (.cons hop₄ (.cons hop .nil))))
    have hle := hpush.toNat_le (.inl rfl) hparses
    obtain ⟨hnil, hlength, hsign, hknown, hm₁⟩ :=
      version_of_matchItem (hle (op₁, version) (by simp)) hversion
    obtain ⟨hlimit, rfl⟩ := gasLimit_of_matchItem hlimit
    obtain ⟨hprice, rfl⟩ := gasPrice_of_matchItem hprice
    rw [hm₁] at hlimit hprice
    exact ⟨⟨version, gasLimit, gasPrice, data, none⟩, ⟨_, hparses, rfl, hle⟩,
      ⟨hnil, hlength, hsign, hknown, hlimit, hprice,
        data_of_matchItem (hle (op₄, data) (by simp)) hdata, by simp⟩⟩
  · obtain ⟨op₁, version, rest₁, m₁, hop₁, hversion, hm⟩ := (matchScript_cons_eq_ok_iff (by decide)).mp hm
    obtain ⟨op₂, gasLimit, rest₂, m₂, hop₂, hlimit, hm⟩ := (matchScript_cons_eq_ok_iff (by decide)).mp hm
    obtain ⟨op₃, gasPrice, rest₃, m₃, hop₃, hprice, hm⟩ := (matchScript_cons_eq_ok_iff (by decide)).mp hm
    obtain ⟨op₄, data, rest₄, m₄, hop₄, hdata, hm⟩ := (matchScript_cons_eq_ok_iff (by decide)).mp hm
    obtain ⟨op₅, address, rest₅, m₅, hop₅, haddress, hm⟩ := (matchScript_cons_eq_ok_iff (by decide)).mp hm
    obtain ⟨op, operand, rest, m₆, hop, hlast, hm⟩ := (matchScript_cons_eq_ok_iff (by decide)).mp hm
    obtain ⟨rfl, rfl⟩ := op_of_matchItem hlast
    obtain ⟨rfl, _⟩ := matchScript_nil_eq_ok_iff.mp hm
    have hparses : Script.Parses script
        ([(op₁, version), (op₂, gasLimit), (op₃, gasPrice), (op₄, data), (op₅, address)] ++
          [(OP_CALL, [])]) :=
      .cons hop₁ (.cons hop₂ (.cons hop₃ (.cons hop₄ (.cons hop₅ (.cons hop .nil)))))
    have hle := hpush.toNat_le (.inr rfl) hparses
    obtain ⟨hnil, hlength, hsign, hknown, hm₁⟩ :=
      version_of_matchItem (hle (op₁, version) (by simp)) hversion
    obtain ⟨hlimit, rfl⟩ := gasLimit_of_matchItem hlimit
    obtain ⟨hprice, rfl⟩ := gasPrice_of_matchItem hprice
    rw [hm₁] at hlimit hprice
    exact ⟨⟨version, gasLimit, gasPrice, data, some address⟩, ⟨_, hparses, rfl, hle⟩,
      ⟨hnil, hlength, hsign, hknown, hlimit, hprice, data_of_matchItem (hle (op₄, data) (by simp)) hdata,
        by simpa using pubkeyHash_of_matchItem haddress⟩⟩

/-! ### Evaluating data pushes -/

section Evaluate

variable (crypto : Crypto)

abbrev execFlags : Nat := 2 ^ ScriptFlag.EXEC_BYTE_CODE.bit

theorem evalFrom_push {fuel : Nat} {script rest : Script} {opcode : Byte} {operand : List Byte}
    (stack : Stack) (codehash : Script) (hop : Script.getOp script = some (opcode, operand, rest))
    (hpush : opcode.toNat ≤ 0x4e) (hstack : stack.length < MAX_STACK_SIZE) :
    evalFrom crypto .base .BASE execFlags (fuel + 1) script ⟨stack, [], [], 0, codehash⟩ =
      if operand.length ≤ MAX_SCRIPT_ELEMENT_SIZE then
        evalFrom crypto .base .BASE execFlags fuel rest ⟨operand :: stack, [], [], 0, codehash⟩
      else .error (.PUSH_SIZE, stack) := by
  have hne : script.isEmpty = false := by
    have hlt := Script.length_lt_of_getOp hop
    rw [List.isEmpty_eq_false_iff, ← List.length_pos_iff]
    omega
  have hcount : ¬opcode.toNat > 0x60 := by omega
  have henabled : isDisabledOpcode opcode = false := by
    rw [isDisabledOpcode, decide_eq_false_iff_not]
    intro hmem
    simp only [List.mem_cons, List.not_mem_nil, or_false] at hmem
    omega
  have hminimal : ScriptFlag.MINIMALDATA.isSet execFlags = false := by decide
  rw [evalFrom, hne, if_neg Bool.false_ne_true, hop]
  dsimp only
  by_cases hsize : operand.length ≤ MAX_SCRIPT_ELEMENT_SIZE
  · have hstep : evalOp crypto .base .BASE execFlags opcode operand rest ⟨stack, [], [], 0, codehash⟩ =
        .ok (.next ⟨operand :: stack, [], [], 0, codehash⟩) := by
      have hlimit : (operand :: stack).length + ([] : Stack).length ≤ MAX_STACK_SIZE := by
        rw [List.length_cons, List.length_nil]
        omega
      simp only [evalOp, demand, Except.require_pos hsize, Except.ok_bind, hcount, if_false,
        false_implies, Except.require_pos, henabled, Bool.not_false, dispatch, EvalState.fExec,
          List.all_nil, true_and, hpush, if_true, hminimal, Bool.false_eq_true,
        EvalState.setStack, pure, Except.pure, hlimit]
    rw [hstep, if_pos hsize]
    rfl
  · have hstep :
        evalOp crypto .base .BASE execFlags opcode operand rest ⟨stack, [], [], 0, codehash⟩ =
          .error (.PUSH_SIZE, stack) := by
      rw [evalOp, demand, Except.require, if_neg hsize]
      rfl
    rw [hstep, if_neg hsize]
    rfl

theorem evalFrom_contract {fuel : Nat} {script : Script} {opcode : Byte} (stack : Stack)
    (codehash : Script) (hop : Script.getOp script = some (opcode, [], []))
    (hopcode : opcode = OP_CREATE ∨ opcode = OP_CALL) :
    evalFrom crypto .base .BASE execFlags (fuel + 1) script ⟨stack, [], [], 0, codehash⟩ =
      .ok ([opcode] :: stack) := by
  have hne : script.isEmpty = false := by
    have hlt := Script.length_lt_of_getOp hop
    rw [List.isEmpty_eq_false_iff, ← List.length_pos_iff]
    omega
  rw [evalFrom, hne, hop]
  rcases hopcode with rfl | rfl
  · rfl
  · rfl

theorem evalFrom_pushes {pushes : List (Byte × List Byte)} {fuel : Nat} {script : Script}
    {opcode : Byte} (stack : Stack) (codehash : Script)
    (hparses : Script.Parses script (pushes ++ [(opcode, [])]))
    (hopcode : opcode = OP_CREATE ∨ opcode = OP_CALL)
    (hpush : ∀ push ∈ pushes, push.1.toNat ≤ 0x4e ∧ push.2.length ≤ MAX_SCRIPT_ELEMENT_SIZE)
    (hfuel : script.length ≤ fuel) (hstack : stack.length + pushes.length ≤ MAX_STACK_SIZE) :
    evalFrom crypto .base .BASE execFlags fuel script ⟨stack, [], [], 0, codehash⟩ =
      .ok ([opcode] :: ((pushes.map Prod.snd).reverse ++ stack)) := by
  induction pushes generalizing script stack fuel with
  | nil =>
    rw [List.nil_append] at hparses
    cases hparses with
    | cons hop hrest =>
      cases hrest
      have hlt := Script.length_lt_of_getOp hop
      obtain ⟨n, rfl⟩ : ∃ n, fuel = n + 1 := ⟨fuel - 1, by omega⟩
      exact evalFrom_contract crypto stack codehash hop hopcode
  | cons push pushes ih =>
    obtain ⟨op, operand⟩ := push
    rw [List.cons_append] at hparses
    cases hparses with
    | cons hop hrest =>
      obtain ⟨hdata, hsize⟩ := hpush (op, operand) List.mem_cons_self
      have hlt := Script.length_lt_of_getOp hop
      obtain ⟨n, rfl⟩ : ∃ n, fuel = n + 1 := ⟨fuel - 1, by omega⟩
      rw [List.length_cons] at hstack
      rw [evalFrom_push crypto stack codehash hop hdata (by omega), if_pos hsize,
        ih (operand :: stack) hrest (fun p hp => hpush p (List.mem_cons_of_mem _ hp)) (by omega)
          (by rw [List.length_cons]; omega),
        List.map_cons, List.reverse_cons, List.append_assoc]
      rfl

theorem evalFrom_tooLarge {before after : List (Byte × List Byte)} {op : Byte} {operand : List Byte}
    {fuel : Nat} {script : Script} (stack : Stack) (codehash : Script)
    (hparses : Script.Parses script (before ++ (op, operand) :: after))
    (hpush : ∀ push ∈ before, push.1.toNat ≤ 0x4e ∧ push.2.length ≤ MAX_SCRIPT_ELEMENT_SIZE)
    (hop : op.toNat ≤ 0x4e) (hlarge : ¬operand.length ≤ MAX_SCRIPT_ELEMENT_SIZE)
    (hfuel : script.length ≤ fuel) (hstack : stack.length + before.length < MAX_STACK_SIZE) :
    evalFrom crypto .base .BASE execFlags fuel script ⟨stack, [], [], 0, codehash⟩ =
      .error (.PUSH_SIZE, (before.map Prod.snd).reverse ++ stack) := by
  induction before generalizing script stack fuel with
  | nil =>
    rw [List.nil_append] at hparses
    cases hparses with
    | cons hget hrest =>
      have hlt := Script.length_lt_of_getOp hget
      obtain ⟨n, rfl⟩ : ∃ n, fuel = n + 1 := ⟨fuel - 1, by omega⟩
      rw [evalFrom_push crypto stack codehash hget hop hstack, if_neg hlarge]
      rfl
  | cons push before ih =>
    obtain ⟨op₁, operand₁⟩ := push
    rw [List.cons_append] at hparses
    cases hparses with
    | cons hget hrest =>
      obtain ⟨hdata, hsize⟩ := hpush (op₁, operand₁) List.mem_cons_self
      have hlt := Script.length_lt_of_getOp hget
      obtain ⟨n, rfl⟩ : ∃ n, fuel = n + 1 := ⟨fuel - 1, by omega⟩
      rw [List.length_cons] at hstack
      rw [evalFrom_push crypto stack codehash hget hdata (by omega), if_pos hsize,
        ih (operand₁ :: stack) hrest (fun p hp => hpush p (List.mem_cons_of_mem _ hp)) (by omega)
          (by rw [List.length_cons]; omega),
        List.map_cons, List.reverse_cons, List.append_assoc]
      rfl

end Evaluate

/-! ### The parameters of an output -/

theorem toNat_lt_of_and_eq_zero (b : Byte) (h : (b &&& 0x80 != 0) = false) : b.toNat < 128 := by
  revert b
  decide

theorem lt_of_vchToUint64 {vch : List Byte} {n : Nat} (h : vchToUint64 vch = some n) :
    n = Limbs.value vch ∧ n ≤ INT64_MAX := by
  unfold vchToUint64 at h
  split_ifs at h with hlength hsign
  cases h
  refine ⟨rfl, ?_⟩
  rw [Bool.not_eq_true] at hsign
  rcases List.eq_nil_or_concat vch with rfl | ⟨init, last, rfl⟩
  · exact Nat.zero_le _
  · rw [List.concat_eq_append] at hlength hsign ⊢
    rw [List.getLast?_concat, Option.any_some] at hsign
    rw [List.length_append, List.length_singleton] at hlength
    have hlast := toNat_lt_of_and_eq_zero last hsign
    have hinit : Limbs.value init < 2 ^ (8 * init.length) := Limbs.value_lt init
    have hpow : 2 ^ (8 * init.length) ≤ 2 ^ 56 := Nat.pow_le_pow_right (by decide) (by omega)
    have hmul : 2 ^ (8 * init.length) * last.toNat ≤ 2 ^ 56 * 127 := Nat.mul_le_mul hpow (by omega)
    rw [Limbs.value_append, Limbs.value_cons, Limbs.value_nil, Nat.mul_zero, Nat.add_zero, INT64_MAX]
    omega

theorem vchToUint64_of_any {vch : List Byte} {p : Nat → Bool} (h : (vchToUint64 vch).any p = true) :
    vchToUint64 vch = some (Limbs.value vch) ∧ Limbs.value vch ≤ INT64_MAX ∧ vch.length ≤ 8 := by
  cases hn : vchToUint64 vch with
  | none =>
    rw [hn] at h
    cases h
  | some n =>
    obtain ⟨rfl, hle⟩ := lt_of_vchToUint64 hn
    refine ⟨rfl, hle, ?_⟩
    by_contra hlong
    rw [vchToUint64, if_pos (by omega)] at hn
    cases hn

theorem gasFits_iff {gasPrice gasLimit : Nat} (hprice : gasPrice ≤ INT64_MAX)
    (hlimit : gasLimit ≤ INT64_MAX) :
    gasFits gasPrice gasLimit = true ↔ gasLimit * gasPrice ≤ INT64_MAX := by
  simp only [gasFits, hprice, hlimit, decide_true, Bool.true_and, decide_eq_true_eq, not_and, Nat.not_lt]
  rcases Nat.eq_zero_or_pos gasPrice with rfl | hpos
  · simp
  · rw [Nat.le_div_iff_mul_le hpos]
    exact ⟨fun h => h (by omega), fun h _ => h⟩

theorem convertOutput_eq_none {crypto : Crypto} {uninitialized : Byte} {stack : Stack}
    {script : Script} (hshort : (evaluatedStack crypto stack script).length ≤ 4) :
    convertOutput crypto uninitialized stack script = none := by
  unfold convertOutput receiveStack
  cases hstack : evaluatedStack crypto stack script with
  | nil => rfl
  | cons scriptRest rest =>
    rw [hstack, List.length_cons] at hshort
    dsimp only
    split
    · rfl
    · rw [Option.bind_eq_bind, Option.bind_some]
      have hnone (opcode : Byte) : parseEthTXParams opcode rest = none := by
        have hlength : (if opcode = OP_CALL then rest.tail else rest).length ≤ 3 := by
          split
          · rw [List.length_tail]
            omega
          · omega
        unfold parseEthTXParams
        dsimp only
        split
        · rename_i heq
          rw [heq] at hlength
          simp only [List.length_cons] at hlength
          omega
        · rfl
      rw [hnone]
      rfl

namespace ContractOutput

variable {c : ContractOutput} {script : Script} (crypto : Crypto)

theorem Checked.vchToUint64_version (h : c.Checked) :
    vchToUint64 c.version = some (Limbs.value c.version) := by
  have hlength := h.version_length
  rw [vchToUint64, if_neg (by omega), h.version_sign]
  rfl

theorem Checked.parseEthTXParams (h : c.Checked) :
    parseEthTXParams c.opcode c.items.reverse =
      if Limbs.value c.gasLimit * Limbs.value c.gasPrice ≤ INT64_MAX then some (c.params, [])
      else none := by
  obtain ⟨hlimit, hlimitLe, _⟩ := vchToUint64_of_any h.gasLimit
  obtain ⟨hprice, hpriceLe, _⟩ := vchToUint64_of_any h.gasPrice
  have hversion := h.vchToUint64_version
  have hfits := gasFits_iff hpriceLe hlimitLe
  have hlength := h.version_length
  have hdata := h.data
  obtain ⟨version, gasLimit, gasPrice, data, address⟩ := c
  cases address with
  | none =>
    have hne : OP_CREATE ≠ OP_CALL := by decide
    simp only [TscPow.parseEthTXParams, items, opcode, Option.toList_none, Option.isSome_none,
      Bool.false_eq_true, if_false, hne, List.append_nil, List.reverse_cons, List.reverse_nil,
        List.nil_append, List.cons_append, hprice, hlimit, hversion, hlength, hdata, ne_eq,
      not_false_eq_true, guard_true, Option.bind_eq_bind, Option.bind_some, pure, params,
        Option.getD_none]
    by_cases hproduct : Limbs.value gasLimit * Limbs.value gasPrice ≤ INT64_MAX
    · rw [if_pos hproduct, hfits.mpr hproduct]
      rfl
    · rw [if_neg hproduct, eq_false_of_ne_true (mt hfits.mp hproduct)]
      rfl
  | some a =>
    simp only [TscPow.parseEthTXParams, items, opcode, Option.toList_some, Option.isSome_some,
      if_true, List.cons_append, List.nil_append, List.reverse_cons, List.reverse_nil,
        List.headD_cons, List.tail_cons, hprice, hlimit, hversion, hlength, hdata, ne_eq,
      not_false_eq_true, guard_true, Option.bind_eq_bind, Option.bind_some, pure, params,
        Option.getD_some]
    by_cases hproduct : Limbs.value gasLimit * Limbs.value gasPrice ≤ INT64_MAX
    · rw [if_pos hproduct, hfits.mpr hproduct]
      rfl
    · rw [if_neg hproduct, eq_false_of_ne_true (mt hfits.mp hproduct)]
      rfl

theorem opcode_eq (c : ContractOutput) : c.opcode = OP_CREATE ∨ c.opcode = OP_CALL := by
  unfold opcode
  split
  · exact .inr rfl
  · exact .inl rfl

theorem evaluatedStack_of_tooLong (hlong : ¬script.length ≤ Script.MAX_SCRIPT_SIZE) (stack : Stack) :
    evaluatedStack crypto stack script = stack := by
  rw [evaluatedStack, evalScript, demand, Except.require, if_neg hlong]
  rfl

theorem evaluatedStack_of_evalFrom (hsize : script.length ≤ Script.MAX_SCRIPT_SIZE) {stack stack' : Stack}
    (heval : evalFrom crypto .base .BASE execFlags script.length script ⟨stack, [], [], 0, script⟩ =
      .ok stack' ∨
      evalFrom crypto .base .BASE execFlags script.length script ⟨stack, [], [], 0, script⟩ =
        .error (.PUSH_SIZE, stack')) :
    evaluatedStack crypto stack script = stack' := by
  rw [evaluatedStack, evalScript, demand, Except.require_pos hsize, Except.ok_bind]
  rcases heval with heval | heval <;> rw [heval]

theorem Checked.evaluatedStack (h : c.Checked) (hc : c.Consists script)
    (hsize : script.length ≤ Script.MAX_SCRIPT_SIZE) :
    evaluatedStack crypto [] script =
      if c.data.length ≤ MAX_SCRIPT_ELEMENT_SIZE then [c.opcode] :: c.items.reverse
      else [c.gasPrice, c.gasLimit, c.version] := by
  obtain ⟨pushes, hparses, hitems, hpush⟩ := hc
  obtain ⟨_, _, hlimit⟩ := vchToUint64_of_any h.gasLimit
  obtain ⟨_, _, hprice⟩ := vchToUint64_of_any h.gasPrice
  have hversion := h.version_length
  have hlarge : 20 ≤ MAX_SCRIPT_ELEMENT_SIZE := by decide
  have hlength : pushes.length ≤ 5 := by
    rw [← List.length_map Prod.snd, hitems, items, List.length_append]
    have : c.address.toList.length ≤ 1 := by
      cases c.address <;> simp
    simp only [List.length_cons, List.length_nil]
    omega
  have hroom : ([] : Stack).length + pushes.length ≤ MAX_STACK_SIZE := by
    rw [List.length_nil, MAX_STACK_SIZE]
    omega
  split
  · rename_i hdata
    apply evaluatedStack_of_evalFrom crypto hsize
    left
    have hsmall : ∀ push ∈ pushes, push.1.toNat ≤ 0x4e ∧ push.2.length ≤ MAX_SCRIPT_ELEMENT_SIZE := by
      intro push hmem
      refine ⟨hpush push hmem, ?_⟩
      have hitem : push.2 ∈ c.items := hitems ▸ List.mem_map_of_mem hmem
      simp only [items, List.mem_append, List.mem_cons, List.not_mem_nil, or_false,
        Option.mem_toList] at hitem
      rcases hitem with (heq | heq | heq | heq) | heq
      · rw [heq]
        omega
      · rw [heq]
        omega
      · rw [heq]
        omega
      · rw [heq]
        exact hdata
      · rw [h.address push.2 heq]
        exact hlarge
    rw [evalFrom_pushes crypto [] script hparses c.opcode_eq hsmall le_rfl hroom, hitems, List.append_nil]
  · rename_i hdata
    apply evaluatedStack_of_evalFrom crypto hsize
    right
    -- the data is the fourth push
    obtain ⟨p₁, pushes, rfl, hp₁, hitems⟩ := List.map_eq_cons_iff.mp hitems
    obtain ⟨p₂, pushes, rfl, hp₂, hitems⟩ := List.map_eq_cons_iff.mp hitems
    obtain ⟨p₃, pushes, rfl, hp₃, hitems⟩ := List.map_eq_cons_iff.mp hitems
    obtain ⟨⟨op, operand⟩, pushes, rfl, hp₄, hitems⟩ := List.map_eq_cons_iff.mp hitems
    have hbefore : ∀ push ∈ [p₁, p₂, p₃], push.1.toNat ≤ 0x4e ∧
        push.2.length ≤ MAX_SCRIPT_ELEMENT_SIZE := by
      intro push hmem
      simp only [List.mem_cons, List.not_mem_nil, or_false] at hmem
      rcases hmem with rfl | rfl | rfl
      · exact ⟨hpush _ (by simp), by rw [hp₁]; omega⟩
      · exact ⟨hpush _ (by simp), by rw [hp₂]; omega⟩
      · exact ⟨hpush _ (by simp), by rw [hp₃]; omega⟩
    have hop : op.toNat ≤ 0x4e := hpush (op, operand) (by simp)
    have hbig : ¬operand.length ≤ MAX_SCRIPT_ELEMENT_SIZE := by
      rw [show operand = c.data from hp₄]
      exact hdata
    have hparses :
        Script.Parses script ([p₁, p₂, p₃] ++ (op, operand) :: (pushes ++ [(c.opcode, [])])) :=
      hparses
    rw [evalFrom_tooLarge crypto [] script hparses hbefore hop hbig le_rfl (show 3 < 1000 by decide)]
    simp only [List.map_cons, List.map_nil, hp₁, hp₂, hp₃, List.reverse_cons, List.reverse_nil,
      List.nil_append, List.cons_append, List.append_nil]

theorem Checked.convertOutput (uninitialized : Byte) (h : c.Checked) (hc : c.Consists script) :
    convertOutput crypto uninitialized [] script = if c.Fits script then
      some ((c.opcode, c.params), []) else none := by
  by_cases hsize : script.length ≤ Script.MAX_SCRIPT_SIZE
  · have hstack := h.evaluatedStack crypto hc hsize
    by_cases hdata : c.data.length ≤ MAX_SCRIPT_ELEMENT_SIZE
    · rw [if_pos hdata] at hstack
      have hcount : ¬(([c.opcode].headD uninitialized) = OP_CREATE ∧ c.items.reverse.length < 4 ∨
          ([c.opcode].headD uninitialized) = OP_CALL ∧ c.items.reverse.length < 5) := by
        rw [List.length_reverse, items, List.length_append, List.headD_cons, opcode]
        cases c.address with
        | none =>
          have hne : OP_CREATE ≠ OP_CALL := by decide
          simp [hne]
        | some a => simp
      rw [TscPow.convertOutput, receiveStack, hstack]
      dsimp only
      rw [if_neg hcount, Option.bind_eq_bind, Option.bind_some]
      dsimp only
      rw [List.headD_cons, h.parseEthTXParams]
      by_cases hproduct : Limbs.value c.gasLimit * Limbs.value c.gasPrice ≤ INT64_MAX
      · rw [if_pos hproduct, if_pos ⟨hsize, hdata, hproduct⟩]
        rfl
      · rw [if_neg hproduct, if_neg fun hfits => hproduct hfits.2.2]
        rfl
    · rw [if_neg hdata] at hstack
      rw [if_neg fun hfits => hdata hfits.2.1]
      apply convertOutput_eq_none
      rw [hstack]
      exact (by decide : 3 ≤ 4)
  · rw [if_neg fun hfits => hsize hfits.1]
    apply convertOutput_eq_none
    rw [evaluatedStack_of_tooLong crypto hsize]
    decide

end ContractOutput

/-! ### Contract outputs of accepted transactions -/

theorem Script.PushesData.isContract {out : TxOut} (h : out.scriptPubKey.PushesData) :
    out.isContract = true := by
  have hle (opcode : Byte) (hopcode : opcode = OP_CREATE ∨ opcode = OP_CALL) :
      Script.find out.scriptPubKey opcode ≤ 1 := by
    rw [← h.1]
    apply List.countP_mono_left
    intro op _ hop
    rw [beq_iff_eq] at hop
    rw [hop]
    rcases hopcode with rfl | rfl <;> rfl
  have hpos : 0 < (Script.operations out.scriptPubKey).countP
      (fun op => op.1 == OP_CREATE || op.1 == OP_CALL) := by
    rw [h.1]
    exact Nat.one_pos
  obtain ⟨op, hmem, hop⟩ := List.countP_pos_iff.mp hpos
  have hone (opcode : Byte) (hopcode : opcode = OP_CREATE ∨ opcode = OP_CALL) (heq : op.1 = opcode) :
      Script.find out.scriptPubKey opcode = 1 := by
    apply Nat.le_antisymm (hle opcode hopcode)
    exact List.countP_pos_iff.mpr ⟨op, hmem, by rw [heq, beq_self_eq_true]⟩
  rw [Bool.or_eq_true, beq_iff_eq, beq_iff_eq] at hop
  rw [TxOut.isContract, Script.hasOpCreate, Script.hasOpCall, Bool.or_eq_true, beq_iff_eq, beq_iff_eq]
  rcases hop with hcreate | hcall
  · exact .inl (hone _ (.inl rfl) hcreate)
  · exact .inr (hone _ (.inr rfl) hcall)

section Accepted

variable {interpreter : Interpreter} {limits : Limits} {tx : Tx} {fCheckDuplicateInputs : Bool}

theorem solvesContract_of_checkTransaction
    (hcheck : checkTransaction { interpreter with solver := solvesContract } limits tx
      fCheckDuplicateInputs = .ok ()) {out : TxOut}
    (hout : out ∈ tx.vout) (hcontract : out.isContract = true) :
    solvesContract out.scriptPubKey = true := by
  simp only [checkTransaction, Except.bind_eq_ok_iff] at hcheck
  obtain ⟨-, -, -, -, -, -, total, hfold, -⟩ := hcheck
  obtain ⟨i, hi⟩ := List.mem_iff_getElem?.mp hout
  obtain ⟨_, _, -, hstep, -⟩ := Except.foldlM_step hfold hi
  simp only [checkOutput, Except.bind_eq_ok_iff, rule_eq_ok_iff] at hstep
  obtain ⟨-, -, -, -, -, -, -, -, -, hsolve, -⟩ := hstep
  rw [TxOut.isContract, Bool.or_eq_true] at hcontract
  exact hsolve hcontract.symm

/-- What consensus validated is what gets executed: an output of data pushes and one contract opcode has the form that `Solver` checked, and the converter extracts its items, unless the limits of the interpreter or of the gas price make it refuse. -/
theorem extracts_what_solver_checked (crypto : Crypto) (uninitialized : Byte)
    (hcheck : checkTransaction { interpreter with solver := solvesContract } limits tx
      fCheckDuplicateInputs = .ok ()) {out : TxOut}
    (hout : out ∈ tx.vout) (hpush : out.scriptPubKey.PushesData) :
    ∃ c : ContractOutput, c.Consists out.scriptPubKey ∧ c.Checked ∧
      convertOutput crypto uninitialized [] out.scriptPubKey = if c.Fits out.scriptPubKey then
        some ((c.opcode, c.params), []) else none := by
  have hsolve := solvesContract_of_checkTransaction hcheck hout hpush.isContract
  obtain ⟨c, hc, hchecked⟩ := exists_contractOutput hsolve hpush
  exact ⟨c, hc, hchecked, hchecked.convertOutput crypto uninitialized hc⟩

end Accepted

/-! ### The outputs of one transaction -/

def yielded (crypto : Crypto) (uninitialized : Byte) (vout : List TxOut) (nOut : Nat) :
    Option (Byte × EthTransactionParams) :=
  (extractFrom crypto uninitialized [] 0 vout).bind (·.lookup nOut)

/-- Every contract output of a converted transaction gives what it gives alone. -/
def OutputsIndependent (crypto : Crypto) (uninitialized : Byte) (tx : Tx) : Prop :=
  (extractFrom crypto uninitialized [] 0 tx.vout).isSome = true →
    ∀ nOut out, tx.vout[nOut]? = some out → out.isContract = true →
      yielded crypto uninitialized tx.vout nOut = yielded crypto uninitialized [out] 0

/-- A contract output that another one follows consists of data pushes and its opcode. -/
def FollowedPushData (vout : List TxOut) : Prop :=
  vout.Pairwise fun out later => out.isContract = true → later.isContract = true →
    out.scriptPubKey.PushesData

instance (vout : List TxOut) : Decidable (FollowedPushData vout) :=
  inferInstanceAs (Decidable (vout.Pairwise _))

section Independent

variable {crypto : Crypto} {uninitialized : Byte}

theorem yielded_singleton {out : TxOut} (hcontract : out.isContract = true) :
    yielded crypto uninitialized [out] 0 =
      (convertOutput crypto uninitialized [] out.scriptPubKey).map Prod.fst := by
  rw [yielded, extractFrom, if_pos hcontract]
  cases convertOutput crypto uninitialized [] out.scriptPubKey with
  | none => rfl
  | some converted => rfl

theorem stack_of_pushesData {script : Script} (hsolve : solvesContract script = true)
    (hpush : script.PushesData) {converted : Byte × EthTransactionParams} {stack : Stack}
    (h : convertOutput crypto uninitialized [] script = some (converted, stack)) : stack = [] := by
  obtain ⟨c, hc, hchecked⟩ := exists_contractOutput hsolve hpush
  rw [hchecked.convertOutput crypto uninitialized hc] at h
  split at h
  · cases h
    rfl
  · cases h

theorem lookup_extractFrom {vout : List TxOut} (hfollowed : FollowedPushData vout)
    (hsolve : ∀ out ∈ vout, out.isContract = true → solvesContract out.scriptPubKey = true) {start : Nat}
    {extracted : List (Nat × Byte × EthTransactionParams)}
    (h : extractFrom crypto uninitialized [] start vout = some extracted) {i : Nat} {out : TxOut}
    (hi : vout[i]? = some out) (hcontract : out.isContract = true) :
    extracted.lookup (start + i) =
      (convertOutput crypto uninitialized [] out.scriptPubKey).map Prod.fst := by
  induction vout generalizing start extracted i with
  | nil => cases hi
  | cons first vout ih =>
    obtain ⟨hfirst, hrest⟩ := List.pairwise_cons.mp hfollowed
    have hsolveRest : ∀ o ∈ vout, o.isContract = true → solvesContract o.scriptPubKey = true :=
      fun o ho => hsolve o (List.mem_cons_of_mem _ ho)
    rw [extractFrom] at h
    by_cases hcase : first.isContract = true
    · rw [if_pos hcase] at h
      obtain ⟨⟨converted, stack⟩, hconvert, h⟩ := Option.bind_eq_some_iff.mp h
      obtain ⟨rest, hextract, h⟩ := Option.bind_eq_some_iff.mp h
      cases h
      cases i with
      | zero =>
        cases hi
        rw [hconvert]
        exact List.lookup_cons_self
      | succ i =>
        rw [List.getElem?_cons_succ] at hi
        -- another contract output follows, so the stack is empty again
        have hmem : out ∈ vout := List.mem_of_getElem? hi
        have hempty : stack = [] :=
          stack_of_pushesData (hsolve first List.mem_cons_self hcase)
            (hfirst out hmem hcase hcontract) hconvert
        rw [hempty] at hextract
        have hne : (start + (i + 1) == start) = false := by
          rw [beq_eq_false_iff_ne]
          omega
        rw [List.lookup_cons, hne, ← ih hrest hsolveRest hextract hi, Nat.add_right_comm, Nat.add_assoc]
    · rw [if_neg hcase] at h
      cases i with
      | zero =>
        cases hi
        exact absurd hcontract hcase
      | succ i =>
        rw [List.getElem?_cons_succ] at hi
        rw [← ih hrest hsolveRest h hi, Nat.add_right_comm, Nat.add_assoc]

/-- In a transaction whose contract outputs push data, except perhaps the last of them, no output has an influence on another. -/
theorem outputsIndependent_of_followedPushData (crypto : Crypto) (uninitialized : Byte)
    {interpreter : Interpreter} {limits : Limits} {tx : Tx} {fCheckDuplicateInputs : Bool}
    (hcheck : checkTransaction { interpreter with solver := solvesContract } limits tx
      fCheckDuplicateInputs = .ok ())
    (hfollowed : FollowedPushData tx.vout) : OutputsIndependent crypto uninitialized tx := by
  intro hsome nOut out hout hcontract
  obtain ⟨extracted, hextracted⟩ := Option.isSome_iff_exists.mp hsome
  have hlookup :=
    lookup_extractFrom hfollowed (fun o ho => solvesContract_of_checkTransaction hcheck ho)
      hextracted hout hcontract
  rw [Nat.zero_add] at hlookup
  rw [yielded_singleton hcontract, yielded, hextracted, Option.bind_some, hlookup]

end Independent

namespace ContractScripts

def crypto : Crypto := ⟨id, id, id, id, id, fun _ => true⟩

def interpreter : Interpreter := ⟨fun _ => true, fun _ _ _ _ => none, fun _ _ _ => 0⟩

def txOf (scripts : List Script) : Tx :=
  ⟨2, [⟨⟨.ofNat 1, 0⟩, [], SEQUENCE_FINAL, []⟩], scripts.map fun script => ⟨0, script⟩, 0⟩

def Accepted (scripts : List Script) : Prop :=
  checkTransaction { interpreter with solver := solvesContract } (.ofBlockSize 2000000)
    (txOf scripts) true = .ok ()

/-- `<4> <100000> <40> <1> OP_CREATE`. -/
def create : Script := [1, 4, 3, 0xa0, 0x86, 1, 1, 40, 1, 1, OP_CREATE]

/-- `<4> <1000000000> <2^62> <1> OP_CREATE`: the product of gas limit and gas price is too large. -/
def createOverflow : Script :=
  [1, 4, 4, 0, 0xca, 0x9a, 0x3b, 8, 0, 0, 0, 0, 0, 0, 0, 0x40, 1, 1, OP_CREATE]

/-- `OP_DEPTH <100000> <40> <1> OP_CREATE`. -/
def createDepth : Script := [0x74, 3, 0xa0, 0x86, 1, 1, 40, 1, 1, OP_CREATE]

/-- `<4> <100000> <40> OP_3DUP OP_CREATE`, which leaves two items on the stack. -/
def createDup : Script := [1, 4, 3, 0xa0, 0x86, 1, 1, 40, 0x6f, OP_CREATE]

theorem extracts_what_solver_checked_create :
    Accepted [create] ∧ create.PushesData ∧ ∃ c : ContractOutput, c.Consists create ∧ c.Checked ∧
      convertOutput crypto 0 [] create = if c.Fits create then some ((c.opcode, c.params), [])
        else none := by
  have hcheck : Accepted [create] := by
    unfold Accepted
    decide +kernel
  have hpush : create.PushesData := by decide
  have hmem : (⟨0, create⟩ : TxOut) ∈ (txOf [create]).vout := List.mem_cons_self
  exact ⟨hcheck, hpush, extracts_what_solver_checked crypto 0 hcheck hmem hpush⟩

/-- Four pushes and the opcode, but nothing is extracted; and a script that is accepted without being four pushes and the opcode. -/
theorem refused_by_converter :
    (Accepted [createOverflow] ∧ createOverflow.PushesData ∧
      convertOutput crypto 0 [] createOverflow = none) ∧
      Accepted [createDepth] ∧ Script.hasOpCreate createDepth = true ∧
        (∀ c : ContractOutput, ¬c.Consists createDepth) := by
  have haccepted : Accepted [createOverflow] := by
    unfold Accepted
    decide +kernel
  have haccepted' : Accepted [createDepth] := by
    unfold Accepted
    decide +kernel
  refine ⟨⟨haccepted, by decide, by decide +kernel⟩, haccepted', by decide, ?_⟩
  rintro c ⟨pushes, hparses, -, hpush⟩
  have hops : Script.operations createDepth =
      [(0x74, []), (3, [0xa0, 0x86, 1]), (1, [40]), (1, [1]), (OP_CREATE, [])] := by decide
  rw [hparses.operations] at hops
  cases pushes with
  | nil => exact absurd (congrArg List.length hops) (by simp)
  | cons push pushes =>
    have hhead := List.head_eq_of_cons_eq hops
    have hle := hpush push List.mem_cons_self
    rw [hhead] at hle
    exact absurd hle (by decide)

theorem outputsIndependent_two :
    Accepted [create, createDepth] ∧ FollowedPushData (txOf [create, createDepth]).vout ∧
    OutputsIndependent crypto 0 (txOf [create, createDepth]) := by
  have hcheck : Accepted [create, createDepth] := by
    unfold Accepted
    decide +kernel
  have hfollowed : FollowedPushData (txOf [create, createDepth]).vout := by decide
  exact ⟨hcheck, hfollowed, outputsIndependent_of_followedPushData crypto 0 hcheck hfollowed⟩

/-- After an output that leaves two items, the second output has version 2; alone it has version 0. -/
theorem not_outputsIndependent : Accepted [createDup, createDepth] ∧
    ¬OutputsIndependent crypto 0 (txOf [createDup, createDepth]) ∧
    (yielded crypto 0 (txOf [createDup, createDepth]).vout 1).map (·.2.version) = some
    (VersionVM.fromRaw 2) ∧
    (yielded crypto 0 [⟨0, createDepth⟩] 0).map (·.2.version) = some (VersionVM.fromRaw 0) := by
  have hcheck : Accepted [createDup, createDepth] := by
    unfold Accepted
    decide +kernel
  have htogether : (yielded crypto 0 (txOf [createDup, createDepth]).vout 1).map (·.2.version) =
      some (VersionVM.fromRaw 2) := by decide +kernel
  have halone : (yielded crypto 0 [⟨0, createDepth⟩] 0).map (·.2.version) =
      some (VersionVM.fromRaw 0) := by decide +kernel
  refine ⟨hcheck, ?_, htogether, halone⟩
  intro h
  have hsame := h (by decide +kernel) 1 ⟨0, createDepth⟩ rfl (by decide)
  rw [hsame, halone] at htogether
  exact absurd htogether (by decide)

end ContractScripts

end TscPow
