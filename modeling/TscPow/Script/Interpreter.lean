import TscPow.Base.Fault
import TscPow.Script.Script

/-!
# The script interpreter

`EvalScript` and `VerifyScript` (`script/interpreter.cpp`). A script is a list of operations on a stack; evaluation is one pass over it. `OP_SPEND` ends the evaluation with success, `OP_CREATE` and `OP_CALL` push what is left of the script and end it with success too.

A failed evaluation leaves the stack as it was at that moment, because `EvalScript` works on the stack of its caller: an error carries this stack. The top of a stack is the head of the list. Hash functions and signature checks are parameters.
-/

namespace TscPow

/-! ### Flags and errors -/

inductive ScriptFlag where
  | P2SH
  | STRICTENC
  | DERSIG
  | LOW_S
  | NULLDUMMY
  | SIGPUSHONLY
  | MINIMALDATA
  | DISCOURAGE_UPGRADABLE_NOPS
  | CLEANSTACK
  | CHECKLOCKTIMEVERIFY
  | CHECKSEQUENCEVERIFY
  | WITNESS
  | DISCOURAGE_UPGRADABLE_WITNESS_PROGRAM
  | MINIMALIF
  | NULLFAIL
  | WITNESS_PUBKEYTYPE
  | EXEC_BYTE_CODE
deriving DecidableEq

namespace ScriptFlag

def bit : ScriptFlag → Nat
  | P2SH => 0
  | STRICTENC => 1
  | DERSIG => 2
  | LOW_S => 3
  | NULLDUMMY => 4
  | SIGPUSHONLY => 5
  | MINIMALDATA => 6
  | DISCOURAGE_UPGRADABLE_NOPS => 7
  | CLEANSTACK => 8
  | CHECKLOCKTIMEVERIFY => 9
  | CHECKSEQUENCEVERIFY => 10
  | WITNESS => 11
  | DISCOURAGE_UPGRADABLE_WITNESS_PROGRAM => 12
  | MINIMALIF => 13
  | NULLFAIL => 14
  | WITNESS_PUBKEYTYPE => 15
  | EXEC_BYTE_CODE => 30

def isSet (flag : ScriptFlag) (flags : Nat) : Bool := flags.testBit flag.bit

end ScriptFlag

inductive ScriptError where
  | UNKNOWN_ERROR
  | EVAL_FALSE
  | OP_RETURN
  | SCRIPT_SIZE
  | PUSH_SIZE
  | OP_COUNT
  | STACK_SIZE
  | SIG_COUNT
  | PUBKEY_COUNT
  | VERIFY
  | EQUALVERIFY
  | CHECKMULTISIGVERIFY
  | CHECKSIGVERIFY
  | NUMEQUALVERIFY
  | BAD_OPCODE
  | DISABLED_OPCODE
  | INVALID_STACK_OPERATION
  | INVALID_ALTSTACK_OPERATION
  | UNBALANCED_CONDITIONAL
  | NEGATIVE_LOCKTIME
  | UNSATISFIED_LOCKTIME
  | SIG_HASHTYPE
  | SIG_DER
  | MINIMALDATA
  | SIG_PUSHONLY
  | SIG_HIGH_S
  | SIG_NULLDUMMY
  | PUBKEYTYPE
  | CLEANSTACK
  | MINIMALIF
  | SIG_NULLFAIL
  | DISCOURAGE_UPGRADABLE_NOPS
  | DISCOURAGE_UPGRADABLE_WITNESS_PROGRAM
  | WITNESS_PROGRAM_WRONG_LENGTH
  | WITNESS_PROGRAM_WITNESS_EMPTY
  | WITNESS_PROGRAM_MISMATCH
  | WITNESS_MALLEATED
  | WITNESS_MALLEATED_P2SH
  | WITNESS_UNEXPECTED
  | WITNESS_PUBKEYTYPE
deriving DecidableEq

inductive SigVersion where
  | BASE
  | WITNESS_V0
deriving DecidableEq

/-- The hash functions and `CPubKey::CheckLowS`. -/
structure Crypto where
  ripemd160 : List Byte → List Byte
  sha1 : List Byte → List Byte
  sha256 : List Byte → List Byte
  hash160 : List Byte → List Byte
  hash256 : List Byte → List Byte
  checkLowS : List Byte → Bool

/-- `BaseSignatureChecker`: what a script asks about the transaction that spends the output. -/
structure SignatureChecker where
  checkSig : List Byte → List Byte → Script → SigVersion → Bool
  checkLockTime : Int → Bool
  checkSequence : Int → Bool

def SignatureChecker.base : SignatureChecker := ⟨fun _ _ _ _ => false, fun _ => false, fun _ => false⟩

def MAX_SCRIPT_ELEMENT_SIZE : Nat := 128000

def MAX_OPS_PER_SCRIPT : Nat := 201

def MAX_STACK_SIZE : Nat := 1000

/-! ### Items of the stack -/

abbrev Stack := List (List Byte)

/-- A computation of the interpreter; an error comes with the stack it leaves. -/
abbrev Eval := Except (ScriptError × Stack)

def demand (c : Prop) [Decidable c] (err : ScriptError) (stack : Stack) : Eval Unit :=
  Except.require c (err, stack)

/-- `CastToBool`; negative zero is false. -/
def castToBool (vch : List Byte) : Bool :=
  vch.dropLast.any (· != 0) || (vch.getLast?.any fun b => b != 0 && b != 0x80)

def vchFalse : List Byte := []

def vchTrue : List Byte := [1]

def boolItem (b : Bool) : List Byte := if b then vchTrue else vchFalse

/-- `CScriptNum::set_vch`: little-endian, the highest bit is the sign. -/
def setVch (vch : List Byte) : Int :=
  if vch.getLast?.any fun b => b &&& 0x80 != 0 then
    -((Limbs.value vch : Int) - 0x80 * 256 ^ (vch.length - 1))
  else Limbs.value vch

/-- The encoding has no byte that only carries the sign without need. -/
def isMinimalNum (vch : List Byte) : Bool :=
  vch.getLast?.all fun last => last &&& 0x7f != 0 || vch.dropLast.getLast?.any fun b => b &&& 0x80 != 0

/-- The constructor of `CScriptNum` from an item; `none` is its exception. -/
def scriptNum (vch : List Byte) (fRequireMinimal : Bool) (nMaxNumSize : Nat) : Option Int :=
  if vch.length > nMaxNumSize then none else if fRequireMinimal && !isMinimalNum vch then none
  else some (setVch vch)

def getint (n : Int) : Int := max (-2 ^ 31) (min n (2 ^ 31 - 1))

/-! ### Operations -/

/-- Operations that move items on the stack. -/
inductive StackOp where
  | OP_2DROP
  | OP_2DUP
  | OP_3DUP
  | OP_2OVER
  | OP_2ROT
  | OP_2SWAP
  | OP_IFDUP
  | OP_DEPTH
  | OP_DROP
  | OP_DUP
  | OP_NIP
  | OP_OVER
  | OP_ROT
  | OP_SWAP
  | OP_TUCK
  | OP_SIZE
  | OP_EQUAL

/-- The stack after the operation, if it holds enough items. -/
def StackOp.apply : StackOp → Stack → Option Stack
  | OP_2DROP, _ :: _ :: s => some s
  | OP_2DUP, x2 :: x1 :: s => some (x2 :: x1 :: x2 :: x1 :: s)
  | OP_3DUP, x3 :: x2 :: x1 :: s => some (x3 :: x2 :: x1 :: x3 :: x2 :: x1 :: s)
  | OP_2OVER, x4 :: x3 :: x2 :: x1 :: s => some (x2 :: x1 :: x4 :: x3 :: x2 :: x1 :: s)
  | OP_2ROT, x6 :: x5 :: x4 :: x3 :: x2 :: x1 :: s => some (x2 :: x1 :: x6 :: x5 :: x4 :: x3 :: s)
  | OP_2SWAP, x4 :: x3 :: x2 :: x1 :: s => some (x2 :: x1 :: x4 :: x3 :: s)
  | OP_IFDUP, x :: s => some (if castToBool x then x :: x :: s else x :: s)
  | OP_DEPTH, s => some (Script.serializeNum s.length :: s)
  | OP_DROP, _ :: s => some s
  | OP_DUP, x :: s => some (x :: x :: s)
  | OP_NIP, x2 :: _ :: s => some (x2 :: s)
  | OP_OVER, x2 :: x1 :: s => some (x1 :: x2 :: x1 :: s)
  | OP_ROT, x3 :: x2 :: x1 :: s => some (x1 :: x3 :: x2 :: s)
  | OP_SWAP, x2 :: x1 :: s => some (x1 :: x2 :: s)
  | OP_TUCK, x2 :: x1 :: s => some (x2 :: x1 :: x2 :: s)
  | OP_SIZE, x :: s => some (Script.serializeNum x.length :: x :: s)
  | OP_EQUAL, x2 :: x1 :: s => some (boolItem (x1 == x2) :: s)
  | _, _ => none

inductive UnaryOp where
  | OP_1ADD
  | OP_1SUB
  | OP_NEGATE
  | OP_ABS
  | OP_NOT
  | OP_0NOTEQUAL

def UnaryOp.apply (bn : Int) : UnaryOp → Int
  | OP_1ADD => bn + 1
  | OP_1SUB => bn - 1
  | OP_NEGATE => -bn
  | OP_ABS => if bn < 0 then -bn else bn
  | OP_NOT => if bn = 0 then 1 else 0
  | OP_0NOTEQUAL => if bn ≠ 0 then 1 else 0

inductive BinaryOp where
  | OP_ADD
  | OP_SUB
  | OP_BOOLAND
  | OP_BOOLOR
  | OP_NUMEQUAL
  | OP_NUMEQUALVERIFY
  | OP_NUMNOTEQUAL
  | OP_LESSTHAN
  | OP_GREATERTHAN
  | OP_LESSTHANOREQUAL
  | OP_GREATERTHANOREQUAL
  | OP_MIN
  | OP_MAX
deriving DecidableEq

def BinaryOp.apply (bn1 bn2 : Int) : BinaryOp → Int
  | OP_ADD => bn1 + bn2
  | OP_SUB => bn1 - bn2
  | OP_BOOLAND => if bn1 ≠ 0 ∧ bn2 ≠ 0 then 1 else 0
  | OP_BOOLOR => if bn1 ≠ 0 ∨ bn2 ≠ 0 then 1 else 0
  | OP_NUMEQUAL | OP_NUMEQUALVERIFY => if bn1 = bn2 then 1 else 0
  | OP_NUMNOTEQUAL => if bn1 ≠ bn2 then 1 else 0
  | OP_LESSTHAN => if bn1 < bn2 then 1 else 0
  | OP_GREATERTHAN => if bn1 > bn2 then 1 else 0
  | OP_LESSTHANOREQUAL => if bn1 ≤ bn2 then 1 else 0
  | OP_GREATERTHANOREQUAL => if bn1 ≥ bn2 then 1 else 0
  | OP_MIN => if bn1 < bn2 then bn1 else bn2
  | OP_MAX => if bn1 > bn2 then bn1 else bn2

inductive HashOp where
  | OP_RIPEMD160
  | OP_SHA1
  | OP_SHA256
  | OP_HASH160
  | OP_HASH256

def HashOp.apply (crypto : Crypto) : HashOp → List Byte → List Byte
  | OP_RIPEMD160 => crypto.ripemd160
  | OP_SHA1 => crypto.sha1
  | OP_SHA256 => crypto.sha256
  | OP_HASH160 => crypto.hash160
  | OP_HASH256 => crypto.hash256

/-- The cases of the `switch` of `EvalScript`. -/
inductive Opcode where
  | number (n : Int)
  | OP_NOP
  | OP_CHECKLOCKTIMEVERIFY
  | OP_CHECKSEQUENCEVERIFY
  | upgradableNop
  | OP_IF
  | OP_NOTIF
  | OP_ELSE
  | OP_ENDIF
  | OP_VERIFY
  | OP_RETURN
  | OP_TOALTSTACK
  | OP_FROMALTSTACK
  | OP_PICK
  | OP_ROLL
  | OP_EQUALVERIFY
  | OP_WITHIN
  | OP_CODESEPARATOR
  | OP_CHECKSIG
  | OP_CHECKSIGVERIFY
  | OP_CHECKMULTISIG
  | OP_CHECKMULTISIGVERIFY
  | OP_SPEND
  | OP_CREATE
  | OP_CALL
  | stack (op : StackOp)
  | unary (op : UnaryOp)
  | binary (op : BinaryOp)
  | hash (op : HashOp)

/-- The opcodes from `OP_NOP` on, by their codes; an opcode that is not here is bad. -/
def opcodes : List (Nat × Opcode) :=
  [(0x61, .OP_NOP), (0x63, .OP_IF), (0x64, .OP_NOTIF), (0x67, .OP_ELSE), (0x68, .OP_ENDIF),
    (0x69, .OP_VERIFY), (0x6a, .OP_RETURN),
    (0x6b, .OP_TOALTSTACK), (0x6c, .OP_FROMALTSTACK), (0x6d, .stack .OP_2DROP),
      (0x6e, .stack .OP_2DUP), (0x6f, .stack .OP_3DUP),
    (0x70, .stack .OP_2OVER), (0x71, .stack .OP_2ROT), (0x72, .stack .OP_2SWAP),
      (0x73, .stack .OP_IFDUP), (0x74, .stack .OP_DEPTH),
    (0x75, .stack .OP_DROP), (0x76, .stack .OP_DUP), (0x77, .stack .OP_NIP),
      (0x78, .stack .OP_OVER), (0x79, .OP_PICK), (0x7a, .OP_ROLL),
    (0x7b, .stack .OP_ROT), (0x7c, .stack .OP_SWAP), (0x7d, .stack .OP_TUCK),
      (0x82, .stack .OP_SIZE), (0x87, .stack .OP_EQUAL),
    (0x88, .OP_EQUALVERIFY), (0x8b, .unary .OP_1ADD), (0x8c, .unary .OP_1SUB),
      (0x8f, .unary .OP_NEGATE), (0x90, .unary .OP_ABS),
    (0x91, .unary .OP_NOT), (0x92, .unary .OP_0NOTEQUAL), (0x93, .binary .OP_ADD),
      (0x94, .binary .OP_SUB), (0x9a, .binary .OP_BOOLAND),
    (0x9b, .binary .OP_BOOLOR), (0x9c, .binary .OP_NUMEQUAL), (0x9d, .binary .OP_NUMEQUALVERIFY),
      (0x9e, .binary .OP_NUMNOTEQUAL),
    (0x9f, .binary .OP_LESSTHAN), (0xa0, .binary .OP_GREATERTHAN), (0xa1, .binary .OP_LESSTHANOREQUAL),
    (0xa2, .binary .OP_GREATERTHANOREQUAL), (0xa3, .binary .OP_MIN), (0xa4, .binary .OP_MAX),
      (0xa5, .OP_WITHIN),
    (0xa6, .hash .OP_RIPEMD160), (0xa7, .hash .OP_SHA1), (0xa8, .hash .OP_SHA256),
      (0xa9, .hash .OP_HASH160), (0xaa, .hash .OP_HASH256),
    (0xab, .OP_CODESEPARATOR), (0xac, .OP_CHECKSIG), (0xad, .OP_CHECKSIGVERIFY),
      (0xae, .OP_CHECKMULTISIG), (0xaf, .OP_CHECKMULTISIGVERIFY),
    (0xb0, .upgradableNop), (0xb1, .OP_CHECKLOCKTIMEVERIFY), (0xb2, .OP_CHECKSEQUENCEVERIFY),
      (0xb3, .upgradableNop), (0xb4, .upgradableNop),
    (0xb5, .upgradableNop), (0xb6, .upgradableNop), (0xb7, .upgradableNop), (0xb8, .upgradableNop),
      (0xb9, .upgradableNop),
    (0xc1, .OP_CREATE), (0xc2, .OP_CALL), (0xc3, .OP_SPEND)]

/-- The case of an opcode above `OP_PUSHDATA4`; the numbers are `OP_1NEGATE` and `OP_1` to `OP_16`. -/
def Opcode.decode (opcode : Byte) : Option Opcode :=
  if opcode = 0x4f ∨ 0x51 ≤ opcode.toNat ∧ opcode.toNat ≤ 0x60 then
    some (.number (opcode.toNat - 0x50))
  else opcodes.lookup opcode.toNat

/-- `OP_CAT`, `OP_SUBSTR`, `OP_LEFT`, `OP_RIGHT`, `OP_INVERT`, `OP_AND`, `OP_OR`, `OP_XOR`, `OP_2MUL`, `OP_2DIV`, `OP_MUL`, `OP_DIV`, `OP_MOD`, `OP_LSHIFT` and `OP_RSHIFT`. -/
def isDisabledOpcode (opcode : Byte) : Bool :=
  opcode.toNat ∈
    [0x7e, 0x7f, 0x80, 0x81, 0x83, 0x84, 0x85, 0x86, 0x8d, 0x8e, 0x95, 0x96, 0x97, 0x98, 0x99]

/-! ### Encodings of signatures, keys and pushes -/

/-- `IsValidSignatureEncoding`, for a signature with its hash type. -/
def isValidSignatureEncoding (sig : List Byte) : Bool :=
  let at' (i : Nat) : Byte := sig.getD i 0
  let lenR := (at' 3).toNat
  let lenS := (at' (5 + lenR)).toNat
  decide (9 ≤ sig.length) && decide (sig.length ≤ 73) && at' 0 == 0x30 && (at' 1).toNat ==
    sig.length - 3 &&
    decide (5 + lenR < sig.length) && lenR + lenS + 7 == sig.length &&
    at' 2 == 0x02 && lenR != 0 && at' 4 &&& 0x80 ==
      0 && !(decide (lenR > 1) && at' 4 == 0 && at' 5 &&& 0x80 == 0) &&
    at' (lenR + 4) == 0x02 && lenS != 0 && at' (lenR + 6) &&& 0x80 == 0 &&
    !(decide (lenS > 1) && at' (lenR + 6) == 0 && at' (lenR + 7) &&& 0x80 == 0)

def isDefinedHashtypeSignature (vchSig : List Byte) : Bool :=
  vchSig.getLast?.any fun b => decide (1 ≤ (b &&& 0x7f).toNat ∧ (b &&& 0x7f).toNat ≤ 3)

def isCompressedOrUncompressedPubKey (vchPubKey : List Byte) : Bool :=
  (vchPubKey.headD 0 == 0x04 && vchPubKey.length == 65) ||
    ((vchPubKey.headD 0 == 0x02 || vchPubKey.headD 0 == 0x03) && vchPubKey.length == 33)

def isCompressedPubKey (vchPubKey : List Byte) : Bool :=
  vchPubKey.length == 33 && (vchPubKey.headD 0 == 0x02 || vchPubKey.headD 0 == 0x03)

def checkMinimalPush (data : List Byte) (opcode : Byte) : Bool :=
  match data with
  | [] => opcode == 0
  | [b] => if 1 ≤ b.toNat ∧ b.toNat ≤ 16 then opcode.toNat == 0x50 + b.toNat
      else if b = 0x81 then opcode == 0x4f else opcode == 1
  | _ =>
    if data.length ≤ 75 then opcode.toNat == data.length
    else if data.length ≤ 255 then opcode == 0x4c
    else if data.length ≤ 65535 then opcode == 0x4d
    else true

section Interpreter

variable (crypto : Crypto) (checker : SignatureChecker) (sigversion : SigVersion) (flags : Nat)

def checkSignatureEncoding (vchSig : List Byte) (stack : Stack) : Eval Unit := do
  demand (vchSig ≠ [] →
    (ScriptFlag.DERSIG.isSet flags || ScriptFlag.LOW_S.isSet flags ||
      ScriptFlag.STRICTENC.isSet flags) →
    isValidSignatureEncoding vchSig) .SIG_DER stack
  demand (vchSig ≠ [] → ScriptFlag.LOW_S.isSet flags → crypto.checkLowS vchSig.dropLast) .SIG_HIGH_S stack
  demand (vchSig ≠ [] → ScriptFlag.STRICTENC.isSet flags → isDefinedHashtypeSignature vchSig)
    .SIG_HASHTYPE stack

def checkPubKeyEncoding (vchPubKey : List Byte) (stack : Stack) : Eval Unit := do
  demand (ScriptFlag.STRICTENC.isSet flags → isCompressedOrUncompressedPubKey vchPubKey) .PUBKEYTYPE stack
  demand (ScriptFlag.WITNESS_PUBKEYTYPE.isSet flags → sigversion = .WITNESS_V0 →
    isCompressedPubKey vchPubKey) .WITNESS_PUBKEYTYPE stack

/-! ### One operation -/

/-- The local variables of `EvalScript`; `codehash` is the script from `pbegincodehash` on. -/
structure EvalState where
  stack : Stack
  altstack : Stack
  vfExec : List Bool
  nOpCount : Nat
  codehash : Script

/-- What a case of the `switch` does: go on, or leave with success. -/
inductive Progress where
  | next (st : EvalState)
  | done (stack : Stack)

def EvalState.fExec (st : EvalState) : Bool := st.vfExec.all id

def EvalState.setStack (st : EvalState) (stack : Stack) : EvalState := { st with stack }

def invalidStack (st : EvalState) : Eval Progress := .error (.INVALID_STACK_OPERATION, st.stack)

def readNum (st : EvalState) (vch : List Byte) (nMaxNumSize : Nat) : Eval Int :=
  (scriptNum vch (ScriptFlag.MINIMALDATA.isSet flags) nMaxNumSize).elim
    (.error (.UNKNOWN_ERROR, st.stack)) .ok

/-- `OP_CHECKLOCKTIMEVERIFY`. -/
def checkLockTimeVerify (st : EvalState) : Eval Progress :=
  if ScriptFlag.CHECKLOCKTIMEVERIFY.isSet flags then
    match st.stack with
    | [] => invalidStack st
    | vch :: _ => do
      let nLockTime ← readNum flags st vch 5
      demand (0 ≤ nLockTime) .NEGATIVE_LOCKTIME st.stack
      demand (checker.checkLockTime nLockTime) .UNSATISFIED_LOCKTIME st.stack
      pure (.next st)
  else do
    demand (!ScriptFlag.DISCOURAGE_UPGRADABLE_NOPS.isSet flags) .DISCOURAGE_UPGRADABLE_NOPS st.stack
    pure (.next st)

/-- `OP_CHECKSEQUENCEVERIFY`; bit 31 of the operand is `SEQUENCE_LOCKTIME_DISABLE_FLAG`. -/
def checkSequenceVerify (st : EvalState) : Eval Progress :=
  if ScriptFlag.CHECKSEQUENCEVERIFY.isSet flags then
    match st.stack with
    | [] => invalidStack st
    | vch :: _ => do
      let nSequence ← readNum flags st vch 5
      demand (0 ≤ nSequence) .NEGATIVE_LOCKTIME st.stack
      demand (nSequence.toNat.testBit 31 ∨ checker.checkSequence nSequence) .UNSATISFIED_LOCKTIME st.stack
      pure (.next st)
  else do
    demand (!ScriptFlag.DISCOURAGE_UPGRADABLE_NOPS.isSet flags) .DISCOURAGE_UPGRADABLE_NOPS st.stack
    pure (.next st)

/-- `OP_IF` and `OP_NOTIF`. -/
def branch (negated : Bool) (st : EvalState) : Eval Progress :=
  if st.fExec then
    match st.stack with
    | [] => .error (.UNBALANCED_CONDITIONAL, st.stack)
    | vch :: s => do
      demand (sigversion = .WITNESS_V0 → ScriptFlag.MINIMALIF.isSet flags → vch = [] ∨ vch = [1])
        .MINIMALIF st.stack
      pure (.next { st with stack := s, vfExec := (castToBool vch != negated) :: st.vfExec })
  else pure (.next { st with vfExec := false :: st.vfExec })

/-- `OP_PICK` and `OP_ROLL`. -/
def pick (roll : Bool) (st : EvalState) : Eval Progress :=
  match st.stack with
  | vch :: x :: s => do
    let n := getint (← readNum flags st vch 4)
    demand (0 ≤ n ∧ n < ((x :: s).length : Int)) .INVALID_STACK_OPERATION (x :: s)
    let rest := if roll then (x :: s).eraseIdx n.toNat else x :: s
    pure (.next (st.setStack ((x :: s).getD n.toNat [] :: rest)))
  | _ => invalidStack st

def within (st : EvalState) : Eval Progress :=
  match st.stack with
  | x3 :: x2 :: x1 :: s => do
    let bn1 ← readNum flags st x1 4
    let bn2 ← readNum flags st x2 4
    let bn3 ← readNum flags st x3 4
    pure (.next (st.setStack (boolItem (decide (bn2 ≤ bn1 ∧ bn1 < bn3)) :: s)))
  | _ => invalidStack st

def unary (op : UnaryOp) (st : EvalState) : Eval Progress :=
  match st.stack with
  | [] => invalidStack st
  | x :: s => do
    let bn ← readNum flags st x 4
    pure (.next (st.setStack (Script.serializeNum (op.apply bn) :: s)))

def binary (op : BinaryOp) (st : EvalState) : Eval Progress :=
  match st.stack with
  | x2 :: x1 :: s => do
    let bn1 ← readNum flags st x1 4
    let bn2 ← readNum flags st x2 4
    let out := Script.serializeNum (op.apply bn1 bn2)
    if op = .OP_NUMEQUALVERIFY then
      demand (castToBool out) .NUMEQUALVERIFY (out :: s)
      pure (.next (st.setStack s))
    else pure (.next (st.setStack (out :: s)))
  | _ => invalidStack st

/-- `OP_CHECKSIG` and `OP_CHECKSIGVERIFY`. -/
def checkSig (verify : Bool) (st : EvalState) : Eval Progress :=
  match st.stack with
  | vchPubKey :: vchSig :: s => do
    let scriptCode := if sigversion = .BASE then
      Script.findAndDelete st.codehash (Script.pushData vchSig) else st.codehash
    checkSignatureEncoding crypto flags vchSig st.stack
    checkPubKeyEncoding sigversion flags vchPubKey st.stack
    let fSuccess := checker.checkSig vchSig vchPubKey scriptCode sigversion
    demand (!fSuccess → ScriptFlag.NULLFAIL.isSet flags → vchSig = []) .SIG_NULLFAIL st.stack
    if verify then
      demand fSuccess .CHECKSIGVERIFY (vchFalse :: s)
      pure (.next (st.setStack s))
    else pure (.next (st.setStack (boolItem fSuccess :: s)))
  | _ => invalidStack st

/-- The loop of `OP_CHECKMULTISIG`: every signature has to match a key, in the order of the keys. -/
def matchSignatures (scriptCode : Script) (stack : Stack) : List (List Byte) → List (List Byte) →
    Eval Bool
  | _, [] => .ok true
  | [], _ :: _ => .ok false
  | vchPubKey :: keys, vchSig :: sigs => do
    checkSignatureEncoding crypto flags vchSig stack
    checkPubKeyEncoding sigversion flags vchPubKey stack
    let left := if checker.checkSig vchSig vchPubKey scriptCode sigversion then sigs else vchSig :: sigs
    if left.length > keys.length then .ok false else matchSignatures scriptCode stack keys left

/-- `OP_CHECKMULTISIG` and `OP_CHECKMULTISIGVERIFY`, once the numbers of keys and signatures are known to be in range. -/
def checkSigs (verify : Bool) (st : EvalState) (nKeysCount nSigsCount : Nat) : Eval Progress := do
  let keys := (st.stack.drop 1).take nKeysCount
  let sigs := (st.stack.drop (nKeysCount + 2)).take nSigsCount
  let rest := st.stack.drop (nKeysCount + nSigsCount + 2)
  let scriptCode := if sigversion = .BASE then
    sigs.foldl (fun code sig => Script.findAndDelete code (Script.pushData sig)) st.codehash
    else st.codehash
  let fSuccess ← matchSignatures crypto checker sigversion flags scriptCode st.stack keys sigs
  -- the signatures are popped one by one up to the first that is not empty
  demand (!fSuccess → ScriptFlag.NULLFAIL.isSet flags → ∀ sig ∈ sigs, sig = []) .SIG_NULLFAIL
    (sigs.dropWhile (· == []) ++ rest)
  match rest with
  | [] => .error (.INVALID_STACK_OPERATION, rest)
  | dummy :: s => do
    demand (ScriptFlag.NULLDUMMY.isSet flags → dummy = []) .SIG_NULLDUMMY rest
    if verify then
      demand fSuccess .CHECKMULTISIGVERIFY (vchFalse :: s)
      pure (.next (st.setStack s))
    else pure (.next (st.setStack (boolItem fSuccess :: s)))

/-- `OP_CHECKMULTISIG` and `OP_CHECKMULTISIGVERIFY`. -/
def checkMultiSig (verify : Bool) (st : EvalState) : Eval Progress :=
  match st.stack with
  | [] => invalidStack st
  | top :: _ => do
    let nKeysCount := getint (← readNum flags st top 4)
    demand (0 ≤ nKeysCount ∧ nKeysCount ≤ Script.MAX_PUBKEYS_PER_MULTISIG) .PUBKEY_COUNT st.stack
    let st := { st with nOpCount := st.nOpCount + nKeysCount.toNat }
    demand (st.nOpCount ≤ MAX_OPS_PER_SCRIPT) .OP_COUNT st.stack
    demand (nKeysCount.toNat + 2 ≤ st.stack.length) .INVALID_STACK_OPERATION st.stack
    let nSigsCount := getint (← readNum flags st (st.stack.getD (nKeysCount.toNat + 1) []) 4)
    demand (0 ≤ nSigsCount ∧ nSigsCount ≤ nKeysCount) .SIG_COUNT st.stack
    demand (nKeysCount.toNat + nSigsCount.toNat + 3 ≤ st.stack.length) .INVALID_STACK_OPERATION st.stack
    checkSigs crypto checker sigversion flags verify st nKeysCount.toNat nSigsCount.toNat

/-- The `switch` of `EvalScript`; `pc` is the script after the opcode. -/
def execOp (byte : Byte) (pc : Script) (st : EvalState) : Opcode → Eval Progress
  | .number n => pure (.next (st.setStack (Script.serializeNum n :: st.stack)))
  | .OP_NOP => pure (.next st)
  | .OP_CHECKLOCKTIMEVERIFY => checkLockTimeVerify checker flags st
  | .OP_CHECKSEQUENCEVERIFY => checkSequenceVerify checker flags st
  | .upgradableNop => do
    demand (!ScriptFlag.DISCOURAGE_UPGRADABLE_NOPS.isSet flags) .DISCOURAGE_UPGRADABLE_NOPS st.stack
    pure (.next st)
  | .OP_IF => branch sigversion flags false st
  | .OP_NOTIF => branch sigversion flags true st
  | .OP_ELSE =>
    match st.vfExec with
    | [] => .error (.UNBALANCED_CONDITIONAL, st.stack)
    | b :: bs => pure (.next { st with vfExec := (!b) :: bs })
  | .OP_ENDIF =>
    match st.vfExec with
    | [] => .error (.UNBALANCED_CONDITIONAL, st.stack)
    | _ :: bs => pure (.next { st with vfExec := bs })
  | .OP_VERIFY =>
    match st.stack with
    | [] => invalidStack st
    | x :: s => do
      demand (castToBool x) .VERIFY st.stack
      pure (.next (st.setStack s))
  | .OP_RETURN => .error (.OP_RETURN, st.stack)
  | .OP_TOALTSTACK =>
    match st.stack with
    | [] => invalidStack st
    | x :: s => pure (.next { st with stack := s, altstack := x :: st.altstack })
  | .OP_FROMALTSTACK =>
    match st.altstack with
    | [] => .error (.INVALID_ALTSTACK_OPERATION, st.stack)
    | x :: s => pure (.next { st with stack := x :: st.stack, altstack := s })
  | .OP_PICK => pick flags false st
  | .OP_ROLL => pick flags true st
  | .OP_EQUALVERIFY =>
    match st.stack with
    | x2 :: x1 :: s => do
      demand (x1 = x2) .EQUALVERIFY (vchFalse :: s)
      pure (.next (st.setStack s))
    | _ => invalidStack st
  | .OP_WITHIN => within flags st
  | .OP_CODESEPARATOR => pure (.next { st with codehash := pc })
  | .OP_CHECKSIG => checkSig crypto checker sigversion flags false st
  | .OP_CHECKSIGVERIFY => checkSig crypto checker sigversion flags true st
  | .OP_CHECKMULTISIG => checkMultiSig crypto checker sigversion flags false st
  | .OP_CHECKMULTISIGVERIFY => checkMultiSig crypto checker sigversion flags true st
  | .OP_SPEND => pure (.done st.stack)
  | .OP_CREATE => pure (.done ((byte :: pc) :: st.stack))
  | .OP_CALL => pure (.done ((byte :: pc) :: st.stack))
  | .stack op => (op.apply st.stack).elim (invalidStack st) fun s => pure (.next (st.setStack s))
  | .unary op => unary flags op st
  | .binary op => binary flags op st
  | .hash op =>
    match st.stack with
    | [] => invalidStack st
    | x :: s => pure (.next (st.setStack (op.apply crypto x :: s)))

/-! ### The loop -/

/-- The execution of an operation: a push, a case of the `switch`, or nothing inside a branch that is not taken. -/
def dispatch (opcode : Byte) (vchPushValue : List Byte) (pc : Script) (st : EvalState) : Eval Progress :=
  if st.fExec ∧ opcode.toNat ≤ 0x4e then do
    demand (ScriptFlag.MINIMALDATA.isSet flags → checkMinimalPush vchPushValue opcode) .MINIMALDATA
      st.stack
    pure (.next (st.setStack (vchPushValue :: st.stack)))
  else if st.fExec ∨ 0x63 ≤ opcode.toNat ∧ opcode.toNat ≤ 0x68 then
    (Opcode.decode opcode).elim (.error (.BAD_OPCODE, st.stack))
      (execOp crypto checker sigversion flags opcode pc st)
  else pure (.next st)

/-- One round of the loop, for the operation that was read. -/
def evalOp (opcode : Byte) (vchPushValue : List Byte) (pc : Script) (st : EvalState) : Eval Progress := do
  demand (vchPushValue.length ≤ MAX_SCRIPT_ELEMENT_SIZE) .PUSH_SIZE st.stack
  let st := if opcode.toNat > 0x60 then { st with nOpCount := st.nOpCount + 1 } else st
  demand (opcode.toNat > 0x60 → st.nOpCount ≤ MAX_OPS_PER_SCRIPT) .OP_COUNT st.stack
  demand (!isDisabledOpcode opcode) .DISABLED_OPCODE st.stack
  match ← dispatch crypto checker sigversion flags opcode vchPushValue pc st with
  | .done stack => pure (.done stack)
  | .next st => do
    demand (st.stack.length + st.altstack.length ≤ MAX_STACK_SIZE) .STACK_SIZE st.stack
    pure (.next st)

def EvalState.finish (st : EvalState) : Eval Stack := do
  demand (st.vfExec = []) .UNBALANCED_CONDITIONAL st.stack
  pure st.stack

/-- The loop of `EvalScript`. -/
def evalFrom : Nat → Script → EvalState → Eval Stack
  | 0, _, st => st.finish
  | fuel + 1, pc, st =>
    if pc.isEmpty then st.finish
    else
      match Script.getOp pc with
      | none => .error (.BAD_OPCODE, st.stack)
      | some (opcode, vchPushValue, rest) => do
        match ← evalOp crypto checker sigversion flags opcode vchPushValue rest st with
        | .done stack => pure stack
        | .next st => evalFrom fuel rest st

def evalScript (stack : Stack) (script : Script) : Eval Stack := do
  demand (script.length ≤ Script.MAX_SCRIPT_SIZE) .SCRIPT_SIZE stack
  evalFrom crypto checker sigversion flags script.length script ⟨stack, [], [], 0, script⟩

end Interpreter

/-! ### Verifying an input -/

/-- How `VerifyScript` fails: with a script error, or in an assertion. -/
inductive ScriptFailure where
  | error (e : ScriptError)
  | fault (f : Fault)
deriving DecidableEq

section Verify

variable (crypto : Crypto) (checker : SignatureChecker) (flags : Nat)

def fails (c : Prop) [Decidable c] (e : ScriptError) : Except ScriptFailure Unit :=
  Except.require c (.error e)

/-- `EvalScript` followed by `return false`. -/
def evaluate (sigversion : SigVersion) (stack : Stack) (script : Script) : Except ScriptFailure Stack :=
  (evalScript crypto checker sigversion flags stack script).mapError fun e => .error e.1

/-- The stack is not empty and its top is true. -/
def isTrueStack (stack : Stack) : Bool := stack.head?.any castToBool

/-- The script and the stack of a witness program of version zero. -/
def witnessScript (witness : List Script) (program : List Byte) : Except ScriptFailure (Script × Stack) :=
  if program.length = 32 then do
    fails (witness ≠ []) .WITNESS_PROGRAM_WITNESS_EMPTY
    let scriptPubKey := witness.getLastD []
    fails (crypto.sha256 scriptPubKey = program) .WITNESS_PROGRAM_MISMATCH
    pure (scriptPubKey, witness.dropLast.reverse)
  else if program.length = 20 then do
    fails (witness.length = 2) .WITNESS_PROGRAM_MISMATCH
    pure ([0x76, 0xa9] ++ Script.pushData program ++ [0x88, 0xac], witness.reverse)
  else .error (.error .WITNESS_PROGRAM_WRONG_LENGTH)

def verifyWitnessProgram (witness : List Script) (witversion : Nat) (program : List Byte) :
    Except ScriptFailure Unit :=
  if witversion = 0 then do
    let (scriptPubKey, stack) ← witnessScript crypto witness program
    fails (∀ item ∈ stack, item.length ≤ MAX_SCRIPT_ELEMENT_SIZE) .PUSH_SIZE
    let stack ← evaluate crypto checker flags .WITNESS_V0 stack scriptPubKey
    fails (stack.length = 1 ∧ isTrueStack stack) .EVAL_FALSE
  else fails (!ScriptFlag.DISCOURAGE_UPGRADABLE_WITNESS_PROGRAM.isSet flags)
    .DISCOURAGE_UPGRADABLE_WITNESS_PROGRAM

/-- The part of `VerifyScript` for a witness program found in `script`: the stack that remains, and `hadWitness`. -/
def verifyWitness (script : Script) (witness : List Script) (stack : Stack) (hadWitness : Bool)
    (exact : Prop) [Decidable exact] (malleated : ScriptError) : Except ScriptFailure (Stack × Bool) :=
  match if ScriptFlag.WITNESS.isSet flags then Script.isWitnessProgram script else none with
  | none => pure (stack, hadWitness)
  | some (version, program) => do
    fails exact malleated
    verifyWitnessProgram crypto checker flags witness version program
    -- `stack.resize(1)` keeps the item at the bottom
    pure (stack.drop (stack.length - 1), true)

/-- The part of `VerifyScript` for pay-to-script-hash. -/
def verifyScriptHash (scriptSig scriptPubKey : Script) (witness : List Script)
    (stackCopy stack : Stack) (hadWitness : Bool) :
    Except ScriptFailure (Stack × Bool) :=
  if ScriptFlag.P2SH.isSet flags && Script.isPayToScriptHash scriptPubKey then do
    fails (Script.isPushOnly scriptSig) .SIG_PUSHONLY
    match stackCopy with
    | [] => .error (.fault .assertion)
    | pubKey2 :: s => do
      let stack ← evaluate crypto checker flags .BASE s pubKey2
      fails (isTrueStack stack) .EVAL_FALSE
      verifyWitness crypto checker flags pubKey2 witness stack hadWitness
        (scriptSig = Script.pushData pubKey2) .WITNESS_MALLEATED_P2SH
  else pure (stack, hadWitness)

def verifyClean (witness : List Script) (stack : Stack) (hadWitness : Bool) :
    Except ScriptFailure Unit := do
  Except.require (ScriptFlag.CLEANSTACK.isSet flags → ScriptFlag.P2SH.isSet flags ∧
    ScriptFlag.WITNESS.isSet flags) (.fault .assertion)
  fails (ScriptFlag.CLEANSTACK.isSet flags → stack.length = 1) .CLEANSTACK
  Except.require (ScriptFlag.WITNESS.isSet flags → ScriptFlag.P2SH.isSet flags) (.fault .assertion)
  fails (ScriptFlag.WITNESS.isSet flags → hadWitness ∨ witness = []) .WITNESS_UNEXPECTED

def verifyScript (scriptSig scriptPubKey : Script) (witness : List Script) :
    Except ScriptFailure Unit := do
  fails (ScriptFlag.SIGPUSHONLY.isSet flags → Script.isPushOnly scriptSig) .SIG_PUSHONLY
  let stackCopy ← evaluate crypto checker flags .BASE [] scriptSig
  let stack ← evaluate crypto checker flags .BASE stackCopy scriptPubKey
  fails (isTrueStack stack) .EVAL_FALSE
  let (stack, hadWitness) ← verifyWitness crypto checker flags scriptPubKey witness stack false
    (scriptSig = []) .WITNESS_MALLEATED
  let (stack, hadWitness) ←
    verifyScriptHash crypto checker flags scriptSig scriptPubKey witness stackCopy stack hadWitness
  verifyClean flags witness stack hadWitness

end Verify

end TscPow
