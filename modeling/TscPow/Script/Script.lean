import TscPow.Primitives.Transaction

/-!
# Reading scripts

The parts of `CScript` (`script/script.h`, `script/script.cpp`) that block validation reads: splitting a script into operations, counting signature operations, and the tests for contract and ticket outputs.
-/

namespace TscPow

namespace Script

/-- An operand of `nSize` bytes, if that many are left. -/
def immediate (opcode : Byte) (nSize : Nat) (pc : Script) : Option (Byte × List Byte × Script) :=
  if pc.length < nSize then none else some (opcode, pc.take nSize, pc.drop nSize)

/-- `GetOp2`: the next opcode, its operand and the rest of the script. -/
def getOp : Script → Option (Byte × List Byte × Script)
  | [] => none
  | opcode :: pc =>
    if opcode.toNat < 0x4c then immediate opcode opcode.toNat pc
    else if opcode = 0x4c then
      match pc with
      | b :: pc => immediate opcode b.toNat pc
      | _ => none
    else if opcode = 0x4d then
      match pc with
      | b0 :: b1 :: pc => immediate opcode (Limbs.value [b0, b1]) pc
      | _ => none
    else if opcode = 0x4e then
      match pc with
      | b0 :: b1 :: b2 :: b3 :: pc => immediate opcode (Limbs.value [b0, b1, b2, b3]) pc
      | _ => none
    else some (opcode, [], pc)

/-- The operations up to the end or the first malformed one. Every operation takes at least a byte, so a script has no more operations than bytes. -/
def operationsFrom : Nat → Script → List (Byte × List Byte)
  | 0, _ => []
  | fuel + 1, script =>
    match getOp script with
    | none => []
    | some (opcode, operand, rest) => (opcode, operand) :: operationsFrom fuel rest

def operations (script : Script) : List (Byte × List Byte) := operationsFrom script.length script

def find (script : Script) (op : Byte) : Nat := (operations script).countP (·.1 == op)

def hasOpCreate (script : Script) : Bool := find script OP_CREATE == 1

def hasOpCall (script : Script) : Bool := find script OP_CALL == 1

def hasOpSpend (script : Script) : Bool := script == [OP_SPEND]

/-- `HasOpSStx` reads the first byte without a size check; the storage of an empty script starts with a zero byte. -/
def hasOpSStx (script : Script) : Bool := script.headD 0 == OP_BUYTICKET

def MAX_SCRIPT_SIZE : Nat := 129000

def isUnspendable (script : Script) : Bool :=
  script.head? == some OP_RETURN || decide (script.length > MAX_SCRIPT_SIZE)

def isPayToScriptHash (script : Script) : Bool :=
  script.length == 23 && script[0]? == some 0xa9 && script[1]? == some 0x14 && script[22]? == some 0x87

def MAX_PUBKEYS_PER_MULTISIG : Nat := 20

/-- The counting loop of `GetSigOpCount`, with the previous opcode. -/
def countSigOps (fAccurate : Bool) : Byte → List (Byte × List Byte) → Nat
  | _, [] => 0
  | lastOpcode, (opcode, _) :: rest =>
    let n :=
      if opcode = 0xac ∨ opcode = 0xad then 1
      else if opcode = 0xae ∨ opcode = 0xaf then
        if fAccurate ∧ 0x51 ≤ lastOpcode.toNat ∧ lastOpcode.toNat ≤ 0x60 then lastOpcode.toNat - 0x50
        else MAX_PUBKEYS_PER_MULTISIG
      else 0
    n + countSigOps fAccurate opcode rest

/-- `GetSigOpCount(bool)`. -/
def getSigOpCount (script : Script) (fAccurate : Bool) : Nat :=
  countSigOps fAccurate 0xff (operations script)

/-- The last item a push-only script leaves on the stack, as `GetSigOpCount(const CScript&)` reads it. -/
def lastPush : Nat → Script → List Byte → Option (List Byte)
  | 0, _, vData => some vData
  | fuel + 1, script, vData =>
    if script.isEmpty then some vData
    else
      match getOp script with
      | none => none
      | some (opcode, operand, rest) => if opcode.toNat > 0x60 then none else lastPush fuel rest operand

/-- `GetSigOpCount(const CScript&)`: looks through pay-to-script-hash. -/
def getSigOpCountP2SH (scriptPubKey scriptSig : Script) : Nat :=
  if isPayToScriptHash scriptPubKey then
    match lastPush scriptSig.length scriptSig [] with
    | none => 0
    | some subscript => getSigOpCount subscript true
  else getSigOpCount scriptPubKey true

/-- `IsPushOnly`: every operation is a push, and none is malformed. -/
def isPushOnlyFrom : Nat → Script → Bool
  | 0, _ => true
  | fuel + 1, script =>
    script.isEmpty ||
      match getOp script with
      | none => false
      | some (opcode, _, rest) => decide (opcode.toNat ≤ 0x60) && isPushOnlyFrom fuel rest

def isPushOnly (script : Script) : Bool := isPushOnlyFrom script.length script

/-- `IsWitnessProgram`, with the version and the program. -/
def isWitnessProgram : Script → Option (Nat × List Byte)
  | version :: size :: program =>
    if 2 ≤ program.length ∧ program.length ≤ 40 ∧
      (version = 0 ∨ 0x51 ≤ version.toNat ∧ version.toNat ≤ 0x60) ∧ size.toNat = program.length then
      some (if version = 0 then 0 else version.toNat - 0x50, program)
    else none
  | _ => none

/-! ### Pushing data -/

/-- `CScript() << b`. -/
def pushData (b : List Byte) : Script :=
  if b.length < 0x4c then BitVec.ofNat 8 b.length :: b
  else if b.length ≤ 0xff then 0x4c :: BitVec.ofNat 8 b.length :: b
  else if b.length ≤ 0xffff then 0x4d :: Limbs.ofNat 2 b.length ++ b
  else 0x4e :: Limbs.ofNat 4 b.length ++ b

/-- The inner loop of `FindAndDelete`: the copies of `b` that the script starts with are skipped. -/
def skipCopies : Nat → Script → Script → Script
  | 0, _, script => script
  | fuel + 1, b, script => if b <+: script then skipCopies fuel b (script.drop b.length) else script

/-- `FindAndDelete` from some operation on. -/
def findAndDeleteFrom : Nat → Script → Script → Script
  | 0, _, script => script
  | fuel + 1, b, script =>
    let kept := skipCopies script.length b script
    match getOp kept with
    | none => kept
    | some (_, _, rest) => kept.take (kept.length - rest.length) ++ findAndDeleteFrom fuel b rest

/-- `FindAndDelete`: takes out `b` wherever an operation starts with it. -/
def findAndDelete (script b : Script) : Script := if b.isEmpty then script
    else findAndDeleteFrom script.length b script

/-! ### Pushing numbers -/

def magnitudeBytes : Nat → Nat → List Byte
  | 0, _ => []
  | fuel + 1, n => if n = 0 then [] else BitVec.ofNat 8 n :: magnitudeBytes fuel (n / 256)

/-- `CScriptNum::serialize`. -/
def serializeNum (value : Int) : List Byte :=
  let result := magnitudeBytes 8 value.natAbs
  match result.getLast? with
  | none => []
  | some last =>
    if last &&& 0x80 ≠ 0 then result ++ [if value < 0 then 0x80 else 0]
    else if value < 0 then result.dropLast ++ [last ||| 0x80]
    else result

/-- `CScript() << n`. -/
def pushInt64 (n : Int) : Script :=
  if n = -1 ∨ 1 ≤ n ∧ n ≤ 16 then [BitVec.ofInt 8 (n + 0x50)]
  else if n = 0 then [0]
  else BitVec.ofNat 8 (serializeNum n).length :: serializeNum n

theorem length_magnitudeBytes_le (fuel n : Nat) : (magnitudeBytes fuel n).length ≤ fuel := by
  induction fuel generalizing n with
  | zero => exact le_rfl
  | succ fuel ih =>
    rw [magnitudeBytes]
    split
    · exact Nat.zero_le _
    · exact Nat.succ_le_succ (ih _)

theorem length_serializeNum_le (value : Int) : (serializeNum value).length ≤ 9 := by
  have h := length_magnitudeBytes_le 8 value.natAbs
  rw [serializeNum]
  split
  · exact Nat.zero_le _
  · split
    · rw [List.length_append, List.length_singleton]
      omega
    · split
      · rw [List.length_append, List.length_dropLast, List.length_singleton]
        omega
      · omega

theorem length_pushInt64 (n : Int) : 1 ≤ (pushInt64 n).length ∧ (pushInt64 n).length ≤ 10 := by
  have h := length_serializeNum_le n
  rw [pushInt64]
  split
  · rw [List.length_singleton]
    omega
  · split
    · rw [List.length_singleton]
      omega
    · rw [List.length_cons]
      omega

theorem value_magnitudeBytes {fuel n : Nat} (hn : n < 256 ^ fuel) :
    Limbs.value (magnitudeBytes fuel n) = n := by
  induction fuel generalizing n with
  | zero => rw [magnitudeBytes, Limbs.value_nil]; omega
  | succ fuel ih =>
    rw [magnitudeBytes]
    split
    · rename_i hzero
      rw [Limbs.value_nil, hzero]
    · have hrest : n / 256 < 256 ^ fuel := Nat.div_lt_of_lt_mul (by rw [← Nat.pow_succ']; exact hn)
      rw [Limbs.value_cons, ih hrest, BitVec.toNat_ofNat]
      omega

theorem value_serializeNum {n : Nat} (hn : n < 2 ^ 64) : Limbs.value (serializeNum n) = n := by
  have hvalue : Limbs.value (magnitudeBytes 8 n) = n := value_magnitudeBytes (hn.trans_eq (by norm_num))
  have hpos : ¬ (n : Int) < 0 := Int.not_lt.mpr (Int.natCast_nonneg n)
  simp only [serializeNum, Int.natAbs_natCast, hpos, if_false]
  split
  · rename_i hlast
    rw [List.getLast?_eq_none_iff] at hlast
    rw [hlast] at hvalue
    exact hvalue
  · split
    · rw [Limbs.value_append, hvalue]
      simp
    · exact hvalue

theorem pushInt64_cases {n : Nat} (hn : 0 < n) :
    (n ≤ 16 ∧ pushInt64 n = [BitVec.ofNat 8 (n + 0x50)]) ∨
      (16 < n ∧ pushInt64 n = BitVec.ofNat 8 (serializeNum n).length :: serializeNum n) := by
  rw [pushInt64]
  by_cases hsmall : n ≤ 16
  · left
    refine ⟨hsmall, ?_⟩
    rw [if_pos (by omega)]
    rfl
  · right
    rw [if_neg (by omega), if_neg (by omega)]
    exact ⟨by omega, rfl⟩

theorem pushInt64_prefix_unique {m n : Nat} {script : Script} (hm : 0 < m) (hm' : m < 2 ^ 64)
    (hn : 0 < n) (hn' : n < 2 ^ 64) (hpushm : pushInt64 m <+: script)
    (hpushn : pushInt64 n <+: script) : m = n := by
  have hlengthm := length_serializeNum_le m
  have hlengthn := length_serializeNum_le n
  -- the first byte is the same, so the two are pushed in the same way
  obtain ⟨b, script, rfl⟩ : ∃ b rest, script = b :: rest := by
    cases script with
    | nil =>
      have hlength := length_pushInt64 m
      rw [List.prefix_nil.mp hpushm] at hlength
      exact absurd hlength.1 (by decide)
    | cons b rest => exact ⟨b, rest, rfl⟩
  rcases pushInt64_cases hm with ⟨hsm, hm''⟩ | ⟨hlm, hm''⟩ <;>
    rcases pushInt64_cases hn with ⟨hsn, hn''⟩ | ⟨hln, hn''⟩
  all_goals
    rw [hm'', List.cons_prefix_cons] at hpushm
    rw [hn'', List.cons_prefix_cons] at hpushn
    have hfirst := congrArg BitVec.toNat (hpushm.1.trans hpushn.1.symm)
    rw [BitVec.toNat_ofNat, BitVec.toNat_ofNat, Nat.mod_eq_of_lt (by omega),
      Nat.mod_eq_of_lt (by omega)] at hfirst
  · omega
  · omega
  · omega
  · have heq : serializeNum m = serializeNum n :=
      (List.prefix_of_prefix_length_le hpushm.2 hpushn.2 hfirst.le).eq_of_length hfirst
    rw [← value_serializeNum hm', heq, value_serializeNum hn']

/-! ### Bounds on signature operations -/

theorem countSigOps_le (fAccurate : Bool) (lastOpcode : Byte) (ops : List (Byte × List Byte)) :
    countSigOps fAccurate lastOpcode ops ≤ MAX_PUBKEYS_PER_MULTISIG * ops.length := by
  induction ops generalizing lastOpcode with
  | nil => exact Nat.zero_le _
  | cons op ops ih =>
    have hrest := ih op.1
    rw [countSigOps, List.length_cons, Nat.mul_succ]
    simp only [MAX_PUBKEYS_PER_MULTISIG] at hrest ⊢
    split_ifs <;> omega

theorem length_operationsFrom_le (fuel : Nat) (script : Script) :
    (operationsFrom fuel script).length ≤ fuel := by
  induction fuel generalizing script with
  | zero => exact le_rfl
  | succ fuel ih =>
    rw [operationsFrom]
    split
    · exact Nat.zero_le _
    · exact Nat.succ_le_succ (ih _)

theorem getSigOpCount_le (script : Script) (fAccurate : Bool) :
    getSigOpCount script fAccurate ≤ MAX_PUBKEYS_PER_MULTISIG * script.length :=
  (countSigOps_le _ _ _).trans (Nat.mul_le_mul_left _ (length_operationsFrom_le _ _))

/-! ### The operations of a script -/

theorem length_of_immediate {opcode op : Byte} {nSize : Nat} {pc rest : Script} {operand : List Byte}
    (h : immediate opcode nSize pc = some (op, operand, rest)) : rest.length ≤ pc.length := by
  unfold immediate at h
  split at h
  · cases h
  · cases h
    rw [List.length_drop]
    exact Nat.sub_le _ _

theorem length_lt_of_getOp {script rest : Script} {op : Byte} {operand : List Byte}
    (h : getOp script = some (op, operand, rest)) :
    rest.length < script.length := by
  unfold getOp at h
  split at h
  · cases h
  rename_i opcode pc
  rw [List.length_cons, Nat.lt_succ_iff]
  split_ifs at h with hdirect h1 h2 h4
  · exact length_of_immediate h
  · split at h
    · exact (length_of_immediate h).trans (by simp)
    · cases h
  · split at h
    · exact (length_of_immediate h).trans (by simp only [List.length_cons]; omega)
    · cases h
  · split at h
    · exact (length_of_immediate h).trans (by simp only [List.length_cons]; omega)
    · cases h
  · cases h
    exact le_rfl

theorem getOp_of_gt {opcode : Byte} (h : 0x4e < opcode.toNat) (pc : Script) :
    getOp (opcode :: pc) = some (opcode, [], pc) := by
  have h1 : opcode ≠ 0x4c := by
    intro heq
    rw [heq] at h
    exact absurd h (by decide)
  have h2 : opcode ≠ 0x4d := by
    intro heq
    rw [heq] at h
    exact absurd h (by decide)
  have h4 : opcode ≠ 0x4e := by
    intro heq
    rw [heq] at h
    exact absurd h (by decide)
  unfold getOp
  dsimp only
  rw [if_neg (by omega), if_neg h1, if_neg h2, if_neg h4]

theorem operations_of_getOp {script rest : Script} {op : Byte} {operand : List Byte}
    (h : getOp script = some (op, operand, rest)) :
    ∃ ops, operations script = (op, operand) :: ops := by
  have hlt := length_lt_of_getOp h
  obtain ⟨n, hn⟩ : ∃ n, script.length = n + 1 := ⟨script.length - 1, by omega⟩
  refine ⟨operationsFrom n rest, ?_⟩
  rw [operations, hn, operationsFrom, h]

/-- The whole script consists of these operations. -/
inductive Parses : Script → List (Byte × List Byte) → Prop where
  | nil : Parses [] []
  | cons {script rest : Script} {opcode : Byte} {operand : List Byte} {ops : List (Byte × List Byte)} :
      getOp script = some (opcode, operand, rest) → Parses rest ops →
        Parses script ((opcode, operand) :: ops)

theorem Parses.operationsFrom {script : Script} {ops : List (Byte × List Byte)}
    (h : Parses script ops) {fuel : Nat} (hfuel : script.length ≤ fuel) :
    Script.operationsFrom fuel script = ops := by
  induction h generalizing fuel with
  | nil =>
    cases fuel with
    | zero => rfl
    | succ fuel => rfl
  | cons hop hrest ih =>
    have hlt := length_lt_of_getOp hop
    cases fuel with
    | zero => omega
    | succ fuel =>
      rw [Script.operationsFrom, hop]
      dsimp only
      rw [ih (by omega)]

theorem Parses.operations {script : Script} {ops : List (Byte × List Byte)}
    (h : Parses script ops) : Script.operations script = ops :=
  h.operationsFrom le_rfl

end Script

namespace Tx

def hasCreateOrCall (tx : Tx) : Bool :=
  tx.vout.any fun v => Script.hasOpCreate v.scriptPubKey || Script.hasOpCall v.scriptPubKey

def hasOpSpend (tx : Tx) : Bool := tx.vin.any fun i => Script.hasOpSpend i.scriptSig

def hasWitness (tx : Tx) : Bool := tx.vin.any fun i => !i.scriptWitness.isEmpty

end Tx

end TscPow
