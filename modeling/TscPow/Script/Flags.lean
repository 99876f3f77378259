import TscPow.Base.Except
import TscPow.Script.Interpreter

/-!
# Script flags only tighten

Two evaluations of one script under two sets of flags, the first contained in the second: as long as the stricter one goes on, the other one does the same. `Except.Relaxes` is the relation between the two; every operation respects it, hence the loop does, hence `VerifyScript`.

A flag may turn an operation that does nothing into one that checks something, as `OP_CHECKLOCKTIMEVERIFY`. With `DISCOURAGE_UPGRADABLE_NOPS` the step back would be a failure, which is why this flag is only used together with both of them.
-/

namespace TscPow

open Except (Relaxes)

/-- The implications between flags that the code relies on. -/
structure ConsistentFlags (flags : Nat) : Prop where
  cleanstack_p2sh : ScriptFlag.CLEANSTACK.isSet flags → ScriptFlag.P2SH.isSet flags
  cleanstack_witness : ScriptFlag.CLEANSTACK.isSet flags → ScriptFlag.WITNESS.isSet flags
  witness_p2sh : ScriptFlag.WITNESS.isSet flags → ScriptFlag.P2SH.isSet flags
  nops_locktime : ScriptFlag.DISCOURAGE_UPGRADABLE_NOPS.isSet flags →
    ScriptFlag.CHECKLOCKTIMEVERIFY.isSet flags
  nops_sequence : ScriptFlag.DISCOURAGE_UPGRADABLE_NOPS.isSet flags →
    ScriptFlag.CHECKSEQUENCEVERIFY.isSet flags

/-- Every flag of `A` is one of `B`. -/
def FlagsIncluded (A B : Nat) : Prop := A &&& B = A

theorem FlagsIncluded.isSet {A B : Nat} (h : FlagsIncluded A B) (flag : ScriptFlag) :
    flag.isSet A → flag.isSet B := by
  intro hA
  have hbit : (A &&& B).testBit flag.bit = true := by
    rw [h]
    exact hA
  rw [Nat.testBit_and, Bool.and_eq_true] at hbit
  exact hbit.2

theorem relaxes_demand {c d : Prop} [Decidable c] [Decidable d] {err : ScriptError} {stack : Stack}
    (h : d → c) :
    Relaxes (demand c err stack) (demand d err stack) :=
  Relaxes.require h

theorem relaxes_demand_flag {A B : Nat} (h : FlagsIncluded A B) (flag : ScriptFlag) {c : Prop}
    [Decidable c] {err : ScriptError} {stack : Stack} :
    Relaxes (demand (flag.isSet A → c) err stack) (demand (flag.isSet B → c) err stack) :=
  relaxes_demand fun hc hA => hc (h.isSet flag hA)

section Operations

variable {A B : Nat} (h : FlagsIncluded A B) (crypto : Crypto) (checker : SignatureChecker)
  (sigversion : SigVersion)

include h

theorem scriptNum_of_included {vch : List Byte} {nMaxNumSize : Nat} {n : Int}
    (hB : scriptNum vch (ScriptFlag.MINIMALDATA.isSet B) nMaxNumSize = some n) :
    scriptNum vch (ScriptFlag.MINIMALDATA.isSet A) nMaxNumSize = some n := by
  unfold scriptNum at hB ⊢
  have hflag := h.isSet .MINIMALDATA
  split at hB
  · cases hB
  · rename_i hlen
    rw [if_neg hlen]
    split at hB
    · cases hB
    · rename_i hmin
      rw [if_neg]
      · exact hB
      · simp only [Bool.and_eq_true, Bool.not_eq_true'] at hmin ⊢
        intro hA
        exact hmin ⟨hflag hA.1, hA.2⟩

theorem relaxes_readNum (st : EvalState) (vch : List Byte) (nMaxNumSize : Nat) :
    Relaxes (readNum A st vch nMaxNumSize) (readNum B st vch nMaxNumSize) := by
  intro n hB
  unfold readNum at hB ⊢
  cases hnum : scriptNum vch (ScriptFlag.MINIMALDATA.isSet B) nMaxNumSize with
  | none =>
    rw [hnum] at hB
    cases hB
  | some m =>
    rw [hnum] at hB
    rw [scriptNum_of_included h hnum]
    exact hB

theorem relaxes_checkSignatureEncoding (vchSig : List Byte) (stack : Stack) :
    Relaxes (checkSignatureEncoding crypto A vchSig stack)
      (checkSignatureEncoding crypto B vchSig stack) := by
  apply Relaxes.bind
  · apply relaxes_demand
    intro hder hne hA
    apply hder hne
    simp only [Bool.or_eq_true] at hA ⊢
    exact hA.imp (Or.imp (h.isSet _) (h.isSet _)) (h.isSet _)
  intro _
  apply Relaxes.bind
  · exact relaxes_demand fun hlow hne hA => hlow hne (h.isSet _ hA)
  intro _
  exact relaxes_demand fun htype hne hA => htype hne (h.isSet _ hA)

theorem relaxes_checkPubKeyEncoding (vchPubKey : List Byte) (stack : Stack) :
    Relaxes (checkPubKeyEncoding sigversion A vchPubKey stack)
      (checkPubKeyEncoding sigversion B vchPubKey stack) := by
  apply Relaxes.bind
  · exact relaxes_demand_flag h _
  intro _
  exact relaxes_demand_flag h _

theorem relaxes_branch (negated : Bool) (st : EvalState) :
    Relaxes (branch sigversion A negated st) (branch sigversion B negated st) := by
  unfold branch
  split
  · split
    · exact Relaxes.refl _
    · apply Relaxes.bind
      · exact relaxes_demand fun hmin hv hA => hmin hv (h.isSet _ hA)
      intro _
      exact Relaxes.refl _
  · exact Relaxes.refl _

theorem relaxes_pick (roll : Bool) (st : EvalState) : Relaxes (pick A roll st) (pick B roll st) := by
  unfold pick
  split
  · apply Relaxes.bind
    · exact relaxes_readNum h _ _ _
    intro _
    exact Relaxes.refl _
  · exact Relaxes.refl _

theorem relaxes_within (st : EvalState) : Relaxes (within A st) (within B st) := by
  unfold within
  split
  · apply Relaxes.bind
    · exact relaxes_readNum h _ _ _
    intro _
    apply Relaxes.bind
    · exact relaxes_readNum h _ _ _
    intro _
    apply Relaxes.bind
    · exact relaxes_readNum h _ _ _
    intro _
    exact Relaxes.refl _
  · exact Relaxes.refl _

theorem relaxes_unary (op : UnaryOp) (st : EvalState) : Relaxes (unary A op st) (unary B op st) := by
  unfold unary
  split
  · exact Relaxes.refl _
  · apply Relaxes.bind
    · exact relaxes_readNum h _ _ _
    intro _
    exact Relaxes.refl _

theorem relaxes_binary (op : BinaryOp) (st : EvalState) : Relaxes (binary A op st) (binary B op st) := by
  unfold binary
  split
  · apply Relaxes.bind
    · exact relaxes_readNum h _ _ _
    intro _
    apply Relaxes.bind
    · exact relaxes_readNum h _ _ _
    intro _
    exact Relaxes.refl _
  · exact Relaxes.refl _

theorem relaxes_checkSig (verify : Bool) (st : EvalState) :
    Relaxes (checkSig crypto checker sigversion A verify st)
      (checkSig crypto checker sigversion B verify st) := by
  unfold checkSig
  split
  · apply Relaxes.bind
    · exact relaxes_checkSignatureEncoding h crypto _ _
    intro _
    apply Relaxes.bind
    · exact relaxes_checkPubKeyEncoding h sigversion _ _
    intro _
    apply Relaxes.bind
    · exact relaxes_demand fun hnull hfail hA => hnull hfail (h.isSet _ hA)
    intro _
    exact Relaxes.refl _
  · exact Relaxes.refl _

theorem relaxes_matchSignatures (scriptCode : Script) (stack : Stack) (keys sigs : List (List Byte)) :
    Relaxes (matchSignatures crypto checker sigversion A scriptCode stack keys sigs)
      (matchSignatures crypto checker sigversion B scriptCode stack keys sigs) := by
  induction keys generalizing sigs with
  | nil =>
    cases sigs with
    | nil => exact Relaxes.refl _
    | cons vchSig sigs => exact Relaxes.refl _
  | cons vchPubKey keys ih =>
    cases sigs with
    | nil => exact Relaxes.refl _
    | cons vchSig sigs =>
      unfold matchSignatures
      apply Relaxes.bind
      · exact relaxes_checkSignatureEncoding h crypto _ _
      intro _
      apply Relaxes.bind
      · exact relaxes_checkPubKeyEncoding h sigversion _ _
      intro _
      generalize (if checker.checkSig vchSig vchPubKey scriptCode sigversion then sigs
        else vchSig :: sigs) = left
      dsimp only
      split
      · exact Relaxes.refl _
      · exact ih _

theorem relaxes_checkSigs (verify : Bool) (st : EvalState) (nKeysCount nSigsCount : Nat) :
    Relaxes (checkSigs crypto checker sigversion A verify st nKeysCount nSigsCount)
      (checkSigs crypto checker sigversion B verify st nKeysCount nSigsCount) := by
  unfold checkSigs
  apply Relaxes.bind
  · exact relaxes_matchSignatures h crypto checker sigversion _ _ _ _
  intro fSuccess
  apply Relaxes.bind
  · exact relaxes_demand fun hnull hfail hA => hnull hfail (h.isSet _ hA)
  intro _
  split
  · exact Relaxes.refl _
  · apply Relaxes.bind
    · exact relaxes_demand_flag h _
    intro _
    exact Relaxes.refl _

theorem relaxes_checkMultiSig (verify : Bool) (st : EvalState) :
    Relaxes (checkMultiSig crypto checker sigversion A verify st)
      (checkMultiSig crypto checker sigversion B verify st) := by
  unfold checkMultiSig
  split
  · exact Relaxes.refl _
  · apply Relaxes.bind
    · exact relaxes_readNum h _ _ _
    intro nKeysCount
    apply Relaxes.bind (Relaxes.refl _)
    intro _
    apply Relaxes.bind (Relaxes.refl _)
    intro _
    apply Relaxes.bind (Relaxes.refl _)
    intro _
    apply Relaxes.bind
    · exact relaxes_readNum h _ _ _
    intro nSigsCount
    apply Relaxes.bind (Relaxes.refl _)
    intro _
    apply Relaxes.bind (Relaxes.refl _)
    intro _
    exact relaxes_checkSigs h crypto checker sigversion verify _ _ _

theorem relaxes_nop {flag : ScriptFlag}
    (hnops : ScriptFlag.DISCOURAGE_UPGRADABLE_NOPS.isSet A → flag.isSet A) {st : EvalState}
    {x y : Eval Progress} (hxy : Relaxes x y) (hy : ∀ p, y = .ok p → p = .next st) :
    Relaxes
      (if flag.isSet A then x else do
        demand (!ScriptFlag.DISCOURAGE_UPGRADABLE_NOPS.isSet A) .DISCOURAGE_UPGRADABLE_NOPS st.stack
        pure (.next st))
      (if flag.isSet B then y else do
        demand (!ScriptFlag.DISCOURAGE_UPGRADABLE_NOPS.isSet B) .DISCOURAGE_UPGRADABLE_NOPS st.stack
        pure (.next st)) := by
  intro p hp
  by_cases hA : flag.isSet A
  · rw [if_pos hA]
    rw [if_pos (h.isSet flag hA)] at hp
    exact hxy p hp
  · have hfree : (!ScriptFlag.DISCOURAGE_UPGRADABLE_NOPS.isSet A) = true := by
      rw [Bool.not_eq_true']
      exact eq_false_of_ne_true fun hd => hA (hnops hd)
    rw [if_neg hA, demand, Except.require_pos hfree]
    split at hp
    · rw [hy p hp]
      rfl
    · obtain ⟨_, _, hp⟩ := Except.bind_eq_ok_iff.mp hp
      exact hp

theorem relaxes_checkLockTimeVerify (hA : ConsistentFlags A) (st : EvalState) :
    Relaxes (checkLockTimeVerify checker A st) (checkLockTimeVerify checker B st) := by
  unfold checkLockTimeVerify
  apply relaxes_nop h hA.nops_locktime
  · split
    · exact Relaxes.refl _
    · apply Relaxes.bind
      · exact relaxes_readNum h _ _ _
      intro _
      exact Relaxes.refl _
  · intro p hp
    split at hp
    · cases hp
    · simp only [Except.bind_eq_ok_iff, Except.pure_eq_ok_iff] at hp
      obtain ⟨_, _, _, _, _, _, hp⟩ := hp
      exact hp.symm

theorem relaxes_checkSequenceVerify (hA : ConsistentFlags A) (st : EvalState) :
    Relaxes (checkSequenceVerify checker A st) (checkSequenceVerify checker B st) := by
  unfold checkSequenceVerify
  apply relaxes_nop h hA.nops_sequence
  · split
    · exact Relaxes.refl _
    · apply Relaxes.bind
      · exact relaxes_readNum h _ _ _
      intro _
      exact Relaxes.refl _
  · intro p hp
    split at hp
    · cases hp
    · simp only [Except.bind_eq_ok_iff, Except.pure_eq_ok_iff] at hp
      obtain ⟨_, _, _, _, _, _, hp⟩ := hp
      exact hp.symm

theorem relaxes_execOp (hA : ConsistentFlags A) (byte : Byte) (pc : Script) (st : EvalState)
    (op : Opcode) :
    Relaxes (execOp crypto checker sigversion A byte pc st op)
      (execOp crypto checker sigversion B byte pc st op) := by
  cases op with
  | OP_CHECKLOCKTIMEVERIFY => exact relaxes_checkLockTimeVerify h checker hA st
  | OP_CHECKSEQUENCEVERIFY => exact relaxes_checkSequenceVerify h checker hA st
  | upgradableNop =>
    apply Relaxes.bind
    · apply relaxes_demand
      simp only [Bool.not_eq_true']
      intro hB
      exact eq_false_of_ne_true fun hd => by simp [h.isSet _ hd] at hB
    intro _
    exact Relaxes.refl _
  | OP_IF => exact relaxes_branch h sigversion false st
  | OP_NOTIF => exact relaxes_branch h sigversion true st
  | OP_PICK => exact relaxes_pick h false st
  | OP_ROLL => exact relaxes_pick h true st
  | OP_CHECKSIG => exact relaxes_checkSig h crypto checker sigversion false st
  | OP_CHECKSIGVERIFY => exact relaxes_checkSig h crypto checker sigversion true st
  | OP_CHECKMULTISIG => exact relaxes_checkMultiSig h crypto checker sigversion false st
  | OP_CHECKMULTISIGVERIFY => exact relaxes_checkMultiSig h crypto checker sigversion true st
  | OP_WITHIN => exact relaxes_within h st
  | unary op => exact relaxes_unary h op st
  | binary op => exact relaxes_binary h op st
  -- the other operations do not read the flags
  | _ => exact Relaxes.refl _

/-! ### The loop -/

theorem relaxes_dispatch (hA : ConsistentFlags A) (opcode : Byte) (vchPushValue : List Byte)
    (pc : Script) (st : EvalState) :
    Relaxes (dispatch crypto checker sigversion A opcode vchPushValue pc st)
      (dispatch crypto checker sigversion B opcode vchPushValue pc st) := by
  unfold dispatch
  split
  · apply Relaxes.bind
    · exact relaxes_demand_flag h _
    intro _
    exact Relaxes.refl _
  split
  · cases Opcode.decode opcode with
    | none => exact Relaxes.refl _
    | some op => exact relaxes_execOp h crypto checker sigversion hA opcode pc st op
  · exact Relaxes.refl _

theorem relaxes_evalOp (hA : ConsistentFlags A) (opcode : Byte) (vchPushValue : List Byte)
    (pc : Script) (st : EvalState) :
    Relaxes (evalOp crypto checker sigversion A opcode vchPushValue pc st)
      (evalOp crypto checker sigversion B opcode vchPushValue pc st) := by
  unfold evalOp
  apply Relaxes.bind (Relaxes.refl _)
  intro _
  apply Relaxes.bind (Relaxes.refl _)
  intro _
  apply Relaxes.bind (Relaxes.refl _)
  intro _
  apply Relaxes.bind
  · exact relaxes_dispatch h crypto checker sigversion hA _ _ _ _
  intro _
  exact Relaxes.refl _

theorem relaxes_evalFrom (hA : ConsistentFlags A) (fuel : Nat) (pc : Script) (st : EvalState) :
    Relaxes (evalFrom crypto checker sigversion A fuel pc st)
      (evalFrom crypto checker sigversion B fuel pc st) := by
  induction fuel generalizing pc st with
  | zero => exact Relaxes.refl _
  | succ fuel ih =>
    unfold evalFrom
    split
    · exact Relaxes.refl _
    split
    · exact Relaxes.refl _
    · apply Relaxes.bind
      · exact relaxes_evalOp h crypto checker sigversion hA _ _ _ _
      intro progress
      cases progress with
      | done stack => exact Relaxes.refl _
      | next st => exact ih _ _

theorem relaxes_evaluate (hA : ConsistentFlags A) (stack : Stack) (script : Script) :
    Relaxes (evaluate crypto checker A sigversion stack script)
      (evaluate crypto checker B sigversion stack script) := by
  apply Relaxes.mapError
  apply Relaxes.bind (Relaxes.refl _)
  intro _
  exact relaxes_evalFrom h crypto checker sigversion hA _ _ _

/-! ### Verifying an input -/

theorem relaxes_verifyWitnessProgram (hA : ConsistentFlags A) (witness : List Script)
    (witversion : Nat) (program : List Byte) :
    Relaxes (verifyWitnessProgram crypto checker A witness witversion program)
      (verifyWitnessProgram crypto checker B witness witversion program) := by
  unfold verifyWitnessProgram
  split
  · apply Relaxes.bind (Relaxes.refl _)
    intro _
    apply Relaxes.bind (Relaxes.refl _)
    intro _
    apply Relaxes.bind
    · exact relaxes_evaluate h crypto checker .WITNESS_V0 hA _ _
    intro _
    exact Relaxes.refl _
  · apply Relaxes.require
    simp only [Bool.not_eq_true']
    intro hB
    exact eq_false_of_ne_true fun hd => by simp [h.isSet _ hd] at hB

theorem relaxes_verifyWitness (hA : ConsistentFlags A) (hwitness : ScriptFlag.WITNESS.isSet A)
    (script : Script) (witness : List Script) (stack : Stack) (hadWitness : Bool) (exact : Prop)
    [Decidable exact] (malleated : ScriptError) :
    Relaxes (verifyWitness crypto checker A script witness stack hadWitness exact malleated)
      (verifyWitness crypto checker B script witness stack hadWitness exact malleated) := by
  unfold verifyWitness
  rw [if_pos hwitness, if_pos (h.isSet _ hwitness)]
  split
  · exact Relaxes.refl _
  · apply Relaxes.bind (Relaxes.refl _)
    intro _
    apply Relaxes.bind
    · exact relaxes_verifyWitnessProgram h crypto checker hA _ _ _
    intro _
    exact Relaxes.refl _

theorem relaxes_verifyScriptHash (hA : ConsistentFlags A) (hwitness : ScriptFlag.WITNESS.isSet A)
    (scriptSig scriptPubKey : Script) (witness : List Script) (stackCopy stack : Stack)
    (hadWitness : Bool) :
    Relaxes (verifyScriptHash crypto checker A scriptSig scriptPubKey witness stackCopy stack hadWitness)
      (verifyScriptHash crypto checker B scriptSig scriptPubKey witness stackCopy stack hadWitness) := by
  have hp2sh := hA.witness_p2sh hwitness
  unfold verifyScriptHash
  rw [hp2sh, h.isSet _ hp2sh]
  split
  · apply Relaxes.bind (Relaxes.refl _)
    intro _
    split
    · exact Relaxes.refl _
    · apply Relaxes.bind
      · exact relaxes_evaluate h crypto checker .BASE hA _ _
      intro _
      apply Relaxes.bind (Relaxes.refl _)
      intro _
      exact relaxes_verifyWitness h crypto checker hA hwitness _ _ _ _ _ _
  · exact Relaxes.refl _

theorem relaxes_verifyClean (hA : ConsistentFlags A) (witness : List Script) (stack : Stack)
    (hadWitness : Bool) :
    Relaxes (verifyClean A witness stack hadWitness) (verifyClean B witness stack hadWitness) := by
  apply Relaxes.bind
  · exact Relaxes.require fun _ hclean => ⟨hA.cleanstack_p2sh hclean, hA.cleanstack_witness hclean⟩
  intro _
  apply Relaxes.bind
  · exact Relaxes.require fun hone hclean => hone (h.isSet _ hclean)
  intro _
  apply Relaxes.bind
  · exact Relaxes.require fun _ => hA.witness_p2sh
  intro _
  exact Relaxes.require fun hnone hwitness => hnone (h.isSet _ hwitness)

end Operations

theorem verifyWitness_of_not_isSet {crypto : Crypto} {checker : SignatureChecker} {A : Nat}
    (hA : ScriptFlag.WITNESS.isSet A = false) {script : Script} {witness : List Script}
    {stack : Stack} {hadWitness : Bool} {exact : Prop} [Decidable exact] {malleated : ScriptError} :
    verifyWitness crypto checker A script witness stack hadWitness exact malleated =
      .ok (stack, hadWitness) := by
  unfold verifyWitness
  rw [hA]
  rfl

theorem verifyScriptHash_of_not_isSet {crypto : Crypto} {checker : SignatureChecker} {A B : Nat}
    (h : FlagsIncluded A B) (hA : ConsistentFlags A) (hwitness : ScriptFlag.WITNESS.isSet A = false)
    {scriptSig scriptPubKey : Script} {witness : List Script} {stackCopy stackA stackB : Stack}
    {hadA hadB : Bool} {p : Stack × Bool}
    (hB : verifyScriptHash crypto checker B scriptSig scriptPubKey witness stackCopy stackB hadB =
      .ok p) :
    ∃ q, verifyScriptHash crypto checker A scriptSig scriptPubKey witness stackCopy stackA hadA =
      .ok q := by
  unfold verifyScriptHash at hB ⊢
  by_cases hp2sh : ScriptFlag.P2SH.isSet A && Script.isPayToScriptHash scriptPubKey
  · rw [if_pos hp2sh]
    rw [Bool.and_eq_true] at hp2sh
    rw [h.isSet _ hp2sh.1, hp2sh.2, Bool.and_true, if_pos rfl] at hB
    obtain ⟨_, hpush, hB⟩ := Except.bind_eq_ok_iff.mp hB
    rw [hpush, Except.ok_bind]
    cases stackCopy with
    | nil => cases hB
    | cons pubKey2 s =>
      dsimp only at hB ⊢
      obtain ⟨stack, heval, hB⟩ := Except.bind_eq_ok_iff.mp hB
      obtain ⟨_, htrue, _⟩ := Except.bind_eq_ok_iff.mp hB
      rw [relaxes_evaluate h crypto checker .BASE hA _ _ _ heval, Except.ok_bind, htrue, Except.ok_bind,
        verifyWitness_of_not_isSet hwitness]
      exact ⟨_, rfl⟩
  · rw [if_neg hp2sh]
    exact ⟨_, rfl⟩

theorem verifyClean_of_not_isSet {A : Nat} (hA : ConsistentFlags A)
    (hwitness : ScriptFlag.WITNESS.isSet A = false) (witness : List Script) (stack : Stack)
    (hadWitness : Bool) : verifyClean A witness stack hadWitness = .ok () := by
  have hclean : ScriptFlag.CLEANSTACK.isSet A = false := eq_false_of_ne_true fun hc => by
    simp [hA.cleanstack_witness hc] at hwitness
  unfold verifyClean fails
  simp [hwitness, hclean, Except.ok_bind]

/-- A flag less never turns success into failure. `SCRIPT_EXEC_BYTE_CODE` is not read at all, and of the larger set nothing is needed but that the verification succeeds. -/
theorem verifyScript_of_included (crypto : Crypto) (checker : SignatureChecker) {A B : Nat}
    (h : FlagsIncluded A B) (hA : ConsistentFlags A) (scriptSig scriptPubKey : Script)
    (witness : List Script)
    (hB : verifyScript crypto checker B scriptSig scriptPubKey witness = .ok ()) :
    verifyScript crypto checker A scriptSig scriptPubKey witness = .ok () := by
  unfold verifyScript at hB ⊢
  obtain ⟨_, hpush, hB⟩ := Except.bind_eq_ok_iff.mp hB
  obtain ⟨stackCopy, hsig, hB⟩ := Except.bind_eq_ok_iff.mp hB
  obtain ⟨stack, hkey, hB⟩ := Except.bind_eq_ok_iff.mp hB
  obtain ⟨_, htrue, hB⟩ := Except.bind_eq_ok_iff.mp hB
  obtain ⟨⟨stack₁, had₁⟩, hbare, hB⟩ := Except.bind_eq_ok_iff.mp hB
  obtain ⟨⟨stack₂, had₂⟩, hhash, hclean⟩ := Except.bind_eq_ok_iff.mp hB
  have hpushA :
      fails (ScriptFlag.SIGPUSHONLY.isSet A → Script.isPushOnly scriptSig) .SIG_PUSHONLY = .ok () :=
    Relaxes.require (fun hc hset => hc (h.isSet _ hset)) _ hpush
  rw [hpushA, Except.ok_bind, relaxes_evaluate h crypto checker .BASE hA _ _ _ hsig, Except.ok_bind,
    relaxes_evaluate h crypto checker .BASE hA _ _ _ hkey, Except.ok_bind, htrue, Except.ok_bind]
  -- with `WITNESS` both verifications go the same way to the end; without it only the second evaluation is left
  cases hwitness : ScriptFlag.WITNESS.isSet A with
  | true =>
    rw [relaxes_verifyWitness h crypto checker hA hwitness _ _ _ _ _ _ _ hbare, Except.ok_bind]
    dsimp only
    rw [relaxes_verifyScriptHash h crypto checker hA hwitness _ _ _ _ _ _ _ hhash, Except.ok_bind]
    exact relaxes_verifyClean h hA _ _ _ _ hclean
  | false =>
    rw [verifyWitness_of_not_isSet hwitness, Except.ok_bind]
    obtain ⟨q, hq⟩ := verifyScriptHash_of_not_isSet h hA hwitness hhash
    dsimp only
    rw [hq, Except.ok_bind]
    exact verifyClean_of_not_isSet hA hwitness _ _ _

/-- `OP_1 OP_CHECKLOCKTIMEVERIFY`, spent under `P2SH`, `NULLDUMMY`, `MINIMALDATA`, `DISCOURAGE_UPGRADABLE_NOPS`, `WITNESS` and the two lock time flags, and under `P2SH` alone. -/
theorem verifyScript_locktime :
    FlagsIncluded 0x1 0xed1 ∧ ConsistentFlags 0x1 ∧
      verifyScript ⟨id, id, id, id, id, fun _ => true⟩
        ⟨fun _ _ _ _ => true, fun n => n == 1, fun _ => false⟩ 0xed1 [] [0x51, 0xb1] [] = .ok () ∧
      verifyScript ⟨id, id, id, id, id, fun _ => true⟩
        ⟨fun _ _ _ _ => true, fun n => n == 1, fun _ => false⟩ 0x1 [] [0x51, 0xb1] [] = .ok () := by
  have hincluded : FlagsIncluded 0x1 0xed1 := rfl
  have hconsistent : ConsistentFlags 0x1 := ⟨by decide, by decide, by decide, by decide, by decide⟩
  have hstrict :
    verifyScript ⟨id, id, id, id, id, fun _ => true⟩
      ⟨fun _ _ _ _ => true, fun n => n == 1, fun _ => false⟩ 0xed1 []
      [0x51, 0xb1] [] = .ok () := by
    rfl
  exact ⟨hincluded, hconsistent, hstrict,
    verifyScript_of_included _ _ hincluded hconsistent _ _ _ hstrict⟩

end TscPow
