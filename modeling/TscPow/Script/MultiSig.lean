import TscPow.Base.Matching
import TscPow.Script.Interpreter

/-!
# Multisignatures by stack positions

`OP_CHECKMULTISIG` as `interpreter.cpp` has it: positions counted from the top of the stack, every read with the range check of `stack.at`, and the arguments popped one by one. A read or a pop below the bottom is `none`. It never happens, and the operation is the one of the interpreter, which takes the keys and the signatures off as lists. The result is true exactly if the signatures can be matched with the keys in order.
-/

namespace TscPow

/-- A computation of the interpreter that may also read below the bottom of the stack. -/
abbrev Indexed := ExceptT (ScriptError × Stack) Option

def Indexed.lift {α : Type} (x : Eval α) : Indexed α := ExceptT.mk (some x)

namespace MultiSig

def stacktop (stack : Stack) (i : Nat) : Indexed (List Byte) :=
  ExceptT.lift (if i = 0 then none else stack[i - 1]?)

def popstack : Stack → Indexed Stack
  | [] => ExceptT.lift none
  | _ :: stack => pure stack

section

variable (crypto : Crypto) (checker : SignatureChecker) (sigversion : SigVersion) (flags : Nat)

def deleteSignatures (stack : Stack) (isig : Nat) : (nSigsCount k : Nat) → Script → Indexed Script
  | 0, _, scriptCode => pure scriptCode
  | n + 1, k, scriptCode => do
    let vchSig ← stacktop stack (isig + k)
    deleteSignatures stack isig n (k + 1) (if sigversion = .BASE then
      Script.findAndDelete scriptCode (Script.pushData vchSig) else scriptCode)

/-- The `while` loop over the keys. There are never fewer keys than signatures left, so the second case is not met; it counts as a read out of range. -/
def matchLoop (scriptCode : Script) (stack : Stack) : (nKeysCount nSigsCount ikey isig : Nat) →
    Indexed Bool
  | _, 0, _, _ => pure true
  | 0, _ + 1, _, _ => ExceptT.lift none
  | nKeysCount + 1, n + 1, ikey, isig => do
    let vchSig ← stacktop stack isig
    let vchPubKey ← stacktop stack ikey
    Indexed.lift (checkSignatureEncoding crypto flags vchSig stack)
    Indexed.lift (checkPubKeyEncoding sigversion flags vchPubKey stack)
    let fOk := checker.checkSig vchSig vchPubKey scriptCode sigversion
    let nSigsCount := if fOk then n else n + 1
    if nSigsCount > nKeysCount then pure false
    else matchLoop scriptCode stack nKeysCount nSigsCount (ikey + 1) (if fOk then isig + 1 else isig)

/-- The clean-up of `n` arguments, of which the first `ikey2` are not signatures. -/
def cleanUp (fSuccess : Bool) : (n ikey2 : Nat) → Stack → Indexed Stack
  | 0, _, stack => pure stack
  | n + 1, ikey2, stack => do
    if !fSuccess ∧ ScriptFlag.NULLFAIL.isSet flags ∧ ikey2 = 0 then
      let vch ← stacktop stack 1
      Indexed.lift (demand (vch = []) .SIG_NULLFAIL stack)
    let stack ← popstack stack
    cleanUp fSuccess n (ikey2 - 1) stack

def pushResult (verify fSuccess : Bool) (st : EvalState) (stack : Stack) : Indexed Progress := do
  Indexed.lift (demand (1 ≤ stack.length) .INVALID_STACK_OPERATION stack)
  let dummy ← stacktop stack 1
  Indexed.lift (demand (ScriptFlag.NULLDUMMY.isSet flags → dummy = []) .SIG_NULLDUMMY stack)
  let stack ← popstack stack
  if verify then
    Indexed.lift (demand fSuccess .CHECKMULTISIGVERIFY (boolItem fSuccess :: stack))
    return .next (st.setStack stack)
  else return .next (st.setStack (boolItem fSuccess :: stack))

/-- What follows once the numbers are known: the first key is at position 2, the first signature at `isig`. -/
def runSigs (verify : Bool) (st : EvalState) (nKeysCount nSigsCount : Nat) : Indexed Progress := do
  let isig := nKeysCount + 3
  let i := isig + nSigsCount
  let scriptCode ← deleteSignatures sigversion st.stack isig nSigsCount 0 st.codehash
  let fSuccess ←
    matchLoop crypto checker sigversion flags scriptCode st.stack nKeysCount nSigsCount 2 isig
  let stack ← cleanUp flags fSuccess (i - 1) (nKeysCount + 2) st.stack
  pushResult flags verify fSuccess st stack

/-- `OP_CHECKMULTISIG` and `OP_CHECKMULTISIGVERIFY`. -/
def run (verify : Bool) (st : EvalState) : Indexed Progress := do
  Indexed.lift (demand (1 ≤ st.stack.length) .INVALID_STACK_OPERATION st.stack)
  let top ← stacktop st.stack 1
  let nKeysCount := getint (← Indexed.lift (readNum flags st top 4))
  Indexed.lift
    (demand (0 ≤ nKeysCount ∧ nKeysCount ≤ Script.MAX_PUBKEYS_PER_MULTISIG) .PUBKEY_COUNT st.stack)
  let st := { st with nOpCount := st.nOpCount + nKeysCount.toNat }
  Indexed.lift (demand (st.nOpCount ≤ MAX_OPS_PER_SCRIPT) .OP_COUNT st.stack)
  Indexed.lift (demand (nKeysCount.toNat + 2 ≤ st.stack.length) .INVALID_STACK_OPERATION st.stack)
  let count ← stacktop st.stack (nKeysCount.toNat + 2)
  let nSigsCount := getint (← Indexed.lift (readNum flags st count 4))
  Indexed.lift (demand (0 ≤ nSigsCount ∧ nSigsCount ≤ nKeysCount) .SIG_COUNT st.stack)
  Indexed.lift
    (demand (nKeysCount.toNat + nSigsCount.toNat + 3 ≤ st.stack.length) .INVALID_STACK_OPERATION
      st.stack)
  runSigs crypto checker sigversion flags verify st nKeysCount.toNat nSigsCount.toNat

end

/-! ### Steps -/

theorem lift_bind {α β : Type} (x : Eval α) (f : α → Indexed β) (g : α → Eval β)
    (h : ∀ a, x = .ok a → f a = Indexed.lift (g a)) :
    Indexed.lift x >>= f = Indexed.lift (x >>= g) := by
  cases x with
  | error e => rfl
  | ok a => exact h a rfl

theorem lift_seq_bind {α β γ : Type} (x : Eval α) (a : β) (f : β → Indexed γ) :
    Indexed.lift (do let _ ← x; pure a) >>= f = Indexed.lift x >>= fun _ => f a := by
  cases x with
  | error e => rfl
  | ok _ => rfl

theorem stacktop_bind {α : Type} {stack : Stack} {i : Nat} {vch : List Byte}
    (f : List Byte → Indexed α) (h : stack[i]? = some vch) :
    stacktop stack (i + 1) >>= f = f vch := by
  rw [stacktop, if_neg (Nat.succ_ne_zero i), Nat.add_sub_cancel, h]
  rfl

theorem lift_ok_bind {α β : Type} (a : α) (f : α → Indexed β) : Indexed.lift (.ok a) >>= f = f a := rfl

variable {crypto : Crypto} {checker : SignatureChecker} {sigversion : SigVersion} {flags : Nat}

theorem getElem?_of_drop {stack : Stack} {i : Nat} {vch : List Byte} {items : List (List Byte)}
    (h : stack.drop i = vch :: items) :
    stack[i]? = some vch ∧ stack.drop (i + 1) = items := by
  refine ⟨?_, ?_⟩
  · rw [← Nat.add_zero i, ← List.getElem?_drop, h]
    rfl
  · rw [← List.drop_drop, h]
    rfl

theorem deleteSignatures_eq {stack : Stack} {isig k : Nat} {sigs rest : List (List Byte)}
    (scriptCode : Script) (h : stack.drop (isig + k) = sigs ++ rest) :
    deleteSignatures sigversion stack (isig + 1) sigs.length k scriptCode =
      pure (if sigversion = .BASE then
        sigs.foldl (fun code sig => Script.findAndDelete code (Script.pushData sig)) scriptCode
          else scriptCode) := by
  induction sigs generalizing k scriptCode with
  | nil => rw [List.foldl_nil, ite_self]; rfl
  | cons sig sigs ih =>
    obtain ⟨hsig, hdrop⟩ := getElem?_of_drop h
    rw [List.length_cons, deleteSignatures, Nat.add_right_comm, stacktop_bind _ hsig, ih _ hdrop]
    split <;> rfl

theorem matchLoop_eq {scriptCode : Script} {stack : Stack} {ikey isig : Nat}
    {keys sigs rest rest' : List (List Byte)} (hkeys : stack.drop ikey = keys ++ rest)
    (hsigs : stack.drop isig = sigs ++ rest') (hle : sigs.length ≤ keys.length) :
    matchLoop crypto checker sigversion flags scriptCode stack keys.length sigs.length (ikey + 1)
      (isig + 1) =
      Indexed.lift (matchSignatures crypto checker sigversion flags scriptCode stack keys sigs) := by
  induction keys generalizing ikey isig sigs with
  | nil =>
    obtain rfl := List.eq_nil_of_length_eq_zero (Nat.le_zero.mp hle)
    rfl
  | cons key keys ih =>
    cases sigs with
    | nil => rfl
    | cons sig sigs =>
      obtain ⟨hkey, hkeys'⟩ := getElem?_of_drop hkeys
      obtain ⟨hsig, hsigs'⟩ := getElem?_of_drop hsigs
      unfold matchLoop matchSignatures
      dsimp only [List.length_cons]
      rw [stacktop_bind _ hsig, stacktop_bind _ hkey]
      apply lift_bind
      intro _ _
      apply lift_bind
      intro _ _
      cases checker.checkSig sig key scriptCode sigversion with
      | true =>
        simp only [if_true]
        split
        · rfl
        · rename_i hmore
          exact ih hkeys' hsigs' (Nat.le_of_not_gt hmore)
      | false =>
        simp only [Bool.false_eq_true, if_false]
        rw [List.length_cons]
        split
        · rfl
        · rename_i hmore
          have hmore : (sig :: sigs).length ≤ keys.length := Nat.le_of_not_gt hmore
          exact ih hkeys' hsigs hmore

theorem cleanUp_skip (fSuccess : Bool) (n : Nat) (args rest : List (List Byte)) :
    cleanUp flags fSuccess (args.length + n) args.length (args ++ rest) =
      cleanUp flags fSuccess n 0 rest := by
  induction args with
  | nil => rw [List.length_nil, Nat.zero_add]; rfl
  | cons arg args ih =>
    rw [List.length_cons, Nat.add_right_comm, cleanUp, if_neg (by simp)]
    exact ih

theorem cleanUp_sigs {fSuccess : Bool} {sigs rest : List (List Byte)} :
    cleanUp flags fSuccess sigs.length 0 (sigs ++ rest) = Indexed.lift (do
      demand (!fSuccess → ScriptFlag.NULLFAIL.isSet flags → ∀ sig ∈ sigs, sig = []) .SIG_NULLFAIL
        (sigs.dropWhile (· == []) ++ rest)
      pure rest) := by
  induction sigs with
  | nil => rw [demand, Except.require_pos (by simp)]; rfl
  | cons sig sigs ih =>
    rw [List.length_cons, cleanUp]
    by_cases hlook : !fSuccess ∧ ScriptFlag.NULLFAIL.isSet flags
    · rw [if_pos ⟨hlook.1, hlook.2, rfl⟩]
      by_cases hsig : sig = []
      · subst hsig
        have hall : (!fSuccess → ScriptFlag.NULLFAIL.isSet flags → ∀ s ∈ [] :: sigs, s = []) ↔
            (!fSuccess → ScriptFlag.NULLFAIL.isSet flags → ∀ s ∈ sigs, s = []) := by simp
        simp only [demand, hall, List.dropWhile_cons, beq_self_eq_true, if_true] at ih ⊢
        exact ih
      · have hfail : ¬ (!fSuccess → ScriptFlag.NULLFAIL.isSet flags → ∀ s ∈ sig :: sigs, s = []) :=
          fun h => hsig (h hlook.1 hlook.2 sig List.mem_cons_self)
        have hbeq : (sig == []) = false := by simpa using hsig
        rw [demand, Except.require, if_neg hfail, List.dropWhile_cons, hbeq]
        change (Indexed.lift (demand (sig = []) .SIG_NULLFAIL _) >>= _) = _
        rw [demand, Except.require, if_neg hsig]
        rfl
    · have hall (l : List (List Byte)) : !fSuccess → ScriptFlag.NULLFAIL.isSet flags → ∀ s ∈ l, s = [] :=
        fun h₁ h₂ => absurd ⟨h₁, h₂⟩ hlook
      rw [if_neg (fun h => hlook ⟨h.1, h.2.1⟩), demand, Except.require_pos (hall _)]
      rw [demand, Except.require_pos (hall _)] at ih
      exact ih

theorem pushResult_eq {verify fSuccess : Bool} {st : EvalState} {dummy : List Byte} {s : Stack} :
    pushResult flags verify fSuccess st (dummy :: s) = Indexed.lift (do
      demand (ScriptFlag.NULLDUMMY.isSet flags → dummy = []) .SIG_NULLDUMMY (dummy :: s)
      if verify then
        demand fSuccess .CHECKMULTISIGVERIFY (vchFalse :: s)
        pure (.next (st.setStack s))
      else pure (.next (st.setStack (boolItem fSuccess :: s)))) := by
  rw [pushResult, demand, Except.require_pos (by simp), lift_ok_bind, stacktop_bind _ rfl]
  apply lift_bind
  intro _ _
  cases verify with
  | false => rfl
  | true => cases fSuccess <;> rfl

/-- The arguments, from the top: the number of keys, the keys, the number of signatures, the signatures and the dummy. -/
def arguments (top : List Byte) (keys : List (List Byte)) (count : List Byte)
    (sigs : List (List Byte)) (dummy : List Byte) (rest : Stack) : Stack :=
  top :: (keys ++ count :: (sigs ++ dummy :: rest))

theorem exists_arguments {stack : Stack} {k s : Nat} (h : k + s + 3 ≤ stack.length) :
    ∃ top keys count sigs dummy rest, stack = arguments top keys count sigs dummy rest ∧
      keys.length = k ∧ sigs.length = s := by
  obtain ⟨top, items, rfl⟩ := List.exists_cons_of_length_pos (by omega : 0 < stack.length)
  rw [List.length_cons] at h
  obtain ⟨count, more, hmore⟩ :=
    List.exists_cons_of_length_pos (l := items.drop k) (by rw [List.length_drop]; omega)
  have hlength := congrArg List.length hmore
  rw [List.length_drop, List.length_cons] at hlength
  obtain ⟨dummy, rest, hrest⟩ :=
    List.exists_cons_of_length_pos (l := more.drop s) (by rw [List.length_drop]; omega)
  refine ⟨top, items.take k, count, more.take s, dummy, rest, ?_, List.length_take_of_le (by omega),
    List.length_take_of_le (by omega)⟩
  rw [arguments, ← hrest, List.take_append_drop, ← hmore, List.take_append_drop]

section

variable {top count dummy : List Byte} {keys sigs : List (List Byte)} {rest : Stack}

theorem drop_keys : (arguments top keys count sigs dummy rest).drop 1 =
    keys ++ count :: (sigs ++ dummy :: rest) := rfl

theorem drop_sigs :
    (arguments top keys count sigs dummy rest).drop (keys.length + 2) = sigs ++ dummy :: rest := by
  rw [arguments, List.drop_succ_cons, List.drop_length_add_append]
  rfl

theorem drop_dummy :
    (arguments top keys count sigs dummy rest).drop (keys.length + sigs.length + 2) =
      dummy :: rest := by
  rw [Nat.add_right_comm, ← List.drop_drop, drop_sigs, List.drop_left]

theorem getD_count : (arguments top keys count sigs dummy rest).getD (keys.length + 1) [] = count := by
  rw [arguments, List.getD_cons_succ, List.getD_append_right _ _ _ _ le_rfl, Nat.sub_self]
  rfl

theorem cleanUp_eq {fSuccess : Bool} :
    cleanUp flags fSuccess (keys.length + 2 + sigs.length) (keys.length + 2)
      (arguments top keys count sigs dummy rest) = Indexed.lift (do
      demand (!fSuccess → ScriptFlag.NULLFAIL.isSet flags → ∀ sig ∈ sigs, sig = []) .SIG_NULLFAIL
        (sigs.dropWhile (· == []) ++ dummy :: rest)
      pure (dummy :: rest)) := by
  have hskip :=
    @cleanUp_skip flags fSuccess sigs.length (top :: (keys ++ [count])) (sigs ++ dummy :: rest)
  have hlength : (top :: (keys ++ [count])).length = keys.length + 2 := by simp
  have happend : top :: (keys ++ [count]) ++ (sigs ++ dummy :: rest) =
      arguments top keys count sigs dummy rest := by simp [arguments]
  rw [hlength, happend] at hskip
  rw [hskip, cleanUp_sigs]

theorem runSigs_eq {verify : Bool} {st : EvalState}
    (hstack : st.stack = arguments top keys count sigs dummy rest)
    (hle : sigs.length ≤ keys.length) :
    runSigs crypto checker sigversion flags verify st keys.length sigs.length =
      Indexed.lift (checkSigs crypto checker sigversion flags verify st keys.length sigs.length) := by
  rw [runSigs, checkSigs, hstack, drop_keys, drop_sigs, drop_dummy, List.take_left, List.take_left]
  dsimp only
  have hdelete :=
    @deleteSignatures_eq sigversion _ (keys.length + 2) 0 _ _ st.codehash
      (@drop_sigs top count dummy keys sigs rest)
  rw [hdelete, pure_bind, matchLoop_eq drop_keys drop_sigs hle]
  apply lift_bind
  intro fSuccess _
  have hcount : keys.length + 3 + sigs.length - 1 = keys.length + 2 + sigs.length := by omega
  rw [hcount, cleanUp_eq, lift_seq_bind]
  apply lift_bind
  intro _ _
  exact pushResult_eq

end

theorem run_eq (verify : Bool) (st : EvalState) :
    run crypto checker sigversion flags verify st =
      Indexed.lift (checkMultiSig crypto checker sigversion flags verify st) := by
  obtain ⟨stack, altstack, vfExec, nOpCount, codehash⟩ := st
  cases stack with
  | nil => rfl
  | cons top items =>
    rw [run, checkMultiSig, demand, Except.require_pos (by simp), lift_ok_bind, stacktop_bind _ rfl]
    apply lift_bind
    intro n _
    apply lift_bind
    intro _ _
    apply lift_bind
    intro _ _
    apply lift_bind
    intro _ hkeys
    have hkeys : (getint n).toNat + 2 ≤ (top :: items).length := Except.require_eq_ok_iff.mp hkeys
    have hcount : (top :: items)[(getint n).toNat + 1]? =
        some ((top :: items).getD ((getint n).toNat + 1) []) := by
      rw [List.getD_eq_getElem?_getD, List.getElem?_eq_getElem (by omega)]
      rfl
    rw [stacktop_bind _ hcount]
    apply lift_bind
    intro m _
    apply lift_bind
    intro _ hsigs
    have hsigs := Except.require_eq_ok_iff.mp hsigs
    apply lift_bind
    intro _ hlength
    obtain ⟨top', keys, count, sigs, dummy, rest, hstack, hk, hs⟩ :=
      exists_arguments (Except.require_eq_ok_iff.mp hlength)
    rw [← hk, ← hs]
    exact runSigs_eq hstack (by omega)

/-! ### The matching -/

theorem matches_of_matchSignatures {scriptCode : Script} {stack : Stack}
    {keys sigs : List (List Byte)} {b : Bool}
    (h : matchSignatures crypto checker sigversion flags scriptCode stack keys sigs = .ok b) :
    b = true ↔ List.Matches (fun sig key => checker.checkSig sig key scriptCode sigversion = true)
      sigs keys := by
  induction keys generalizing sigs with
  | nil =>
    cases sigs with
    | nil =>
      cases h
      exact iff_of_true rfl List.matches_nil
    | cons sig sigs =>
      cases h
      exact iff_of_false Bool.false_ne_true fun hm => absurd hm.length_le (by simp)
  | cons key keys ih =>
    cases sigs with
    | nil =>
      cases h
      exact iff_of_true rfl List.matches_nil
    | cons sig sigs =>
      unfold matchSignatures at h
      obtain ⟨_, _, h⟩ := Except.bind_eq_ok_iff.mp h
      obtain ⟨_, _, h⟩ := Except.bind_eq_ok_iff.mp h
      -- what is left has a matching with the keys left exactly if there was one before
      have hleft :
        List.Matches (fun sig key => checker.checkSig sig key scriptCode sigversion = true)
          (sig :: sigs) (key :: keys) ↔
          List.Matches (fun sig key => checker.checkSig sig key scriptCode sigversion = true)
            (if checker.checkSig sig key scriptCode sigversion then sigs else sig :: sigs) keys := by
        split
        · rename_i hok
          exact List.matches_cons_of_pos hok
        · rename_i hok
          exact List.matches_cons_of_neg hok
      rw [hleft]
      generalize (if checker.checkSig sig key scriptCode sigversion then sigs else sig :: sigs) =
        left at h ⊢
      dsimp only at h
      split at h
      · rename_i hmore
        cases h
        exact iff_of_false Bool.false_ne_true fun hm => absurd hm.length_le (Nat.not_le_of_gt hmore)
      · exact ih h

def signedCode (sigversion : SigVersion) (codehash : Script) (sigs : List (List Byte)) : Script :=
  if sigversion = .BASE then sigs.foldl
    (fun code sig => Script.findAndDelete code (Script.pushData sig)) codehash else codehash

theorem exists_of_checkSigs {st : EvalState} {top count dummy : List Byte}
    {keys sigs : List (List Byte)} {rest : Stack} {p : Progress}
    (hstack : st.stack = arguments top keys count sigs dummy rest)
    (h : checkSigs crypto checker sigversion flags false st keys.length sigs.length = .ok p) :
    ∃ fSuccess, p = .next (st.setStack (boolItem fSuccess :: rest)) ∧
      (fSuccess = true ↔
        List.Matches
          (fun sig key => checker.checkSig sig key (signedCode sigversion st.codehash sigs)
            sigversion = true) sigs keys) := by
  rw [checkSigs, hstack, drop_keys, drop_sigs, drop_dummy, List.take_left, List.take_left] at h
  obtain ⟨fSuccess, hmatch, h⟩ := Except.bind_eq_ok_iff.mp h
  obtain ⟨_, _, h⟩ := Except.bind_eq_ok_iff.mp h
  obtain ⟨_, _, h⟩ := Except.bind_eq_ok_iff.mp h
  cases h
  exact ⟨fSuccess, rfl, matches_of_matchSignatures hmatch⟩

theorem exists_of_checkMultiSig {st : EvalState} {p : Progress}
    (h : checkMultiSig crypto checker sigversion flags false st = .ok p) :
    ∃ top keys count sigs dummy rest fSuccess, st.stack = arguments top keys count sigs dummy rest ∧
      getint <$> readNum flags st top 4 = .ok (keys.length : Int) ∧
        getint <$> readNum flags st count 4 = .ok (sigs.length : Int) ∧
      p = .next { st with stack := boolItem fSuccess :: rest, nOpCount := st.nOpCount + keys.length } ∧
      (fSuccess = true ↔
        List.Matches
          (fun sig key => checker.checkSig sig key (signedCode sigversion st.codehash sigs)
            sigversion = true) sigs keys) := by
  obtain ⟨stack, altstack, vfExec, nOpCount, codehash⟩ := st
  cases stack with
  | nil => cases h
  | cons top items =>
    rw [checkMultiSig] at h
    obtain ⟨n, hn, h⟩ := Except.bind_eq_ok_iff.mp h
    obtain ⟨_, hkeys, h⟩ := Except.bind_eq_ok_iff.mp h
    obtain ⟨_, _, h⟩ := Except.bind_eq_ok_iff.mp h
    obtain ⟨_, _, h⟩ := Except.bind_eq_ok_iff.mp h
    obtain ⟨m, hm, h⟩ := Except.bind_eq_ok_iff.mp h
    obtain ⟨_, hsigs, h⟩ := Except.bind_eq_ok_iff.mp h
    obtain ⟨_, hlength, h⟩ := Except.bind_eq_ok_iff.mp h
    have hkeys := Except.require_eq_ok_iff.mp hkeys
    have hsigs := Except.require_eq_ok_iff.mp hsigs
    obtain ⟨top', keys, count, sigs, dummy, rest, hstack, hk, hs⟩ :=
      exists_arguments (Except.require_eq_ok_iff.mp hlength)
    obtain ⟨rfl, rfl⟩ := List.cons.inj hstack
    rw [← hk, ← hs] at h
    rw [← hk] at hm
    change readNum flags _ ((arguments top keys count sigs dummy rest).getD (keys.length + 1) [])
      4 = .ok m at hm
    rw [getD_count] at hm
    obtain ⟨fSuccess, rfl, hmatch⟩ := exists_of_checkSigs rfl h
    refine ⟨top, keys, count, sigs, dummy, rest, fSuccess, rfl, ?_, ?_, rfl, hmatch⟩
    · rw [Except.map_eq_ok_iff]
      exact ⟨n, hn, by omega⟩
    · rw [Except.map_eq_ok_iff]
      exact ⟨m, hm, by omega⟩

/-- No read or pop goes below the bottom of the stack. Without an error, the arguments and the dummy are gone, and the item in their place is true exactly if there is an assignment of the signatures to keys, in order and no key twice, such that each signature checks against its key. -/
theorem run_matches (crypto : Crypto) (checker : SignatureChecker) (sigversion : SigVersion)
    (flags : Nat) (st : EvalState) :
    (∀ verify, (run crypto checker sigversion flags verify st).run =
      some (checkMultiSig crypto checker sigversion flags verify st)) ∧
    ∀ p, (run crypto checker sigversion flags false st).run = some (.ok p) →
      ∃ top keys count sigs dummy rest fSuccess,
        st.stack = top :: (keys ++ count :: (sigs ++ dummy :: rest)) ∧
        getint <$> readNum flags st top 4 = .ok (keys.length : Int) ∧
          getint <$> readNum flags st count 4 = .ok (sigs.length : Int) ∧
        p = .next { st with stack := boolItem fSuccess :: rest, nOpCount := st.nOpCount + keys.length } ∧
        (fSuccess = true ↔ ∃ f : Fin sigs.length → Fin keys.length, StrictMono f ∧
          ∀ i, checker.checkSig (sigs.get i) (keys.get (f i))
            (signedCode sigversion st.codehash sigs) sigversion = true) := by
  have hrun : ∀ verify, (run crypto checker sigversion flags verify st).run =
      some (checkMultiSig crypto checker sigversion flags verify st) :=
    fun verify => congrArg ExceptT.run (run_eq verify st)
  refine ⟨hrun, ?_⟩
  intro p h
  rw [hrun] at h
  exact exists_of_checkMultiSig (Option.some.inj h)

end MultiSig

end TscPow
