import TscPow.Contract.Converter
import TscPow.Primitives.Stream

/-!
# What a signature signs

`SignatureHash` (`script/interpreter.cpp`) hashes a transaction that is changed according to the hash type. Before witnesses, the changed transaction is not built: `CTransactionSignatureSerializer` changes the fields as it writes them, and writes the script code in pieces between its code separators, after a length that was counted beforehand. The bytes are those of a copy that is changed first (`modifiedCopy`), as the function was once written and as its test still has it.

The length of a vector is taken to be an `unsigned int`.
-/

namespace TscPow

namespace Script

theorem opcode_of_immediate {b opcode : Byte} {n : Nat} {pc rest : Script} {operand : List Byte}
    (h : immediate b n pc = some (opcode, operand, rest)) : opcode = b := by
  rw [immediate] at h
  split at h
  · cases h
  · cases h
    rfl

theorem exists_cons_of_getOp {script rest : Script} {opcode : Byte} {operand : List Byte}
    (h : getOp script = some (opcode, operand, rest)) :
    ∃ pc, script = opcode :: pc := by
  cases script with
  | nil => cases h
  | cons b pc =>
    suffices heq : opcode = b from ⟨pc, by rw [heq]⟩
    unfold getOp at h
    dsimp only at h
    split_ifs at h with h0 h1 h2 h4
    · exact opcode_of_immediate h
    · split at h
      · exact opcode_of_immediate h
      · cases h
    · split at h
      · exact opcode_of_immediate h
      · cases h
    · split at h
      · exact opcode_of_immediate h
      · cases h
    · cases h
      rfl

end Script

def OP_CODESEPARATOR : Byte := 0xab

def SIGHASH_NONE : BitVec 32 := 2
def SIGHASH_SINGLE : BitVec 32 := 3
def SIGHASH_ANYONECANPAY : BitVec 32 := 0x80

/-- Where a failed `GetOp` leaves the iterator. -/
def Script.afterFailure : Script → Script
  | [] => []
  | opcode :: pc =>
    if opcode = 0x4c then pc.drop 1
    else if opcode = 0x4d then if pc.length < 2 then pc else pc.drop 2
    else if opcode = 0x4e then if pc.length < 4 then pc else pc.drop 4
    else pc

/-- `v[i]`. -/
def elementAt {α : Type} (v : List α) (i : Nat) : Except Fault α := v[i]?.elim (.error .undefined) .ok

/-- `CTransactionSignatureSerializer`. -/
structure SignatureSerializer where
  txTo : Tx
  scriptCode : Script
  nIn : Nat
  fAnyoneCanPay : Bool
  fHashSingle : Bool
  fHashNone : Bool

namespace SignatureSerializer

def ofHashType (txTo : Tx) (scriptCode : Script) (nIn : Nat) (nHashType : BitVec 32) :
    SignatureSerializer where
  txTo := txTo
  scriptCode := scriptCode
  nIn := nIn
  fAnyoneCanPay := nHashType &&& SIGHASH_ANYONECANPAY != 0
  fHashSingle := nHashType &&& 0x1f == SIGHASH_SINGLE
  fHashNone := nHashType &&& 0x1f == SIGHASH_NONE

/-- The second loop of `SerializeScriptCode` and what follows it. An iterator is what is left of the script. -/
def writePieces : (fuel : Nat) → (itBegin it : Script) → List Byte
  | 0, _, _ => []
  | fuel + 1, itBegin, it =>
    match Script.getOp it with
    | none => if itBegin ≠ [] then itBegin.take (itBegin.length - it.afterFailure.length) else []
    | some (opcode, _, rest) =>
      if opcode = OP_CODESEPARATOR then
        itBegin.take (itBegin.length - rest.length - 1) ++ writePieces fuel rest rest
      else writePieces fuel itBegin rest

def serializeScriptCode (scriptCode : Script) : List Byte :=
  writeCompactSize (scriptCode.length - Script.find scriptCode OP_CODESEPARATOR) ++
    writePieces (scriptCode.length + 1) scriptCode scriptCode

def serializeInput (s : SignatureSerializer) (nInput : Nat) : Except Fault (List Byte) := do
  let nInput := if s.fAnyoneCanPay then s.nIn else nInput
  let txin ← elementAt s.txTo.vin nInput
  return txin.prevout.serialize ++
    ((if nInput ≠ s.nIn then writeBytes [] else serializeScriptCode s.scriptCode) ++
      if nInput ≠ s.nIn ∧ (s.fHashSingle ∨ s.fHashNone) then writeInt 4 0 else writeBitVec txin.nSequence)

def serializeOutput (s : SignatureSerializer) (nOutput : Nat) : Except Fault (List Byte) :=
  if s.fHashSingle ∧ nOutput ≠ s.nIn then .ok (TxOut.serialize ⟨-1, []⟩)
  else TxOut.serialize <$> elementAt s.txTo.vout nOutput

def nInputs (s : SignatureSerializer) : Nat := if s.fAnyoneCanPay then 1 else s.txTo.vin.length

def nOutputs (s : SignatureSerializer) : Nat := if s.fHashNone then 0
    else if s.fHashSingle then s.nIn + 1 else s.txTo.vout.length

def serialize (s : SignatureSerializer) : Except Fault (List Byte) := do
  let vin ← (List.range s.nInputs).mapM s.serializeInput
  let vout ← (List.range s.nOutputs).mapM s.serializeOutput
  return writeInt 4 s.txTo.nVersion ++
    (writeCompactSize s.nInputs ++ vin.flatten ++
      (writeCompactSize s.nOutputs ++ vout.flatten ++ writeBitVec s.txTo.nLockTime))

end SignatureSerializer

/-- `PrecomputedTransactionData`. -/
structure PrecomputedTransactionData where
  hashPrevouts : Uint256
  hashSequence : Uint256
  hashOutputs : Uint256

/-- `GetPrevoutHash`, `GetSequenceHash` and `GetOutputsHash`. -/
def PrecomputedTransactionData.ofTx (hash : List Byte → Uint256) (txTo : Tx) :
    PrecomputedTransactionData where
  hashPrevouts := hash (txTo.vin.flatMap fun txin => txin.prevout.serialize)
  hashSequence := hash (txTo.vin.flatMap fun txin => writeBitVec txin.nSequence)
  hashOutputs := hash (txTo.vout.flatMap TxOut.serialize)

/-- `SignatureHash` for a witness. -/
def signatureHashWitness (hash : List Byte → Uint256) (scriptCode : Script) (txTo : Tx) (nIn : Nat)
    (nHashType : BitVec 32) (amount : Amount) (cache : Option PrecomputedTransactionData) :
    Except Fault Uint256 := do
  let data := cache.getD (.ofTx hash txTo)
  let fAnyoneCanPay := nHashType &&& SIGHASH_ANYONECANPAY != 0
  let fHashSingle := nHashType &&& 0x1f == SIGHASH_SINGLE
  let fHashNone := nHashType &&& 0x1f == SIGHASH_NONE
  let hashPrevouts := if fAnyoneCanPay then default else data.hashPrevouts
  let hashSequence := if fAnyoneCanPay || fHashSingle || fHashNone then default else data.hashSequence
  let hashOutputs :=
    if !fHashSingle && !fHashNone then data.hashOutputs
    else if fHashSingle then txTo.vout[nIn]?.elim default fun txout => hash txout.serialize
    else default
  let txin ← elementAt txTo.vin nIn
  return hash
    (writeInt 4 txTo.nVersion ++
      (hashPrevouts.data ++
        (hashSequence.data ++
          (txin.prevout.serialize ++ (writeBytes scriptCode ++ (writeInt 8 amount ++
    (writeBitVec txin.nSequence ++
      (hashOutputs.data ++ (writeBitVec txTo.nLockTime ++ writeBitVec nHashType)))))))))

/-- `SignatureHash`, with the hash of what a `CHashWriter` was given. -/
def signatureHash (hash : List Byte → Uint256) (scriptCode : Script) (txTo : Tx) (nIn : Nat)
    (nHashType : BitVec 32) (amount : Amount) (sigversion : SigVersion)
    (cache : Option PrecomputedTransactionData) : Except Fault Uint256 :=
  if sigversion = .WITNESS_V0 then signatureHashWitness hash scriptCode txTo nIn nHashType amount cache
  else if nIn ≥ txTo.vin.length then .ok (Uint256.ofNat 1)
  else if nHashType &&& 0x1f = SIGHASH_SINGLE ∧ nIn ≥ txTo.vout.length then .ok (Uint256.ofNat 1)
  else do
    let txTmp ← (SignatureSerializer.ofHashType txTo scriptCode nIn nHashType).serialize
    return hash (txTmp ++ writeBitVec nHashType)

/-- The transaction that is signed, as a copy: no script but the script code, no code separator in it, and only the inputs, outputs and sequence numbers that the hash type leaves. -/
def modifiedCopy (scriptCode : Script) (txTo : Tx) (nIn : Nat) (nHashType : BitVec 32) : Tx :=
  let free := nHashType &&& 0x1f = SIGHASH_NONE ∨ nHashType &&& 0x1f = SIGHASH_SINGLE
  let signed (txin : TxIn) : TxIn :=
    { txin with scriptSig := Script.findAndDelete scriptCode [OP_CODESEPARATOR] }
  let other (txin : TxIn) : TxIn :=
    { txin with scriptSig := [], nSequence := if free then 0 else txin.nSequence }
  { txTo with
    vin :=
      if nHashType &&& SIGHASH_ANYONECANPAY ≠ 0 then txTo.vin[nIn]?.toList.map signed
      else txTo.vin.mapIdx fun i txin => if i = nIn then signed txin else other txin
    vout :=
      if nHashType &&& 0x1f = SIGHASH_NONE then []
      else if nHashType &&& 0x1f = SIGHASH_SINGLE then
        (txTo.vout.take (nIn + 1)).mapIdx fun i txout => if i = nIn then txout else ⟨-1, []⟩
      else txTo.vout }

/-! ### The script code -/

namespace Script

theorem suffix_of_immediate {opcode op : Byte} {nSize : Nat} {pc rest : Script} {operand : List Byte}
    (h : immediate opcode nSize pc = some (op, operand, rest)) : rest <:+ pc := by
  rw [immediate] at h
  split at h
  · cases h
  · cases h
    exact List.drop_suffix _ _

theorem suffix_of_getOp {script rest : Script} {opcode : Byte} {operand : List Byte}
    (h : getOp script = some (opcode, operand, rest)) : rest <:+ script := by
  unfold getOp at h
  split at h
  · cases h
  rename_i b pc
  split_ifs at h with h0 h1 h2 h4
  · exact (suffix_of_immediate h).trans (List.suffix_cons ..)
  · split at h
    · exact (suffix_of_immediate h).trans ⟨[_, _], rfl⟩
    · cases h
  · split at h
    · exact (suffix_of_immediate h).trans ⟨[_, _, _], rfl⟩
    · cases h
  · split at h
    · exact (suffix_of_immediate h).trans ⟨[_, _, _, _, _], rfl⟩
    · cases h
  · cases h
    exact List.suffix_cons ..

theorem getOp_separator (rest : Script) : getOp (OP_CODESEPARATOR :: rest) =
    some (OP_CODESEPARATOR, [], rest) := getOp_of_gt (by decide) rest

theorem findAndDeleteFrom_separator (fuel : Nat) (rest : Script) :
    findAndDeleteFrom (fuel + 1) [OP_CODESEPARATOR] (OP_CODESEPARATOR :: rest) =
      findAndDeleteFrom (fuel + 1) [OP_CODESEPARATOR] rest := by
  have hskip :
      skipCopies (OP_CODESEPARATOR :: rest).length [OP_CODESEPARATOR] (OP_CODESEPARATOR :: rest) =
        skipCopies rest.length [OP_CODESEPARATOR] rest := by
    rw [List.length_cons, skipCopies]
    exact if_pos ⟨rest, rfl⟩
  rw [findAndDeleteFrom, findAndDeleteFrom, hskip]

theorem findAndDeleteFrom_other {bytes rest : Script} {opcode : Byte} {operand : List Byte}
    (hop : getOp (bytes ++ rest) = some (opcode, operand, rest)) (hne : opcode ≠ OP_CODESEPARATOR)
    (fuel : Nat) :
    findAndDeleteFrom (fuel + 1) [OP_CODESEPARATOR] (bytes ++ rest) =
      bytes ++ findAndDeleteFrom fuel [OP_CODESEPARATOR] rest := by
  obtain ⟨pc, hpc⟩ := exists_cons_of_getOp hop
  have hskip : skipCopies (bytes ++ rest).length [OP_CODESEPARATOR] (bytes ++ rest) = bytes ++ rest := by
    rw [hpc, List.length_cons, skipCopies, if_neg]
    intro hcopy
    exact hne (List.cons_prefix_cons.mp hcopy).1.symm
  rw [findAndDeleteFrom, hskip, hop]
  dsimp only
  rw [List.length_append, Nat.add_sub_cancel, List.take_left]

end Script

open SignatureSerializer

theorem exists_stripped {script : Script} {ops : List (Byte × List Byte)} (h : Script.Parses script ops) :
    ∃ stripped,
      (∀ fuel, script.length ≤ fuel → Script.findAndDeleteFrom fuel [OP_CODESEPARATOR] script =
        stripped) ∧
      (∀ fuel front, script.length < fuel →
        writePieces fuel (front ++ script) script = front ++ stripped) ∧
      stripped.length + ops.countP (·.1 == OP_CODESEPARATOR) = script.length := by
  induction h with
  | nil =>
    refine ⟨[], ?_, ?_, rfl⟩
    · intro fuel _
      cases fuel with
      | zero => rfl
      | succ fuel => rfl
    · intro fuel front hfuel
      obtain ⟨fuel, rfl⟩ := Nat.exists_eq_add_one.mpr hfuel
      rw [writePieces, List.append_nil]
      cases front with
      | nil => rfl
      | cons b front => simp [Script.getOp, Script.afterFailure]
  | @cons script rest opcode operand ops hop _ ih =>
    obtain ⟨stripped, hdelete, hwrite, hlength⟩ := ih
    have hlt := Script.length_lt_of_getOp hop
    by_cases hsep : opcode = OP_CODESEPARATOR
    · -- the separator is one byte, behind which a new piece begins
      subst hsep
      obtain ⟨pc, rfl⟩ := Script.exists_cons_of_getOp hop
      rw [Script.getOp_separator] at hop
      cases hop
      refine ⟨stripped, ?_, ?_, ?_⟩
      · intro fuel hfuel
        obtain ⟨fuel, rfl⟩ := Nat.exists_eq_add_one.mpr (hlt.trans_le hfuel |> Nat.zero_lt_of_lt)
        rw [Script.findAndDeleteFrom_separator]
        exact hdelete _ (by rw [List.length_cons] at hfuel; omega)
      · intro fuel front hfuel
        obtain ⟨fuel, rfl⟩ := Nat.exists_eq_add_one.mpr (Nat.zero_lt_of_lt hfuel)
        have hpiece : (front ++ OP_CODESEPARATOR :: rest).length - rest.length - 1 = front.length := by
          rw [List.length_append, List.length_cons]
          omega
        have hrest := hwrite fuel [] (by rw [List.length_cons] at hfuel; omega)
        rw [List.nil_append, List.nil_append] at hrest
        rw [writePieces, Script.getOp_separator]
        dsimp only
        rw [if_pos rfl, hpiece, List.take_left, hrest]
      · rw [List.countP_cons_of_pos (by simp), List.length_cons]
        omega
    · obtain ⟨bytes, rfl⟩ := Script.suffix_of_getOp hop
      refine ⟨bytes ++ stripped, ?_, ?_, ?_⟩
      · intro fuel hfuel
        obtain ⟨fuel, rfl⟩ := Nat.exists_eq_add_one.mpr (Nat.zero_lt_of_lt (hlt.trans_le hfuel))
        rw [Script.findAndDeleteFrom_other hop hsep, hdelete _ (by omega)]
      · intro fuel front hfuel
        obtain ⟨fuel, rfl⟩ := Nat.exists_eq_add_one.mpr (Nat.zero_lt_of_lt hfuel)
        rw [writePieces, hop]
        dsimp only
        rw [if_neg hsep, ← List.append_assoc, hwrite fuel (front ++ bytes) (by omega), List.append_assoc]
      · rw [List.countP_cons_of_neg (by simpa using hsep), List.length_append, List.length_append]
        omega

theorem serializeScriptCode_eq {script : Script} {ops : List (Byte × List Byte)}
    (h : Script.Parses script ops) :
    serializeScriptCode script = writeBytes (Script.findAndDelete script [OP_CODESEPARATOR]) := by
  obtain ⟨stripped, hdelete, hwrite, hlength⟩ := exists_stripped h
  have hdeleted : Script.findAndDelete script [OP_CODESEPARATOR] = stripped := hdelete _ le_rfl
  have hcount : script.length - Script.find script OP_CODESEPARATOR = stripped.length := by
    rw [Script.find, h.operations]
    omega
  rw [serializeScriptCode, hcount, hdeleted, writeBytes]
  exact congrArg _ (hwrite (script.length + 1) [] (Nat.lt_succ_self _))

/-! ### The transaction -/

section Serialize

variable {txTo : Tx} {scriptCode : Script} {ops : List (Byte × List Byte)} {nIn : Nat}
  {nHashType : BitVec 32}

theorem elementAt_eq {α : Type} {v : List α} {i : Nat} (h : i < v.length) : elementAt v i = .ok v[i] := by
  rw [elementAt, List.getElem?_eq_getElem h]
  rfl

theorem mapM_range {f : Nat → Except Fault (List Byte)} {n : Nat} {written : List (List Byte)}
    (hn : n = written.length) (h : ∀ i (hi : i < written.length), f i = .ok (written.get ⟨i, hi⟩)) :
    (List.range n).mapM f = .ok written := by
  have hall : ∀ i ∈ List.range n, f i = .ok (written.getD i []) := by
    intro i hi
    rw [List.mem_range, hn] at hi
    rw [h i hi, List.getD_eq_getElem _ _ hi]
    rfl
  rw [Except.mapM_eq_ok_of_forall hall]
  refine congrArg Except.ok (List.ext_getElem (by simp [hn]) ?_)
  intro i _ hi
  rw [List.getElem_map, List.getElem_range, List.getD_eq_getElem _ _ hi]

theorem free_iff :
    (((ofHashType txTo scriptCode nIn nHashType).fHashSingle = true ∨
      (ofHashType txTo scriptCode nIn nHashType).fHashNone = true)) ↔
    nHashType &&& 0x1f = SIGHASH_NONE ∨ nHashType &&& 0x1f = SIGHASH_SINGLE := by
  simp [ofHashType, or_comm]

theorem serializeInput_signed (hparses : Script.Parses scriptCode ops)
    (hnIn : nIn < txTo.vin.length) {nInput : Nat}
    (h : nHashType &&& SIGHASH_ANYONECANPAY ≠ 0 ∨ nInput = nIn) :
    (ofHashType txTo scriptCode nIn nHashType).serializeInput nInput =
      .ok (TxIn.serialize { txTo.vin[nIn] with
        scriptSig := Script.findAndDelete scriptCode [OP_CODESEPARATOR] }) := by
  have hindex :
      (if (ofHashType txTo scriptCode nIn nHashType).fAnyoneCanPay then nIn else nInput) = nIn := by
    rcases h with hany | rfl
    · exact if_pos (bne_iff_ne.mpr hany)
    · exact ite_self _
  rw [serializeInput]
  dsimp only
  rw [show (ofHashType txTo scriptCode nIn nHashType).nIn = nIn from rfl, hindex]
  change (elementAt txTo.vin nIn >>= _) = _
  rw [elementAt_eq hnIn, Except.ok_bind, if_neg (not_not.mpr rfl), if_neg fun hne => hne.1 rfl]
  change Except.ok (_ ++ (serializeScriptCode scriptCode ++ _)) = _
  rw [serializeScriptCode_eq hparses]
  rfl

theorem serializeInput_other (hany : nHashType &&& SIGHASH_ANYONECANPAY = 0) {nInput : Nat}
    (hlt : nInput < txTo.vin.length) (hne : nInput ≠ nIn) :
    (ofHashType txTo scriptCode nIn nHashType).serializeInput nInput = .ok
    (TxIn.serialize { txTo.vin[nInput] with
      scriptSig := []
      nSequence := if nHashType &&& 0x1f = SIGHASH_NONE ∨ nHashType &&& 0x1f = SIGHASH_SINGLE then 0
        else txTo.vin[nInput].nSequence }) := by
  have hindex : (if (ofHashType txTo scriptCode nIn nHashType).fAnyoneCanPay then nIn else nInput) =
      nInput := if_neg (by simp [ofHashType, hany])
  rw [serializeInput]
  dsimp only
  rw [show (ofHashType txTo scriptCode nIn nHashType).nIn = nIn from rfl, hindex]
  change (elementAt txTo.vin nInput >>= _) = _
  rw [elementAt_eq hlt, Except.ok_bind, if_pos hne]
  by_cases hfree : nHashType &&& 0x1f = SIGHASH_NONE ∨ nHashType &&& 0x1f = SIGHASH_SINGLE
  · rw [if_pos ⟨hne, free_iff.mpr hfree⟩, if_pos hfree]
    rfl
  · rw [if_neg fun h => hfree (free_iff.mp h.2), if_neg hfree]
    rfl

theorem mapM_serializeInput (hparses : Script.Parses scriptCode ops) (hnIn : nIn < txTo.vin.length) :
    (ofHashType txTo scriptCode nIn nHashType).nInputs =
    (modifiedCopy scriptCode txTo nIn nHashType).vin.length ∧
    (List.range (ofHashType txTo scriptCode nIn nHashType).nInputs).mapM
    (ofHashType txTo scriptCode nIn nHashType).serializeInput =
      .ok ((modifiedCopy scriptCode txTo nIn nHashType).vin.map TxIn.serialize) := by
  by_cases hany : nHashType &&& SIGHASH_ANYONECANPAY ≠ 0
  · have hone : (ofHashType txTo scriptCode nIn nHashType).nInputs = 1 := if_pos (bne_iff_ne.mpr hany)
    have hvin : (modifiedCopy scriptCode txTo nIn nHashType).vin =
        [{ txTo.vin[nIn] with scriptSig := Script.findAndDelete scriptCode [OP_CODESEPARATOR] }] := by
      rw [modifiedCopy]
      dsimp only
      rw [if_pos hany, List.getElem?_eq_getElem hnIn]
      rfl
    rw [hone, hvin]
    refine ⟨rfl, mapM_range rfl ?_⟩
    intro i hi
    rw [serializeInput_signed hparses hnIn (.inl hany)]
    obtain rfl : i = 0 := Nat.lt_one_iff.mp hi
    rfl
  · have hall : (ofHashType txTo scriptCode nIn nHashType).nInputs = txTo.vin.length :=
      if_neg (by simpa [ofHashType] using hany)
    rw [hall, modifiedCopy]
    dsimp only
    rw [if_neg hany]
    refine ⟨List.length_mapIdx.symm, mapM_range (by simp) ?_⟩
    intro i hi
    rw [List.length_map, List.length_mapIdx] at hi
    simp only [List.get_eq_getElem, List.getElem_map, List.getElem_mapIdx]
    split
    · rename_i heq
      subst heq
      exact serializeInput_signed hparses hnIn (.inr rfl)
    · rename_i hne
      exact serializeInput_other (not_not.mp hany) hi hne

theorem mapM_serializeOutput (hsingle : nHashType &&& 0x1f = SIGHASH_SINGLE → nIn < txTo.vout.length) :
    (ofHashType txTo scriptCode nIn nHashType).nOutputs =
    (modifiedCopy scriptCode txTo nIn nHashType).vout.length ∧
    (List.range (ofHashType txTo scriptCode nIn nHashType).nOutputs).mapM
    (ofHashType txTo scriptCode nIn nHashType).serializeOutput =
      .ok ((modifiedCopy scriptCode txTo nIn nHashType).vout.map TxOut.serialize) := by
  rw [modifiedCopy]
  dsimp only
  by_cases hnone : nHashType &&& 0x1f = SIGHASH_NONE
  · have hzero : (ofHashType txTo scriptCode nIn nHashType).nOutputs = 0 := if_pos (beq_iff_eq.mpr hnone)
    rw [if_pos hnone, hzero]
    exact ⟨rfl, rfl⟩
  have hfNone : ¬ (ofHashType txTo scriptCode nIn nHashType).fHashNone = true := by
    simpa [ofHashType] using hnone
  rw [if_neg hnone, nOutputs, if_neg hfNone]
  by_cases hone : nHashType &&& 0x1f = SIGHASH_SINGLE
  · have hlt := hsingle hone
    have hfSingle : (ofHashType txTo scriptCode nIn nHashType).fHashSingle = true := beq_iff_eq.mpr hone
    have hcount :
        nIn + 1 = ((txTo.vout.take (nIn + 1)).mapIdx fun i txout => if i = nIn then txout
          else ⟨-1, []⟩).length := by
      rw [List.length_mapIdx, List.length_take]
      omega
    rw [if_pos hone, if_pos hfSingle]
    refine ⟨hcount, mapM_range (by rw [List.length_map]; exact hcount) ?_⟩
    intro i hi
    rw [List.length_map, ← hcount] at hi
    simp only [List.get_eq_getElem, List.getElem_map, List.getElem_mapIdx, List.getElem_take]
    rw [serializeOutput]
    by_cases heq : i = nIn
    · rw [if_neg fun h => h.2 heq, if_pos heq]
      change _ <$> elementAt txTo.vout i = _
      rw [elementAt_eq (by omega)]
      rfl
    · rw [if_pos ⟨hfSingle, heq⟩, if_neg heq]
  · have hfSingle : ¬ (ofHashType txTo scriptCode nIn nHashType).fHashSingle = true := by
      simpa [ofHashType] using hone
    rw [if_neg hone, if_neg hfSingle]
    refine ⟨rfl, mapM_range (List.length_map _).symm ?_⟩
    intro i hi
    rw [List.length_map] at hi
    rw [serializeOutput, if_neg fun h => hfSingle h.1]
    change _ <$> elementAt txTo.vout i = _
    rw [elementAt_eq hi, List.get_eq_getElem, List.getElem_map]
    rfl

theorem serialize_eq (hparses : Script.Parses scriptCode ops) (hnIn : nIn < txTo.vin.length)
    (hsingle : nHashType &&& 0x1f = SIGHASH_SINGLE → nIn < txTo.vout.length) :
    (ofHashType txTo scriptCode nIn nHashType).serialize = .ok
    (modifiedCopy scriptCode txTo nIn nHashType).serializeNoWitness := by
  obtain ⟨hnInputs, hvin⟩ := @mapM_serializeInput txTo scriptCode ops nIn nHashType hparses hnIn
  obtain ⟨hnOutputs, hvout⟩ := @mapM_serializeOutput txTo scriptCode nIn nHashType hsingle
  rw [serialize, hvin, Except.ok_bind, hvout, Except.ok_bind, hnInputs, hnOutputs,
    Tx.serializeNoWitness, writeVector, writeVector, List.flatMap_def, List.flatMap_def]
  rfl

/-- Before witnesses, what is hashed is the modified copy and the hash type. -/
theorem signatureHash_eq_modifiedCopy (hash : List Byte → Uint256) (scriptCode : Script)
    (ops : List (Byte × List Byte)) (hparses : Script.Parses scriptCode ops) (txTo : Tx) (nIn : Nat)
    (nHashType : BitVec 32) (amount : Amount) (cache : Option PrecomputedTransactionData) :
    signatureHash hash scriptCode txTo nIn nHashType amount .BASE cache =
      .ok (if nIn ≥ txTo.vin.length ∨ nHashType &&& 0x1f = SIGHASH_SINGLE ∧
        nIn ≥ txTo.vout.length then Uint256.ofNat 1
        else hash ((modifiedCopy scriptCode txTo nIn nHashType).serializeNoWitness ++
          writeBitVec nHashType)) := by
  rw [signatureHash, if_neg (by decide)]
  by_cases hnIn : nIn ≥ txTo.vin.length
  · rw [if_pos hnIn, if_pos (.inl hnIn)]
  rw [if_neg hnIn]
  by_cases hsingle : nHashType &&& 0x1f = SIGHASH_SINGLE ∧ nIn ≥ txTo.vout.length
  · rw [if_pos hsingle, if_pos (.inr hsingle)]
  rw [if_neg hsingle, if_neg (not_or.mpr ⟨hnIn, hsingle⟩),
    serialize_eq hparses (not_le.mp hnIn) fun h => not_le.mp fun hle => hsingle ⟨h, hle⟩]
  rfl

/-- `OP_1 OP_CODESEPARATOR OP_CHECKSIG`, for the second of two inputs and one of three outputs. -/
theorem signatureHash_eq_modifiedCopy_single :
    let txTo : Tx :=
      ⟨2, [⟨⟨default, 0⟩, [0x51], 7, []⟩, ⟨⟨default, 1⟩, [0x52], 8, []⟩],
        [⟨5, []⟩, ⟨6, [0x51]⟩, ⟨7, []⟩], 9⟩
    let hash : List Byte → Uint256 := fun bytes => Uint256.ofNat (Limbs.value bytes)
    modifiedCopy [0x51, 0xab, 0xac] txTo 1 0x83 =
      ⟨2, [⟨⟨default, 1⟩, [0x51, 0xac], 8, []⟩], [⟨-1, []⟩, ⟨6, [0x51]⟩], 9⟩ ∧
      signatureHash hash [0x51, 0xab, 0xac] txTo 1 0x83 0 .BASE none =
        .ok (hash ((modifiedCopy [0x51, 0xab, 0xac] txTo 1 0x83).serializeNoWitness ++
          writeBitVec (0x83 : BitVec 32))) := by
  intro txTo hash
  refine ⟨by decide, ?_⟩
  have hparses : Script.Parses [0x51, 0xab, 0xac] [(0x51, []), (0xab, []), (0xac, [])] :=
    .cons rfl (.cons rfl (.cons rfl .nil))
  rw [signatureHash_eq_modifiedCopy hash _ _ hparses txTo 1 0x83 0 none, if_neg (by decide)]

end Serialize

end TscPow
