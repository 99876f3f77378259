import TscPow.Contract.Dgp

/-!
# Standard output scripts

`Solver` (`script/standard.cpp`) tells which kind of output a script is, by comparing it with templates. For contract outputs it is part of consensus: `CheckTransaction` refuses a transaction with a contract output that `Solver` refuses.
-/

namespace TscPow

inductive TxnOutType where
  | TX_PUBKEY
  | TX_PUBKEYHASH
  | TX_SCRIPTHASH
  | TX_MULTISIG
  | TX_NULL_DATA
  | TX_WITNESS_V0_SCRIPTHASH
  | TX_WITNESS_V0_KEYHASH
  | TX_CREATE
  | TX_CALL
  | TX_SSTX
deriving DecidableEq

/-- What a template has in the place of an operation. -/
inductive TemplateItem where
  | op (opcode : Byte)
  | pubkey
  | pubkeyHash
  | smallInteger
  | pubkeys
  | version
  | gasLimit
  | gasPrice
  | data
deriving DecidableEq

/-- `mTemplates`, in the order of its keys. -/
def mTemplates : List (TxnOutType × List TemplateItem) :=
  [(.TX_PUBKEY, [.pubkey, .op 0xac]),
    (.TX_PUBKEYHASH, [.op 0x76, .op 0xa9, .pubkeyHash, .op 0x88, .op 0xac]),
    (.TX_MULTISIG, [.smallInteger, .pubkeys, .smallInteger, .op 0xae]),
    (.TX_CREATE, [.version, .gasLimit, .gasPrice, .data, .op OP_CREATE]),
    (.TX_CALL, [.version, .gasLimit, .gasPrice, .data, .pubkeyHash, .op OP_CALL])]

/-- `CScriptNum::vch_to_uint64`; `none` is its exception. -/
def vchToUint64 (vch : List Byte) : Option Nat :=
  if vch.length > 8 then none else if vch.getLast?.any fun b => b &&& 0x80 != 0 then none
  else some (Limbs.value vch)

def STANDARD_MINIMUM_GAS_LIMIT : Nat := 10000

def STANDARD_MINIMUM_GAS_PRICE : Nat := 1

/-- The rule for the gas limit; a version that executes nothing needs no gas. -/
def checkGasLimit (contractConsensus : Bool) (rootVM val : Nat) : Bool :=
  if contractConsensus then decide (¬(rootVM ≠ 0 ∧ val < 1)) && decide (val ≤ MAX_BLOCK_GAS_LIMIT_DGP)
  else decide (¬(rootVM ≠ 0 ∧ val < STANDARD_MINIMUM_GAS_LIMIT)) &&
    decide (val ≤ DEFAULT_BLOCK_GAS_LIMIT_DGP / 2)

def checkGasPrice (contractConsensus : Bool) (rootVM val : Nat) : Bool :=
  decide (¬(rootVM ≠ 0 ∧ val < if contractConsensus then 1 else STANDARD_MINIMUM_GAS_PRICE))

/-- What the comparison with a template collects. -/
structure Matching where
  vSolutions : List (List Byte)
  version : VersionVM

/-- How the comparison ends early: the next template is tried, or `Solver` returns `false`. -/
inductive MatchEnd where
  | mismatch
  | refused
deriving DecidableEq

/-- The comparison of one operation. In the places of the version and of the data, an opcode that is not a data push is not looked at. -/
def matchItem (contractConsensus : Bool) (opcode1 : Byte) (vch1 : List Byte) (m : Matching) :
    TemplateItem → Except MatchEnd Matching
  | .pubkey => if 33 ≤ vch1.length ∧ vch1.length ≤ 65 then
      .ok { m with vSolutions := m.vSolutions ++ [vch1] } else .error .mismatch
  | .pubkeyHash => if vch1.length = 20 then .ok { m with vSolutions := m.vSolutions ++ [vch1] }
      else .error .mismatch
  | .smallInteger =>
    if opcode1 = 0 then .ok { m with vSolutions := m.vSolutions ++ [[0]] }
    else if 0x51 ≤ opcode1.toNat ∧ opcode1.toNat ≤ 0x60 then
      .ok { m with vSolutions := m.vSolutions ++ [[opcode1 - 0x50]] }
    else .error .mismatch
  | .version =>
    if opcode1.toNat ≤ 0x4e then
      if vch1 = [] ∨ vch1.length > 4 ∨ vch1.getLast?.any fun b => b &&& 0x80 != 0 then .error .refused
      else
        let version := VersionVM.fromRaw (Limbs.value vch1)
        if version = .evmDefault ∨ version = .noExec then .ok { m with version } else .error .refused
    else .ok m
  | .gasLimit => if (vchToUint64 vch1).any (checkGasLimit contractConsensus m.version.rootVM) then
      .ok m else .error .refused
  | .gasPrice => if (vchToUint64 vch1).any (checkGasPrice contractConsensus m.version.rootVM) then
      .ok m else .error .refused
  | .data => if opcode1.toNat ≤ 0x4e ∧ vch1 = [] then .error .mismatch else .ok m
  | .op opcode2 => if opcode1 = opcode2 ∧ vch1 = [] then .ok m else .error .mismatch
  -- the keys are read by `takePubkeys`, and another item follows
  | .pubkeys => .error .mismatch

/-- The loop for `OP_PUBKEYS`: the operations that may be keys, then the first that is not. After a malformed operation the opcode is invalid. -/
def takePubkeys : Nat → Byte → List Byte → Script → List (List Byte) →
    Byte × List Byte × Script × List (List Byte)
  | 0, opcode1, vch1, rest, vSolutions => (opcode1, vch1, rest, vSolutions)
  | fuel + 1, opcode1, vch1, rest, vSolutions =>
    if 33 ≤ vch1.length ∧ vch1.length ≤ 65 then
      match Script.getOp rest with
      | none => (0xff, [], rest, vSolutions ++ [vch1])
      | some (opcode1', vch1', rest') => takePubkeys fuel opcode1' vch1' rest' (vSolutions ++ [vch1])
    else (opcode1, vch1, rest, vSolutions)

def matchScript (contractConsensus : Bool) : List TemplateItem → Script → Matching →
    Except MatchEnd Matching
  | [], script, m => if script.isEmpty then .ok m else .error .mismatch
  | .pubkeys :: item :: items, script, m =>
    match Script.getOp script with
    | none => .error .mismatch
    | some (opcode1, vch1, rest) => do
      let (opcode1, vch1, rest, vSolutions) :=
        takePubkeys (rest.length + 1) opcode1 vch1 rest m.vSolutions
      let m ← matchItem contractConsensus opcode1 vch1 { m with vSolutions } item
      matchScript contractConsensus items rest m
  | item :: items, script, m =>
    match Script.getOp script with
    | none => .error .mismatch
    | some (opcode1, vch1, rest) => do
      let m ← matchItem contractConsensus opcode1 vch1 m item
      matchScript contractConsensus items rest m

def checkMultisigSolutions (vSolutions : List (List Byte)) : Bool :=
  let m := ((vSolutions.headD []).headD 0).toNat
  let n := ((vSolutions.getLastD []).headD 0).toNat
  decide (1 ≤ m) && decide (1 ≤ n) && decide (m ≤ n) && vSolutions.length == n + 2

/-- The scan of the templates; the version starts out as one that does not exist. -/
def scanTemplates (contractConsensus : Bool) (script : Script) :
    List (TxnOutType × List TemplateItem) → Option (TxnOutType × List (List Byte))
  | [] => none
  | (type, items) :: templates =>
    match matchScript contractConsensus items script ⟨[], ⟨0, 20, 0, 0⟩⟩ with
    | .ok m => if type = .TX_MULTISIG ∧ !checkMultisigSolutions m.vSolutions then none
        else some (type, m.vSolutions)
    | .error .mismatch => scanTemplates contractConsensus script templates
    | .error .refused => none

/-- `Solver`; `none` is its `return false`. -/
def solver (scriptPubKey : Script) (contractConsensus : Bool) : Option (TxnOutType × List (List Byte)) :=
  if Script.isPayToScriptHash scriptPubKey then some (.TX_SCRIPTHASH, [(scriptPubKey.drop 2).take 20])
  else
    match Script.isWitnessProgram scriptPubKey with
    | some (version, program) =>
      if version = 0 ∧ program.length = 20 then some (.TX_WITNESS_V0_KEYHASH, [program])
      else if version = 0 ∧ program.length = 32 then some (.TX_WITNESS_V0_SCRIPTHASH, [program])
      else none
    | none =>
      if scriptPubKey.head? = some OP_RETURN ∧ Script.isPushOnly scriptPubKey.tail then
        some (.TX_NULL_DATA, [])
      else if Script.hasOpSStx scriptPubKey then some (.TX_SSTX, [])
      else scanTemplates contractConsensus scriptPubKey mTemplates

/-- `Solver` as `CheckTransaction` asks it about contract outputs. -/
def solvesContract (script : Script) : Bool := (solver script true).isSome

/-! ### What a match says -/

theorem matchScript_cons_eq_ok_iff {cc : Bool} {item : TemplateItem} (hitem : item ≠ .pubkeys)
    {items : List TemplateItem} {script : Script} {m m' : Matching} :
    matchScript cc (item :: items) script m = .ok m' ↔
      ∃ opcode vch rest m₁, Script.getOp script = some (opcode, vch, rest) ∧
        matchItem cc opcode vch m item = .ok m₁ ∧
        matchScript cc items rest m₁ = .ok m' := by
  have hcons : matchScript cc (item :: items) script m =
      match Script.getOp script with
      | none => .error .mismatch
      | some (opcode, vch, rest) => matchItem cc opcode vch m item >>= matchScript cc items rest := by
    cases item <;> first | exact absurd rfl hitem | rfl
  rw [hcons]
  cases hop : Script.getOp script with
  | none => simp
  | some op =>
    obtain ⟨opcode, vch, rest⟩ := op
    simp [Except.bind_eq_ok_iff]

theorem matchScript_nil_eq_ok_iff {cc : Bool} {script : Script} {m m' : Matching} :
    matchScript cc [] script m = .ok m' ↔ script = [] ∧ m = m' := by
  unfold matchScript
  cases script with
  | nil => simp
  | cons b script => simp

theorem op_of_matchItem {cc : Bool} {opcode c : Byte} {vch : List Byte} {m m' : Matching}
    (h : matchItem cc opcode vch m (.op c) = .ok m') :
    opcode = c ∧ vch = [] := by
  rw [matchItem] at h
  split at h
  · assumption
  · cases h

theorem pubkeyHash_of_matchItem {cc : Bool} {opcode : Byte} {vch : List Byte} {m m' : Matching}
    (h : matchItem cc opcode vch m .pubkeyHash = .ok m') : vch.length = 20 := by
  rw [matchItem] at h
  split at h
  · assumption
  · cases h

theorem version_of_matchItem {cc : Bool} {opcode : Byte} {vch : List Byte} {m m' : Matching}
    (hpush : opcode.toNat ≤ 0x4e) (h : matchItem cc opcode vch m .version = .ok m') :
    vch ≠ [] ∧ vch.length ≤ 4 ∧ (vch.getLast?.any fun b => b &&& 0x80 != 0) = false ∧
      (VersionVM.fromRaw (Limbs.value vch) = .evmDefault ∨
        VersionVM.fromRaw (Limbs.value vch) = .noExec) ∧
      m'.version = VersionVM.fromRaw (Limbs.value vch) := by
  rw [matchItem, if_pos hpush] at h
  split at h
  · cases h
  rename_i hformat
  rw [not_or, not_or, Nat.not_lt, Bool.not_eq_true] at hformat
  dsimp only at h
  split at h
  · rename_i hknown
    cases h
    exact ⟨hformat.1, hformat.2.1, hformat.2.2, hknown, rfl⟩
  · cases h

theorem gasLimit_of_matchItem {cc : Bool} {opcode : Byte} {vch : List Byte} {m m' : Matching}
    (h : matchItem cc opcode vch m .gasLimit = .ok m') :
    (vchToUint64 vch).any (checkGasLimit cc m.version.rootVM) ∧ m' = m := by
  rw [matchItem] at h
  split at h
  · rename_i hcheck
    cases h
    exact ⟨hcheck, rfl⟩
  · cases h

theorem gasPrice_of_matchItem {cc : Bool} {opcode : Byte} {vch : List Byte} {m m' : Matching}
    (h : matchItem cc opcode vch m .gasPrice = .ok m') :
    (vchToUint64 vch).any (checkGasPrice cc m.version.rootVM) ∧ m' = m := by
  rw [matchItem] at h
  split at h
  · rename_i hcheck
    cases h
    exact ⟨hcheck, rfl⟩
  · cases h

theorem data_of_matchItem {cc : Bool} {opcode : Byte} {vch : List Byte} {m m' : Matching}
    (hpush : opcode.toNat ≤ 0x4e) (h : matchItem cc opcode vch m .data = .ok m') : vch ≠ [] := by
  rw [matchItem] at h
  split at h
  · cases h
  · rename_i hdata
    exact fun hnil => hdata ⟨hpush, hnil⟩

theorem exists_parses_of_matchScript {cc : Bool} {items : List TemplateItem}
    (hitems : .pubkeys ∉ items) {script : Script} {m m' : Matching}
    (h : matchScript cc items script m = .ok m') :
    ∃ ops, Script.Parses script ops ∧ ∀ c, .op c ∈ items → (c, []) ∈ ops := by
  induction items generalizing script m with
  | nil =>
    obtain ⟨rfl, _⟩ := matchScript_nil_eq_ok_iff.mp h
    exact ⟨[], .nil, by simp⟩
  | cons item items ih =>
    rw [List.mem_cons, not_or] at hitems
    obtain ⟨opcode, vch, rest, m₁, hop, hitem, hrest⟩ :=
      (matchScript_cons_eq_ok_iff (Ne.symm hitems.1)).mp h
    obtain ⟨ops, hparses, hmem⟩ := ih hitems.2 hrest
    refine ⟨(opcode, vch) :: ops, .cons hop hparses, ?_⟩
    intro c hc
    rcases List.mem_cons.mp hc with heq | hc
    · rw [← heq] at hitem
      obtain ⟨rfl, rfl⟩ := op_of_matchItem hitem
      exact List.mem_cons_self
    · exact List.mem_cons_of_mem _ (hmem c hc)

theorem takePubkeys_parses {fuel : Nat} {script rest : Script} {opcode : Byte} {vch : List Byte}
    (sols : List (List Byte)) (hop : Script.getOp script = some (opcode, vch, rest)) :
    (takePubkeys fuel opcode vch rest sols).1 = 0xff ∨
      ∀ ops, Script.Parses (takePubkeys fuel opcode vch rest sols).2.2.1 ops →
        ∃ before, Script.Parses script (before ++ ops) := by
  induction fuel generalizing script rest opcode vch sols with
  | zero =>
    right
    intro ops hops
    exact ⟨[(opcode, vch)], .cons hop hops⟩
  | succ fuel ih =>
    unfold takePubkeys
    split
    · cases hnext : Script.getOp rest with
      | none =>
        left
        rfl
      | some next =>
        obtain ⟨opcode', vch', rest'⟩ := next
        rcases ih (sols ++ [vch]) hnext with hinvalid | hgo
        · left
          exact hinvalid
        · right
          intro ops hops
          obtain ⟨before, hbefore⟩ := hgo ops hops
          exact ⟨(opcode, vch) :: before, .cons hop hbefore⟩
    · right
      intro ops hops
      exact ⟨[(opcode, vch)], .cons hop hops⟩

theorem exists_parses_of_multisig {cc : Bool} {script : Script} {m m' : Matching}
    (h : matchScript cc [.smallInteger, .pubkeys, .smallInteger, .op 0xae] script m = .ok m') :
    ∃ ops, Script.Parses script ops ∧ (0xae, []) ∈ ops := by
  obtain ⟨opcode, vch, rest, m₁, hop, _, hrest⟩ := (matchScript_cons_eq_ok_iff (by decide)).mp h
  unfold matchScript at hrest
  cases hkey : Script.getOp rest with
  | none =>
    rw [hkey] at hrest
    cases hrest
  | some key =>
    obtain ⟨opcode₁, vch₁, rest₁⟩ := key
    rw [hkey] at hrest
    dsimp only at hrest
    obtain ⟨m₂, hint, hlast⟩ := Except.bind_eq_ok_iff.mp hrest
    obtain ⟨ops, hparses, hmem⟩ := exists_parses_of_matchScript (by decide) hlast
    rcases takePubkeys_parses m₁.vSolutions hkey with hinvalid | hgo
    · rw [matchItem, hinvalid] at hint
      cases hint
    · obtain ⟨before, hbefore⟩ := hgo ops hparses
      refine ⟨(opcode, vch) :: (before ++ ops), .cons hop hbefore, ?_⟩
      exact List.mem_cons_of_mem _ (List.mem_append_right _ (hmem 0xae (by simp)))

theorem exists_template_of_scanTemplates {cc : Bool} {script : Script}
    {templates : List (TxnOutType × List TemplateItem)}
    (h : (scanTemplates cc script templates).isSome = true) :
    ∃ template ∈ templates, ∃ m, matchScript cc template.2 script ⟨[], ⟨0, 20, 0, 0⟩⟩ = .ok m ∧
      (template.1 = .TX_MULTISIG → checkMultisigSolutions m.vSolutions = true) := by
  induction templates with
  | nil => cases h
  | cons template templates ih =>
    unfold scanTemplates at h
    split at h
    · rename_i m hm
      refine ⟨template, List.mem_cons_self, m, hm, fun htype => ?_⟩
      by_contra hcheck
      rw [Bool.not_eq_true] at hcheck
      rw [if_pos ⟨htype, by rw [hcheck]; rfl⟩] at h
      cases h
    · obtain ⟨found, hfound, hm⟩ := ih h
      exact ⟨found, List.mem_cons_of_mem _ hfound, hm⟩
    · cases h

end TscPow
