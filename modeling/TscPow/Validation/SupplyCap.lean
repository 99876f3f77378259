import TscPow.Miner.Supply

/-!
# The supply cap

Above height 5000 `ConnectBlock` compares the recorded supply with thirteen hundred million coins and a subsidy for every height above the ticket valve. That is what the subsidies up to the height add up to. The number of coins is an `int`: from height 390220 on it is larger than an `int` can hold, and the recorded supply is compared with something else.
-/

namespace TscPow

def supplyCap (nHeight : Nat) : Int := (1300000000 + ((nHeight : Int) - TICKET_VALVE) * 2200) * COIN

def supplyFailure : Failure := .invalid ⟨100, REJECT_INVALID, "incorrect-money-supply", false⟩

/-- The same network with the supply check switched off, as it is on the regression test network. Nothing else reads the switch. -/
def Env.withoutSupplyCheck (env : Env) : Env :=
  { env with params := { env.params with fPoSNoRetargeting := true } }

/-! ### The subsidies -/

theorem getBlockSubsidy_nonneg (nHeight : Nat) : 0 ≤ getBlockSubsidy nHeight := by
  rw [getBlockSubsidy]
  split <;> decide

theorem totalSubsidy_of_le {height : Nat} (h : height ≤ TICKET_VALVE) :
    totalSubsidy height = height * (260000 * COIN) := by
  induction height with
  | zero => rfl
  | succ height ih =>
    rw [totalSubsidy_succ, ih (by omega), getBlockSubsidy, if_pos h]
    push_cast
    ring

theorem totalSubsidy_eq_supplyCap {height : Nat} (h : TICKET_VALVE ≤ height) :
    totalSubsidy height = supplyCap height := by
  induction height, h using Nat.le_induction with
  | base =>
    rw [totalSubsidy_of_le le_rfl, supplyCap, TICKET_VALVE]
    ring
  | succ height h ih =>
    rw [totalSubsidy_succ, ih, getBlockSubsidy, if_neg (by omega), supplyCap, supplyCap]
    push_cast
    ring

/-! ### The check in `ConnectBlock` -/

section

variable {World : Type} {env : Env} {contracts : Contracts World} {c : Connection}
  {x : ConnectInput World}

def checkSupply (nHeight : Nat) (out : ConnectOutput World) : Validation (ConnectOutput World) := do
  rule (out.nMoneySupply ≤ expectedMoneySupply nHeight)
    ⟨100, REJECT_INVALID, "incorrect-money-supply", false⟩
  pure out

theorem connectTransactions_eq_bind (hheight : 5000 < x.pindex.nHeight)
    (hactive : env.params.fPoSNoRetargeting = false) (hjust : x.fJustCheck = false) :
    connectTransactions env contracts x =
      connectTransactions env.withoutSupplyCheck contracts x >>= checkSupply x.pindex.nHeight := by
  have hon (P : Prop) : (x.pindex.nHeight > 5000 ∧ (!env.params.fPoSNoRetargeting) = true → P) ↔ P := by
    simp [hheight, hactive]
  have hoff (P : Prop) :
      (x.pindex.nHeight > 5000 ∧ (!env.withoutSupplyCheck.params.fPoSNoRetargeting) = true → P) ↔
      True := by
    simp [Env.withoutSupplyCheck]
  simp only [connectTransactions, bind_assoc, hjust, Bool.false_eq_true, if_false, hon, hoff,
    rule_pos, Except.ok_bind, pure_bind, checkSupply]
  rfl

theorem connectBlock_eq_bind (hheight : 5000 < x.pindex.nHeight)
    (hactive : env.params.fPoSNoRetargeting = false) (hjust : x.fJustCheck = false)
    (hgenesis : env.hashing.blockHash x.block.header ≠ env.params.hashGenesisBlock) :
    connectBlock env contracts x = connectBlock env.withoutSupplyCheck contracts x >>=
      checkSupply x.pindex.nHeight := by
  have hgenesis' : env.withoutSupplyCheck.hashing.blockHash x.block.header ≠
      env.withoutSupplyCheck.params.hashGenesisBlock := hgenesis
  simp only [connectBlock, bind_assoc, if_neg hgenesis, if_neg hgenesis',
    connectTransactions_eq_bind hheight hactive hjust]
  rfl

/-! ### No other rule rejects for this reason -/

def SparesSupply {α : Type} (y : Validation α) : Prop := y ≠ .error supplyFailure

namespace SparesSupply

variable {α β : Type}

theorem bind {y : Validation α} {f : α → Validation β} (hy : SparesSupply y)
    (hf : ∀ a, SparesSupply (f a)) : SparesSupply (y >>= f) :=
  Except.bind_ne_error hy hf

theorem pure {a : α} : SparesSupply (Pure.pure a) := Except.pure_ne_error

theorem ok {a : α} : SparesSupply (.ok a) := Except.pure_ne_error

theorem rule {p : Prop} [Decidable p] {reject : Reject}
    (h : reject.strRejectReason ≠ "incorrect-money-supply") :
    SparesSupply (rule p reject) :=
  rule_ne_error h

theorem rule_of {p : Prop} [Decidable p] {reject : Reject} (h : p) :
    SparesSupply (TscPow.rule p reject) := by
  rw [rule_pos h]
  exact ok

theorem asserts {p : Prop} [Decidable p] : SparesSupply (asserts p) := Except.require_ne_error nofun

theorem orFault {y : Except Fault α} : SparesSupply (orFault y) := by
  cases y <;> nofun

theorem valueOr {o : Option α} {failure : Failure} (h : failure ≠ supplyFailure) :
    SparesSupply (valueOr o failure) := by
  cases o with
  | none => exact fun heq => h (Except.error.inj heq)
  | some a => nofun

theorem ite {p : Prop} [Decidable p] {y z : Validation α} (hy : SparesSupply y) (hz : SparesSupply z) :
    SparesSupply (if p then y else z) := by
  split
  · exact hy
  · exact hz

theorem foldlM {f : β → α → Validation β} (hf : ∀ b a, SparesSupply (f b a)) (as : List α) (b : β) :
    SparesSupply (as.foldlM f b) :=
  Except.foldlM_ne_error hf as b

end SparesSupply

theorem sparesSupply_checkBlock {limits : Limits} {block : Block} {fCheckPOW fCheckMerkleRoot : Bool} :
    SparesSupply (checkBlock env limits block fCheckPOW fCheckMerkleRoot) := by
  have htx (last : Bool) (tx : Tx) : SparesSupply (checkBlockTx env limits last tx) := by
    unfold checkBlockTx
    have hreasons : ∀ reject : Reject, reject.strRejectReason ∈ transactionReasons →
      reject.corruptionPossible = false →
        .invalid reject ≠ supplyFailure := by
      rintro reject hreason - heq
      rw [Failure.invalid.inj heq] at hreason
      exact absurd hreason (by decide)
    exact .bind (checkTransaction_ne_error hreasons) fun _ => .bind (.rule (by decide)) fun _ => .pure
  unfold checkBlock checkBlockHeader
  exact .bind (.rule (by decide)) fun _ => .bind (.rule (by decide)) fun _ =>
    .bind (.rule (by decide)) fun _ =>
    .bind (.rule (by decide)) fun _ => .bind (.rule (by decide)) fun _ =>
      .bind (.rule (by decide)) fun _ =>
    .bind (.rule (by decide)) fun _ => .bind (.foldlM htx _ _) fun _ => .rule (by decide)

theorem sparesSupply_checkTxInputs {tx : Tx} {inputs : CoinsView} {nSpendHeight : Int} :
    SparesSupply (checkTxInputs tx inputs nSpendHeight) := by
  have hinput (total : Amount) (txin : TxIn) :
      SparesSupply (checkTxInput inputs nSpendHeight total txin) := by
    unfold checkTxInput
    exact .bind (.rule (by decide)) fun _ => .bind (.rule (by decide)) fun _ => .pure
  unfold checkTxInputs
  exact .bind (.rule (by decide)) fun _ => .bind (.foldlM hinput _ _) fun _ =>
    .ite .pure (.bind .orFault fun _ =>
    .bind (.rule (by decide)) fun _ => .bind (.rule (by decide)) fun _ => .rule (by decide))

theorem append_ne_of_head {s t : String} {a : Char} (hs : s.toList.head? = some a)
    (ht : t.toList.head? ≠ some a) (rest : String) :
    s ++ rest ≠ t := by
  intro heq
  rw [← heq, String.toList_append, List.head?_append, hs] at ht
  exact ht rfl

theorem sparesSupply_checkInputScript {tx : Tx} {inputs : CoinsView} {flags : Nat} {input : TxIn × Nat} :
    SparesSupply (checkInputScript env tx inputs flags input) := by
  have hreject {reject : Reject} (h : reject.strRejectReason ≠ "incorrect-money-supply") :
      SparesSupply (Except.error (Failure.invalid reject) : Validation Unit) :=
    fun heq => h (congrArg Reject.strRejectReason (Failure.invalid.inj (Except.error.inj heq)))
  rw [checkInputScript]
  split
  · exact .ok
  · refine .ite (hreject ?_) (hreject ?_)
    · rw [String.append_assoc]
      exact append_ne_of_head rfl (by decide) _
    · rw [String.append_assoc]
      exact append_ne_of_head rfl (by decide) _

theorem sparesSupply_checkInputs {tx : Tx} {inputs : CoinsView} {nSpendHeight : Int}
    {fScriptChecks queued : Bool} {flags : Nat} :
    SparesSupply (checkInputs env tx inputs nSpendHeight fScriptChecks flags queued) := by
  have hscripts (inputs' : List (TxIn × Nat)) :
      SparesSupply (inputs'.forM (checkInputScript env tx inputs flags)) := by
    induction inputs' with
    | nil => exact .pure
    | cons input inputs' ih => exact .bind sparesSupply_checkInputScript fun _ => ih
  unfold checkInputs
  exact .bind sparesSupply_checkTxInputs fun _ =>
    .ite (.ite .pure (.bind (hscripts _) fun _ => .pure)) .pure

theorem sparesSupply_checkAvailable {view : CoinsView} {tx : Tx} :
    SparesSupply (checkAvailable env c view tx) := by
  unfold checkAvailable
  exact .bind (.rule (by decide)) fun _ => .bind .orFault fun _ => .rule (by decide)

theorem sparesSupply_checkSpend {st : Connecting World} {tx : Tx} :
    SparesSupply (checkSpend env c st tx) := by
  unfold checkSpend
  exact .bind .orFault fun _ => .bind sparesSupply_checkInputs fun _ =>
    .bind (.rule (by decide)) fun _ => .pure

theorem sparesSupply_tallyValues {st : Connecting World} {tx : Tx} :
    SparesSupply (tallyValues c st tx) := by
  unfold tallyValues
  exact .ite (.bind .orFault fun _ => .pure) (.bind .orFault fun _ => .pure)

theorem sparesSupply_runContracts {st : Connecting World} {tx : Tx} :
    SparesSupply (runContracts contracts c st tx) := by
  have hconverted (nTxFee : Amount) (tally : GasTally) (qtx : TscTransaction) :
      SparesSupply (checkTscTransaction c nTxFee tally qtx) := by
    unfold checkTscTransaction
    exact .bind (.rule (by decide)) fun _ => .bind (.rule (by decide)) fun _ =>
      .bind (.rule (by decide)) fun _ =>
      .bind (.rule (by decide)) fun _ => .bind (.rule (by decide)) fun _ =>
        .bind (.rule (by decide)) fun _ =>
      .bind (.rule (by decide)) fun _ => .bind (.rule (by decide)) fun _ =>
        .bind (.rule (by decide)) fun _ =>
      .bind (.rule (by decide)) fun _ => .bind (.rule (by decide)) fun _ => .pure
  unfold runContracts
  exact .bind (.rule (by decide)) fun _ => .bind (.valueOr (by decide)) fun _ =>
    .bind (.rule (by decide)) fun _ =>
    .bind .orFault fun _ => .bind (.foldlM (hconverted _) _ _) fun _ => .bind (.rule (by decide)) fun _ =>
    .bind (.valueOr (by decide)) fun _ => .bind (.valueOr (by decide)) fun _ =>
      .bind (.rule (by decide)) fun _ => .pure

theorem sparesSupply_connectTx {st : Connecting World} {tx : Tx} :
    SparesSupply (connectTx env contracts c st tx) := by
  unfold connectTx
  refine .ite ?_ (.bind sparesSupply_checkAvailable fun _ => ?_)
  all_goals
    refine .bind .orFault fun _ => .bind (.rule (by decide)) fun _ => ?_
    refine .ite (.bind .pure fun _ => ?_) (.bind sparesSupply_checkSpend fun _ => ?_)
  all_goals
    refine .bind sparesSupply_tallyValues fun _ => ?_
    exact .ite (.bind sparesSupply_runContracts fun _ => .bind .orFault fun _ => .pure)
      (.bind .pure fun _ => .bind .orFault fun _ => .pure)

theorem sparesSupply_rewardFailure {y : Validation Unit} : SparesSupply (rewardFailure y) := by
  cases y with
  | ok => exact .ok
  | error e =>
    cases e with
    | invalid reject =>
      intro heq
      have hreason : "" = "incorrect-money-supply" :=
        congrArg Reject.strRejectReason (Failure.invalid.inj (Except.error.inj heq))
      exact absurd hreason (by decide)
    | fault f => nofun

theorem sparesSupply_connectBlock : SparesSupply (connectBlock env.withoutSupplyCheck contracts x) := by
  have hbip30 (pprev : BlockIndex) : SparesSupply (enforceBIP30 env.withoutSupplyCheck x pprev) :=
    .rule (by decide)
  have hoff (supply : Nat) :
    x.pindex.nHeight > 5000 ∧ (!env.withoutSupplyCheck.params.fPoSNoRetargeting) = true →
      supply ≤ expectedMoneySupply x.pindex.nHeight := nofun
  have htransactions : SparesSupply (connectTransactions env.withoutSupplyCheck contracts x) := by
    unfold connectTransactions
    exact .bind (.valueOr nofun) fun _ => .bind .orFault fun _ => .bind (.rule (by decide)) fun _ =>
      .bind (hbip30 _) fun _ =>
      .bind (.foldlM (fun _ _ => sparesSupply_connectTx) _ _) fun _ => .bind (.rule (by decide)) fun _ =>
      .bind sparesSupply_rewardFailure fun _ => .bind (.rule (by decide)) fun _ =>
        .bind (.rule (by decide)) fun _ =>
      .ite .pure (.bind (.rule_of (hoff _)) fun _ => .pure)
  unfold connectBlock
  exact .bind .asserts fun _ => .bind (.rule (by decide)) fun _ => .bind (.rule (by decide)) fun _ =>
    .bind sparesSupply_checkBlock fun _ => .bind .asserts fun _ => .ite .pure htransactions

theorem connectBlock_eq_supplyFailure_iff (hheight : 5000 < x.pindex.nHeight)
    (hactive : env.params.fPoSNoRetargeting = false) (hjust : x.fJustCheck = false)
    (hgenesis : env.hashing.blockHash x.block.header ≠ env.params.hashGenesisBlock) :
    connectBlock env contracts x = .error supplyFailure ↔
      ∃ out, connectBlock env.withoutSupplyCheck contracts x = .ok out ∧
        expectedMoneySupply x.pindex.nHeight < out.nMoneySupply := by
  rw [connectBlock_eq_bind hheight hactive hjust hgenesis]
  cases hout : connectBlock env.withoutSupplyCheck contracts x with
  | error failure =>
    have hspare : failure ≠ supplyFailure :=
      fun heq => sparesSupply_connectBlock (hout.trans (congrArg _ heq))
    rw [Except.error_bind]
    simpa using hspare
  | ok out =>
    rw [Except.ok_bind]
    by_cases hle : out.nMoneySupply ≤ expectedMoneySupply x.pindex.nHeight
    · rw [checkSupply, rule_pos hle, Except.ok_bind]
      simpa [pure, Except.pure] using hle
    · have hreject : checkSupply x.pindex.nHeight out = .error supplyFailure := by
        rw [checkSupply, rule, Except.require, if_neg hle, Except.error_bind, supplyFailure]
      simpa [hreject] using hle

end

/-! ### The bound of the check -/

theorem expectedMoneySupply_eq {nHeight : Nat} (h : nHeight ≤ 390219) (hvalve : TICKET_VALVE ≤ nHeight) :
    (expectedMoneySupply nHeight : Int) = supplyCap nHeight := by
  rw [TICKET_VALVE] at hvalve
  have hbmod : Int.bmod (100000000 * 13 + ((nHeight : Int) - TICKET_VALVE) * 2200) (2 ^ 32) =
      1300000000 + ((nHeight : Int) - TICKET_VALVE) * 2200 := by
    rw [Int.bmod_eq_of_le (by rw [TICKET_VALVE]; omega) (by rw [TICKET_VALVE]; omega)]
    rfl
  have hrange : 0 ≤ supplyCap nHeight ∧ supplyCap nHeight < 2 ^ 64 := by
    rw [supplyCap, TICKET_VALVE, COIN]
    omega
  rw [expectedMoneySupply, hbmod, ← supplyCap, Int.toNat_of_nonneg (Int.emod_nonneg _ (by decide)),
    Int.emod_eq_of_lt hrange.1 hrange.2]

theorem expectedMoneySupply_ne {nHeight : Nat} (h : 390219 < nHeight) :
    (expectedMoneySupply nHeight : Int) ≠ supplyCap nHeight := by
  set coins : Int := 100000000 * 13 + ((nHeight : Int) - TICKET_VALVE) * 2200 with hcoins
  have hcap : supplyCap nHeight = coins * COIN := rfl
  have hlarge : 2 ^ 31 ≤ coins := by
    rw [hcoins, TICKET_VALVE]
    omega
  -- the wrapped number is below `2 ^ 31`; if it is negative, the product is `2 ^ 64` less a multiple of `COIN`
  have hlow : Int.bmod coins (2 ^ 32) < 2 ^ 31 := Int.bmod_lt (by decide)
  have hhigh : -(2 ^ 31) ≤ Int.bmod coins (2 ^ 32) := Int.le_bmod (by decide)
  rw [expectedMoneySupply, ← hcoins, hcap, Int.toNat_of_nonneg (Int.emod_nonneg _ (by decide)), COIN]
  clear_value coins
  generalize Int.bmod coins (2 ^ 32) = wrapped at hlow hhigh
  rcases lt_or_ge wrapped 0 with hneg | hpos
  · have hmod : wrapped * 100000000 % 2 ^ 64 = wrapped * 100000000 + 2 ^ 64 := by
      rw [← Int.add_emod_right]
      exact Int.emod_eq_of_lt (by omega) (by omega)
    rw [hmod]
    omega
  · rw [Int.emod_eq_of_lt (by omega) (by omega)]
    omega

theorem expectedMoneySupply_lt (nHeight : Nat) : expectedMoneySupply nHeight + 1 < 2 ^ 64 := by
  have hmod :=
    Int.emod_nonneg
      (Int.bmod (100000000 * 13 + ((nHeight : Int) - TICKET_VALVE) * 2200) (2 ^ 32) * COIN)
    (show (2 : Int) ^ 64 ≠ 0 by decide)
  rw [expectedMoneySupply]
  rw [COIN] at hmod ⊢
  omega

/-! ### Every supply is reached at every height -/

namespace CapRun

open ValveRun PlainChain

def coinbase (n : Nat) : Tx where
  nVersion := 2
  vin := [⟨⟨Uint256.ofNat 0, 0xffffffff⟩, Script.pushInt64 n ++ [0], SEQUENCE_FINAL, []⟩]
  vout := [⟨0, []⟩]
  nLockTime := 0

theorem coinbase_coinbase (n : Nat) : Coinbase n (coinbase n) :=
  ⟨rfl, List.cons_ne_nil _ _, show 1 ≤ 8 by decide, by simp [coinbase], by simp [coinbase],
    show (0 : Int) ≤ 260000 * COIN + (1 - 1) * (30000 * COIN) by decide, by
    intro o ho
    rw [List.mem_singleton.mp ho]
    decide⟩

def call (n nMoneySupply : Nat) : ConnectInput Unit where
  block := { header 1 with vtx := [coinbase n] }
  pindex := ⟨header 1, List.replicate n (header 0)⟩
  view := ⟨fun _ => none, [], Uint256.ofNat 0⟩
  world := ()
  dgpMaxBlockSize := 2000000
  nMoneySupply
  fJustCheck := false
  fScriptChecks := true
  scriptCheckThreads := true
  phashBlock := true

abbrev env : Env := network plain

theorem nHeight_call (n nMoneySupply : Nat) : (call n nMoneySupply).pindex.nHeight = n :=
  List.length_replicate

theorem blockHash_call (n nMoneySupply : Nat) :
    env.hashing.blockHash (call n nMoneySupply).block.header ≠ env.params.hashGenesisBlock := by
  change Uint256.ofNat 1 ≠ Uint256.ofNat 0
  decide

theorem coinbaseBlock_call (n nMoneySupply : Nat) : CoinbaseBlock n (call n nMoneySupply).block :=
  ⟨rfl, rfl, rfl, show 165 ≤ 300 by decide, _, rfl, coinbase_coinbase n⟩

theorem checkReward_call (n nMoneySupply : Nat) :
    checkReward (call n nMoneySupply).block n 0 [] = .ok () := by
  have hsubsidy := getBlockSubsidy_nonneg n
  have hreward : blockReward n [coinbase n] 0 = .ok (getBlockSubsidy n) := by
    have hlength : ((coinbase n).vout.length : Int) - 1 = 0 := rfl
    have hsmall : getBlockSubsidy n < 2 ^ 63 := by
      rw [getBlockSubsidy]
      split <;> decide
    rw [blockReward_eq_ok_iff, rewardOutputs, List.find?_cons_of_pos (coinbase_coinbase n).isCoinBase]
    exact ⟨by simp [hlength], le_trans (by decide) hsubsidy, hsmall⟩
  have hvtx : (call n nMoneySupply).block.vtx = [coinbase n] := rfl
  have hvalue : (coinbase n).outputValue = 0 := rfl
  simp only [checkReward, hvtx, Except.bind_eq_ok_iff, orFault_eq_ok_iff, rule_eq_ok_iff, not_lt]
  exact ⟨_, rfl, _, hreward, _, (coinbase_coinbase n).getValueOut, hvalue ▸ hsubsidy⟩

theorem exists_connectBlock_call {n : Nat} (hn : TICKET_VALVE < n) (nMoneySupply : Nat) :
    ∃ out, connectBlock env.withoutSupplyCheck (contracts plain) (call n nMoneySupply) = .ok out ∧
      (out.nMoneySupply : Int) = (nMoneySupply - 150000 * COIN) % 2 ^ 64 := by
  set x := call n nMoneySupply with hx
  have hheight : x.pindex.nHeight = n := nHeight_call n nMoneySupply
  obtain ⟨k, rfl⟩ : ∃ k, n = k + 1 := ⟨n - 1, by omega⟩
  have hprev : x.pindex.pprev = some ⟨header 0, List.replicate k (header 0)⟩ := rfl
  have hblock : CoinbaseBlock (k + 1) x.block := coinbaseBlock_call _ _
  obtain ⟨st, hconnect, hfees, hrefunds, hvouts, hqueued, -⟩ :
      ∃ st', connectTx env (contracts plain) (x.connection (contracts plain)) x.start
        (coinbase (k + 1)) = .ok st' ∧ _ :=
    exists_connectTx (coinbase_coinbase (k + 1)) rfl hheight rfl
  have hloop :
      x.block.vtx.foldlM
        (connectTx env.withoutSupplyCheck (contracts plain) (x.connection (contracts plain)))
          x.start = .ok st :=
    Except.foldlM_cons_eq_ok_iff.mpr ⟨st, hconnect, rfl⟩
  obtain ⟨realOut, hrealOut, hminted⟩ :=
    minted_of_coinbase hconnect (coinbase_coinbase (k + 1)).isCoinBase
  have hreward :
      rewardFailure (checkReward x.block x.pindex.nHeight st.nFees st.checkVouts) = .ok () := by
    rw [hfees, hvouts, hheight]
    change rewardFailure (checkReward x.block (k + 1) 0 []) = _
    rw [checkReward_call]
    rfl
  have hbits :
      getNextWorkRequired ⟨header 0, List.replicate k (header 0)⟩ x.block.header
        env.withoutSupplyCheck.params = .ok 0x1f00ffff :=
    getNextWorkRequired_of_bits rfl _
  have hjust : x.fJustCheck = false := rfl
  have hlimits : x.limits (contracts plain) = limits := rfl
  have hgenesis : env.withoutSupplyCheck.hashing.blockHash x.block.header ≠
      env.withoutSupplyCheck.params.hashGenesisBlock :=
    blockHash_call _ _
  simp only [connectBlock, connectTransactions, Except.bind_eq_ok_iff, asserts_eq_ok_iff,
    valueOr_eq_ok_iff, orFault_eq_ok_iff, rule_eq_ok_iff, if_neg hgenesis, enforceBIP30, hjust,
      hlimits, Bool.false_eq_true, if_false, Except.pure_eq_ok_iff, hprev, Option.elim_some]
  refine ⟨_,
    ⟨(), fun _ => rfl, (),
      ⟨List.cons_ne_nil _ _, show 1 ≤ 2000000 by decide, hblock.strippedSize.trans (by decide)⟩, (),
    hblock.weight.trans (by decide), (), hblock.checkBlock, (), rfl, _, rfl, _, hbits, (), rfl, (),
      ?_, st, hloop, (), ?_, (), hreward,
    (), hqueued, (), .inl rfl, (), ?_, rfl⟩, ?_⟩
  · intro h
    cases h.1
  · rw [hfees, hrefunds]
    exact lt_irrefl _
  · intro h
    cases h.2
  · have hreal : realOut = 0 := by
      have hzero : (coinbase (k + 1)).getCoinBaseRealOut = .ok 0 := rfl
      exact Except.ok.inj (hrealOut.symm.trans hzero)
    have hfees' : st.nFees = 0 := hfees
    have habove : (x.connection (contracts plain)).pindex.nHeight > TICKET_VALVE := hheight ▸ hn
    have hstart : x.start.minted = 0 := rfl
    have hprice : (0 : Int) + (0 - TICKET_PRICE * 5 * COIN) = -(150000 * COIN) := rfl
    rw [if_pos habove, hreal, Connecting.minted, hfees', Int.add_zero, hstart, hprice] at hminted
    change ((((nMoneySupply : Int) + st.nValueOut - st.nValueIn) % 2 ^ 64).toNat : Int) = _
    rw [Int.toNat_of_nonneg (Int.emod_nonneg _ (by decide)), Int.add_sub_assoc, Int.sub_eq_add_neg]
    exact hminted.add_left _

theorem exists_supply {n : Nat} (hn : TICKET_VALVE < n) {supply : Nat} (hsupply : supply < 2 ^ 64) :
    ∃ nMoneySupply out, connectBlock env.withoutSupplyCheck (contracts plain)
      (call n nMoneySupply) = .ok out ∧ out.nMoneySupply = supply := by
  obtain ⟨out, hout, hmod⟩ := exists_connectBlock_call hn (supply + (150000 * COIN).toNat)
  refine ⟨_, out, hout, ?_⟩
  have hprice : ((150000 * COIN).toNat : Int) = 150000 * COIN := rfl
  rw [Nat.cast_add, hprice, Int.add_sub_cancel, Int.emod_eq_of_lt (by omega) (by omega)] at hmod
  exact_mod_cast hmod

end CapRun

/-! ### The result -/

/-- At height `nHeight` the check is exact: on every network where it is active, for every block and every recorded supply. -/
def SupplyCapExact (nHeight : Nat) : Prop :=
  ∀ (World : Type) (env : Env) (contracts : Contracts World) (x : ConnectInput World),
    env.params.fPoSNoRetargeting = false → x.pindex.nHeight = nHeight → x.fJustCheck = false →
    env.hashing.blockHash x.block.header ≠ env.params.hashGenesisBlock →
      (connectBlock env contracts x = .error supplyFailure ↔
        ∃ out, connectBlock env.withoutSupplyCheck contracts x = .ok out ∧
          supplyCap nHeight < out.nMoneySupply)

theorem SupplyCapExact.lt_iff {nHeight : Nat} (hexact : SupplyCapExact nHeight) (h : 5000 < nHeight)
    {supply : Nat} (hsupply : supply < 2 ^ 64) : expectedMoneySupply nHeight < supply ↔
      supplyCap nHeight < supply := by
  obtain ⟨nMoneySupply, out, hout, rfl⟩ := CapRun.exists_supply (n := nHeight) h hsupply
  have hheight := CapRun.nHeight_call nHeight nMoneySupply
  have hgenesis := CapRun.blockHash_call nHeight nMoneySupply
  have hreject :=
    hexact Unit CapRun.env (PlainChain.contracts PlainChain.plain)
      (CapRun.call nHeight nMoneySupply) rfl hheight rfl hgenesis
  rw [connectBlock_eq_supplyFailure_iff (hheight.symm ▸ h) rfl rfl hgenesis, hheight, hout] at hreject
  simpa using hreject

theorem not_supplyCapExact {nHeight : Nat} (h : 390219 < nHeight) : ¬ SupplyCapExact nHeight := by
  intro hexact
  have hbound := expectedMoneySupply_lt nHeight
  rcases lt_or_gt_of_ne (expectedMoneySupply_ne h) with hlt | hgt
  · have hiff := hexact.lt_iff (by omega) hbound
    omega
  · have hiff := hexact.lt_iff (by omega) (Nat.lt_of_succ_lt hbound)
    omega

/-- The check is exact at the heights where the number of coins fits into an `int`, and the subsidies never exceed the cap. -/
theorem supplyCap_exact_iff (nHeight : Nat) (h : 5000 < nHeight) :
    (SupplyCapExact nHeight ↔ nHeight ≤ 390219) ∧ totalSubsidy nHeight ≤ supplyCap nHeight := by
  have hvalve : TICKET_VALVE ≤ nHeight := h.le
  refine ⟨⟨fun hexact => not_lt.mp fun hlt => not_supplyCapExact hlt hexact, ?_⟩,
    (totalSubsidy_eq_supplyCap hvalve).le⟩
  rintro hle World env contracts x hactive rfl hjust hgenesis
  rw [connectBlock_eq_supplyFailure_iff h hactive hjust hgenesis, ← expectedMoneySupply_eq hle hvalve]
  simp only [Nat.cast_lt]

theorem supplyCap_exact_iff_last :
    (SupplyCapExact 390219 ↔ 390219 ≤ 390219) ∧ totalSubsidy 390219 ≤ supplyCap 390219 :=
  supplyCap_exact_iff 390219 (by decide)

/-- At the first height where the number of coins does not fit, a block is connected with a supply above the cap. -/
theorem supplyCap_exceeded : ∃ nMoneySupply out,
    connectBlock CapRun.env (PlainChain.contracts PlainChain.plain)
      (CapRun.call 390220 nMoneySupply) = .ok out ∧
      supplyCap 390220 < out.nMoneySupply := by
  obtain ⟨nMoneySupply, out, hout, hsupply⟩ := CapRun.exists_supply (n := 390220) (by decide)
    (show (supplyCap 390220).toNat + 1 < 2 ^ 64 by decide)
  have hle : out.nMoneySupply ≤ expectedMoneySupply (CapRun.call 390220 nMoneySupply).pindex.nHeight := by
    rw [hsupply, CapRun.nHeight_call]
    decide
  refine ⟨nMoneySupply, out, ?_, ?_⟩
  · rw [connectBlock_eq_bind (by rw [CapRun.nHeight_call]; decide) rfl rfl
      (CapRun.blockHash_call _ _), hout, Except.ok_bind, checkSupply, rule_pos hle, Except.ok_bind]
    rfl
  · rw [hsupply]
    decide

end TscPow
