import TscPow.Primitives.Stream
import TscPow.Validation.DisconnectBlock
import TscPow.Validation.PlainChain

/-!
# No transaction id occurs twice

`ConnectBlock` runs the BIP30 check for no height that occurs in practice, so nothing compares the ids of a block with the unspent coins. Along a chain that `AcceptBlock` and `ConnectBlock` accept they differ all the same. A coinbase starts with the push of its height, and these pushes are prefix-free. Any other transaction spends a coin that exists; a copy of it would have to spend the same coin again, which is gone and could come back only with a copy of the transaction that made it.
-/

namespace TscPow

namespace Tx

variable {tx tx' : Tx}

theorem isCoinBase_withoutWitness (tx : Tx) : tx.withoutWitness.isCoinBase = tx.isCoinBase := by
  obtain ⟨nVersion, vin, vout, nLockTime⟩ := tx
  match vin with
  | [] => rfl
  | [input] => rfl
  | _ :: _ :: _ => rfl

theorem isCoinBase_of_withoutWitness (h : tx.withoutWitness = tx'.withoutWitness) :
    tx.isCoinBase = tx'.isCoinBase := by
  rw [← isCoinBase_withoutWitness, h, isCoinBase_withoutWitness]

theorem exists_input_of_withoutWitness (h : tx.withoutWitness = tx'.withoutWitness) {input : TxIn}
    (hinput : input ∈ tx.vin) :
    ∃ input' ∈ tx'.vin, input'.prevout = input.prevout ∧ input'.scriptSig = input.scriptSig := by
  have hmem : { input with scriptWitness := [] } ∈ tx'.withoutWitness.vin := by
    rw [← h]
    exact List.mem_map_of_mem hinput
  obtain ⟨input', hinput', heq⟩ := List.mem_map.mp hmem
  rw [TxIn.mk.injEq] at heq
  exact ⟨input', hinput', heq.1, heq.2.1⟩

end Tx

/-- No two of the transactions have the same id, except as the same transaction with other witnesses. -/
def Hashing.SeparatesTxs (hashing : Hashing) (txs : List Tx) : Prop :=
  ∀ tx ∈ txs, ∀ tx' ∈ txs, hashing.txHash tx = hashing.txHash tx' → tx.withoutWitness = tx'.withoutWitness

theorem Hashing.SeparatesTxs.subset {hashing : Hashing} {txs txs' : List Tx}
    (h : hashing.SeparatesTxs txs) (hsub : txs' ⊆ txs) :
    hashing.SeparatesTxs txs' := by
  intro tx htx tx' htx'
  exact h tx (hsub htx) tx' (hsub htx')

namespace ChainState

variable {World : Type} (env : Env) (contracts : Contracts World)

/-- The states that acceptance reaches when every block has also passed the checks that `AcceptBlock` makes by itself, among them that the coinbase starts with the height. -/
inductive AcceptedChain : ChainState World → Prop
  | start {s : ChainState World} (h : s.Start env) : AcceptedChain s
  | extend {s t : ChainState World} {block : Block} (hs : AcceptedChain s)
      (h : s.Extends env contracts block t)
      (hblock : ∃ ctx tree, checkAcceptedBlock ctx tree block (s.tip.child block.header) = .ok ()) :
      AcceptedChain t

def transactions (s : ChainState World) : List Tx := s.above.flatMap Block.vtx

end ChainState

/-! ### The coins and the transactions that made them -/

section

variable {env : Env} {v v' : CoinsView} {txs : List Tx} {tx : Tx}

/-- The coins `v` after the transactions `txs`: no id has occurred twice, every coin was made by one of them, and what one of them has spent was made by one of them and is gone. -/
structure Ledger (env : Env) (txs : List Tx) (v : CoinsView) : Prop where
  nodup : (txs.map env.hashing.txHash).Nodup
  made : ∀ o, v.coin o ≠ none → o.hash ∈ txs.map env.hashing.txHash
  spent : ∀ tx ∈ txs, tx.isCoinBase = false → ∀ input ∈ tx.vin,
    v.coin input.prevout = none ∧ input.prevout.hash ∈ txs.map env.hashing.txHash

theorem Ledger.nil (h : ∀ o, v.coin o = none) : Ledger env [] v :=
  ⟨List.nodup_nil, fun o ho => absurd (h o) ho, nofun⟩

theorem Ledger.congr (hledger : Ledger env txs v) (h : v'.coin = v.coin) : Ledger env txs v' :=
  ⟨hledger.nodup, by rw [h]; exact hledger.made, by rw [h]; exact hledger.spent⟩

namespace CoinsView

theorem coin_of_addCoins_of_ne {txid : Uint256} {nHeight : Nat}
    (h : v.addCoins txid tx nHeight = .ok v') {o : OutPoint} (ho : o.hash ≠ txid) :
    v'.coin o = v.coin o := by
  apply Except.foldlM_invariant (P := fun w : CoinsView => w.coin o = v.coin o) h rfl
  intro w out w' _ hw hadd
  obtain ⟨hcoin, -, -⟩ := coin_of_addCoin hadd
  rw [hcoin, if_neg (fun heq => ho (congrArg OutPoint.hash heq.1)), hw]

end CoinsView

/-- A transaction with a new id is applied. Its outputs have that id, so they bring back nothing that was spent. -/
theorem Ledger.updateCoins (hledger : Ledger env txs v) {nHeight : Nat} {undo : List Coin}
    (h : v.updateCoins (env.hashing.txHash tx) tx nHeight = .ok (v', undo))
    (hinputs : tx.isCoinBase = false → ∀ input ∈ tx.vin, v.coin input.prevout ≠ none)
    (hnew : env.hashing.txHash tx ∉ txs.map env.hashing.txHash) : Ledger env (txs ++ [tx]) v' := by
  obtain ⟨spent, hspent, hadd⟩ := CoinsView.updateCoins_steps h
  have hother : ∀ o : OutPoint, o.hash ≠ env.hashing.txHash tx → v'.coin o = spent.coin o :=
    fun o ho => CoinsView.coin_of_addCoins_of_ne hadd ho
  have hsub : ∀ o, v.coin o = none → spent.coin o = none := by
    intro o ho
    split at hspent
    · cases hspent
      exact ho
    · obtain ⟨-, hsub, -, -⟩ := CoinsView.coin_of_spendInputs hspent
      cases hcoin : spent.coin o with
      | none => rfl
      | some c => rw [hsub o c hcoin] at ho; cases ho
  have hids : ∀ hash ∈ txs.map env.hashing.txHash, hash ≠ env.hashing.txHash tx := by
    intro hash hhash heq
    exact hnew (heq ▸ hhash)
  constructor
  · rw [List.map_append, List.map_singleton, List.nodup_append]
    refine ⟨hledger.nodup, List.nodup_singleton _, ?_⟩
    intro hash hhash hash' hhash'
    rw [List.mem_singleton.mp hhash']
    exact hids hash hhash
  · intro o ho
    rw [List.map_append, List.map_singleton, List.mem_append, List.mem_singleton]
    by_cases hhash : o.hash = env.hashing.txHash tx
    · exact .inr hhash
    · left
      apply hledger.made o
      intro hnone
      exact ho ((hother o hhash).trans (hsub o hnone))
  · intro tx' htx' hplain input hinput
    rw [List.map_append, List.mem_append]
    rw [List.mem_append, List.mem_singleton] at htx'
    rcases htx' with htx' | rfl
    · obtain ⟨hnone, hmem⟩ := hledger.spent tx' htx' hplain input hinput
      exact ⟨(hother _ (hids _ hmem)).trans (hsub _ hnone), .inl hmem⟩
    · have hmem := hledger.made _ (hinputs hplain input hinput)
      rw [hplain, if_neg Bool.false_ne_true] at hspent
      obtain ⟨-, -, -, hgone⟩ := CoinsView.coin_of_spendInputs hspent
      exact ⟨(hother _ (hids _ hmem)).trans (hgone input hinput), .inl hmem⟩

theorem Ledger.new_of_inputs (hledger : Ledger env txs v)
    (hhash : env.hashing.SeparatesTxs (txs ++ [tx])) (hplain : tx.isCoinBase = false)
    (hvin : tx.vin ≠ []) (hinputs : ∀ input ∈ tx.vin, v.coin input.prevout ≠ none) :
    env.hashing.txHash tx ∉ txs.map env.hashing.txHash := by
  intro hmem
  obtain ⟨tx', htx', heq⟩ := List.mem_map.mp hmem
  have hsame := hhash tx (by simp) tx' (by simp [htx']) heq.symm
  have hplain' : tx'.isCoinBase = false := (Tx.isCoinBase_of_withoutWitness hsame).symm.trans hplain
  obtain ⟨input, hinput⟩ := List.exists_mem_of_ne_nil _ hvin
  obtain ⟨input', hinput', hprevout, -⟩ := Tx.exists_input_of_withoutWitness hsame hinput
  obtain ⟨hnone, -⟩ := hledger.spent tx' htx' hplain' input' hinput'
  exact hinputs input hinput (hprevout ▸ hnone)

end

/-! ### Coinbases name their height -/

section

variable {World : Type} {env : Env} {contracts : Contracts World} {s t : ChainState World} {block : Block}

def Block.NamesHeight (block : Block) (nHeight : Nat) : Prop :=
  ∀ tx ∈ block.vtx, tx.isCoinBase = true → ∃ input ∈ tx.vin, Script.pushInt64 nHeight <+: input.scriptSig

theorem namesHeight_of_checkAcceptedBlock {ctx : AcceptContext} {tree : BlockTree}
    {pindex : BlockIndex} {limits : Limits} (h : checkAcceptedBlock ctx tree block pindex = .ok ())
    (hcheck : checkBlock env limits block true true = .ok ()) :
    block.NamesHeight pindex.nHeight := by
  obtain ⟨coinbase, rest, hvtx, -, hrest⟩ := checkBlock_coinbase env hcheck
  have hprefix : ∃ input ∈ coinbase.vin, Script.pushInt64 pindex.nHeight <+: input.scriptSig := by
    by_cases hheight : pindex.nHeight > 0
    all_goals
      simp only [checkAcceptedBlock, hheight, if_true, if_false, Except.bind_eq_ok_iff,
        valueOr_eq_ok_iff, rule_eq_ok_iff, hvtx, List.head?_cons, Option.some.injEq] at h
      obtain ⟨-, -, -, -, -, -, -, -, tx, htx, input, hinput, hpush⟩ := h
      subst htx
      exact ⟨input, List.mem_of_mem_head? hinput, hpush⟩
  intro tx htx hcoinbase
  rw [hvtx] at htx
  rcases List.mem_cons.mp htx with rfl | htx
  · exact hprefix
  · rw [hrest tx htx] at hcoinbase
    cases hcoinbase

namespace ChainState

theorem AcceptedChain.reachable (h : s.AcceptedChain env contracts) : s.Reachable env contracts := by
  induction h with
  | start h => exact .start h
  | extend _ hext _ ih => exact ih.extend hext

def NamesHeights (s : ChainState World) : Prop :=
  ∀ (k : Nat) (block : Block), s.above[k]? = some block → block.NamesHeight (k + 1)

theorem Start.namesHeights (h : s.Start env) : s.NamesHeights := by
  intro k block hk
  rw [h.above] at hk
  cases hk

theorem NamesHeights.extend (hs : s.NamesHeights) (h : s.Extends env contracts block t)
    (hblock : block.NamesHeight (s.height + 1)) :
    t.NamesHeights := by
  intro k b hk
  rw [h.above_eq.2] at hk
  rcases Nat.lt_or_ge k s.above.length with hlt | hge
  · rw [List.getElem?_append_left hlt] at hk
    exact hs k b hk
  · rw [List.getElem?_append_right hge, List.getElem?_singleton] at hk
    split at hk
    · rename_i hzero
      cases hk
      rw [show k = s.height by rw [height]; omega]
      exact hblock
    · cases hk

theorem Extends.namesHeight (h : s.Extends env contracts block t)
    (hblock : ∃ ctx tree, checkAcceptedBlock ctx tree block (s.tip.child block.header) = .ok ()) :
    block.NamesHeight (s.height + 1) := by
  obtain ⟨ctx, tree, hblock⟩ := hblock
  obtain ⟨limits, hcheck⟩ := h.checkBlock
  have hnames := namesHeight_of_checkAcceptedBlock hblock hcheck
  rwa [BlockIndex.nHeight_child, nHeight_tip] at hnames

theorem AcceptedChain.namesHeights (h : s.AcceptedChain env contracts) : s.NamesHeights := by
  induction h with
  | start h => exact h.namesHeights
  | extend _ hext hblock ih => exact ih.extend hext (hext.namesHeight hblock)

theorem NamesHeights.new_of_coinbase (hs : s.NamesHeights) (hblock : block.NamesHeight (s.height + 1))
    (hheight : s.height + 1 < 2 ^ 31) {tx : Tx} (htx : tx ∈ block.vtx) (hcoinbase : tx.isCoinBase = true)
    (hhash : env.hashing.SeparatesTxs (s.transactions ++ [tx])) :
    env.hashing.txHash tx ∉ s.transactions.map env.hashing.txHash := by
  intro hmem
  obtain ⟨tx', htx', heq⟩ := List.mem_map.mp hmem
  have hsame := hhash tx (by simp) tx' (by simp [htx']) heq.symm
  obtain ⟨b, hb, hin⟩ := List.mem_flatMap.mp htx'
  obtain ⟨k, hk⟩ := List.mem_iff_getElem?.mp hb
  have hlt : k < s.height := (List.getElem?_eq_some_iff.mp hk).1
  -- a coinbase has one input, so both heights are pushed by the same script
  have hcoinbase' : tx'.isCoinBase = true := (Tx.isCoinBase_of_withoutWitness hsame).symm.trans hcoinbase
  obtain ⟨input, hinput, hpush⟩ := hblock tx htx hcoinbase
  obtain ⟨input', hinput', hpush'⟩ := hs k b hk tx' hin hcoinbase'
  obtain ⟨input'', hinput'', -, hscript⟩ := Tx.exists_input_of_withoutWitness hsame hinput
  have hone : input' = input'' := by
    rw [Tx.isCoinBase] at hcoinbase'
    split at hcoinbase'
    · rename_i only hvin
      rw [hvin, List.mem_singleton] at hinput' hinput''
      rw [hinput', hinput'']
    · cases hcoinbase'
  rw [hone, hscript] at hpush'
  have hpushes :=
    Script.pushInt64_prefix_unique (m := k + 1) (n := s.height + 1) (by omega) (by omega) (by omega)
      (by omega)
    hpush' hpush
  omega

end ChainState

/-! ### The invariant along the chain -/

theorem coin_ne_none_of_checkTxInputs {tx : Tx} {v : CoinsView} {nSpendHeight : Int}
    (hplain : tx.isCoinBase = false) (h : checkTxInputs tx v nSpendHeight = .ok ()) :
    ∀ input ∈ tx.vin, v.coin input.prevout ≠ none := by
  simp only [checkTxInputs, Except.bind_eq_ok_iff, rule_eq_ok_iff] at h
  obtain ⟨-, hhave, -⟩ := h
  rw [CoinsView.haveInputs, hplain, Bool.false_or, List.all_eq_true] at hhave
  intro input hinput
  exact Option.isSome_iff_ne_none.mp (hhave input hinput)

/-- The loop over the transactions of the next block: after each of them the coins are those that the transactions so far have left. -/
theorem Ledger.connectTx {txs : List Tx} {c : Connection} {st st' : Connecting World}
    (hledger : Ledger env txs st.view) (vtx : List Tx) (hvin : ∀ tx ∈ vtx, tx.vin ≠ [])
    (hhash : env.hashing.SeparatesTxs (txs ++ vtx)) (hcoinbase : ∀ coinbase rest, vtx = coinbase :: rest →
      (coinbase.isCoinBase = true → env.hashing.txHash coinbase ∉ txs.map env.hashing.txHash) ∧
        ∀ tx ∈ rest, tx.isCoinBase = false)
    (h : vtx.foldlM (TscPow.connectTx env contracts c) st = .ok st') :
    Ledger env (txs ++ vtx) st'.view := by
  induction vtx generalizing txs st with
  | nil =>
    cases h
    rwa [List.append_nil]
  | cons tx rest ih =>
    obtain ⟨st₁, hstep, hrest⟩ := Except.foldlM_cons_eq_ok_iff.mp h
    obtain ⟨view, undo, hupdate, hview, -⟩ := updateCoins_of_connectTx hstep
    obtain ⟨hfirst, hplain⟩ := hcoinbase tx rest rfl
    have hinputs : tx.isCoinBase = false → ∀ input ∈ tx.vin, st.view.coin input.prevout ≠ none := by
      intro hfalse
      exact coin_ne_none_of_checkTxInputs hfalse (checkTxInputs_of_connectTx hstep hfalse)
    have hnew : env.hashing.txHash tx ∉ txs.map env.hashing.txHash := by
      cases hbase : tx.isCoinBase with
      | true => exact hfirst hbase
      | false =>
        apply hledger.new_of_inputs _ hbase (hvin tx List.mem_cons_self) (hinputs hbase)
        apply hhash.subset
        intro tx' htx'
        rw [List.mem_append, List.mem_singleton] at htx'
        rw [List.mem_append, List.mem_cons]
        exact htx'.imp_right .inl
    have hnext : Ledger env (txs ++ [tx]) st₁.view := hview ▸ hledger.updateCoins hupdate hinputs hnew
    rw [List.append_cons] at hhash ⊢
    apply ih hnext (fun tx' htx' => hvin tx' (List.mem_cons_of_mem _ htx')) hhash _ hrest
    rintro second rest rfl
    refine ⟨fun hbase => ?_, fun tx' htx' => hplain tx' (List.mem_cons_of_mem _ htx')⟩
    rw [hplain second List.mem_cons_self] at hbase
    cases hbase

theorem ChainState.Extends.connectTxs (h : s.Extends env contracts block t)
    (hgenesis : env.hashing.blockHash block.header ≠ env.params.hashGenesisBlock) :
    ∃ fScriptChecks scriptCheckThreads st, t.view.coin = st.view.coin ∧
      block.vtx.foldlM
        (connectTx env contracts
          ((s.connectInput fScriptChecks scriptCheckThreads block).connection contracts))
        (s.connectInput fScriptChecks scriptCheckThreads block).start = .ok st := by
  obtain ⟨ctx, fScriptChecks, scriptCheckThreads, hok⟩ := h.accepted
  simp only [accept, Except.bind_eq_ok_iff, Except.pure_eq_ok_iff] at hok
  obtain ⟨-, -, out, hconnect, rfl⟩ := hok
  obtain ⟨st, pprev, hloop, -, -, -, -, hview⟩ := connectBlock_output hconnect hgenesis rfl
  refine ⟨fScriptChecks, scriptCheckThreads, st, ?_, hloop⟩
  rw [connected, hview]

theorem ChainState.NamesHeights.ledger_take (hs : s.NamesHeights)
    (hledger : Ledger env s.transactions s.view) (hblock : block.NamesHeight (s.height + 1))
    (hheight : s.height + 1 < 2 ^ 31) {limits : Limits}
    (hcheck : checkBlock env limits block true true = .ok ())
    (hhash : env.hashing.SeparatesTxs (s.transactions ++ block.vtx)) {c : Connection}
    {start st : Connecting World} (hstart : start.view.coin = s.view.coin) (n : Nat)
    (hst : (block.vtx.take n).foldlM (TscPow.connectTx env contracts c) start = .ok st) :
    Ledger env (s.transactions ++ block.vtx.take n) st.view := by
  have hsub : block.vtx.take n ⊆ block.vtx := List.take_subset n block.vtx
  obtain ⟨first, others, hvtx, -, hplain⟩ := checkBlock_coinbase env hcheck
  apply (hledger.congr hstart).connectTx (block.vtx.take n) _ _ _ hst
  · intro tx htx
    exact vin_ne_nil_of_checkTransaction (checkTransaction_of_checkBlock hcheck (hsub htx))
  · exact hhash.subset
      (List.append_subset.mpr
        ⟨List.subset_append_left _ _, List.subset_append_of_subset_right _ hsub⟩)
  · intro coinbase rest htake
    have hmem : coinbase ∈ block.vtx := hsub (htake ▸ List.mem_cons_self)
    refine ⟨fun hbase => ?_, fun tx htx => ?_⟩
    · apply hs.new_of_coinbase hblock hheight hmem hbase
      apply hhash.subset
      intro tx htx
      rw [List.mem_append, List.mem_singleton] at htx
      rcases htx with htx | rfl
      · exact List.mem_append_left _ htx
      · exact List.mem_append_right _ hmem
    · -- what follows the first transaction in the prefix follows it in the block
      rw [hvtx] at htake
      cases n with
      | zero => cases htake
      | succ n =>
        rw [List.take_succ_cons, List.cons.injEq] at htake
        exact hplain tx (List.take_subset n others (htake.2 ▸ htx))

theorem ChainState.Extends.transactions_eq (h : s.Extends env contracts block t) :
    t.transactions = s.transactions ++ block.vtx := by
  rw [transactions, h.above_eq.2, List.flatMap_append, List.flatMap_singleton, transactions]

theorem ChainState.Extends.height_eq (h : s.Extends env contracts block t) : t.height = s.height + 1 := by
  rw [height, h.above_eq.2, List.length_append, List.length_singleton, height]

theorem ChainState.AcceptedChain.namesHeight_last (ht : t.AcceptedChain env contracts)
    (h : s.Extends env contracts block t) :
    block.NamesHeight (s.height + 1) := by
  apply ht.namesHeights s.height
  rw [h.above_eq.2, height, List.getElem?_concat_length]

theorem ChainState.Start.ledger (h : s.Start env) : Ledger env s.transactions s.view := by
  rw [transactions, h.above]
  exact .nil h.coins

theorem ChainState.NamesHeights.ledger (hs : s.NamesHeights)
    (hledger : Ledger env s.transactions s.view) (h : s.Extends env contracts block t)
    (hgenesis : env.hashing.blockHash block.header ≠ env.params.hashGenesisBlock)
    (hblock : block.NamesHeight (s.height + 1)) (hheight : s.height + 1 < 2 ^ 31)
    (hhash : env.hashing.SeparatesTxs (s.transactions ++ block.vtx)) :
    Ledger env t.transactions t.view := by
  rw [h.transactions_eq]
  obtain ⟨limits, hcheck⟩ := h.checkBlock
  obtain ⟨fScriptChecks, scriptCheckThreads, st, hcoin, hloop⟩ := h.connectTxs hgenesis
  rw [← List.take_length (l := block.vtx)] at hloop
  have hledger := hs.ledger_take hledger hblock hheight hcheck hhash rfl _ hloop
  rw [List.take_length] at hledger
  exact hledger.congr hcoin

theorem ChainState.AcceptedChain.ledger (h : s.AcceptedChain env contracts) (hheight : s.height < 2 ^ 31)
    (hhash : env.hashing.SeparatesTxs s.transactions) : Ledger env s.transactions s.view := by
  induction h with
  | start h => exact h.ledger
  | @extend s t block hs hext hblock ih =>
    rw [hext.transactions_eq] at hhash
    rw [hext.height_eq] at hheight
    have hledger := ih (by omega) (hhash.subset (List.subset_append_left _ _))
    exact hs.namesHeights.ledger hledger hext (hs.reachable.ne_genesis hext)
      (hext.namesHeight hblock) hheight hhash

theorem Ledger.coin_eq_none {txs rest : List Tx} {v : CoinsView} {tx : Tx} (hledger : Ledger env txs v)
    (hnodup : ((txs ++ rest).map env.hashing.txHash).Nodup) (htx : tx ∈ rest) (n : BitVec 32) :
    v.coin ⟨env.hashing.txHash tx, n⟩ = none := by
  by_contra hcoin
  rw [List.map_append, List.nodup_append] at hnodup
  exact hnodup.2.2 _ (hledger.made _ hcoin) _ (List.mem_map_of_mem htx) rfl

end

/-- On every chain of accepted blocks no two transactions of blocks of height one or more have the same id, and when such a block was connected there was no unspent coin with the id of a transaction whose outputs were to be added. Heights are those an `int` can hold, and ids are taken to tell the transactions of the chain apart, up to witnesses. -/
theorem txids_nodup {World : Type} (env : Env) (contracts : Contracts World) (t : ChainState World)
    (h : t.AcceptedChain env contracts) (hheight : t.height < 2 ^ 31)
    (hhash : env.hashing.SeparatesTxs t.transactions) :
    (t.transactions.map env.hashing.txHash).Nodup ∧
      ∀ (s : ChainState World) (block : Block), s.AcceptedChain env contracts →
        s.Extends env contracts block t →
        ∀ fScriptChecks scriptCheckThreads i tx st, block.vtx[i]? = some tx →
          (s.connectInput fScriptChecks scriptCheckThreads block).connectPrefix env contracts i = .ok st →
            ∀ n, st.view.coin ⟨env.hashing.txHash tx, n⟩ = none := by
  have hnodup := (h.ledger hheight hhash).nodup
  refine ⟨hnodup, ?_⟩
  intro s block hs hext fScriptChecks scriptCheckThreads i tx st hi hst n
  rw [hext.transactions_eq] at hhash hnodup
  rw [hext.height_eq] at hheight
  obtain ⟨limits, hcheck⟩ := hext.checkBlock
  have hledger := hs.ledger (by omega) (hhash.subset (List.subset_append_left _ _))
  have hledger :=
    hs.namesHeights.ledger_take hledger (h.namesHeight_last hext) hheight hcheck hhash rfl i hst
  rw [← List.take_append_drop i block.vtx, ← List.append_assoc] at hnodup
  have hdrop : (block.vtx.drop i)[0]? = some tx := by rw [List.getElem?_drop, Nat.add_zero, hi]
  exact hledger.coin_eq_none hnodup (List.mem_of_getElem? hdrop) n

/-! ### Two blocks with a coinbase each -/

theorem PlainChain.exists_checkAcceptedBlock {tip : BlockIndex} {n : Nat} (htip : tip.nHeight = n)
    {b : Block} {tx : Tx} {rest : List Tx} (hvtx : b.vtx = tx :: rest)
    (hcoinbase : Coinbase (n + 1) tx) (hstake : b.isProofOfStake = false) :
    ∃ ctx tree, checkAcceptedBlock ctx tree b (tip.child b.header) = .ok () := by
  let prev : IndexEntry := ⟨tip, BLOCK_VALID_TREE, true, false, false, 1⟩
  have hnHeight : (tip.child b.header).nHeight = n + 1 := by rw [BlockIndex.nHeight_child, htip]
  refine ⟨ctx, ⟨fun _ => some prev, []⟩, ?_⟩
  simp only [checkAcceptedBlock, hnHeight, gt_iff_lt, Nat.zero_lt_succ, if_true,
    Except.bind_eq_ok_iff, rule_eq_ok_iff, hstake, valueOr_eq_ok_iff, hvtx]
  refine ⟨some prev.index, rfl, (), ?_, (), ?_, (), ?_, tx, rfl, _, by rw [hcoinbase.vin]; rfl,
    List.prefix_append _ _⟩
  · rw [checkSync, Bool.or_eq_true, decide_eq_true_iff]
    right
    change n + 1 > 0 - nCheckpointSpan
    omega
  · simp
  · simp

namespace TwoCoinbases

open PlainChain

def coinbase (n : Nat) : Tx where
  nVersion := 2
  vin := [⟨⟨Uint256.ofNat 0, 0xffffffff⟩, Script.pushInt64 n ++ [0], SEQUENCE_FINAL, []⟩]
  vout := [⟨COIN, [0x51]⟩]
  nLockTime := BitVec.ofNat 32 n

theorem coinbase_coinbase (n : Nat) : Coinbase n (coinbase n) := by
  have hvout : (coinbase n).vout = [⟨COIN, [0x51]⟩] := rfl
  refine ⟨rfl, ?_, ?_, ?_, ?_, ?_, ?_⟩
  · simp [hvout]
  · simp [hvout]
  · simp [hvout]
  · simp [hvout, COIN]
  · simp [Tx.outputValue, hvout, COIN]
  · rw [hvout]
    intro o ho
    obtain rfl := List.mem_singleton.mp ho
    decide

theorem exists_acceptedChain {n : Nat} (hn : n ≤ TICKET_VALVE) :
    ∃ s, s.AcceptedChain (network plain) (contracts plain) ∧ At coinbase n s := by
  induction n with
  | zero => exact ⟨start coinbase, .start (start_start plain coinbase), rfl, rfl, rfl⟩
  | succ n ih =>
    obtain ⟨s, hreach, hs⟩ := ih (by omega)
    obtain ⟨t, hext, ht, -⟩ := exists_extends hs (coinbase_coinbase (n + 1)) hn plain
    have htip : s.tip.nHeight = n := by rw [hs.tip_eq, ValveRun.nHeight_path]
    exact ⟨t, hreach.extend hext (exists_checkAcceptedBlock htip rfl (coinbase_coinbase (n + 1)) rfl), ht⟩

end TwoCoinbases

open PlainChain TwoCoinbases in
theorem txids_nodup_two : ∃ t : ChainState Unit, t.transactions = [coinbase 1, coinbase 2] ∧
    (t.transactions.map (network plain).hashing.txHash).Nodup := by
  obtain ⟨t, hchain, ht⟩ := exists_acceptedChain (n := 2) (by decide)
  have htxs : t.transactions = [coinbase 1, coinbase 2] := by
    rw [ChainState.transactions, ht.above]
    rfl
  have hheight : t.height = 2 := by
    rw [ChainState.height, ht.above]
    rfl
  have hhash : (network plain).hashing.SeparatesTxs t.transactions := by
    rw [htxs, Hashing.SeparatesTxs]
    decide
  exact ⟨t, htxs,
    (txids_nodup (network plain) (contracts plain) t hchain (by rw [hheight]; decide) hhash).1⟩

end TscPow
