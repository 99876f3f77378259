import TscPow.Validation.Money

/-!
# Disconnecting a block

`DisconnectBlock` (`validation.cpp`) takes a block back: in reverse order it removes the outputs of every transaction and puts the coins that it had spent back from the undo data. The contract state is represented by its two roots. Undo data are read back as they were written; erasing event logs and the stake index is not represented.
-/

namespace TscPow

/-- How `DisconnectBlock` ends early: `DISCONNECT_FAILED`, or not at all. -/
inductive DisconnectStop
  | failed
  | fault (fault : Fault)
deriving DecidableEq

abbrev Disconnect := Except DisconnectStop

def MAX_OUTPUTS_PER_BLOCK : Nat := 8000000 / (4 * 9)

/-- The loop of `AccessByTxid`, for the given number of rounds. -/
def CoinsView.accessFrom (v : CoinsView) (txid : Uint256) : Nat → Nat → Coin
  | 0, _ => Coin.empty
  | rounds + 1, n =>
    let alternate := v.accessCoin ⟨txid, BitVec.ofNat 32 n⟩
    if alternate.isSpent then v.accessFrom txid rounds (n + 1) else alternate

def CoinsView.accessByTxid (v : CoinsView) (txid : Uint256) : Coin :=
  v.accessFrom txid MAX_OUTPUTS_PER_BLOCK 0

/-- The view and `fClean`. -/
structure Disconnecting where
  view : CoinsView
  fClean : Bool

def applyTxInUndo (st : Disconnecting) (restore : TxIn × Coin) : Disconnect Disconnecting := do
  let (txin, undo) := restore
  let fClean := !st.view.haveCoin txin.prevout
  let undo ←
    if undo.nHeight = 0 then
      -- "missing undo metadata": an older version kept it only in one of the records of a transaction
      let alternate := st.view.accessByTxid txin.prevout.hash
      if alternate.isSpent then .error .failed
      else pure { undo with nHeight := alternate.nHeight, fCoinBase := alternate.fCoinBase }
    else pure undo
  let view ← (st.view.addCoin txin.prevout undo !fClean).mapError .fault
  pure ⟨view, st.fClean && fClean⟩

/-- The removal of output `o` of a transaction; it is clean if the coin is there as the block made it. -/
def removeOutput (hash : Uint256) (tx : Tx) (nHeight : Nat) (st : Disconnecting)
    (output : TxOut × Nat) : Disconnecting :=
  if Script.isUnspendable output.1.scriptPubKey then st
  else
    let out : OutPoint := ⟨hash, BitVec.ofNat 32 output.2⟩
    match st.view.spendCoin out with
    | none => { st with fClean := false }
    | some view =>
      ⟨view, st.fClean &&
        decide (st.view.accessCoin out = ⟨output.1, tx.isCoinBase, tx.isCoinStake, nHeight⟩)⟩

variable (env : Env)

/-- One round of the loop of `DisconnectBlock`; the first transaction of the block has no undo data. -/
def disconnectTx (nHeight : Nat) (st : Disconnecting) (connected : Tx × Option (List Coin)) :
    Disconnect Disconnecting :=
  let (tx, txundo) := connected
  let st := tx.vout.zipIdx.foldl (removeOutput (env.hashing.txHash tx) tx nHeight) st
  match txundo with
  | none => .ok st
  | some vprevout =>
    if vprevout.length ≠ tx.vin.length then .error .failed
    else (tx.vin.zip vprevout).reverse.foldlM applyTxInUndo st

/-- The arguments of `DisconnectBlock`, with the undo data as `UndoReadFromDisk` finds them. -/
structure DisconnectInput where
  block : Block
  pindex : BlockIndex
  view : CoinsView
  vtxundo : List (List Coin)

/-- The view, the roots of the contract state and whether the result is `DISCONNECT_OK` rather than `DISCONNECT_UNCLEAN`. -/
structure DisconnectOutput where
  view : CoinsView
  hashStateRoot : Uint256
  hashUTXORoot : Uint256
  fClean : Bool

def disconnectBlock (x : DisconnectInput) : Disconnect DisconnectOutput := do
  Except.require (env.hashing.blockHash x.pindex.header = x.view.bestBlock) (.fault .assertion)
  let pprev ← x.pindex.pprev.elim (.error (.fault .undefined)) .ok
  Except.require (x.vtxundo.length + 1 = x.block.vtx.length) .failed
  let st ← (x.block.vtx.zip (none :: x.vtxundo.map some)).reverse.foldlM
    (disconnectTx env x.pindex.nHeight) ⟨x.view, true⟩
  pure ⟨{ st.view with bestBlock := env.hashing.blockHash pprev.header },
    pprev.header.hashStateRoot, pprev.header.hashUTXORoot, st.fClean⟩

/-- The call of `DisconnectBlock` for a block that was just connected. The undo data that `ConnectBlock` writes leave out the coinbase. -/
def ConnectInput.undoing {World : Type} (x : ConnectInput World) (out : ConnectOutput World) :
    DisconnectInput where
  block := x.block
  pindex := x.pindex
  view := out.view
  vtxundo := out.vtxundo.drop 1

/-! ### Spent coins are put back -/

/-- A coin that `ApplyTxInUndo` puts back as it was: it has a height, and `AddCoin` keeps it. -/
structure Coin.Restorable (coin : Coin) : Prop where
  nHeight : coin.nHeight ≠ 0
  spendable : Script.isUnspendable coin.out.scriptPubKey = false
  notSpent : coin.out.nValue ≠ -1

/-- The disconnection stands where the coins are those of `v`, and has been clean so far. -/
structure CoinsView.Disconnects (v : CoinsView) (st : Disconnecting) : Prop where
  coin : st.view.coin = v.coin
  clean : st.fClean = true

namespace CoinsView

variable {v v' : CoinsView} {st : Disconnecting}

theorem spendCoin_eq_some {o : OutPoint} (h : v.spendCoin o = some v') :
    ∃ c, v.coin o = some c ∧ v.accessCoin o = c ∧ v'.coin = Function.update v.coin o none ∧
      ∀ o' ∈ v.cached, o' ∈ v'.cached := by
  rw [spendCoin] at h
  split at h
  · rename_i hhave
    obtain ⟨c, hc⟩ := Option.isSome_iff_exists.mp hhave
    cases h
    exact ⟨c, hc, by rw [accessCoin, hc, Option.getD_some], rfl, fun o' ho' => List.mem_cons_of_mem _ ho'⟩
  · cases h

theorem spendCoin_of_eq_some {o : OutPoint} {c : Coin} (h : v.coin o = some c) :
    v.spendCoin o = some { v with coin := Function.update v.coin o none, cached := o :: v.cached } := by
  rw [spendCoin, haveCoin, h, Option.isSome_some, if_pos rfl]

theorem addCoin_of_absent {o : OutPoint} {coin : Coin} (habsent : v.coin o = none)
    (hrestorable : coin.Restorable) (possible_overwrite : Bool) :
    v.addCoin o coin possible_overwrite =
      .ok { v with coin := Function.update v.coin o (some coin), cached := o :: v.cached } := by
  have hhave : v.haveCoin o = false := by rw [haveCoin, habsent, Option.isSome_none]
  rw [addCoin, if_neg hrestorable.notSpent, hrestorable.spendable, if_neg Bool.false_ne_true, hhave,
    if_neg (by simp)]

theorem Disconnects.applyTxInUndo {txin : TxIn} {coin : Coin} (h : v'.Disconnects st)
    (hspent : v'.coin = Function.update v.coin txin.prevout none)
    (hcoin : v.coin txin.prevout = some coin) (hrestorable : coin.Restorable) :
    ∃ st', applyTxInUndo st (txin, coin) = .ok st' ∧ v.Disconnects st' := by
  have hnone : st.view.coin txin.prevout = none := by rw [h.coin, hspent, Function.update_self]
  have hhave : st.view.haveCoin txin.prevout = false := by rw [haveCoin, hnone, Option.isSome_none]
  have hadd := addCoin_of_absent hnone hrestorable false
  refine ⟨⟨{ st.view with
      coin := Function.update st.view.coin txin.prevout (some coin)
      cached := txin.prevout :: st.view.cached }, st.fClean && true⟩, ?_, ?_, ?_⟩
  · simp only [TscPow.applyTxInUndo, hrestorable.nHeight, if_false, hhave, Bool.not_false,
      Bool.not_true, hadd, pure_bind]
    rfl
  · change Function.update st.view.coin txin.prevout (some coin) = v.coin
    rw [h.coin, hspent, Function.update_idem, ← hcoin, Function.update_eq_self]
  · rw [Bool.and_true]
    exact h.clean

theorem coin_of_spendInputs {vin : List TxIn} {undo : List Coin}
    (h : v.spendInputs vin = .ok (v', undo)) :
    undo.length = vin.length ∧ (∀ o c, v'.coin o = some c → v.coin o = some c) ∧
      (∀ o ∈ v.cached, o ∈ v'.cached) ∧
      ∀ txin ∈ vin, v'.coin txin.prevout = none := by
  induction vin using List.reverseRecOn generalizing v' undo with
  | nil =>
    cases h
    exact ⟨rfl, fun _ _ hc => hc, fun _ ho => ho, nofun⟩
  | append_singleton vin txin ih =>
    obtain ⟨⟨v₁, undo₁⟩, hfirst, hlast⟩ := Except.foldlM_append_eq_ok_iff.mp h
    obtain ⟨hlength, hcoin, hcached, hgone⟩ := ih hfirst
    obtain ⟨⟨v₂, undo₂⟩, hlast, hnil⟩ := Except.foldlM_cons_eq_ok_iff.mp hlast
    cases hnil
    simp only at hlast
    split at hlast
    · cases hlast
    · rename_i v₃ hspend
      cases hlast
      obtain ⟨c, -, -, hupdate, hcached'⟩ := spendCoin_eq_some hspend
      refine ⟨by simp [hlength], fun o c' hc' => ?_, fun o ho => hcached' o (hcached o ho),
        fun i hi => ?_⟩
      · rw [hupdate] at hc'
        by_cases heq : o = txin.prevout
        · rw [heq, Function.update_self] at hc'
          cases hc'
        · rw [Function.update_of_ne heq] at hc'
          exact hcoin o c' hc'
      · rw [hupdate]
        by_cases heq : i.prevout = txin.prevout
        · rw [heq, Function.update_self]
        · rw [Function.update_of_ne heq]
          rcases List.mem_append.mp hi with hi | hi
          · exact hgone i hi
          · exact absurd (congrArg TxIn.prevout (List.mem_singleton.mp hi)) heq

theorem reverts_spendInputs {vin : List TxIn} {undo : List Coin} (h : v.spendInputs vin = .ok (v', undo))
    (hrestorable : ∀ txin ∈ vin, ∀ c, v.coin txin.prevout = some c → c.Restorable) :
    Except.Reverts applyTxInUndo Disconnects v (vin.zip undo) v' := by
  induction vin using List.reverseRecOn generalizing v' undo with
  | nil =>
    cases h
    exact .nil
  | append_singleton vin txin ih =>
    obtain ⟨⟨v₁, undo₁⟩, hfirst, hlast⟩ := Except.foldlM_append_eq_ok_iff.mp h
    obtain ⟨hlength, hcoin, -, -⟩ := coin_of_spendInputs hfirst
    obtain ⟨⟨v₂, undo₂⟩, hlast, hnil⟩ := Except.foldlM_cons_eq_ok_iff.mp hlast
    cases hnil
    simp only at hlast
    split at hlast
    · cases hlast
    · rename_i v₃ hspend
      cases hlast
      obtain ⟨c, hc, haccess, hupdate, -⟩ := spendCoin_eq_some hspend
      rw [haccess, List.zip_append hlength.symm]
      apply (ih hfirst fun i hi => hrestorable i (List.mem_append_left _ hi)).concat
      intro w hw
      exact hw.applyTxInUndo hupdate hc (hrestorable txin (by simp) c (hcoin _ _ hc))

/-! ### Outputs are removed -/

/-- The coin that a transaction makes at an outpoint: the output at that position, if it can be spent. -/
def made (txid : Uint256) (coin : TxOut → Coin) (vout : List TxOut) (o : OutPoint) : Option Coin :=
  if o.hash = txid then (vout[o.n.toNat]?).bind fun out =>
    if Script.isUnspendable out.scriptPubKey then none else some (coin out)
  else none

variable {txid : Uint256} {coin : TxOut → Coin} {vout : List TxOut} {out : TxOut} {o : OutPoint}

theorem made_nil : made txid coin [] o = none := by
  rw [made]
  split <;> rfl

theorem made_concat (hlength : vout.length < 2 ^ 32) :
    made txid coin (vout ++ [out]) o =
      if o = ⟨txid, BitVec.ofNat 32 vout.length⟩ then if Script.isUnspendable out.scriptPubKey then
        none
      else some (coin out)
      else made txid coin vout o := by
  have hn : (BitVec.ofNat 32 vout.length).toNat = vout.length := by
    rw [BitVec.toNat_ofNat, Nat.mod_eq_of_lt hlength]
  obtain ⟨hash, n⟩ := o
  rw [made, made]
  by_cases hhash : hash = txid
  · subst hhash
    by_cases hlast : n = BitVec.ofNat 32 vout.length
    · subst hlast
      simp only [if_true, hn, List.getElem?_concat_length, Option.bind_some]
    · have hne : n.toNat ≠ vout.length := fun heq => hlast (BitVec.eq_of_toNat_eq (heq.trans hn.symm))
      simp only [if_true, OutPoint.mk.injEq, true_and, hlast, if_false]
      rcases lt_or_gt_of_ne hne with hlt | hgt
      · rw [List.getElem?_append_left hlt]
      · rw [List.getElem?_eq_none (by simp; omega), List.getElem?_eq_none (by omega)]
  · simp [hhash]

theorem made_last (hlength : vout.length < 2 ^ 32) :
    made txid coin vout ⟨txid, BitVec.ofNat 32 vout.length⟩ = none := by
  have hn : (BitVec.ofNat 32 vout.length).toNat = vout.length := by
    rw [BitVec.toNat_ofNat, Nat.mod_eq_of_lt hlength]
  rw [made, if_pos rfl, hn, List.getElem?_eq_none le_rfl, Option.bind_none]

theorem coin_of_addCoin {coin : Coin} {possible_overwrite : Bool}
    (h : v.addCoin o coin possible_overwrite = .ok v') :
    (∀ o', v'.coin o' = if o' = o ∧ Script.isUnspendable coin.out.scriptPubKey = false then
      some coin else v.coin o') ∧
      (∀ o' ∈ v.cached, o' ∈ v'.cached) ∧
      (Script.isUnspendable coin.out.scriptPubKey = false → o ∈ v'.cached ∧ coin.out.nValue ≠ -1 ∧
        (possible_overwrite = false → o ∈ v.cached → v.coin o = none)) := by
  rw [addCoin] at h
  split at h
  · cases h
  · rename_i hvalue
    split at h
    · rename_i hspend
      cases h
      simp [hspend]
    · rename_i hspend
      rw [Bool.not_eq_true] at hspend
      split at h
      · cases h
      · rename_i hover
        cases h
        refine ⟨fun o' => ?_, fun o' ho' => List.mem_cons_of_mem _ ho',
          fun _ => ⟨List.mem_cons_self, hvalue, fun hnot hcached => ?_⟩⟩
        · simp only [hspend, and_true]
          by_cases heq : o' = o
          · rw [heq, Function.update_self, if_pos rfl]
          · rw [Function.update_of_ne heq, if_neg heq]
        · by_contra hsome
          exact hover ⟨by simp [hnot], hcached, Option.isSome_iff_ne_none.mpr hsome⟩

theorem coin_of_addOutputs {possible_overwrite : Bool} (hout : ∀ out, (coin out).out = out)
    (hlength : vout.length ≤ 2 ^ 32)
    (h : vout.zipIdx.foldlM
      (fun v (p : TxOut × Nat) =>
        v.addCoin ⟨txid, BitVec.ofNat 32 p.2⟩ (coin p.1) possible_overwrite) v = .ok v') :
    (∀ o, v'.coin o = (made txid coin vout o).or (v.coin o)) ∧ (∀ o ∈ v.cached, o ∈ v'.cached) ∧
      ∀ o c, made txid coin vout o = some c → o ∈ v'.cached ∧ c.out.nValue ≠ -1 ∧
        Script.isUnspendable c.out.scriptPubKey = false ∧
        (possible_overwrite = false → o ∈ v.cached → v.coin o = none) := by
  induction vout using List.reverseRecOn generalizing v' with
  | nil =>
    cases h
    simp [made_nil]
  | append_singleton vout out ih =>
    rw [List.length_append, List.length_singleton] at hlength
    rw [List.zipIdx_append, Except.foldlM_append_eq_ok_iff] at h
    obtain ⟨v₁, hfirst, hlast⟩ := h
    obtain ⟨hcoin, hcached, hmade⟩ := ih (by omega) hfirst
    rw [List.zipIdx_cons, List.zipIdx_nil, Except.foldlM_cons_eq_ok_iff] at hlast
    obtain ⟨v₂, hadd, hnil⟩ := hlast
    cases hnil
    obtain ⟨hcoin', hcached', hmade'⟩ := coin_of_addCoin hadd
    rw [hout] at hcoin' hmade'
    simp only [Nat.zero_add] at hcoin' hmade'
    refine ⟨fun o => ?_, fun o ho => hcached' o (hcached o ho), fun o c hc => ?_⟩
    · rw [hcoin', made_concat (by omega), hcoin]
      by_cases heq : o = ⟨txid, BitVec.ofNat 32 vout.length⟩
      · subst heq
        cases hspend : Script.isUnspendable out.scriptPubKey with
        | false => simp
        | true => simp [made_last (show vout.length < 2 ^ 32 by omega)]
      · simp [heq]
    · rw [made_concat (by omega)] at hc
      by_cases heq : o = ⟨txid, BitVec.ofNat 32 vout.length⟩
      · rw [if_pos heq] at hc
        subst heq
        split at hc
        · cases hc
        · rename_i hspend
          cases hc
          rw [Bool.not_eq_true] at hspend
          obtain ⟨hnew, hvalue, hfree⟩ := hmade' hspend
          refine ⟨hnew, by rwa [hout], by rwa [hout], fun hnot ho => ?_⟩
          have hnone := hfree hnot (hcached _ ho)
          rwa [hcoin, made_last (by omega), Option.none_or] at hnone
      · rw [if_neg heq] at hc
        obtain ⟨hnew, hrest⟩ := hmade o c hc
        exact ⟨hcached' o hnew, hrest⟩

theorem foldl_removeOutput {hash : Uint256} {tx : Tx} {nHeight : Nat} (vout : List TxOut)
    (hlength : vout.length ≤ 2 ^ 32)
    (hthere : ∀ o c, made hash (⟨·, tx.isCoinBase, tx.isCoinStake, nHeight⟩) vout o = some c →
      st.view.coin o = some c) :
    (∀ o, (vout.zipIdx.foldl (removeOutput hash tx nHeight) st).view.coin o =
        if (made hash (⟨·, tx.isCoinBase, tx.isCoinStake, nHeight⟩) vout o).isSome then none
          else st.view.coin o) ∧
      (vout.zipIdx.foldl (removeOutput hash tx nHeight) st).fClean = st.fClean := by
  induction vout using List.reverseRecOn with
  | nil => simp [made_nil]
  | append_singleton vout out ih =>
    rw [List.length_append, List.length_singleton] at hlength
    have hlt : vout.length < 2 ^ 32 := by omega
    have hbefore : ∀ o c, made hash (⟨·, tx.isCoinBase, tx.isCoinStake, nHeight⟩) vout o = some c →
        st.view.coin o = some c := by
      intro o c hc
      apply hthere
      rw [made_concat hlt, if_neg, hc]
      rintro rfl
      rw [made_last hlt] at hc
      cases hc
    obtain ⟨hcoin, hclean⟩ := ih (by omega) hbefore
    rw [List.zipIdx_append, List.foldl_append, List.zipIdx_cons, List.zipIdx_nil, List.foldl_cons,
      List.foldl_nil]
    set before := vout.zipIdx.foldl (removeOutput hash tx nHeight) st
    cases hspend : Script.isUnspendable out.scriptPubKey with
    | true =>
      rw [removeOutput, hspend, if_pos rfl]
      refine ⟨fun o => ?_, hclean⟩
      rw [hcoin, made_concat hlt, hspend]
      by_cases heq : o = ⟨hash, BitVec.ofNat 32 vout.length⟩
      · rw [if_pos heq, heq, made_last hlt, if_pos rfl]
      · rw [if_neg heq]
    | false =>
      have hlast : before.view.coin ⟨hash, BitVec.ofNat 32 vout.length⟩ =
          some ⟨out, tx.isCoinBase, tx.isCoinStake, nHeight⟩ := by
        rw [hcoin, made_last hlt]
        apply hthere
        rw [made_concat hlt, if_pos rfl, hspend, if_neg Bool.false_ne_true]
      have haccess : before.view.accessCoin ⟨hash, BitVec.ofNat 32 vout.length⟩ =
          ⟨out, tx.isCoinBase, tx.isCoinStake, nHeight⟩ := by
        rw [accessCoin, hlast, Option.getD_some]
      simp only [removeOutput, hspend, Nat.zero_add, spendCoin_of_eq_some hlast, haccess,
        Bool.false_eq_true, if_false, decide_true, Bool.and_true]
      refine ⟨fun o => ?_, hclean⟩
      rw [made_concat hlt, hspend]
      by_cases heq : o = ⟨hash, BitVec.ofNat 32 vout.length⟩
      · rw [heq, Function.update_self, if_pos rfl]
        rfl
      · rw [Function.update_of_ne heq, hcoin, if_neg heq]

/-! ### A transaction is taken back -/

variable {env : Env} {tx : Tx} {nHeight : Nat} {undo : List Coin}

def madeAt (env : Env) (tx : Tx) (nHeight : Nat) (o : OutPoint) : Option Coin :=
  made (env.hashing.txHash tx) (⟨·, tx.isCoinBase, tx.isCoinStake, nHeight⟩) tx.vout o

theorem of_madeAt {c : Coin} (h : madeAt env tx nHeight o = some c) :
    o.hash = env.hashing.txHash tx ∧ c.nHeight = nHeight := by
  rw [madeAt, made] at h
  split at h
  · rename_i hhash
    obtain ⟨out, -, hout⟩ := Option.bind_eq_some_iff.mp h
    split at hout
    · cases hout
    · cases hout
      exact ⟨hhash, rfl⟩
  · cases h

theorem updateCoins_steps {txid : Uint256} (h : v.updateCoins txid tx nHeight = .ok (v', undo)) :
    ∃ spent, (if tx.isCoinBase then .ok (v, []) else v.spendInputs tx.vin) = .ok (spent, undo) ∧
      spent.addCoins txid tx nHeight = .ok v' := by
  cases hcoinbase : tx.isCoinBase
  all_goals
    simp only [updateCoins, hcoinbase, if_true, if_false, Bool.false_eq_true,
      Except.bind_eq_ok_iff] at h ⊢
    obtain ⟨⟨spent, undo'⟩, hspent, v'', hadd, heq⟩ := h
    cases heq
    exact ⟨spent, hspent, hadd⟩

section

variable (hheight : nHeight < 2 ^ 30) (hlength : tx.vout.length ≤ 2 ^ 32)

include hheight hlength

theorem coin_of_addCoins (h : v.addCoins (env.hashing.txHash tx) tx nHeight = .ok v') :
    (∀ o, v'.coin o = (madeAt env tx nHeight o).or (v.coin o)) ∧ (∀ o ∈ v.cached, o ∈ v'.cached) ∧
      ∀ o c, madeAt env tx nHeight o = some c → o ∈ v'.cached ∧ c.out.nValue ≠ -1 ∧
        Script.isUnspendable c.out.scriptPubKey = false ∧
        (tx.isCoinBase = false → o ∈ v.cached → v.coin o = none) := by
  rw [addCoins, Nat.mod_eq_of_lt hheight] at h
  exact coin_of_addOutputs (fun _ => rfl) hlength h

theorem Disconnects.removeOutputs (h : v.addCoins (env.hashing.txHash tx) tx nHeight = .ok v')
    (hfree : ∀ o c, madeAt env tx nHeight o = some c → v.coin o = none) (hst : v'.Disconnects st) :
    v.Disconnects (tx.vout.zipIdx.foldl (removeOutput (env.hashing.txHash tx) tx nHeight) st) := by
  obtain ⟨hcoin, -, -⟩ := coin_of_addCoins hheight hlength h
  have hthere : ∀ o c, madeAt env tx nHeight o = some c → st.view.coin o = some c := by
    intro o c hc
    rw [hst.coin, hcoin, hc, Option.some_or]
  obtain ⟨hremoved, hclean⟩ := foldl_removeOutput tx.vout hlength hthere
  refine ⟨?_, hclean.trans hst.clean⟩
  funext o
  rw [hremoved, hst.coin, hcoin]
  change (if (madeAt env tx nHeight o).isSome then none
    else (madeAt env tx nHeight o).or (v.coin o)) = v.coin o
  cases hmade : madeAt env tx nHeight o with
  | none => simp
  | some c => simp [hfree o c hmade]

theorem coin_of_updateCoins (h : v.updateCoins (env.hashing.txHash tx) tx nHeight = .ok (v', undo)) :
    (∀ o c, v'.coin o = some c → v.coin o = some c ∨ madeAt env tx nHeight o = some c) ∧
    (∀ o ∈ v.cached, o ∈ v'.cached) ∧
      ∀ o c, madeAt env tx nHeight o = some c →
        o ∈ v'.cached ∧ c.out.nValue ≠ -1 ∧ Script.isUnspendable c.out.scriptPubKey = false := by
  obtain ⟨spent, hspent, hadd⟩ := updateCoins_steps h
  obtain ⟨hcoin, hcached, hmade⟩ := coin_of_addCoins hheight hlength hadd
  have hspent' : (∀ o c, spent.coin o = some c → v.coin o = some c) ∧ ∀ o ∈ v.cached,
      o ∈ spent.cached := by
    split at hspent
    · cases hspent
      exact ⟨fun _ _ hc => hc, fun _ ho => ho⟩
    · obtain ⟨-, hsub, hkept, -⟩ := coin_of_spendInputs hspent
      exact ⟨hsub, hkept⟩
  refine ⟨fun o c hc => ?_, fun o ho => hcached o (hspent'.2 o ho), fun o c hc => ?_⟩
  · rw [hcoin, Option.or_eq_some_iff] at hc
    rcases hc with hc | ⟨-, hc⟩
    · exact .inr hc
    · exact .inl (hspent'.1 o c hc)
  · obtain ⟨hnew, hvalue, hspend, -⟩ := hmade o c hc
    exact ⟨hnew, hvalue, hspend⟩

theorem Disconnects.undoTx (h : v.updateCoins (env.hashing.txHash tx) tx nHeight = .ok (v', undo))
    (hcoinbase : tx.isCoinBase = false)
    (hcached : ∀ o c, madeAt env tx nHeight o = some c → (v.coin o).isSome → o ∈ v.cached)
    (hrestorable : ∀ txin ∈ tx.vin, ∀ c, v.coin txin.prevout = some c → c.Restorable)
    (hst : v'.Disconnects st) :
    ∃ st', disconnectTx env nHeight st (tx, some undo) = .ok st' ∧ v.Disconnects st' := by
  obtain ⟨spent, hspent, hadd⟩ := updateCoins_steps h
  rw [hcoinbase, if_neg Bool.false_ne_true] at hspent
  obtain ⟨hundo, hsub, hkept, -⟩ := coin_of_spendInputs hspent
  have hfree : ∀ o c, madeAt env tx nHeight o = some c → spent.coin o = none := by
    intro o c hmade
    obtain ⟨-, -, -, hfree⟩ := (coin_of_addCoins hheight hlength hadd).2.2 o c hmade
    cases hcoin : spent.coin o with
    | none => rfl
    | some c' =>
      have hold := hcached o c hmade (by rw [hsub o c' hcoin, Option.isSome_some])
      rw [hfree hcoinbase (hkept o hold)] at hcoin
      cases hcoin
  have hremoved := hst.removeOutputs hheight hlength hadd hfree
  obtain ⟨st', hrun, hst'⟩ := reverts_spendInputs hspent hrestorable _ hremoved
  refine ⟨st', ?_, hst'⟩
  simp only [disconnectTx, hundo, ne_eq, not_true_eq_false, if_false]
  exact hrun

theorem Disconnects.undoCoinbase (h : v.updateCoins (env.hashing.txHash tx) tx nHeight = .ok (v', undo))
    (hcoinbase : tx.isCoinBase = true)
    (hfree : ∀ o c, madeAt env tx nHeight o = some c → v.coin o = none) (hst : v'.Disconnects st) :
    ∃ st', disconnectTx env nHeight st (tx, none) = .ok st' ∧ v.Disconnects st' := by
  obtain ⟨spent, hspent, hadd⟩ := updateCoins_steps h
  rw [hcoinbase, if_pos rfl] at hspent
  cases hspent
  exact ⟨_, rfl, hst.removeOutputs hheight hlength hadd hfree⟩

end

end CoinsView

/-! ### A block is taken back -/

section

variable {World : Type} {env : Env} {contracts : Contracts World} {c : Connection}
  {st st' : Connecting World} {tx : Tx}

theorem view_of_runContracts (h : runContracts contracts c st tx = .ok st') :
    st'.view = st.view ∧ st'.vtxundo = st.vtxundo := by
  simp only [runContracts, Except.bind_eq_ok_iff, Except.pure_eq_ok_iff] at h
  obtain ⟨-, -, txs, -, -, -, nValueOut, -, tally, -, -, -, executed, -, bcer, -, -, -, rfl⟩ := h
  exact ⟨rfl, rfl⟩

theorem view_of_checkSpend (h : checkSpend env c st tx = .ok st') :
    st'.view = st.view ∧ st'.vtxundo = st.vtxundo := by
  simp only [checkSpend, Except.bind_eq_ok_iff, Except.pure_eq_ok_iff] at h
  obtain ⟨valueOut, -, passes, -, -, -, rfl⟩ := h
  split <;> exact ⟨rfl, rfl⟩

theorem view_of_tallyValues (h : tallyValues c st tx = .ok st') :
    st'.view = st.view ∧ st'.vtxundo = st.vtxundo := by
  rw [tallyValues] at h
  split at h
  all_goals
    simp only [Except.bind_eq_ok_iff, Except.pure_eq_ok_iff] at h
    obtain ⟨value, -, rfl⟩ := h
    exact ⟨rfl, rfl⟩

theorem updateCoins_of_connectTx (h : connectTx env contracts c st tx = .ok st') :
    ∃ view undo, st.view.updateCoins (env.hashing.txHash tx) tx c.pindex.nHeight =
      .ok (view, undo) ∧ st'.view = view ∧
      st'.vtxundo = st.vtxundo ++ [undo] := by
  obtain ⟨cost, spent, tallied, ran, view, undo, hspent, htallied, hran, hupdate, rfl⟩ :=
    connectTx_steps h
  have hspent' : spent.view = st.view ∧ spent.vtxundo = st.vtxundo := by
    split at hspent
    · cases hspent
      exact ⟨rfl, rfl⟩
    · have hview := view_of_checkSpend hspent
      exact hview
  obtain ⟨htv, htu⟩ := view_of_tallyValues htallied
  have hran' : ran.view = tallied.view ∧ ran.vtxundo = tallied.vtxundo := by
    split at hran
    · obtain ⟨hv, hu⟩ := view_of_runContracts hran
      rw [hv, hu]
      split <;> exact ⟨rfl, rfl⟩
    · cases hran
      split <;> exact ⟨rfl, rfl⟩
  rw [hran'.1, htv, hspent'.1] at hupdate
  exact ⟨view, undo, hupdate, rfl, by rw [hran'.2, htu, hspent'.2]⟩

theorem moneyRange_of_checkTxInputs {inputs : CoinsView} {nSpendHeight : Int}
    (h : checkTxInputs tx inputs nSpendHeight = .ok ()) :
    ∀ txin ∈ tx.vin, MoneyRange (inputs.accessCoin txin.prevout).out.nValue := by
  intro txin htxin
  simp only [checkTxInputs, Except.bind_eq_ok_iff] at h
  obtain ⟨-, -, total, hloop, -⟩ := h
  obtain ⟨i, hi⟩ := List.mem_iff_getElem?.mp htxin
  obtain ⟨before, after, -, hstep, -⟩ := Except.foldlM_step hloop hi
  simp only [checkTxInput, Except.bind_eq_ok_iff, rule_eq_ok_iff] at hstep
  obtain ⟨-, -, -, hrange, -⟩ := hstep
  exact hrange.1

theorem length_vout_le {limits : Limits} (hlimits : limits.dgpMaxBlockWeight < 2 ^ 32)
    {fCheckDuplicateInputs : Bool}
    (h : checkTransaction env.interpreter limits tx fCheckDuplicateInputs = .ok ()) :
    tx.vout.length ≤ 2 ^ 32 := by
  have hsize := length_vout_le_strippedSize tx
  simp only [checkTransaction, Except.bind_eq_ok_iff, rule_eq_ok_iff] at h
  obtain ⟨-, -, -, -, -, ⟨-, hweight⟩, -⟩ := h
  rw [WITNESS_SCALE_FACTOR] at hweight
  omega

/-- What the theorem asks of the transactions of a block on top of the coins `view`. -/
structure Undoable (env : Env) (view : CoinsView) (txs : List Tx) : Prop where
  length : ∀ tx ∈ txs, tx.vout.length ≤ 2 ^ 32
  fresh : ∀ tx ∈ txs, ∀ n, view.coin ⟨env.hashing.txHash tx, n⟩ = none
  spent : ∀ tx ∈ txs, ∀ txin ∈ tx.vin, ∀ coin, view.coin txin.prevout = some coin →
    coin.nHeight ≠ 0 ∧ Script.isUnspendable coin.out.scriptPubKey = false

/-- Along the loop: a coin is from the view that the block started with, or it was made by the block and is in the cache. -/
def MadeOrOld (view : CoinsView) (v : CoinsView) : Prop :=
  ∀ o coin, v.coin o = some coin → view.coin o = some coin ∨ coin.Restorable ∧ o ∈ v.cached

/-- The undo records of the transactions that were connected; the first has none. -/
def undoRecords (txs : List Tx) (vtxundo : List (List Coin)) : List (Tx × Option (List Coin)) :=
  txs.zip (none :: (vtxundo.drop 1).map some)

theorem undoRecords_concat {txs : List Tx} {vtxundo : List (List Coin)}
    (hlength : vtxundo.length = txs.length) (hne : txs ≠ []) (undo : List Coin) :
    undoRecords (txs ++ [tx]) (vtxundo ++ [undo]) =
      undoRecords txs vtxundo ++ [(tx, some undo)] := by
  have hpos := List.length_pos_iff.mpr hne
  rw [undoRecords, undoRecords, List.drop_append_of_le_length (by omega),
    List.map_append, ← List.cons_append, List.zip_append]
  · rfl
  · simp
    omega

theorem MadeOrOld.updateCoins {view v v' : CoinsView} {nHeight : Nat} {undo : List Coin}
    (hv : MadeOrOld view v) (h : v.updateCoins (env.hashing.txHash tx) tx nHeight = .ok (v', undo))
    (hheight : nHeight < 2 ^ 30) (hpos : nHeight ≠ 0) (hlength : tx.vout.length ≤ 2 ^ 32) :
    MadeOrOld view v' := by
  obtain ⟨hcoin, hcached, hmade⟩ := CoinsView.coin_of_updateCoins hheight hlength h
  intro o coin ho
  rcases hcoin o coin ho with hold | hnew
  · rcases hv o coin hold with hview | ⟨hrestorable, hin⟩
    · exact .inl hview
    · exact .inr ⟨hrestorable, hcached o hin⟩
  · obtain ⟨hin, hvalue, hspend⟩ := hmade o coin hnew
    obtain ⟨-, hheight'⟩ := CoinsView.of_madeAt hnew
    exact .inr ⟨⟨hheight' ▸ hpos, hspend, hvalue⟩, hin⟩

/-- The loop over the transactions of a block is taken back by the loop of `DisconnectBlock`. -/
theorem reverts_connectTx {view : CoinsView} (hheight : c.pindex.nHeight < 2 ^ 30)
    (hpos : c.pindex.nHeight ≠ 0) (hview : st.view = view) (hundo : st.vtxundo = []) {coinbase : Tx}
    (hcoinbase : coinbase.isCoinBase = true) (rest : List Tx)
    (hrest : ∀ tx ∈ rest, tx.isCoinBase = false) (hundoable : Undoable env view (coinbase :: rest))
    (h : (coinbase :: rest).foldlM (connectTx env contracts c) st = .ok st') :
    st'.vtxundo.length = (coinbase :: rest).length ∧ MadeOrOld view st'.view ∧
      Except.Reverts (disconnectTx env c.pindex.nHeight) CoinsView.Disconnects view
        (undoRecords (coinbase :: rest) st'.vtxundo) st'.view := by
  induction rest using List.reverseRecOn generalizing st' with
  | nil =>
    obtain ⟨st₁, hstep, hnil⟩ := Except.foldlM_cons_eq_ok_iff.mp h
    cases hnil
    obtain ⟨view', undo, hupdate, rfl, hundo'⟩ := updateCoins_of_connectTx hstep
    rw [hview] at hupdate
    rw [hundo, List.nil_append] at hundo'
    have hlength := hundoable.length coinbase List.mem_cons_self
    have hold : MadeOrOld view view := fun _ _ ho => .inl ho
    refine ⟨by rw [hundo']; rfl, hold.updateCoins hupdate hheight hpos hlength, ?_⟩
    rw [hundo']
    change Except.Reverts _ _ _ ([] ++ [(coinbase, none)]) _
    apply Except.Reverts.nil.concat
    intro w hw
    apply hw.undoCoinbase hheight hlength hupdate hcoinbase
    intro o coin hmade
    obtain ⟨hhash, -⟩ := CoinsView.of_madeAt hmade
    obtain ⟨hash, n⟩ := o
    simp only at hhash
    rw [hhash]
    exact hundoable.fresh coinbase List.mem_cons_self n
  | append_singleton rest tx ih =>
    rw [← List.cons_append] at h hundoable ⊢
    obtain ⟨st₁, hfirst, hlast⟩ := Except.foldlM_append_eq_ok_iff.mp h
    obtain ⟨st₂, hstep, hnil⟩ := Except.foldlM_cons_eq_ok_iff.mp hlast
    cases hnil
    have hbefore : Undoable env view (coinbase :: rest) :=
      ⟨fun t ht => hundoable.length t (List.mem_append_left _ ht),
        fun t ht => hundoable.fresh t (List.mem_append_left _ ht),
        fun t ht => hundoable.spent t (List.mem_append_left _ ht)⟩
    have hmem : tx ∈ coinbase :: rest ++ [tx] := List.mem_append_right _ (List.mem_singleton_self tx)
    have hplain : tx.isCoinBase = false := hrest tx (List.mem_append_right _ (List.mem_singleton_self tx))
    obtain ⟨hcount, hold, hreverts⟩ := ih (fun t ht => hrest t (List.mem_append_left _ ht)) hbefore hfirst
    obtain ⟨view', undo, hupdate, rfl, hundo'⟩ := updateCoins_of_connectTx hstep
    have hlength := hundoable.length tx hmem
    have hrange := moneyRange_of_checkTxInputs (checkTxInputs_of_connectTx hstep hplain)
    refine ⟨?_, hold.updateCoins hupdate hheight hpos hlength, ?_⟩
    · rw [hundo', List.length_append, List.length_append, hcount]
      rfl
    · rw [hundo', undoRecords_concat hcount (List.cons_ne_nil _ _)]
      apply hreverts.concat
      intro w hw
      apply hw.undoTx hheight hlength hupdate hplain
      · -- a coin with the id of the transaction is not from the view, so it is in the cache
        intro o coin hmade hsome
        obtain ⟨coin', hcoin'⟩ := Option.isSome_iff_exists.mp hsome
        obtain ⟨hhash, -⟩ := CoinsView.of_madeAt hmade
        rcases hold o coin' hcoin' with hview' | ⟨-, hcached⟩
        · have hfresh := hundoable.fresh tx hmem o.n
          rw [← hhash, hview'] at hfresh
          cases hfresh
        · exact hcached
      · intro txin htxin coin hcoin
        rcases hold txin.prevout coin hcoin with hview' | ⟨hrestorable, -⟩
        · obtain ⟨hheight', hspend⟩ := hundoable.spent tx hmem txin htxin coin hview'
          have hvalue := moneyRange_iff.mp (hrange txin htxin)
          rw [CoinsView.accessCoin, hcoin, Option.getD_some] at hvalue
          exact ⟨hheight', hspend, by linarith [hvalue.1]⟩
        · exact hrestorable

theorem connectBlock_output {x : ConnectInput World} {out : ConnectOutput World}
    (h : connectBlock env contracts x = .ok out)
    (hgenesis : env.hashing.blockHash x.block.header ≠ env.params.hashGenesisBlock)
    (hjust : x.fJustCheck = false) :
    ∃ st pprev, x.block.vtx.foldlM (connectTx env contracts (x.connection contracts)) x.start =
      .ok st ∧ x.pindex.pprev = some pprev ∧
      x.view.bestBlock = env.hashing.blockHash pprev.header ∧ out.world = st.world ∧
        out.vtxundo = st.vtxundo ∧
      out.view = { st.view with bestBlock := env.hashing.blockHash x.pindex.header } := by
  simp only [connectBlock, Except.bind_eq_ok_iff, if_neg hgenesis, asserts_eq_ok_iff] at h
  obtain ⟨-, -, -, -, -, -, -, -, -, hbest, hconnect⟩ := h
  simp only [connectTransactions, Except.bind_eq_ok_iff, valueOr_eq_ok_iff, hjust,
    Bool.false_eq_true, if_false, Except.pure_eq_ok_iff] at hconnect
  obtain ⟨pprev, hprev, nBits, -, -, -, -, -, st, hloop, -, -, -, -, -, -, -, -, -, -, rfl⟩ := hconnect
  rw [hprev, Option.elim_some] at hbest
  exact ⟨st, pprev, hloop, hprev, hbest.symm, rfl, rfl, rfl⟩

end

theorem disconnectBlock_undoing {World : Type} {env : Env} {contracts : Contracts World}
    {x : ConnectInput World} {out : ConnectOutput World} (h : connectBlock env contracts x = .ok out)
    (hgenesis : env.hashing.blockHash x.block.header ≠ env.params.hashGenesisBlock)
    (hjust : x.fJustCheck = false)
    (hfresh : ∀ tx ∈ x.block.vtx, ∀ n, x.view.coin ⟨env.hashing.txHash tx, n⟩ = none)
    (hspent : ∀ tx ∈ x.block.vtx, ∀ txin ∈ tx.vin, ∀ coin, x.view.coin txin.prevout = some coin →
      coin.nHeight ≠ 0 ∧ Script.isUnspendable coin.out.scriptPubKey = false)
    (hheight : x.pindex.nHeight < 2 ^ 30) (cached : List OutPoint) :
    ∃ pprev cached', x.pindex.pprev = some pprev ∧
      disconnectBlock env { x.undoing out with view := { out.view with cached := cached } } =
      .ok ⟨{ x.view with cached := cached' }, pprev.header.hashStateRoot, pprev.header.hashUTXORoot,
        true⟩ := by
  obtain ⟨hcheck, -⟩ := connectBlock_steps h hgenesis
  obtain ⟨st, pprev, hloop, hprev, hbest, -, hundo, hview⟩ := connectBlock_output h hgenesis hjust
  obtain ⟨coinbase, rest, hvtx, hcoinbase, hrest⟩ := checkBlock_coinbase env hcheck
  have hpos : x.pindex.nHeight ≠ 0 := by
    intro hzero
    rw [BlockIndex.nHeight, List.length_eq_zero_iff] at hzero
    rw [BlockIndex.pprev, hzero] at hprev
    cases hprev
  have hundoable : Undoable env x.view (coinbase :: rest) := by
    rw [hvtx] at hfresh hspent
    refine ⟨fun tx htx => ?_, hfresh, hspent⟩
    have hweight : (x.limits contracts).dgpMaxBlockWeight < 2 ^ 32 := Nat.mod_lt _ (by decide)
    exact length_vout_le hweight (checkTransaction_of_checkBlock hcheck (hvtx ▸ htx))
  rw [hvtx] at hloop
  obtain ⟨hcount, -, hreverts⟩ :=
    reverts_connectTx hheight hpos rfl rfl hcoinbase rest hrest hundoable hloop
  obtain ⟨w, hrun, hcoin, hclean⟩ :=
    hreverts ⟨{ out.view with cached := cached }, true⟩ ⟨by rw [hview], rfl⟩
  refine ⟨pprev, w.view.cached, hprev, ?_⟩
  have hrecords : (x.undoing out).block.vtx.zip (none :: (x.undoing out).vtxundo.map some) =
      undoRecords (coinbase :: rest) st.vtxundo := by
    change x.block.vtx.zip (none :: (out.vtxundo.drop 1).map some) = _
    rw [hvtx, hundo, undoRecords]
  have hlength : (x.undoing out).vtxundo.length + 1 = (x.undoing out).block.vtx.length := by
    change (out.vtxundo.drop 1).length + 1 = x.block.vtx.length
    rw [hundo, hvtx, List.length_drop, hcount, List.length_cons]
    rfl
  have hbest' : env.hashing.blockHash (x.undoing out).pindex.header = (x.undoing out).view.bestBlock := by
    change _ = out.view.bestBlock
    rw [hview]
    rfl
  have hprev' : (x.undoing out).pindex.pprev = some pprev := hprev
  simp only [disconnectBlock, Except.bind_eq_ok_iff, Except.require_eq_ok_iff, hprev', hrecords,
    Except.pure_eq_ok_iff]
  refine ⟨(), hbest', pprev, rfl, (), hlength, w, hrun, ?_⟩
  rw [hclean, ← hbest, hcoin]
  rfl

/-- Disconnecting undoes connecting: if `ConnectBlock` succeeds, where no coin has the id of a transaction of the block and the coins that the block spends have a height and can be spent, then `DisconnectBlock` is clean and gives back the coins, the best block and both state roots. -/
theorem disconnectBlock_connectBlock {World : Type} (env : Env) (contracts : Contracts World)
    (x : ConnectInput World) (out : ConnectOutput World) (h : connectBlock env contracts x = .ok out)
    (hgenesis : env.hashing.blockHash x.block.header ≠ env.params.hashGenesisBlock)
    (hjust : x.fJustCheck = false) (hroots : ∀ pprev ∈ x.pindex.pprev,
      pprev.header.hashStateRoot = contracts.rootHash x.world ∧
        pprev.header.hashUTXORoot = contracts.rootHashUTXO x.world)
    (hfresh : ∀ tx ∈ x.block.vtx, ∀ n, x.view.coin ⟨env.hashing.txHash tx, n⟩ = none)
    (hspent : ∀ tx ∈ x.block.vtx, ∀ txin ∈ tx.vin, ∀ coin, x.view.coin txin.prevout = some coin →
      coin.nHeight ≠ 0 ∧ Script.isUnspendable coin.out.scriptPubKey = false)
    (hheight : x.pindex.nHeight < 2 ^ 30) :
    ∃ result, disconnectBlock env (x.undoing out) = .ok result ∧ result.fClean = true ∧
      result.view.coin = x.view.coin ∧
      result.view.bestBlock = x.view.bestBlock ∧ result.hashStateRoot = contracts.rootHash x.world ∧
      result.hashUTXORoot = contracts.rootHashUTXO x.world := by
  obtain ⟨pprev, cached, hprev, hok⟩ :=
    disconnectBlock_undoing h hgenesis hjust hfresh hspent hheight out.view.cached
  obtain ⟨hstate, hutxo⟩ := hroots pprev hprev
  exact ⟨_, hok, rfl, rfl, rfl, hstate, hutxo⟩

/-! ### A block that spends one coin -/

namespace DisconnectSample

open Sample

def coins (script : Script) (first second : Nat) (o : OutPoint) : Option Coin :=
  if o = ⟨Uint256.ofNat 7, 0⟩ then some ⟨⟨COIN, script⟩, false, false, first⟩
  else if o = ⟨Uint256.ofNat 7, 1⟩ then some ⟨⟨COIN, opTrue⟩, false, false, second⟩ else none

def spending (script : Script) (first second : Nat) : ConnectInput Unit :=
  { connect [coinbase [⟨260000 * COIN, opTrue⟩], spend [⟨COIN, opTrue⟩]] with
    view := { view with coin := coins script first second }
    fScriptChecks := false }

theorem fresh_spending (script : Script) (first second : Nat) :
    ∀ tx ∈ (spending script first second).block.vtx, ∀ n,
      (spending script first second).view.coin ⟨network.hashing.txHash tx, n⟩ = none := by
  intro tx htx n
  have hne : network.hashing.txHash tx ≠ Uint256.ofNat 7 := by
    have hvtx : tx = coinbase [⟨260000 * COIN, opTrue⟩] ∨ tx = spend [⟨COIN, opTrue⟩] := by
      simpa [spending, connect] using htx
    rcases hvtx with rfl | rfl <;> decide
  change coins script first second ⟨network.hashing.txHash tx, n⟩ = none
  simp [coins, hne]

theorem roots_spending (script : Script) (first second : Nat) :
    ∀ pprev ∈ (spending script first second).pindex.pprev,
    pprev.header.hashStateRoot = noContracts.rootHash () ∧
      pprev.header.hashUTXORoot = noContracts.rootHashUTXO () := by
  rintro pprev ⟨⟩
  exact ⟨rfl, rfl⟩

end DisconnectSample

open Sample DisconnectSample in
theorem disconnectBlock_connectBlock_spending :
    ∃ out result, connectBlock network noContracts (spending opTrue 1 1) = .ok out ∧
      disconnectBlock network ((spending opTrue 1 1).undoing out) = .ok result ∧ result.fClean = true ∧
      result.view.coin = coins opTrue 1 1 := by
  obtain ⟨out, hout⟩ := Except.exists_of_isOk
    (show (connectBlock network noContracts (spending opTrue 1 1)).isOk = true by decide +kernel)
  obtain ⟨result, hresult, hclean, hcoin, -⟩ :=
    disconnectBlock_connectBlock network noContracts (spending opTrue 1 1) out hout
    (by decide) rfl (roots_spending _ _ _) (fresh_spending _ _ _)
    (by
      intro tx _ txin _ coin hcoin
      change coins opTrue 1 1 txin.prevout = some coin at hcoin
      rw [coins] at hcoin
      split at hcoin
      · cases hcoin
        decide
      · split at hcoin
        · cases hcoin
          decide
        · cases hcoin)
    (by decide)
  exact ⟨out, result, hout, hresult, hclean, hcoin⟩

open Sample DisconnectSample in
/-- A coin whose script cannot be spent is not put back; a coin with height zero gets the height of another output of its transaction. Both times the result is `DISCONNECT_OK`. -/
theorem disconnectBlock_not_exact :
    (∀ tx ∈ (spending [OP_RETURN] 1 1).block.vtx, ∀ n,
      coins [OP_RETURN] 1 1 ⟨network.hashing.txHash tx, n⟩ = none) ∧
      ((connectBlock network noContracts (spending [OP_RETURN] 1 1)).toOption.bind fun out =>
        (disconnectBlock network ((spending [OP_RETURN] 1 1).undoing out)).toOption.map fun result =>
          (result.fClean, result.view.coin ⟨Uint256.ofNat 7, 0⟩)) = some (true, none) ∧
      (∀ tx ∈ (spending opTrue 0 1).block.vtx, ∀ n,
        coins opTrue 0 1 ⟨network.hashing.txHash tx, n⟩ = none) ∧
      ((connectBlock network noContracts (spending opTrue 0 1)).toOption.bind fun out =>
        (disconnectBlock network ((spending opTrue 0 1).undoing out)).toOption.map fun result =>
          (result.fClean, (result.view.coin ⟨Uint256.ofNat 7, 0⟩).map Coin.nHeight)) = some
          (true, some 1) :=
  ⟨fresh_spending _ _ _, by decide +kernel, fresh_spending _ _ _, by decide +kernel⟩

end TscPow
